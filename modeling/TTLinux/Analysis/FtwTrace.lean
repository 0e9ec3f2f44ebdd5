import TTLinux.Analysis.FtwStreams
import TTLinux.Lib.Traced

/-!
# What happens in a walk

`traceWalker` is `walker` with a list of what happens on the way: the callbacks with what they return, files
that have vanished, and the failures that lead to `goto error`. It has a list also for a walk that does not
end. `Runs` says the same in rules, one for each way through `walker` and through its loop, for
inductions over a walk.
-/

set_option autoImplicit false

namespace TTLinux.Analysis.FtwTrace

open TTLinux.Lib
open TTLinux.Model.Ftw
open TTLinux.Analysis.FtwStreams (activation walker_succ addNode_state)
open TTLinux.Analysis.FtwVisited (FreshCells Standing addNode_standing)
open TTLinux.Analysis.FtwWalk (calls calls_append)

variable {W D : Type}

/-! ## What happens -/

/-- A failure: of `add_node`, on the way into a directory, when its stream is opened again, and on the way back
out of it.
SOURCE: dietlibc-ftw.patch:144, 189-194, 237, 247-251 -/
inductive Fault where
  | node
  | down
  | reopen
  | back
  deriving DecidableEq

/-- A callback with what it returns, the world in which it is made and the number of directories above the file;
a directory that is entered, with the number of those above it; a file that has vanished; a failure; and the way
back to the working directory at the call of `nftw` that fails. -/
inductive Item (W : Type) where
  | call (depth : ℕ) (c : Call) (r : ℤ) (w : W)
  | into (depth : ℕ)
  | gone
  | fault (f : Fault)
  | lost
  deriving DecidableEq

/-- The callbacks. -/
def callsOf (items : List (Item W)) : List Call :=
  items.filterMap fun
    | .call _ c _ _ => some c
    | _ => none

/-- INTERNAL: the callbacks of two parts. -/
theorem callsOf_append (a b : List (Item W)) : callsOf (a ++ b) = callsOf a ++ callsOf b := List.filterMap_append

/-- How a call of `walker` begins: the file has vanished, it is a directory that was visited before or cannot be
added to the list, or it is there. -/
inductive Arrival (D : Type) where
  | gone
  | visited
  | failed
  | present (type : FtwType) (st : Stat) (dh : Option D)

/-- The path that system calls get.
SOURCE: dietlibc-ftw.patch:111-114 -/
def hereOf (conf : Conf) (dir : Bytes) (s : State W) : Bytes := if conf.flags.chdir then dir.drop s.base else dir

/-- The beginning of `walker`.
SOURCE: dietlibc-ftw.patch:116-154 -/
def arrive (sys : System W D) (conf : Conf) (dir : Bytes) (s : State W) : Option (Arrival D × State W) :=
  match classify sys conf.flags (hereOf conf dir s) s.world with
  | (none, w) => some (.gone, { s with world := w })
  | (some (type, st), w) =>
    if type = .D then
      match prepare sys conf.flags (hereOf conf dir s) st { s with world := w } with
      | none => none
      | some (.visited, s) => some (.visited, s)
      | some (.failed, s) => some (.failed, s)
      | some (.ready dh, s) => some (.present (if dh.isSome then .D else .DNR) st dh, s)
    else some (.present type st none, { s with world := w })

/-- The callback before the entries.
SOURCE: dietlibc-ftw.patch:168-169 -/
def before (fn : Callback W) (flags : Flags) (depth : ℕ) (dir : Bytes) (st : Stat) (type : FtwType) (s : State W) :
    Traced (Item W) (ℤ × State W) :=
  if flags.depth then .give [] (0, s)
  else
    .give [.call depth ⟨dir, st, type, s.level, s.base⟩ (callback fn dir st type s).1 s.world]
      (callback fn dir st type s)

/-- The end of `walker` without an error.
SOURCE: dietlibc-ftw.patch:259-268 -/
def finish (sys : System W D) (fn : Callback W) (flags : Flags) (depth : ℕ) (dir : Bytes) (st : Stat)
    (type : FtwType) (dh : Option D) (retval : ℤ) (s : State W) : Traced (Item W) (ℤ × State W) :=
  if retval = 0 ∧ flags.depth then
    .give [.call depth ⟨dir, st, if type = .D then .DP else type, s.level, s.base⟩
        (callback fn dir st (if type = .D then .DP else type) s).1 s.world]
      (conclude sys fn flags dir st type dh retval s)
  else .give [] (conclude sys fn flags dir st type dh retval s)

/-- The state in front of the loop.
SOURCE: dietlibc-ftw.patch:205-207 -/
def entered (dir : Bytes) (st : Stat) (s : State W) : State W :=
  { s with level := s.level + 1, base := dir.length + 1 }.log (.entered st.node)

/-- The data of a directory during the call for an entry.
SOURCE: dietlibc-ftw.patch:222-226 -/
def duringCall (nopenfd : ℤ) (data : Data) : Data := if nopenfd ≤ 1 then { data with fd := 0 } else data

/-- The stream of a directory during the call for an entry. -/
def heldStream (nopenfd : ℤ) (dh : D) : Option D := if nopenfd ≤ 1 then none else some dh

/-- The state in front of the call for an entry. -/
def beforeCall (sys : System W D) (nopenfd : ℤ) (dh : D) (s : State W) : State W :=
  if nopenfd ≤ 1 then closeStream sys dh s else s

/-- The loop of a directory.
SOURCE: dietlibc-ftw.patch:212-239 -/
def traceLoop (sys : System W D) (flags : Flags) (here : Bytes) (n : ℕ) (nopenfd : ℤ) (last : List Data)
    (walk : Bytes → ℤ → List Data → State W → Traced (Item W) (ℤ × State W)) :
    ℕ → D → Data → Bytes → State W → Traced (Item W) (LoopEnd D × State W)
  | 0, _, _, _, _ => .stuck
  | fuel + 1, dh, data, path, s =>
    match sys.readdir dh s.world with
    | (none, dh, w) => .give [] (.done (some dh) 0, { s with world := w })
    | (some de, dh, w) =>
      let s := { s with world := w }
      if isDots de.dName then traceLoop sys flags here n nopenfd last walk fuel dh data path s
      else
        let path := strncpy path n de.dName
        let data := duringCall nopenfd data
        (walk (cstr path) (nopenfd - 1) (data :: last) (beforeCall sys nopenfd dh s)).bind fun p =>
          if p.1 ≠ 0 then .give [] (.done (heldStream nopenfd dh) p.1, p.2)
          else if data.fd = 0 then
            match openStream sys (if flags.chdir then [46] else here) p.2 with
            | (some dh, s) =>
              traceLoop sys flags here n nopenfd last walk fuel
                (sys.seekdir dh (if nopenfd ≤ 1 then de.dOff else 0)) { data with fd := sys.fd dh } path s
            | (none, s) => .give [.fault .reopen] (.error, s)
          else traceLoop sys flags here n nopenfd last walk fuel dh data path p.2

/-- The end of a directory, behind its loop.
SOURCE: dietlibc-ftw.patch:244-268 -/
def leaveDir (sys : System W D) (fn : Callback W) (flags : Flags) (dir : Bytes) (st : Stat) (type : FtwType)
    (last : List Data) (base : ℕ) (e : LoopEnd D × State W) : Traced (Item W) (ℤ × State W) :=
  match e with
  | (.error, s) => .give [] (0, s)
  | (.done dh retval, s) =>
    match goBack sys flags last s with
    | (false, s) => .give [.fault .back] (retval, cleanup sys dh s)
    | (true, s) =>
      finish sys fn flags last.length dir st type dh retval { s with base := base, level := s.level - 1 }

/-- `walker` from the check for loops on.
SOURCE: dietlibc-ftw.patch:156-268 -/
def traceVisit (sys : System W D) (fn : Callback W) (conf : Conf) (dir here : Bytes) (type : FtwType) (st : Stat)
    (nopenfd : ℤ) (last : List Data) (walk : Bytes → ℤ → List Data → State W → Traced (Item W) (ℤ × State W))
    (fuel : ℕ) (dh : Option D) (s : State W) : Traced (Item W) (ℤ × State W) :=
  if isAncestor conf.flags st last then
    .give [] (0, cleanup sys dh (if type = .D ∨ type = .DNR then s.log (.refused st.node) else s))
  else
    (before fn conf.flags last.length dir st type s).bind fun p =>
      match dh with
      | none => finish sys fn conf.flags last.length dir st type none p.1 p.2
      | some d =>
        if p.1 ≠ 0 then finish sys fn conf.flags last.length dir st type (some d) p.1 p.2
        else if conf.flags.mount ∧ conf.basedev ≠ st.node.dev then .give [] (0, p.2)
        else
          match goDown sys conf.flags here last p.2 with
          | (none, s) => .give [.fault .down] (0, cleanup sys (some d) s)
          | (some len, s) =>
            .after [.into last.length]
              ((traceLoop sys conf.flags here (dir.length + 1) nopenfd last walk fuel d ⟨st.node, sys.fd d, len⟩
                (pathBuffer (sys.stack s.world) dir) (entered dir st s)).bind
                (leaveDir sys fn conf.flags dir st type last s.base))

/-- `walker`, with what happens.
SOURCE: dietlibc-ftw.patch:101-269 -/
def traceWalker (sys : System W D) (fn : Callback W) (conf : Conf) :
    ℕ → Bytes → ℤ → List Data → State W → Traced (Item W) (ℤ × State W)
  | 0, _, _, _, _ => .stuck
  | fuel + 1, dir, nopenfd, last, s =>
    match arrive sys conf dir s with
    | none => .stuck
    | some (.gone, s') => .give [.gone] (-1, s')
    | some (.visited, s') => .give [] (0, s')
    | some (.failed, s') => .give [.fault .node] (0, s')
    | some (.present type st dh, s') =>
      traceVisit sys fn conf dir (hereOf conf dir s) type st nopenfd last (traceWalker sys fn conf fuel) fuel dh s'

/-- The end of `nftw`.
SOURCE: dietlibc-ftw.patch:349-357 -/
def traceEnd (sys : System W D) (cwd : Option Bytes) (p : ℤ × State W) : Traced (Item W) (ℤ × State W) :=
  match cwd with
  | none => .lift (nftw.destroy p.1 p.2)
  | some cwd =>
    match sys.chdir cwd p.2.world with
    | (true, w) => .lift (nftw.destroy p.1 { p.2 with world := w })
    | (false, w) => .after [.lost] (.lift (nftw.destroy (-1) { p.2 with world := w }))

/-- `nftw`, with what happens.
SOURCE: dietlibc-ftw.patch:271-358 -/
def nftwTrace (sys : System W D) (fn : Callback W) (fuel : ℕ) (dir : Bytes) (nopenfd : ℤ) (flags : Flags)
    (w : W) : Traced (Item W) (ℤ × State W) :=
  let (buf, len) := trimSlashes (dir ++ [0]) dir.length
  let path := cstr buf
  let s : State W := ⟨w, 0, 0, .empty, [], []⟩
  match sys.stat dir w with
  | (.error _, w) => .give [] (-1, { s with world := w })
  | (.ok st, w) =>
    let conf : Conf := ⟨flags, if flags.mount then st.node.dev else 0⟩
    let slash := if len ≠ 0 then strrchr path else none
    let s := { s with world := w, base := startBase slash }
    if flags.chdir then
      match saveCwd sys path slash w with
      | (none, w) => .give [] (-1, { s with world := w })
      | (some (cwd, fullpath), w) =>
        let fullpath := fullpath ++ List.replicate (PATH_MAX - fullpath.length) 0
        (traceWalker sys fn conf fuel path nopenfd [] { s with world := w, fullpath := fullpath }).bind
          (traceEnd sys (some cwd))
    else (traceWalker sys fn conf fuel path nopenfd [] s).bind (traceEnd sys none)

/-! ## The same walk -/

/-- INTERNAL: the end of a call, without what happens. -/
theorem finish_result (sys : System W D) (fn : Callback W) (flags : Flags) (depth : ℕ) (dir : Bytes) (st : Stat)
    (type : FtwType) (dh : Option D) (retval : ℤ) (s : State W) :
    (finish sys fn flags depth dir st type dh retval s).result =
      some (conclude sys fn flags dir st type dh retval s) := by
  unfold finish
  split_ifs <;> rfl

/-- INTERNAL: the callback before the entries, without what happens. -/
theorem before_result (fn : Callback W) (flags : Flags) (depth : ℕ) (dir : Bytes) (st : Stat) (type : FtwType)
    (s : State W) :
    (before fn flags depth dir st type s).result = some (if flags.depth then (0, s) else callback fn dir st type s) := by
  unfold before
  split_ifs <;> rfl

/-- INTERNAL: the loop is the loop of the model, if the recursive calls are.
SOURCE: dietlibc-ftw.patch:212-239 -/
theorem traceLoop_result (sys : System W D) (flags : Flags) (here : Bytes) (n : ℕ) (nopenfd : ℤ) (last : List Data)
    (trace : Bytes → ℤ → List Data → State W → Traced (Item W) (ℤ × State W))
    (walk : Bytes → ℤ → List Data → State W → Option (ℤ × State W))
    (h : ∀ dir nopenfd last s, (trace dir nopenfd last s).result = walk dir nopenfd last s) (fuel : ℕ) (dh : D)
    (data : Data) (path : Bytes) (s : State W) :
    (traceLoop sys flags here n nopenfd last trace fuel dh data path s).result =
      readLoop sys flags here n nopenfd last walk fuel dh data path s := by
  induction fuel generalizing dh data path s with
  | zero => rfl
  | succ fuel ih =>
    rw [traceLoop, readLoop]
    rcases sys.readdir dh s.world with ⟨_ | de, dh₁, w⟩
    · rfl
    · dsimp only
      by_cases hdots : isDots de.dName = true
      · rw [if_pos hdots, if_pos hdots]
        exact ih _ _ _ _
      · rw [if_neg hdots, if_neg hdots, Traced.bind_result, h]
        simp only [decide_eq_true_eq]
        rw [← duringCall, ← beforeCall, ← heldStream]
        generalize duringCall nopenfd data = data₁
        rcases walk (cstr (strncpy path n de.dName)) (nopenfd - 1) (data₁ :: last) _ with _ | ⟨r, s₁⟩
        · rfl
        · dsimp only [Option.bind_some]
          by_cases hr : r = 0
          · rw [if_neg (not_not.mpr hr), if_neg (not_not.mpr hr)]
            by_cases hfd : data₁.fd = 0
            · rw [if_pos hfd, if_pos hfd]
              rcases openStream sys (if flags.chdir = true then [46] else here) s₁ with ⟨_ | dh₂, s₂⟩
              · rfl
              · exact ih _ _ _ _
            · rw [if_neg hfd, if_neg hfd]
              exact ih _ _ _ _
          · rw [if_pos hr, if_pos hr]
            rfl

/-- INTERNAL: the part from the check for loops on is that of the model.
SOURCE: dietlibc-ftw.patch:156-268 -/
theorem traceVisit_result (sys : System W D) (fn : Callback W) (conf : Conf) (dir here : Bytes) (type : FtwType)
    (st : Stat) (nopenfd : ℤ) (last : List Data)
    (trace : Bytes → ℤ → List Data → State W → Traced (Item W) (ℤ × State W))
    (walk : Bytes → ℤ → List Data → State W → Option (ℤ × State W))
    (h : ∀ dir nopenfd last s, (trace dir nopenfd last s).result = walk dir nopenfd last s) (fuel : ℕ)
    (dh : Option D) (s : State W) :
    (traceVisit sys fn conf dir here type st nopenfd last trace fuel dh s).result =
      visit sys fn conf dir here type st nopenfd last walk fuel dh s := by
  unfold traceVisit visit
  by_cases hanc : isAncestor conf.flags st last = true
  · rw [if_pos hanc, if_pos hanc]
    rfl
  · rw [if_neg hanc, if_neg hanc, Traced.bind_result, before_result, Option.bind_some]
    generalize (if conf.flags.depth = true then (0, s) else callback fn dir st type s) = p
    cases dh with
    | none => exact finish_result ..
    | some d =>
      dsimp only
      by_cases hr : p.1 = 0
      · rw [if_neg (not_not.mpr hr), if_pos hr]
        unfold descend
        by_cases hmount : conf.flags.mount = true ∧ conf.basedev ≠ st.node.dev
        · rw [if_pos hmount, if_pos hmount]
          rfl
        · rw [if_neg hmount, if_neg hmount]
          rcases goDown sys conf.flags here last p.2 with ⟨_ | len, s₁⟩
          · rfl
          · dsimp only
            rw [Traced.after_result, Traced.bind_result,
              traceLoop_result sys conf.flags here _ nopenfd last trace walk h]
            unfold entered
            rcases readLoop sys conf.flags here (dir.length + 1) nopenfd last walk fuel d _ _ _ with
              _ | ⟨⟨dh', r⟩ | _, s₂⟩
            · rfl
            · dsimp only [Option.bind_some, leaveDir]
              rcases goBack sys conf.flags last s₂ with ⟨_ | _, s₃⟩
              · rfl
              · exact finish_result ..
            · rfl
      · rw [if_pos hr, if_neg hr]
        exact finish_result ..

/-- **The traced `walker` computes what `walker` does.** -/
theorem traceWalker_result (sys : System W D) (fn : Callback W) (conf : Conf) (fuel : ℕ) (dir : Bytes) (nopenfd : ℤ)
    (last : List Data) (s : State W) :
    (traceWalker sys fn conf fuel dir nopenfd last s).result = walker sys fn conf fuel dir nopenfd last s := by
  induction fuel generalizing dir nopenfd last s with
  | zero => rfl
  | succ fuel ih =>
    rw [walker_succ, traceWalker]
    unfold arrive activation hereOf
    dsimp only
    rcases classify sys conf.flags (if conf.flags.chdir = true then dir.drop s.base else dir) s.world with
      ⟨_ | ⟨type, st⟩, w⟩
    · rfl
    · by_cases htype : type = .D
      · subst htype
        dsimp only
        rw [if_pos rfl]
        rcases prepare sys conf.flags _ st { s with world := w } with _ | ⟨_ | _ | dh, s₁⟩
        · rfl
        · rfl
        · rfl
        · exact traceVisit_result sys fn conf dir _ _ st nopenfd last _ _ ih fuel dh s₁
      · have hvisit := traceVisit_result sys fn conf dir (if conf.flags.chdir = true then dir.drop s.base else dir) type
          st nopenfd last _ _ ih fuel none { s with world := w }
        dsimp only
        rw [if_neg htype]
        cases type <;> first | exact absurd rfl htype | exact hvisit

/-- **The traced `nftw` computes what `nftw` does.** -/
theorem nftwTrace_result (sys : System W D) (fn : Callback W) (fuel : ℕ) (dir : Bytes) (nopenfd : ℤ) (flags : Flags)
    (w : W) :
    (nftwTrace sys fn fuel dir nopenfd flags w).result = nftw sys fn fuel dir nopenfd flags w := by
  unfold nftwTrace nftw
  rcases trimSlashes (dir ++ [0]) dir.length with ⟨buf, len⟩
  dsimp only
  rcases sys.stat dir w with ⟨_ | st, w₁⟩
  · rfl
  dsimp only
  cases hchdir : flags.chdir with
  | true =>
    rw [if_pos rfl, if_pos rfl]
    rcases saveCwd sys (cstr buf) (if len ≠ 0 then strrchr (cstr buf) else none) w₁ with ⟨_ | ⟨cwd, fullpath⟩, w₂⟩
    · rfl
    · dsimp only
      rw [Traced.bind_result, traceWalker_result]
      apply Option.bind_congr
      rintro ⟨r, s⟩ -
      rcases hback : sys.chdir cwd s.world with ⟨_ | _, w₃⟩
      · simp only [traceEnd, hback]
        rfl
      · simp only [traceEnd, hback]
        rfl
  | false =>
    rw [if_neg Bool.false_ne_true, if_neg Bool.false_ne_true, Traced.bind_result, traceWalker_result]
    rfl

/-- INTERNAL: `nftw` returns -1 without a walk, or it is a walk and its end.
SOURCE: dietlibc-ftw.patch:271-358 -/
theorem nftwTrace_eq (sys : System W D) (dir : Bytes) (nopenfd : ℤ) (flags : Flags) (w : W) :
    (∃ s, ∀ fn fuel, nftwTrace sys fn fuel dir nopenfd flags w = .give [] (-1, s) ∧ s.events = []) ∨
      ∃ conf path s cwd, conf.flags = flags ∧ (0 : UInt8) ∉ path ∧ s.level = 0 ∧ s.ftwList = .empty ∧ s.events = [] ∧
        (cwd.isSome = flags.chdir) ∧
        ∀ fn fuel, nftwTrace sys fn fuel dir nopenfd flags w =
          (traceWalker sys fn conf fuel path nopenfd [] s).bind (traceEnd sys cwd) := by
  unfold nftwTrace
  rcases trimSlashes (dir ++ [0]) dir.length with ⟨buf, len⟩
  dsimp only
  rcases sys.stat dir w with ⟨_ | st, w₁⟩
  · exact Or.inl ⟨_, fun fn fuel => ⟨rfl, rfl⟩⟩
  cases hchdir : flags.chdir with
  | true =>
    simp only [if_true]
    rcases saveCwd sys (cstr buf) (if len ≠ 0 then strrchr (cstr buf) else none) w₁ with ⟨_ | ⟨cwd, fullpath⟩, w₂⟩
    · exact Or.inl ⟨_, fun fn fuel => ⟨rfl, rfl⟩⟩
    · exact Or.inr ⟨_, cstr buf, _, some cwd, rfl, zero_notMem_cstr buf, rfl, rfl, rfl, rfl, fun fn fuel => rfl⟩
  | false =>
    simp only [Bool.false_eq_true, if_false]
    exact Or.inr ⟨_, cstr buf, _, none, rfl, zero_notMem_cstr buf, rfl, rfl, rfl, rfl, fun fn fuel => rfl⟩

/-! ## Rules -/

/-- What is run: a call of `walker`, or its loop from a round on. -/
inductive Piece (D : Type) where
  | walk (dir : Bytes) (nopenfd : ℤ) (last : List Data)
  | loop (here : Bytes) (n : ℕ) (nopenfd : ℤ) (last : List Data) (dh : D) (data : Data) (path : Bytes)

/-- How it ends. -/
inductive Outcome (D : Type) where
  | returned (r : ℤ)
  | ended (e : LoopEnd D)

/-- A run of `walker` or of its loop: what happens, how it ends and in which state. There is a rule for each way
through the code.
SOURCE: dietlibc-ftw.patch:101-269 -/
inductive Runs (sys : System W D) (fn : Callback W) (conf : Conf) :
    Piece D → State W → List (Item W) → Outcome D → State W → Prop where
  | gone {dir nopenfd last s s'} (h : arrive sys conf dir s = some (.gone, s')) :
    Runs sys fn conf (.walk dir nopenfd last) s [.gone] (.returned (-1)) s'
  | visited {dir nopenfd last s s'} (h : arrive sys conf dir s = some (.visited, s')) :
    Runs sys fn conf (.walk dir nopenfd last) s [] (.returned 0) s'
  | failed {dir nopenfd last s s'} (h : arrive sys conf dir s = some (.failed, s')) :
    Runs sys fn conf (.walk dir nopenfd last) s [.fault .node] (.returned 0) s'
  | refused {dir nopenfd last s type st dh s'} (h : arrive sys conf dir s = some (.present type st dh, s'))
    (hanc : isAncestor conf.flags st last = true) :
    Runs sys fn conf (.walk dir nopenfd last) s [] (.returned 0)
      (cleanup sys dh (if type = .D ∨ type = .DNR then s'.log (.refused st.node) else s'))
  | leaf {dir nopenfd last s type st s' pre r s₁ post r' s₂}
    (h : arrive sys conf dir s = some (.present type st none, s'))
    (hanc : isAncestor conf.flags st last = false)
    (hbefore : before fn conf.flags last.length dir st type s' = .give pre (r, s₁))
    (hfinish : finish sys fn conf.flags last.length dir st type none r s₁ = .give post (r', s₂)) :
    Runs sys fn conf (.walk dir nopenfd last) s (pre ++ post) (.returned r') s₂
  | stopped {dir nopenfd last s type st d s' pre r s₁ post r' s₂}
    (h : arrive sys conf dir s = some (.present type st (some d), s'))
    (hanc : isAncestor conf.flags st last = false)
    (hbefore : before fn conf.flags last.length dir st type s' = .give pre (r, s₁)) (hr : r ≠ 0)
    (hfinish : finish sys fn conf.flags last.length dir st type (some d) r s₁ = .give post (r', s₂)) :
    Runs sys fn conf (.walk dir nopenfd last) s (pre ++ post) (.returned r') s₂
  | mount {dir nopenfd last s type st d s' pre s₁}
    (h : arrive sys conf dir s = some (.present type st (some d), s'))
    (hanc : isAncestor conf.flags st last = false)
    (hbefore : before fn conf.flags last.length dir st type s' = .give pre (0, s₁))
    (hmount : conf.flags.mount = true ∧ conf.basedev ≠ st.node.dev) :
    Runs sys fn conf (.walk dir nopenfd last) s pre (.returned 0) s₁
  | downFails {dir nopenfd last s type st d s' pre s₁ s₂}
    (h : arrive sys conf dir s = some (.present type st (some d), s'))
    (hanc : isAncestor conf.flags st last = false)
    (hbefore : before fn conf.flags last.length dir st type s' = .give pre (0, s₁))
    (hmount : ¬(conf.flags.mount = true ∧ conf.basedev ≠ st.node.dev))
    (hdown : goDown sys conf.flags (hereOf conf dir s) last s₁ = (none, s₂)) :
    Runs sys fn conf (.walk dir nopenfd last) s (pre ++ [.fault .down]) (.returned 0) (cleanup sys (some d) s₂)
  | directory {dir nopenfd last s type st d s' pre s₁ len s₂ items e s₃ post r s₄}
    (h : arrive sys conf dir s = some (.present type st (some d), s'))
    (hanc : isAncestor conf.flags st last = false)
    (hbefore : before fn conf.flags last.length dir st type s' = .give pre (0, s₁))
    (hmount : ¬(conf.flags.mount = true ∧ conf.basedev ≠ st.node.dev))
    (hdown : goDown sys conf.flags (hereOf conf dir s) last s₁ = (some len, s₂))
    (hloop : Runs sys fn conf (.loop (hereOf conf dir s) (dir.length + 1) nopenfd last d ⟨st.node, sys.fd d, len⟩
      (pathBuffer (sys.stack s₂.world) dir)) (entered dir st s₂) items (.ended e) s₃)
    (hleave : leaveDir sys fn conf.flags dir st type last s₂.base (e, s₃) = .give post (r, s₄)) :
    Runs sys fn conf (.walk dir nopenfd last) s (pre ++ ([.into last.length] ++ (items ++ post))) (.returned r) s₄
  | atEnd {here n nopenfd last dh data path s dh' w} (hread : sys.readdir dh s.world = (none, dh', w)) :
    Runs sys fn conf (.loop here n nopenfd last dh data path) s [] (.ended (.done (some dh') 0)) { s with world := w }
  | dots {here n nopenfd last dh data path s de dh' w items out s'}
    (hread : sys.readdir dh s.world = (some de, dh', w)) (hdots : isDots de.dName = true)
    (hrest : Runs sys fn conf (.loop here n nopenfd last dh' data path) { s with world := w } items out s') :
    Runs sys fn conf (.loop here n nopenfd last dh data path) s items out s'
  | entryStops {here n nopenfd last dh data path s de dh' w items r s'}
    (hread : sys.readdir dh s.world = (some de, dh', w)) (hdots : isDots de.dName = false)
    (hcall : Runs sys fn conf (.walk (cstr (strncpy path n de.dName)) (nopenfd - 1) (duringCall nopenfd data :: last))
      (beforeCall sys nopenfd dh' { s with world := w }) items (.returned r) s') (hr : r ≠ 0) :
    Runs sys fn conf (.loop here n nopenfd last dh data path) s items (.ended (.done (heldStream nopenfd dh') r)) s'
  | next {here n nopenfd last dh data path s de dh' w items s₁ rest out s₂}
    (hread : sys.readdir dh s.world = (some de, dh', w)) (hdots : isDots de.dName = false)
    (hcall : Runs sys fn conf (.walk (cstr (strncpy path n de.dName)) (nopenfd - 1) (duringCall nopenfd data :: last))
      (beforeCall sys nopenfd dh' { s with world := w }) items (.returned 0) s₁)
    (hfd : (duringCall nopenfd data).fd ≠ 0)
    (hrest : Runs sys fn conf (.loop here n nopenfd last dh' (duringCall nopenfd data) (strncpy path n de.dName)) s₁
      rest out s₂) :
    Runs sys fn conf (.loop here n nopenfd last dh data path) s (items ++ rest) out s₂
  | reopened {here n nopenfd last dh data path s de dh' w items s₁ dh₂ s₂ rest out s₃}
    (hread : sys.readdir dh s.world = (some de, dh', w)) (hdots : isDots de.dName = false)
    (hcall : Runs sys fn conf (.walk (cstr (strncpy path n de.dName)) (nopenfd - 1) (duringCall nopenfd data :: last))
      (beforeCall sys nopenfd dh' { s with world := w }) items (.returned 0) s₁)
    (hfd : (duringCall nopenfd data).fd = 0)
    (hopen : openStream sys (if conf.flags.chdir then [46] else here) s₁ = (some dh₂, s₂))
    (hrest : Runs sys fn conf (.loop here n nopenfd last
      (sys.seekdir dh₂ (if nopenfd ≤ 1 then de.dOff else 0))
      { duringCall nopenfd data with fd := sys.fd dh₂ } (strncpy path n de.dName)) s₂ rest out s₃) :
    Runs sys fn conf (.loop here n nopenfd last dh data path) s (items ++ rest) out s₃
  | reopenFails {here n nopenfd last dh data path s de dh' w items s₁ s₂}
    (hread : sys.readdir dh s.world = (some de, dh', w)) (hdots : isDots de.dName = false)
    (hcall : Runs sys fn conf (.walk (cstr (strncpy path n de.dName)) (nopenfd - 1) (duringCall nopenfd data :: last))
      (beforeCall sys nopenfd dh' { s with world := w }) items (.returned 0) s₁)
    (hfd : (duringCall nopenfd data).fd = 0)
    (hopen : openStream sys (if conf.flags.chdir then [46] else here) s₁ = (none, s₂)) :
    Runs sys fn conf (.loop here n nopenfd last dh data path) s (items ++ [.fault .reopen]) (.ended .error) s₂

/-- INTERNAL: a trace of the loop is a run, if the traces of the calls are.
SOURCE: dietlibc-ftw.patch:212-239 -/
theorem traceLoop_runs (sys : System W D) (fn : Callback W) (conf : Conf) (here : Bytes) (n : ℕ) (nopenfd : ℤ)
    (last : List Data) (walk : Bytes → ℤ → List Data → State W → Traced (Item W) (ℤ × State W))
    (hwalk : ∀ dir nopenfd last s items r s', walk dir nopenfd last s = .give items (r, s') →
      Runs sys fn conf (.walk dir nopenfd last) s items (.returned r) s')
    (fuel : ℕ) (dh : D) (data : Data) (path : Bytes) (s : State W) (items : List (Item W)) (e : LoopEnd D) (s' : State W)
    (h : traceLoop sys conf.flags here n nopenfd last walk fuel dh data path s = .give items (e, s')) :
    Runs sys fn conf (.loop here n nopenfd last dh data path) s items (.ended e) s' := by
  induction fuel generalizing dh data path s items with
  | zero => cases h
  | succ fuel ih =>
    rw [traceLoop] at h
    rcases hread : sys.readdir dh s.world with ⟨_ | de, dh₁, w⟩
    · rw [hread] at h
      cases h
      exact .atEnd hread
    · rw [hread] at h
      dsimp only at h
      cases hdots : isDots de.dName with
      | true =>
        rw [hdots, if_pos rfl] at h
        exact .dots hread hdots (ih _ _ _ _ _ h)
      | false =>
        rw [hdots, if_neg Bool.false_ne_true] at h
        obtain ⟨called, ⟨r, s₁⟩, rest, hcall, hrest, rfl⟩ := Traced.bind_eq_give h
        have hruns := hwalk _ _ _ _ _ _ _ hcall
        dsimp only at hrest
        by_cases hr : r = 0
        · subst hr
          rw [if_neg (not_not.mpr rfl)] at hrest
          by_cases hfd : (duringCall nopenfd data).fd = 0
          · rw [if_pos hfd] at hrest
            rcases hopen : openStream sys (if conf.flags.chdir = true then [46] else here) s₁ with ⟨_ | dh₂, s₂⟩
            · rw [hopen] at hrest
              cases hrest
              exact .reopenFails hread hdots hruns hfd hopen
            · rw [hopen] at hrest
              exact .reopened hread hdots hruns hfd hopen (ih _ _ _ _ _ hrest)
          · rw [if_neg hfd] at hrest
            exact .next hread hdots hruns hfd (ih _ _ _ _ _ hrest)
        · rw [if_pos hr] at hrest
          cases hrest
          rw [List.append_nil]
          exact .entryStops hread hdots hruns hr

/-- INTERNAL: **a trace is a run.**
SOURCE: dietlibc-ftw.patch:101-269 -/
theorem traceWalker_runs (sys : System W D) (fn : Callback W) (conf : Conf) (fuel : ℕ) (dir : Bytes) (nopenfd : ℤ)
    (last : List Data) (s : State W) (items : List (Item W)) (r : ℤ) (s' : State W)
    (h : traceWalker sys fn conf fuel dir nopenfd last s = .give items (r, s')) :
    Runs sys fn conf (.walk dir nopenfd last) s items (.returned r) s' := by
  induction fuel generalizing dir nopenfd last s items r s' with
  | zero => cases h
  | succ fuel ih =>
    rw [traceWalker] at h
    rcases harrive : arrive sys conf dir s with _ | ⟨_ | _ | _ | ⟨type, st, dh⟩, s₀⟩
    · rw [harrive] at h
      cases h
    · rw [harrive] at h
      cases h
      exact .gone harrive
    · rw [harrive] at h
      cases h
      exact .visited harrive
    · rw [harrive] at h
      cases h
      exact .failed harrive
    rw [harrive] at h
    dsimp only at h
    unfold traceVisit at h
    cases hanc : isAncestor conf.flags st last with
    | true =>
      rw [hanc, if_pos rfl] at h
      cases h
      exact .refused harrive hanc
    | false =>
      rw [hanc, if_neg Bool.false_ne_true] at h
      obtain ⟨pre, ⟨r₁, s₁⟩, rest, hbefore, hrest, rfl⟩ := Traced.bind_eq_give h
      dsimp only at hrest
      cases dh with
      | none => exact .leaf harrive hanc hbefore hrest
      | some d =>
        dsimp only at hrest
        by_cases hr : r₁ = 0
        · subst hr
          rw [if_neg (not_not.mpr rfl)] at hrest
          by_cases hmount : conf.flags.mount = true ∧ conf.basedev ≠ st.node.dev
          · rw [if_pos hmount] at hrest
            cases hrest
            rw [List.append_nil]
            exact .mount harrive hanc hbefore hmount
          · rw [if_neg hmount] at hrest
            rcases hdown : goDown sys conf.flags (hereOf conf dir s) last s₁ with ⟨_ | len, s₂⟩
            · rw [hdown] at hrest
              cases hrest
              exact .downFails harrive hanc hbefore hmount hdown
            · rw [hdown] at hrest
              obtain ⟨inside, hinside, rfl⟩ := Traced.after_eq_give hrest
              obtain ⟨looped, ⟨e, s₃⟩, post, hloop, hleave, rfl⟩ := Traced.bind_eq_give hinside
              exact .directory harrive hanc hbefore hmount hdown
                (traceLoop_runs sys fn conf _ _ nopenfd last _ ih fuel d _ _ _ _ _ _ hloop) hleave
        · rw [if_pos hr] at hrest
          exact .stopped harrive hanc hbefore hr hrest

/-- INTERNAL: a walk that returns is a run.
SOURCE: dietlibc-ftw.patch:101-269 -/
theorem runs_of_result (sys : System W D) (fn : Callback W) (conf : Conf) (fuel : ℕ) (dir : Bytes) (nopenfd : ℤ)
    (last : List Data) (s : State W) (r : ℤ) (s' : State W)
    (h : (traceWalker sys fn conf fuel dir nopenfd last s).result = some (r, s')) :
    Runs sys fn conf (.walk dir nopenfd last) s (traceWalker sys fn conf fuel dir nopenfd last s).items (.returned r)
      s' := by
  apply traceWalker_runs sys fn conf fuel
  rw [Traced.give, ← h]

/-! ## What stays as it is -/

/-- No callback is made, the level and the base stay, and the list of visited directories stays a tree. -/
structure Keeps (sys : System W D) (s s' : State W) : Prop where
  level : s'.level = s.level
  base : s'.base = s.base
  calls : calls s'.events = calls s.events
  list : FreshCells sys → Standing s.ftwList → Standing s'.ftwList

/-- INTERNAL: a step that does nothing. -/
theorem Keeps.refl (sys : System W D) (s : State W) : Keeps sys s s := ⟨rfl, rfl, rfl, fun _ h => h⟩

/-- INTERNAL: two steps that keep the fields. -/
theorem Keeps.trans {sys : System W D} {s s₁ s₂ : State W} (h : Keeps sys s s₁) (h' : Keeps sys s₁ s₂) :
    Keeps sys s s₂ where
  level := h'.level.trans h.level
  base := h'.base.trans h.base
  calls := h'.calls.trans h.calls
  list := fun hcells hs => h'.list hcells (h.list hcells hs)

/-- INTERNAL: a system call changes the world only. -/
theorem keeps_world (sys : System W D) (s : State W) (w : W) : Keeps sys s { s with world := w } :=
  ⟨rfl, rfl, rfl, fun _ h => h⟩

/-- INTERNAL: so does an event other than a callback. -/
theorem keeps_log (sys : System W D) (s : State W) (e : Event) (h : calls [e] = []) : Keeps sys s (s.log e) where
  level := rfl
  base := rfl
  calls := by
    rw [State.log, calls_append, h, List.append_nil]
  list := fun _ h => h

/-- INTERNAL: `opendir` keeps the fields. -/
theorem keeps_openStream {sys : System W D} {path : Bytes} {s s' : State W} {dh : Option D}
    (h : openStream sys path s = (dh, s')) : Keeps sys s s' := by
  unfold openStream at h
  rcases hopen : sys.opendir path s.world with ⟨_ | dh, w⟩
  · rw [hopen] at h
    cases h
    exact keeps_world sys s w
  · rw [hopen] at h
    cases h
    exact (keeps_world sys s w).trans (keeps_log sys _ _ rfl)

/-- INTERNAL: `closedir` keeps them. -/
theorem keeps_closeStream (sys : System W D) (dh : D) (s : State W) : Keeps sys s (closeStream sys dh s) :=
  (keeps_world sys s _).trans (keeps_log sys _ _ rfl)

/-- INTERNAL: `cleanup` keeps them. -/
theorem keeps_cleanup (sys : System W D) (dh : Option D) (s : State W) : Keeps sys s (cleanup sys dh s) := by
  cases dh with
  | none => exact Keeps.refl sys s
  | some dh => exact keeps_closeStream sys dh s

/-- INTERNAL: what is done in front of the call for an entry keeps them. -/
theorem keeps_beforeCall (sys : System W D) (nopenfd : ℤ) (dh : D) (s : State W) :
    Keeps sys s (beforeCall sys nopenfd dh s) := by
  unfold beforeCall
  split_ifs
  · exact keeps_closeStream sys dh s
  · exact Keeps.refl sys s

/-- INTERNAL: the way into a directory keeps them. -/
theorem keeps_goDown {sys : System W D} {flags : Flags} {here : Bytes} {last : List Data} {s s' : State W}
    {len : Option ℕ} (h : goDown sys flags here last s = (len, s')) : Keeps sys s s' := by
  have hstate : s' = (goDown sys flags here last s).2 := by rw [h]
  rw [hstate]
  unfold goDown
  split_ifs
  · rcases sys.chdir here s.world with ⟨_ | _, w⟩
    · exact ⟨rfl, rfl, rfl, fun _ h => h⟩
    · dsimp only
      split_ifs
      · exact ⟨rfl, rfl, rfl, fun _ h => h⟩
      · exact ⟨rfl, rfl, rfl, fun _ h => h⟩
  · exact Keeps.refl sys s

/-- INTERNAL: the way back keeps them. -/
theorem keeps_goBack {sys : System W D} {flags : Flags} {last : List Data} {s s' : State W} {ok : Bool}
    (h : goBack sys flags last s = (ok, s')) : Keeps sys s s' := by
  have hstate : s' = (goBack sys flags last s).2 := by rw [h]
  rw [hstate]
  unfold goBack
  split
  · exact ⟨rfl, rfl, rfl, fun _ h => h⟩
  · exact Keeps.refl sys s

/-- INTERNAL: preparing a file keeps them. -/
theorem keeps_prepare (sys : System W D) (flags : Flags) (here : Bytes) (st : Stat) (s s' : State W)
    (p : Prepared D) (h : prepare sys flags here st s = some (p, s')) : Keeps sys s s' := by
  unfold prepare at h
  split_ifs at h with hphys
  · cases h
    exact keeps_openStream rfl
  · obtain ⟨found, -, h⟩ := Option.bind_eq_some_iff.mp h
    split_ifs at h with hfound
    · cases h
      exact Keeps.refl sys s
    · obtain ⟨⟨added, s₁⟩, hadd, h⟩ := Option.bind_eq_some_iff.mp h
      have hlist := fun hcells hs => addNode_standing sys hcells st s hs added s₁ hadd
      obtain ⟨w, m, rfl⟩ := addNode_state sys st s s₁ added hadd
      have hkeeps : Keeps sys s { s with world := w, ftwList := m } := ⟨rfl, rfl, rfl, hlist⟩
      dsimp only at h
      split_ifs at h with hadded
      · cases h
        exact hkeeps.trans (keeps_openStream rfl)
      · cases h
        exact hkeeps

/-- INTERNAL: the beginning of `walker`.
SOURCE: dietlibc-ftw.patch:116-154 -/
theorem keeps_arrive (sys : System W D) (conf : Conf) (dir : Bytes) (s s' : State W) (a : Arrival D)
    (h : arrive sys conf dir s = some (a, s')) : Keeps sys s s' := by
  unfold arrive at h
  rcases hclass : classify sys conf.flags (hereOf conf dir s) s.world with ⟨_ | ⟨type, st⟩, w⟩
  · rw [hclass] at h
    cases h
    exact keeps_world sys s w
  · rw [hclass] at h
    dsimp only at h
    split_ifs at h with htype
    · rcases hprep : prepare sys conf.flags (hereOf conf dir s) st { s with world := w } with _ | ⟨p, s₁⟩
      · rw [hprep] at h
        cases h
      · have hkeeps := (keeps_world sys s w).trans (keeps_prepare sys conf.flags _ st _ s₁ p hprep)
        rw [hprep] at h
        cases p <;> cases h <;> exact hkeeps
    · cases h
      exact keeps_world sys s w

/-- INTERNAL: the callback before the entries, if there is one.
SOURCE: dietlibc-ftw.patch:168-169 -/
theorem before_cases {fn : Callback W} {flags : Flags} {depth : ℕ} {dir : Bytes} {st : Stat} {type : FtwType}
    {s : State W} {pre : List (Item W)} {r : ℤ} {s₁ : State W}
    (h : before fn flags depth dir st type s = .give pre (r, s₁)) :
    flags.depth = true ∧ pre = [] ∧ r = 0 ∧ s₁ = s ∨
      flags.depth = false ∧ pre = [.call depth ⟨dir, st, type, s.level, s.base⟩ r s.world] ∧
        callback fn dir st type s = (r, s₁) := by
  unfold before at h
  split_ifs at h with hdepth
  · cases h
    exact Or.inl ⟨hdepth, rfl, rfl, rfl⟩
  · have hitems := congrArg Traced.items h
    have hresult := Option.some.inj (congrArg Traced.result h)
    rw [Traced.give_items, Traced.give_items] at hitems
    rw [Bool.not_eq_true] at hdepth
    refine Or.inr ⟨hdepth, ?_, hresult⟩
    rw [← hitems, hresult]

/-- INTERNAL: the callback behind the entries, if there is one.
SOURCE: dietlibc-ftw.patch:259-268 -/
theorem finish_cases {sys : System W D} {fn : Callback W} {flags : Flags} {depth : ℕ} {dir : Bytes} {st : Stat}
    {type : FtwType} {dh : Option D} {retval : ℤ} {s : State W} {post : List (Item W)} {r : ℤ} {s₁ : State W}
    (h : finish sys fn flags depth dir st type dh retval s = .give post (r, s₁)) :
    post = [] ∧ r = retval ∧ s₁ = cleanup sys dh s ∨
      retval = 0 ∧ ∃ type' s₂, post = [.call depth ⟨dir, st, type', s.level, s.base⟩ r s.world] ∧
        callback fn dir st type' s = (r, s₂) ∧ s₁ = cleanup sys dh s₂ := by
  unfold finish conclude at h
  by_cases hcond : retval = 0 ∧ flags.depth = true
  · right
    rw [if_pos hcond, if_pos hcond] at h
    have hitems := congrArg Traced.items h
    have hresult := Option.some.inj (congrArg Traced.result h)
    rw [Traced.give_items, Traced.give_items] at hitems
    obtain ⟨rfl, rfl⟩ := Prod.mk.inj hresult
    exact ⟨hcond.1, _, _, hitems.symm, rfl, rfl⟩
  · rw [if_neg hcond, if_neg hcond] at h
    cases h
    exact Or.inl ⟨rfl, rfl, rfl⟩

/-- INTERNAL: the end of a directory: `goto error` in its loop, the way back fails, or neither.
SOURCE: dietlibc-ftw.patch:244-268 -/
theorem leaveDir_cases {sys : System W D} {fn : Callback W} {flags : Flags} {dir : Bytes} {st : Stat}
    {type : FtwType} {last : List Data} {base : ℕ} {e : LoopEnd D} {s : State W} {post : List (Item W)} {r : ℤ}
    {s₁ : State W} (h : leaveDir sys fn flags dir st type last base (e, s) = .give post (r, s₁)) :
    e = .error ∧ post = [] ∧ r = 0 ∧ s₁ = s ∨
      (∃ dh s₂, e = .done dh r ∧ goBack sys flags last s = (false, s₂) ∧ post = [.fault .back] ∧
        s₁ = cleanup sys dh s₂) ∨
      ∃ dh retval s₂, e = .done dh retval ∧ goBack sys flags last s = (true, s₂) ∧
        finish sys fn flags last.length dir st type dh retval { s₂ with base := base, level := s₂.level - 1 } =
          .give post (r, s₁) := by
  cases e with
  | error =>
    cases h
    exact Or.inl ⟨rfl, rfl, rfl, rfl⟩
  | done dh retval =>
    right
    unfold leaveDir at h
    dsimp only at h
    rcases hback : goBack sys flags last s with ⟨_ | _, s₂⟩
    · rw [hback] at h
      cases h
      exact Or.inl ⟨dh, s₂, rfl, rfl, rfl, rfl⟩
    · rw [hback] at h
      exact Or.inr ⟨dh, retval, s₂, rfl, rfl, h⟩

/-- INTERNAL: a callback changes the world and the log only. -/
theorem callback_state {fn : Callback W} {dir : Bytes} {st : Stat} {type : FtwType} {s s₁ : State W} {r : ℤ}
    (h : callback fn dir st type s = (r, s₁)) :
    s₁ = { s with world := s₁.world, events := s.events ++ [.call ⟨dir, st, type, s.level, s.base⟩] } := by
  unfold callback at h
  obtain ⟨-, rfl⟩ := Prod.mk.inj h
  rfl

/-- The callbacks of a run are logged, and the list of visited directories stays a tree. -/
structure Effect (sys : System W D) (items : List (Item W)) (s s' : State W) : Prop where
  calls : calls s'.events = calls s.events ++ callsOf items
  list : FreshCells sys → Standing s.ftwList → Standing s'.ftwList

/-- INTERNAL: the effects of two parts. -/
theorem Effect.trans {sys : System W D} {a b : List (Item W)} {s s₁ s₂ : State W} (h : Effect sys a s s₁)
    (h' : Effect sys b s₁ s₂) : Effect sys (a ++ b) s s₂ where
  calls := by rw [h'.calls, h.calls, callsOf_append, List.append_assoc]
  list := fun hcells hs => h'.list hcells (h.list hcells hs)

/-- INTERNAL: a step that keeps the fields has the effect of items without callbacks. -/
theorem Keeps.effect {sys : System W D} {s s' : State W} (h : Keeps sys s s') {items : List (Item W)}
    (hitems : callsOf items = []) : Effect sys items s s' where
  calls := by rw [h.calls, hitems, List.append_nil]
  list := h.list

/-- INTERNAL: such a step in front of an effect. -/
theorem Keeps.before {sys : System W D} {s s₁ s₂ : State W} {items : List (Item W)} (h : Keeps sys s s₁)
    (h' : Effect sys items s₁ s₂) : Effect sys items s s₂ := (h.effect rfl : Effect sys [] s s₁).trans h'

/-- INTERNAL: and one behind it. -/
theorem Effect.andThen {sys : System W D} {s s₁ s₂ : State W} {items : List (Item W)} (h : Effect sys items s s₁)
    (h' : Keeps sys s₁ s₂) : Effect sys items s s₂ := by
  have hboth := h.trans (h'.effect rfl : Effect sys [] s₁ s₂)
  rwa [List.append_nil] at hboth

/-- INTERNAL: a callback is logged as it was made. -/
theorem callback_effect {sys : System W D} {fn : Callback W} {dir : Bytes} {st : Stat} {type : FtwType}
    {s s₁ : State W} {r : ℤ} (h : callback fn dir st type s = (r, s₁)) (depth : ℕ) :
    Effect sys [.call depth ⟨dir, st, type, s.level, s.base⟩ r s.world] s s₁ := by
  rw [callback_state h]
  exact ⟨calls_append _ _, fun _ hs => hs⟩

/-- INTERNAL: the effect of the report before the entries. -/
theorem before_effect {sys : System W D} {fn : Callback W} {flags : Flags} {depth : ℕ} {dir : Bytes} {st : Stat}
    {type : FtwType} {s : State W} {pre : List (Item W)} {r : ℤ} {s₁ : State W}
    (h : before fn flags depth dir st type s = .give pre (r, s₁)) : Effect sys pre s s₁ := by
  rcases before_cases h with ⟨-, rfl, -, rfl⟩ | ⟨-, rfl, hcall⟩
  · exact (Keeps.refl sys s₁).effect rfl
  · exact callback_effect hcall depth

/-- INTERNAL: the effect of the end of a call. -/
theorem finish_effect {sys : System W D} {fn : Callback W} {flags : Flags} {depth : ℕ} {dir : Bytes} {st : Stat}
    {type : FtwType} {dh : Option D} {retval : ℤ} {s : State W} {post : List (Item W)} {r : ℤ} {s₁ : State W}
    (h : finish sys fn flags depth dir st type dh retval s = .give post (r, s₁)) : Effect sys post s s₁ := by
  rcases finish_cases h with ⟨rfl, -, rfl⟩ | ⟨-, type', s₂, rfl, hcall, rfl⟩
  · exact (keeps_cleanup sys dh s).effect rfl
  · exact (callback_effect hcall depth).andThen (keeps_cleanup sys dh s₂)

/-- INTERNAL: the level and the base of the loop do not matter for an effect. -/
theorem entered_effect {sys : System W D} {items : List (Item W)} {s s' : State W} (dir : Bytes) (st : Stat)
    (h : Effect sys items (entered dir st s) s') : Effect sys items s s' := by
  have hlog := (keeps_log sys s (.entered st.node) rfl).calls
  exact ⟨h.calls.trans (by rw [← hlog]; rfl), h.list⟩

/-- INTERNAL: the effect of what is behind a loop. -/
theorem leaveDir_effect {sys : System W D} {fn : Callback W} {flags : Flags} {dir : Bytes} {st : Stat}
    {type : FtwType} {last : List Data} {base : ℕ} {e : LoopEnd D} {s : State W} {post : List (Item W)} {r : ℤ}
    {s₁ : State W} (h : leaveDir sys fn flags dir st type last base (e, s) = .give post (r, s₁)) :
    Effect sys post s s₁ := by
  rcases leaveDir_cases h with ⟨-, rfl, -, rfl⟩ | ⟨dh, s₂, -, hback, rfl, rfl⟩ | ⟨dh, retval, s₂, -, hback, hfinish⟩
  · exact (Keeps.refl sys s₁).effect rfl
  · exact ((keeps_goBack hback).trans (keeps_cleanup sys dh s₂)).effect rfl
  · have hrestored : Effect sys post s₂ s₁ := ⟨(finish_effect hfinish).calls, (finish_effect hfinish).list⟩
    exact (keeps_goBack hback).before hrestored

/-- INTERNAL: **the effect of a run.**
SOURCE: dietlibc-ftw.patch:101-269 -/
theorem Runs.effect {sys : System W D} {fn : Callback W} {conf : Conf} {piece : Piece D} {s s' : State W}
    {items : List (Item W)} {out : Outcome D} (h : Runs sys fn conf piece s items out s') : Effect sys items s s' := by
  induction h with
  | gone h => exact (keeps_arrive sys conf _ _ _ _ h).effect rfl
  | visited h => exact (keeps_arrive sys conf _ _ _ _ h).effect rfl
  | failed h => exact (keeps_arrive sys conf _ _ _ _ h).effect rfl
  | @refused dir nopenfd last s type st dh s' h _ =>
    have hlog : Keeps sys s' (if type = .D ∨ type = .DNR then s'.log (.refused st.node) else s') := by
      split_ifs
      · exact keeps_log sys s' _ rfl
      · exact Keeps.refl sys s'
    exact (((keeps_arrive sys conf _ _ _ _ h).trans hlog).trans (keeps_cleanup sys dh _)).effect rfl
  | leaf h _ hbefore hfinish =>
    exact (keeps_arrive sys conf _ _ _ _ h).before ((before_effect hbefore).trans (finish_effect hfinish))
  | stopped h _ hbefore _ hfinish =>
    exact (keeps_arrive sys conf _ _ _ _ h).before ((before_effect hbefore).trans (finish_effect hfinish))
  | mount h _ hbefore _ => exact (keeps_arrive sys conf _ _ _ _ h).before (before_effect hbefore)
  | @downFails dir nopenfd last s type st d s' pre s₁ s₂ h _ hbefore _ hdown =>
    have hclosed := (keeps_goDown hdown).trans (keeps_cleanup sys (some d) s₂)
    exact (keeps_arrive sys conf _ _ _ _ h).before ((before_effect hbefore).trans (hclosed.effect rfl))
  | @directory dir nopenfd last s type st d s' pre s₁ len s₂ items e s₃ post r s₄ h _ hbefore _ hdown _ hleave ih =>
    have hloop := (keeps_goDown hdown).before (entered_effect dir st ih)
    have hinto : Effect sys [.into last.length] s₁ s₁ := (Keeps.refl sys s₁).effect rfl
    exact (keeps_arrive sys conf _ _ _ _ h).before
      ((before_effect hbefore).trans (hinto.trans (hloop.trans (leaveDir_effect hleave))))
  | atEnd _ => exact (keeps_world sys _ _).effect rfl
  | dots _ _ _ ih => exact (keeps_world sys _ _).before ih
  | entryStops _ _ _ _ ih => exact ((keeps_world sys _ _).trans (keeps_beforeCall sys _ _ _)).before ih
  | next _ _ _ _ _ ihcall ihrest =>
    exact ((keeps_world sys _ _).trans (keeps_beforeCall sys _ _ _)).before (ihcall.trans ihrest)
  | reopened _ _ _ _ hopen _ ihcall ihrest =>
    exact ((keeps_world sys _ _).trans (keeps_beforeCall sys _ _ _)).before
      (ihcall.trans ((keeps_openStream hopen).before ihrest))
  | reopenFails _ _ _ _ hopen ihcall =>
    exact ((keeps_world sys _ _).trans (keeps_beforeCall sys _ _ _)).before
      (ihcall.trans ((keeps_openStream hopen).effect rfl))

/-! ## The way back to the first working directory is not in a run -/

/-- INTERNAL: the report before the entries does not lose the working directory. -/
theorem before_notLost {fn : Callback W} {flags : Flags} {depth : ℕ} {dir : Bytes} {st : Stat} {type : FtwType}
    {s : State W} {pre : List (Item W)} {r : ℤ} {s₁ : State W}
    (h : before fn flags depth dir st type s = .give pre (r, s₁)) : .lost ∉ pre := by
  rcases before_cases h with ⟨-, rfl, -⟩ | ⟨-, rfl, -⟩ <;> simp

/-- INTERNAL: neither does the end of a call. -/
theorem finish_notLost {sys : System W D} {fn : Callback W} {flags : Flags} {depth : ℕ} {dir : Bytes} {st : Stat}
    {type : FtwType} {dh : Option D} {retval : ℤ} {s : State W} {post : List (Item W)} {r : ℤ} {s₁ : State W}
    (h : finish sys fn flags depth dir st type dh retval s = .give post (r, s₁)) : .lost ∉ post := by
  rcases finish_cases h with ⟨rfl, -⟩ | ⟨-, type', s₂, rfl, -⟩ <;> simp

/-- INTERNAL: nor what is behind a loop. -/
theorem leaveDir_notLost {sys : System W D} {fn : Callback W} {flags : Flags} {dir : Bytes} {st : Stat}
    {type : FtwType} {last : List Data} {base : ℕ} {e : LoopEnd D} {s : State W} {post : List (Item W)} {r : ℤ}
    {s₁ : State W} (h : leaveDir sys fn flags dir st type last base (e, s) = .give post (r, s₁)) : .lost ∉ post := by
  rcases leaveDir_cases h with ⟨-, rfl, -⟩ | ⟨dh, s₂, -, -, rfl, -⟩ | ⟨dh, retval, s₂, -, -, hfinish⟩
  · simp
  · simp
  · exact finish_notLost hfinish

/-- INTERNAL: a run does not leave the first working directory for good.
SOURCE: dietlibc-ftw.patch:101-269 -/
theorem Runs.notLost {sys : System W D} {fn : Callback W} {conf : Conf} {piece : Piece D} {s s' : State W}
    {items : List (Item W)} {out : Outcome D} (h : Runs sys fn conf piece s items out s') : .lost ∉ items := by
  induction h with
  | gone _ => simp
  | visited _ => simp
  | failed _ => simp
  | refused _ _ => simp
  | leaf _ _ hbefore hfinish =>
    rw [List.mem_append, not_or]
    exact ⟨before_notLost hbefore, finish_notLost hfinish⟩
  | stopped _ _ hbefore _ hfinish =>
    rw [List.mem_append, not_or]
    exact ⟨before_notLost hbefore, finish_notLost hfinish⟩
  | mount _ _ hbefore _ => exact before_notLost hbefore
  | downFails _ _ hbefore _ _ =>
    rw [List.mem_append, not_or]
    exact ⟨before_notLost hbefore, by simp⟩
  | directory _ _ hbefore _ _ _ hleave ih =>
    rw [List.mem_append, List.mem_append, List.mem_append, not_or, not_or, not_or]
    exact ⟨before_notLost hbefore, by simp, ih, leaveDir_notLost hleave⟩
  | atEnd _ => simp
  | dots _ _ _ ih => exact ih
  | entryStops _ _ _ _ ih => exact ih
  | next _ _ _ _ _ ihcall ihrest =>
    rw [List.mem_append, not_or]
    exact ⟨ihcall, ihrest⟩
  | reopened _ _ _ _ _ _ ihcall ihrest =>
    rw [List.mem_append, not_or]
    exact ⟨ihcall, ihrest⟩
  | reopenFails _ _ _ _ _ ihcall =>
    rw [List.mem_append, not_or]
    exact ⟨ihcall, by simp⟩

end TTLinux.Analysis.FtwTrace
