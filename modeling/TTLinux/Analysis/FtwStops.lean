import TTLinux.Analysis.FtwTable
import TTLinux.Analysis.FtwTrace
import TTLinux.Lib.Interruption

/-!
# A callback that stops the walk

A callback that returns another value than zero is the last one, and `nftw` returns its value. The walk up to
there is the beginning of the walk whose callback has the same effects and always returns zero. The two are
compared also where they need more rounds than they are given.
-/

set_option autoImplicit false

namespace TTLinux.Analysis.FtwStops

open TTLinux.Lib
open TTLinux.Model.Ftw
open TTLinux.Analysis.FtwTable
open TTLinux.Analysis.FtwTrace
open TTLinux.Analysis.FtwVisited (FreshCells Standing destroy_returns standing_empty)
open TTLinux.Analysis.FtwWalk (calls)

variable {W D : Type}

/-! ## Two walks -/

/-- The callback with its effects, returning zero. -/
def quiet (fn : Callback W) : Callback W := fun c w => (0, (fn c w).2)

/-- A callback is seen, and asks to stop with its value. -/
def watch : Watch (Item W) Call ℤ where
  seen
    | .call _ c _ _ => some c
    | _ => none
  asks
    | .call _ _ r _ => if r = 0 then none else some r
    | _ => none

/-- INTERNAL: an item that is not watched asks for nothing. -/
theorem asks_of_unseen (e : Item W) (h : watch.seen e = none) : watch.asks e = none := by
  cases e with
  | call => cases h
  | into => rfl
  | gone => rfl
  | fault => rfl
  | lost => rfl

/-- How a call of `walker` returns after a stop. -/
def Returned (r : ℤ) (p : ℤ × State W) : Prop := r ≠ 0 ∧ p.1 = r

/-- How the loop ends after a stop. -/
def Ended (r : ℤ) (p : LoopEnd D × State W) : Prop := r ≠ 0 ∧ ∃ dh, p.1 = .done dh r

/-- INTERNAL: one callback.
SOURCE: dietlibc-ftw.patch:169, 262 -/
theorem callback_cut (fn : Callback W) (depth : ℕ) (dir : Bytes) (st : Stat) (type : FtwType) (c : Call)
    (s : State W) (f : State W → State W) :
    watch.Cut Returned
      (.give [.call depth c (callback fn dir st type s).1 s.world]
        ((callback fn dir st type s).1, f (callback fn dir st type s).2))
      (.give [.call depth c (callback (quiet fn) dir st type s).1 s.world]
        ((callback (quiet fn) dir st type s).1, f (callback (quiet fn) dir st type s).2)) := by
  have hstate : (callback (quiet fn) dir st type s).2 = (callback fn dir st type s).2 := rfl
  have hzero : (callback (quiet fn) dir st type s).1 = 0 := rfl
  rw [hstate, hzero]
  by_cases hr : (callback fn dir st type s).1 = 0
  · rw [hr]
    exact .one _ _ rfl _
  · exact .stopped [] _ [] _ _ rfl watch.calm_nil (if_neg hr) rfl rfl ⟨hr, rfl⟩ List.prefix_rfl

/-- INTERNAL: up to a value other than zero the report before the entries is that of the quiet callback. -/
theorem before_cut (fn : Callback W) (flags : Flags) (depth : ℕ) (dir : Bytes) (st : Stat) (type : FtwType)
    (s : State W) :
    watch.Cut Returned (before fn flags depth dir st type s) (before (quiet fn) flags depth dir st type s) := by
  unfold before
  split_ifs
  · exact .give _ _
  · exact callback_cut fn depth dir st type _ s id

/-- INTERNAL: so is the end of a call. -/
theorem finish_cut (sys : System W D) (fn : Callback W) (flags : Flags) (depth : ℕ) (dir : Bytes) (st : Stat)
    (type : FtwType) (dh : Option D) (retval : ℤ) (s : State W) :
    watch.Cut Returned (finish sys fn flags depth dir st type dh retval s)
      (finish sys (quiet fn) flags depth dir st type dh retval s) := by
  unfold finish conclude
  by_cases hcond : retval = 0 ∧ flags.depth = true
  · simp only [if_pos hcond]
    exact callback_cut fn depth dir st _ _ s (cleanup sys dh)
  · simp only [if_neg hcond]
    exact .give _ _

/-- INTERNAL: after a stop there is no callback behind the entries.
SOURCE: dietlibc-ftw.patch:259-268 -/
theorem finish_goesOn (sys : System W D) (fn : Callback W) (flags : Flags) (depth : ℕ) (dir : Bytes) (st : Stat)
    (type : FtwType) (dh : Option D) (retval : ℤ) (hretval : retval ≠ 0) (s : State W) :
    watch.GoesOn (Returned retval) (finish sys fn flags depth dir st type dh retval s) := by
  have hcond : ¬(retval = 0 ∧ flags.depth = true) := fun h => hretval h.1
  unfold finish conclude
  rw [if_neg hcond, if_neg hcond]
  exact .give _ _ ⟨hretval, rfl⟩

/-- INTERNAL: and what is behind a loop. -/
theorem leaveDir_cut (sys : System W D) (fn : Callback W) (flags : Flags) (dir : Bytes) (st : Stat) (type : FtwType)
    (last : List Data) (base : ℕ) (p : LoopEnd D × State W) :
    watch.Cut Returned (leaveDir sys fn flags dir st type last base p)
      (leaveDir sys (quiet fn) flags dir st type last base p) := by
  obtain ⟨⟨dh, retval⟩ | _, s⟩ := p
  · unfold leaveDir
    dsimp only
    rcases goBack sys flags last s with ⟨_ | _, s₁⟩
    · exact .one _ _ rfl _
    · exact finish_cut ..
  · exact .give _ _

/-- INTERNAL: behind a loop that was left with a value, the call returns it. -/
theorem leaveDir_goesOn (sys : System W D) (fn : Callback W) (flags : Flags) (dir : Bytes) (st : Stat)
    (type : FtwType) (last : List Data) (base : ℕ) (r : ℤ) (p : LoopEnd D × State W) (h : Ended r p) :
    watch.GoesOn (Returned r) (leaveDir sys fn flags dir st type last base p) := by
  obtain ⟨e, s⟩ := p
  obtain ⟨hr, dh, he⟩ := h
  obtain rfl : e = .done dh r := he
  unfold leaveDir
  dsimp only
  rcases goBack sys flags last s with ⟨_ | _, s₁⟩
  · exact ⟨rfl, _, rfl, hr, rfl⟩
  · exact finish_goesOn sys fn flags last.length dir st type dh r hr _

/-- INTERNAL: the loop, if the recursive calls are cut short.
SOURCE: dietlibc-ftw.patch:212-239 -/
theorem traceLoop_cut (sys : System W D) (flags : Flags) (here : Bytes) (n : ℕ) (nopenfd : ℤ) (last : List Data)
    (walk walk' : Bytes → ℤ → List Data → State W → Traced (Item W) (ℤ × State W))
    (hwalk : ∀ dir nopenfd last s, watch.Cut Returned (walk dir nopenfd last s) (walk' dir nopenfd last s))
    (fuel fuel' : ℕ) (hfuel : fuel ≤ fuel') (dh : D) (data : Data) (path : Bytes) (s : State W) :
    watch.Cut Ended (traceLoop sys flags here n nopenfd last walk fuel dh data path s)
      (traceLoop sys flags here n nopenfd last walk' fuel' dh data path s) := by
  induction fuel generalizing fuel' dh data path s with
  | zero => exact .stuck _ _
  | succ fuel ih =>
    obtain ⟨fuel', rfl⟩ : ∃ k, fuel' = k + 1 := ⟨fuel' - 1, by omega⟩
    have hle : fuel ≤ fuel' := by omega
    rw [traceLoop, traceLoop]
    rcases sys.readdir dh s.world with ⟨_ | de, dh₁, w⟩
    · exact .give _ _
    dsimp only
    by_cases hdots : isDots de.dName = true
    · rw [if_pos hdots, if_pos hdots]
      exact ih fuel' hle _ _ _ _
    rw [if_neg hdots, if_neg hdots]
    apply Watch.Cut.bind (hwalk _ _ _ _)
    · rintro ⟨r, s₁⟩
      dsimp only
      by_cases hr : r = 0
      · rw [if_neg (not_not.mpr hr), if_neg (not_not.mpr hr)]
        by_cases hfd : (duringCall nopenfd data).fd = 0
        · rw [if_pos hfd, if_pos hfd]
          rcases openStream sys (if flags.chdir = true then [46] else here) s₁ with ⟨_ | dh₂, s₂⟩
          · exact .one _ _ rfl _
          · exact ih fuel' hle _ _ _ _
        · rw [if_neg hfd, if_neg hfd]
          exact ih fuel' hle _ _ _ _
      · rw [if_pos hr, if_pos hr]
        exact .give _ _
    · rintro r ⟨r', s₁⟩ ⟨hr, hr'⟩
      obtain rfl : r' = r := hr'
      rw [if_pos hr]
      exact .give _ _ ⟨hr, _, rfl⟩

/-- INTERNAL: the part from the check for loops on.
SOURCE: dietlibc-ftw.patch:156-268 -/
theorem traceVisit_cut (sys : System W D) (fn : Callback W) (conf : Conf) (dir here : Bytes) (type : FtwType)
    (st : Stat) (nopenfd : ℤ) (last : List Data)
    (walk walk' : Bytes → ℤ → List Data → State W → Traced (Item W) (ℤ × State W))
    (hwalk : ∀ dir nopenfd last s, watch.Cut Returned (walk dir nopenfd last s) (walk' dir nopenfd last s))
    (fuel fuel' : ℕ) (hfuel : fuel ≤ fuel') (dh : Option D) (s : State W) :
    watch.Cut Returned (traceVisit sys fn conf dir here type st nopenfd last walk fuel dh s)
      (traceVisit sys (quiet fn) conf dir here type st nopenfd last walk' fuel' dh s) := by
  unfold traceVisit
  by_cases hanc : isAncestor conf.flags st last = true
  · rw [if_pos hanc, if_pos hanc]
    exact .give _ _
  rw [if_neg hanc, if_neg hanc]
  apply Watch.Cut.bind (before_cut fn conf.flags last.length dir st type s)
  · rintro ⟨r, s₁⟩
    cases dh with
    | none => exact finish_cut ..
    | some d =>
      dsimp only
      by_cases hr : r = 0
      · rw [if_neg (not_not.mpr hr), if_neg (not_not.mpr hr)]
        by_cases hmount : conf.flags.mount = true ∧ conf.basedev ≠ st.node.dev
        · rw [if_pos hmount, if_pos hmount]
          exact .give _ _
        rw [if_neg hmount, if_neg hmount]
        rcases goDown sys conf.flags here last s₁ with ⟨_ | len, s₂⟩
        · exact .one _ _ rfl _
        · apply Watch.Cut.after [.into last.length] (watch.calm_one _ rfl)
          apply Watch.Cut.bind
            (traceLoop_cut sys conf.flags here _ nopenfd last walk walk' hwalk fuel fuel' hfuel _ _ _ _)
          · exact fun p => leaveDir_cut sys fn conf.flags dir st type last s₂.base p
          · exact fun r p h => leaveDir_goesOn sys fn conf.flags dir st type last s₂.base r p h
      · rw [if_pos hr, if_pos hr]
        exact finish_cut ..
  · rintro r ⟨r', s₁⟩ ⟨hr, hr'⟩
    obtain rfl : r' = r := hr'
    cases dh with
    | none => exact finish_goesOn sys fn conf.flags last.length dir st type none r' hr s₁
    | some d =>
      dsimp only
      rw [if_pos hr]
      exact finish_goesOn sys fn conf.flags last.length dir st type (some d) r' hr s₁

/-- INTERNAL: **a walk is the quiet walk, cut short.**
SOURCE: dietlibc-ftw.patch:101-269 -/
theorem traceWalker_cut (sys : System W D) (fn : Callback W) (conf : Conf) (fuel fuel' : ℕ) (hfuel : fuel ≤ fuel')
    (dir : Bytes) (nopenfd : ℤ) (last : List Data) (s : State W) :
    watch.Cut Returned (traceWalker sys fn conf fuel dir nopenfd last s)
      (traceWalker sys (quiet fn) conf fuel' dir nopenfd last s) := by
  induction fuel generalizing fuel' dir nopenfd last s with
  | zero => exact .stuck _ _
  | succ fuel ih =>
    obtain ⟨fuel', rfl⟩ : ∃ k, fuel' = k + 1 := ⟨fuel' - 1, by omega⟩
    have hle : fuel ≤ fuel' := by omega
    rw [traceWalker, traceWalker]
    rcases arrive sys conf dir s with _ | ⟨_ | _ | _ | ⟨type, st, dh⟩, s₁⟩
    · exact .stuck _ _
    · exact .one _ _ rfl _
    · exact .give _ _
    · exact .one _ _ rfl _
    · exact traceVisit_cut sys fn conf dir _ type st nopenfd last _ _ (fun dir nopenfd last s =>
        ih fuel' hle dir nopenfd last s) fuel fuel' hle dh s₁

/-! ## `nftw` -/

/-- INTERNAL: the end of `nftw` returns: the value of the walk, or -1 where the way back fails.
SOURCE: dietlibc-ftw.patch:349-357 -/
theorem traceEnd_returns (sys : System W D) (cwd : Option Bytes) (r : ℤ) (s : State W) (h : Standing s.ftwList) :
    ∃ items rc s', traceEnd sys cwd (r, s) = .give items (rc, s') ∧ s'.events = s.events ∧
      (items = [] ∧ rc = r ∨ items = [.lost] ∧ cwd.isSome = true ∧ rc = -1) := by
  unfold traceEnd
  cases cwd with
  | none =>
    obtain ⟨m, hdestroy⟩ := destroy_returns r s h
    dsimp only
    rw [hdestroy]
    exact ⟨[], r, _, rfl, rfl, Or.inl ⟨rfl, rfl⟩⟩
  | some cwd =>
    dsimp only
    rcases sys.chdir cwd s.world with ⟨_ | _, w⟩
    · obtain ⟨m, hdestroy⟩ := destroy_returns (-1) { s with world := w } h
      dsimp only
      rw [hdestroy]
      exact ⟨[.lost], -1, _, rfl, rfl, Or.inr ⟨rfl, rfl, rfl⟩⟩
    · obtain ⟨m, hdestroy⟩ := destroy_returns r { s with world := w } h
      dsimp only
      rw [hdestroy]
      exact ⟨[], r, _, rfl, rfl, Or.inl ⟨rfl, rfl⟩⟩

/-- **A callback that returns another value than zero is the last one, and `nftw` returns its value**, or -1 if the
way back to the first working directory fails. The callbacks up to it are the first ones of the walk whose
callback always returns zero, with any number of rounds from those of this walk on.
SOURCE: dietlibc-ftw.patch:168-269, 341-358 -/
theorem nonzero_callback_ends_walk (sys : System W D) (hcells : FreshCells sys) (fn : Callback W) (fuel : ℕ)
    (dir : Bytes) (nopenfd : ℤ) (flags : Flags) (w : W) (depth : ℕ) (c : Call) (r : ℤ) (w₁ : W)
    (hr : r ≠ 0) (hcall : .call depth c r w₁ ∈ (nftwTrace sys fn fuel dir nopenfd flags w).items) :
    ∃ pre post rc s', (nftwTrace sys fn fuel dir nopenfd flags w).items = pre ++ .call depth c r w₁ :: post ∧
      callsOf post = [] ∧
      nftw sys fn fuel dir nopenfd flags w = some (rc, s') ∧
      (.lost ∉ post ∧ rc = r ∨ .lost ∈ post ∧ flags.chdir = true ∧ rc = -1) ∧
      calls s'.events = callsOf pre ++ [c] ∧
      ∀ fuel', fuel ≤ fuel' →
        callsOf pre ++ [c] <+: callsOf (nftwTrace sys (quiet fn) fuel' dir nopenfd flags w).items := by
  rw [← nftwTrace_result]
  rcases nftwTrace_eq sys dir nopenfd flags w with ⟨s, htrace⟩ | ⟨conf, path, s, cwd, -, -, -, hlist, hevents, hcwd,
    htrace⟩
  · rw [(htrace fn fuel).1] at hcall
    cases hcall
  simp only [htrace] at hcall ⊢
  have hwalk : .call depth c r w₁ ∈ (traceWalker sys fn conf fuel path nopenfd [] s).items := by
    cases hresult : (traceWalker sys fn conf fuel path nopenfd [] s).result with
    | none =>
      rw [Traced.bind_of_stuck hresult] at hcall
      exact hcall
    | some p =>
      have hruns := runs_of_result sys fn conf fuel path nopenfd [] s p.1 p.2 hresult
      obtain ⟨items, rc, s', hend, -, hlost⟩ := traceEnd_returns sys cwd p.1 p.2
        (hruns.effect.list hcells (hlist ▸ standing_empty))
      rw [Traced.bind_of_result hresult, Traced.after_items, hend, List.mem_append] at hcall
      apply hcall.resolve_right
      rcases hlost with ⟨rfl, -⟩ | ⟨rfl, -⟩ <;> simp
  have hcut := fun fuel' hle => traceWalker_cut sys fn conf fuel fuel' hle path nopenfd [] s
  obtain ⟨pre, post, ⟨r', s₁⟩, hitems, hpost, hresult, -, hr'⟩ := (hcut fuel (Nat.le_refl fuel)).of_asks
    asks_of_unseen hwalk (if_neg hr)
  obtain rfl : r' = r := hr'
  have hruns := runs_of_result sys fn conf fuel path nopenfd [] s r' s₁ hresult
  obtain ⟨items, rc, s', hend, hsame, hlost⟩ := traceEnd_returns sys cwd r' s₁
    (hruns.effect.list hcells (hlist ▸ standing_empty))
  have hnot : .lost ∉ post := fun hmem => hruns.notLost (hitems ▸ by simp [hmem])
  have hcalls : callsOf (traceWalker sys fn conf fuel path nopenfd [] s).items = callsOf pre ++ [c] := by
    rw [hitems, callsOf_append]
    exact congrArg (callsOf pre ++ c :: ·) hpost
  rw [Traced.bind_of_result hresult, hend]
  refine ⟨pre, post ++ items, rc, s', ?_, ?_, rfl, ?_, ?_, ?_⟩
  · rw [Traced.after_items, Traced.give_items, hitems, List.append_assoc, List.cons_append]
  · have hnone : callsOf items = [] := by
      rcases hlost with ⟨rfl, -⟩ | ⟨rfl, -⟩ <;> rfl
    rw [callsOf_append, hnone, List.append_nil]
    exact hpost
  · rcases hlost with ⟨rfl, rfl⟩ | ⟨rfl, hsome, rfl⟩
    · rw [List.append_nil]
      exact Or.inl ⟨hnot, rfl⟩
    · exact Or.inr ⟨by simp, hcwd ▸ hsome, rfl⟩
  · rw [hsame, hruns.effect.calls, hevents, hcalls]
    rfl
  · intro fuel' hle
    rw [← hcalls]
    exact (hcut fuel' hle).visible_begins.trans (Watch.visible_begins_bind _ _)

/-! ## A walk that is stopped -/

/-- A directory `d` with the files `a` and `b`. -/
def pairStat (p : Bytes) : Except ℕ Stat :=
  if p = ascii ['d'] then .ok ⟨⟨1, 1⟩, .dir⟩
  else if p = ascii ['d', '/', 'a'] then .ok ⟨⟨2, 1⟩, .other⟩
  else if p = ascii ['d', '/', 'b'] then .ok ⟨⟨3, 1⟩, .other⟩
  else .error ENOENT

def pairNames (p : Bytes) : Option (List Bytes) :=
  if p = ascii ['d'] then some [ascii ['a'], ascii ['b']] else none

def pairSystem : System Unit (List Dirent × ℕ) := tableSystem pairStat pairStat pairNames []

/-- INTERNAL: the memory of the example never gives out an address twice. -/
theorem freshCells_pairSystem : FreshCells pairSystem := freshCells_table pairStat pairStat pairNames []

/-- The call for `a`. -/
def callForA : Call := ⟨ascii ['d', '/', 'a'], ⟨⟨2, 1⟩, .other⟩, .F, 1, 2⟩

/-- A callback that stops at `a`. -/
def stopAtA : Callback Unit := fun c w => (if c = callForA then 7 else 0, w)

/-- **A walk that is stopped at `a`** returns 7 and does not report `b`. -/
theorem nonzero_callback_ends_walk_at_a :
    ∃ s', nftw pairSystem stopAtA 5 (ascii ['d']) 1 ⟨false, false, false, false⟩ () = some (7, s') ∧
      calls s'.events = [⟨ascii ['d'], ⟨⟨1, 1⟩, .dir⟩, .D, 0, 0⟩, callForA] := by
  have hitems : (nftwTrace pairSystem stopAtA 5 (ascii ['d']) 1 ⟨false, false, false, false⟩ ()).items =
      [.call 0 ⟨ascii ['d'], ⟨⟨1, 1⟩, .dir⟩, .D, 0, 0⟩ 0 (), .into 0, .call 1 callForA 7 ()] := by
    decide +kernel
  obtain ⟨pre, post, rc, s', hsplit, hpost, hrc, hlost, hcalls, -⟩ := nonzero_callback_ends_walk pairSystem
    freshCells_pairSystem stopAtA 5 (ascii ['d']) 1 ⟨false, false, false, false⟩ () 1 callForA 7 () (by decide)
    (by rw [hitems]; decide)
  obtain rfl : rc = 7 := by
    rcases hlost with ⟨-, hrc⟩ | ⟨-, hchdir, -⟩
    · exact hrc
    · exact absurd hchdir Bool.false_ne_true
  have hall : callsOf (pre ++ .call 1 callForA 7 () :: post) = callsOf pre ++ [callForA] := by
    rw [callsOf_append]
    exact congrArg (callsOf pre ++ callForA :: ·) hpost
  refine ⟨s', hrc, ?_⟩
  rw [hcalls, ← hall, ← hsplit, hitems]
  rfl

end TTLinux.Analysis.FtwStops
