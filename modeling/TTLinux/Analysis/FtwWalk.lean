import TTLinux.Analysis.FtwCalls
import TTLinux.Analysis.FtwVisited

/-!
# What a walk meets

A `Tree` is what `walker` meets at a path, in the order of `readdir`: files that are only
reported, directories that were visited before, and directories with their entries.
`Tree.Met` says that the kernel shows such a tree, and `walker_tree` that `walker` then
reports it if all its calls go well, whatever the number of descriptors: the streams that
are kept open and the ones that are closed and opened again deliver the same entries.
They do go well if the names fit into the path buffer and no stream has descriptor 0,
or none stays open (`careful_tree`).
-/

set_option autoImplicit false

namespace TTLinux.Analysis.FtwWalk

open TTLinux.Lib
open TTLinux.Model.Search (Mem)
open TTLinux.Model.Ftw
open TTLinux.Analysis.FtwCalls
open TTLinux.Analysis.FtwVisited

variable {W D : Type}

/-! ## Trees -/

mutual

/-- What is met at a path: a file that is reported with a type, a directory that was visited
before, or a directory with its entries. -/
inductive Tree where
  | leaf (st : Stat) (type : FtwType)
  | seen (st : Stat)
  | dir (st : Stat) (listing : Listing)

/-- The entries of a directory in the order of `readdir`; `dots` are `.` and `..`. -/
inductive Listing where
  | nil
  | dots (de : Dirent) (rest : Listing)
  | entry (de : Dirent) (tree : Tree) (rest : Listing)

end

/-- The entries that `readdir` delivers. -/
def Listing.dirents : Listing → List Dirent
  | .nil => []
  | .dots de rest => de :: rest.dirents
  | .entry de _ rest => de :: rest.dirents

mutual

/-- The names in the tree are shorter than `NAME_MAX`. -/
def Tree.NamesFit : Tree → Prop
  | .leaf _ _ => True
  | .seen _ => True
  | .dir _ l => l.NamesFit

/-- The names in a directory and below it are shorter than `NAME_MAX`. -/
def Listing.NamesFit : Listing → Prop
  | .nil => True
  | .dots _ rest => rest.NamesFit
  | .entry de t rest => de.dName.length < NAME_MAX ∧ t.NamesFit ∧ rest.NamesFit

end

/-- What is done for a directory, given what is done for its entries: it is reported before them, or
behind them with `FTW_DEPTH`. -/
def dirReport (depth : Bool) (p : Bytes) (st : Stat) (level : ℤ) (base : ℕ) (entries : List Event) :
    List Event :=
  if depth then .entered st.node :: entries ++ [.call ⟨p, st, .DP, level, base⟩]
  else .call ⟨p, st, .D, level, base⟩ :: .entered st.node :: entries

mutual

/-- What is done for a tree: each file is reported with its depth and the offset of its name. -/
def Tree.report (depth : Bool) (p : Bytes) (level : ℤ) (base : ℕ) : Tree → List Event
  | .leaf st type => [.call ⟨p, st, type, level, base⟩]
  | .seen _ => []
  | .dir st l => dirReport depth p st level base (l.report depth p (level + 1) (p.length + 1))

/-- What is done for the entries of a directory. -/
def Listing.report (depth : Bool) (p : Bytes) (level : ℤ) (base : ℕ) : Listing → List Event
  | .nil => []
  | .dots _ rest => rest.report depth p level base
  | .entry de t rest => t.report depth (child p de.dName) level base ++ rest.report depth p level base

end

/-- What a walk does apart from opening and closing streams. -/
def observed (events : List Event) : List Event :=
  events.filter fun e => match e with
    | .opened _ | .closed _ => false
    | _ => true

/-- The calls of the callback. -/
def calls (events : List Event) : List Call :=
  events.filterMap fun e => match e with
    | .call c => some c
    | _ => none

/-- INTERNAL: calls are observed. -/
theorem calls_observed (events : List Event) : calls (observed events) = calls events := by
  induction events with
  | nil => rfl
  | cons e es ih =>
    unfold observed calls at ih ⊢
    cases e <;> simp [ih]

/-- INTERNAL: the callbacks of two parts. -/
theorem calls_append (es fs : List Event) : calls (es ++ fs) = calls es ++ calls fs := List.filterMap_append

/-! ## What the kernel shows -/

/-- The stream delivers these entries, whatever happens in between. -/
def Yields (sys : System W D) : D → List Dirent → Prop
  | dh, [] => ∀ w, ∃ dh' w', sys.readdir dh w = (none, dh', w')
  | dh, e :: es => ∀ w, ∃ dh' w', sys.readdir dh w = (some e, dh', w') ∧ Yields sys dh' es

/-- The directory at a path can be opened at any time and delivers these entries, and `seekdir` to
the offset of an entry resumes behind it. -/
def Serves (sys : System W D) (p : Bytes) (es : List Dirent) : Prop :=
  ∀ w, ∃ dh w', sys.opendir p w = (some dh, w') ∧ Yields sys dh es ∧
    ∀ pre e rest, es = pre ++ e :: rest → Yields sys (sys.seekdir dh e.dOff) rest

/-- No stream has descriptor 0, which `walker` takes for a closed stream. -/
def NeverZero (sys : System W D) : Prop := ∀ dh, sys.fd dh ≠ 0

/-- The file at a path is of this type. -/
def Shows (sys : System W D) (flags : Flags) (p : Bytes) (type : FtwType) (st : Stat) : Prop :=
  ∀ w, ∃ w', classify sys flags p w = (some (type, st), w')

/-- The directory at a path cannot be opened. -/
def Locked (sys : System W D) (p : Bytes) : Prop := ∀ w, ∃ w', sys.opendir p w = (none, w')

/-- The directories that were visited, once another one is met. -/
def mark (flags : Flags) (V : Finset FtwNode) (st : Stat) : Finset FtwNode :=
  if flags.phys then V else insert st.node V

mutual

/-- The kernel shows the tree at a path, the directories `V` being visited before and `V'`
afterwards. -/
def Tree.Met (sys : System W D) (flags : Flags) (p : Bytes) (V : Finset FtwNode) :
    Tree → Finset FtwNode → Prop
  | .leaf st type, V' =>
    (flags.phys = false → st.node ∉ V) ∧
      (Shows sys flags p type st ∧ type ≠ .D ∧ V' = V ∨
        Shows sys flags p .D st ∧ Locked sys p ∧ type = .DNR ∧ V' = mark flags V st)
  | .seen st, V' => flags.phys = false ∧ st.node ∈ V ∧ Shows sys flags p .D st ∧ V' = V
  | .dir st l, V' =>
    (flags.phys = false → st.node ∉ V) ∧ Shows sys flags p .D st ∧ Serves sys p l.dirents ∧
      l.Met sys flags p (mark flags V st) V'

/-- The kernel shows the entries of a directory at a path. -/
def Listing.Met (sys : System W D) (flags : Flags) (p : Bytes) (V : Finset FtwNode) :
    Listing → Finset FtwNode → Prop
  | .nil, V' => V' = V
  | .dots de rest, V' => isDots de.dName = true ∧ rest.Met sys flags p V V'
  | .entry de t rest, V' =>
    isDots de.dName = false ∧ FileName de.dName ∧
      ∃ V₁, t.Met sys flags (child p de.dName) V V₁ ∧ rest.Met sys flags p V₁ V'

end

mutual

/-- INTERNAL: visited directories stay visited. -/
theorem Tree.Met.subset {sys : System W D} {flags : Flags} {p : Bytes} {V V' : Finset FtwNode} :
    {t : Tree} → t.Met sys flags p V V' → V ⊆ V'
  | .leaf st type, h => by
    rw [Tree.Met] at h
    obtain ⟨-, ⟨-, -, rfl⟩ | ⟨-, -, -, rfl⟩⟩ := h
    · exact Finset.Subset.refl _
    · unfold mark
      split_ifs
      · exact Finset.Subset.refl _
      · exact Finset.subset_insert _ _
  | .seen st, h => by
    rw [Tree.Met] at h
    obtain ⟨-, -, -, rfl⟩ := h
    exact Finset.Subset.refl _
  | .dir st l, h => by
    rw [Tree.Met] at h
    obtain ⟨-, -, -, hl⟩ := h
    have hsub := Listing.Met.subset hl
    unfold mark at hsub
    split_ifs at hsub
    · exact hsub
    · exact (Finset.subset_insert _ _).trans hsub

/-- INTERNAL: visited directories stay visited. -/
theorem Listing.Met.subset {sys : System W D} {flags : Flags} {p : Bytes} {V V' : Finset FtwNode} :
    {l : Listing} → l.Met sys flags p V V' → V ⊆ V'
  | .nil, h => by
    rw [Listing.Met] at h
    rw [h]
  | .dots de rest, h => by
    rw [Listing.Met] at h
    exact Listing.Met.subset h.2
  | .entry de t rest, h => by
    rw [Listing.Met] at h
    obtain ⟨-, -, V₁, ht, hrest⟩ := h
    exact (Tree.Met.subset ht).trans (Listing.Met.subset hrest)

end

/-! ## The parts of `walker` -/

/-- What a part of a walk leaves behind: depth and offset as they were, the visited directories,
and what was done. -/
structure Walked (flags : Flags) (s s' : State W) (V' : Finset FtwNode) (done : List Event) : Prop where
  level : s'.level = s.level
  base : s'.base = s.base
  list : flags.phys = false → Visited s'.ftwList V'
  same : flags.phys = true → s'.ftwList = s.ftwList
  events : observed s'.events = observed s.events ++ done

/-- The directories above are among the visited ones. -/
def Chain (flags : Flags) (last : List Data) (V : Finset FtwNode) : Prop :=
  flags.phys = false → ∀ d ∈ last, d.node ∈ V

/-- INTERNAL: parts of a walk follow each other. -/
theorem Walked.trans {flags : Flags} {s s₁ s₂ : State W} {V₁ V₂ : Finset FtwNode} {d₁ d₂ : List Event}
    (h₁ : Walked flags s s₁ V₁ d₁) (h₂ : Walked flags s₁ s₂ V₂ d₂) : Walked flags s s₂ V₂ (d₁ ++ d₂) where
  level := h₂.level.trans h₁.level
  base := h₂.base.trans h₁.base
  list := h₂.list
  same := fun hphys => (h₂.same hphys).trans (h₁.same hphys)
  events := by rw [h₂.events, h₁.events, List.append_assoc]

/-- INTERNAL: what is observed of two parts. -/
theorem observed_append (es fs : List Event) : observed (es ++ fs) = observed es ++ observed fs :=
  List.filter_append es fs

/-- INTERNAL: only the world changes. -/
theorem walked_world (flags : Flags) (s : State W) (V : Finset FtwNode) (w : W)
    (h : flags.phys = false → Visited s.ftwList V) : Walked flags s { s with world := w } V [] where
  level := rfl
  base := rfl
  list := h
  same := fun _ => rfl
  events := (List.append_nil _).symm

/-- INTERNAL: something happens that does not change the list. -/
theorem walked_log (flags : Flags) (s : State W) (V : Finset FtwNode) (w : W) (e : Event)
    (h : flags.phys = false → Visited s.ftwList V) :
    Walked flags s ({ s with world := w }.log e) V (observed [e]) where
  level := rfl
  base := rfl
  list := h
  same := fun _ => rfl
  events := observed_append s.events [e]

/-- INTERNAL: closing a stream is no step of the walk. -/
theorem walked_close (sys : System W D) (flags : Flags) (dh : D) (s : State W) (V : Finset FtwNode)
    (h : flags.phys = false → Visited s.ftwList V) : Walked flags s (closeStream sys dh s) V [] :=
  walked_log flags s V (sys.closedir dh s.world) (.closed (sys.fd dh)) h

/-- INTERNAL: the end of `walker` closes the stream.
SOURCE: dietlibc-ftw.patch:265-267 -/
theorem walked_cleanup (sys : System W D) (flags : Flags) (dh : Option D) (s : State W)
    (V : Finset FtwNode) (h : flags.phys = false → Visited s.ftwList V) :
    Walked flags s (cleanup sys dh s) V [] := by
  cases dh with
  | none => exact walked_world flags s V s.world h
  | some dh => exact walked_close sys flags dh s V h

/-- INTERNAL: opening a stream is not observed. -/
theorem walked_open (sys : System W D) (flags : Flags) (p : Bytes) (s : State W) (V : Finset FtwNode)
    (h : flags.phys = false → Visited s.ftwList V) : Walked flags s (openStream sys p s).2 V [] := by
  unfold openStream
  split
  · exact walked_log flags s V _ _ h
  · exact walked_world flags s V _ h

/-- INTERNAL: `opendir` and what it leaves. -/
theorem openStream_eq (sys : System W D) (p : Bytes) (s : State W) (r : Option D) (w : W)
    (h : sys.opendir p s.world = (r, w)) : openStream sys p s = (r, (openStream sys p s).2) := by
  unfold openStream
  rw [h]
  cases r <;> rfl

/-- INTERNAL: a callback that returns 0.
SOURCE: dietlibc-ftw.patch:169, 262 -/
theorem callback_zero (fn : Callback W) (hfn : ∀ c w, (fn c w).1 = 0) (flags : Flags) (p : Bytes) (st : Stat)
    (type : FtwType) (s : State W) (V : Finset FtwNode) (h : flags.phys = false → Visited s.ftwList V) :
    (callback fn p st type s).1 = 0 ∧
      Walked flags s (callback fn p st type s).2 V [.call ⟨p, st, type, s.level, s.base⟩] :=
  ⟨hfn _ _, walked_log flags s V _ _ h⟩

/-- INTERNAL: a directory that is met for the first time is marked, and opened.
SOURCE: dietlibc-ftw.patch:138-154 -/
theorem prepare_new (sys : System W D) (flags : Flags) (halloc : flags.phys = false → Allocates sys)
    (p : Bytes) (st : Stat) (s : State W) (V : Finset FtwNode) (h : flags.phys = false → Visited s.ftwList V)
    (hnew : flags.phys = false → st.node ∉ V) :
    ∃ s₁, prepare sys flags p st s =
        some (.ready (openStream sys p s₁).1, (openStream sys p s₁).2) ∧
      Walked flags s s₁ (mark flags V st) [] := by
  unfold prepare mark
  cases hphys : flags.phys with
  | true => exact ⟨s, rfl, walked_world flags s V s.world h⟩
  | false =>
    obtain ⟨w, m, hadd, hm⟩ := addNode_eq sys (halloc hphys) st s V (h hphys) (hnew hphys)
    refine ⟨{ s with world := w, ftwList := m }, ?_, ?_⟩
    · simp [findNode_eq st s V (h hphys), hnew hphys, hadd]
    · exact ⟨rfl, rfl, fun _ => hm, fun h => absurd (hphys.symm.trans h) (by decide),
        (List.append_nil _).symm⟩

/-- INTERNAL: a directory that was visited before.
SOURCE: dietlibc-ftw.patch:142-144 -/
theorem prepare_seen (sys : System W D) (flags : Flags) (p : Bytes) (st : Stat) (s : State W)
    (V : Finset FtwNode) (hphys : flags.phys = false) (h : Visited s.ftwList V) (hseen : st.node ∈ V) :
    prepare sys flags p st s = some (.visited, s) := by
  unfold prepare
  simp [hphys, findNode_eq st s V h, hseen]

/-- INTERNAL: **the check for loops does not fire** for a file that is not among the visited
directories.
SOURCE: dietlibc-ftw.patch:159-166 -/
theorem isAncestor_eq_false (flags : Flags) (st : Stat) (last : List Data) (V : Finset FtwNode)
    (hchain : Chain flags last V) (hnew : flags.phys = false → st.node ∉ V) :
    isAncestor flags st last = false := by
  unfold isAncestor
  cases hphys : flags.phys with
  | true => rfl
  | false =>
    rw [Bool.not_false, Bool.true_and, List.any_eq_false]
    intro d hd
    rw [decide_eq_true_eq]
    intro heq
    exact hnew hphys (heq ▸ hchain hphys d hd)

/-- INTERNAL: a file that is only reported.
SOURCE: dietlibc-ftw.patch:156-268 -/
theorem visit_leaf (sys : System W D) (fn : Callback W) (hfn : ∀ c w, (fn c w).1 = 0) (conf : Conf)
    (p here : Bytes) (type : FtwType) (htype : type ≠ .D) (st : Stat) (nopenfd : ℤ) (last : List Data)
    (walk : Bytes → ℤ → List Data → State W → Option (ℤ × State W)) (fuel : ℕ) (s : State W)
    (V : Finset FtwNode) (h : conf.flags.phys = false → Visited s.ftwList V)
    (hanc : isAncestor conf.flags st last = false) :
    ∃ s', visit sys fn conf p here type st nopenfd last walk fuel none s = some (0, s') ∧
      Walked conf.flags s s' V [.call ⟨p, st, type, s.level, s.base⟩] := by
  obtain ⟨hzero, hcall⟩ := callback_zero fn hfn conf.flags p st type s V h
  refine ⟨(callback fn p st type s).2, ?_, hcall⟩
  unfold visit conclude cleanup
  rw [hanc]
  cases hdepth : conf.flags.depth with
  | true => simp [htype, ← hzero]
  | false => simp [hzero]

/-- INTERNAL: the directories above are still visited when more are. -/
theorem Chain.mono {flags : Flags} {last : List Data} {V V' : Finset FtwNode} (h : Chain flags last V)
    (hsub : V ⊆ V') : Chain flags last V' := by
  intro hphys d hd
  exact hsub (h hphys d hd)

/-- INTERNAL: the directory is among the visited ones afterwards. -/
theorem mem_mark (flags : Flags) (V : Finset FtwNode) (st : Stat) (hphys : flags.phys = false) :
    st.node ∈ mark flags V st := by
  unfold mark
  rw [hphys]
  exact Finset.mem_insert_self _ _

/-- INTERNAL: visited directories stay visited. -/
theorem subset_mark (flags : Flags) (V : Finset FtwNode) (st : Stat) : V ⊆ mark flags V st := by
  unfold mark
  split_ifs
  · exact Finset.Subset.refl _
  · exact Finset.subset_insert _ _

/-- What a recursive call for a tree does, where it is allowed. -/
def Walks (flags : Flags) (ok : ℤ → List Data → State W → Prop) (V V' : Finset FtwNode)
    (report : ℤ → ℕ → List Event) (walk : ℤ → List Data → State W → Option (ℤ × State W)) : Prop :=
  ∀ nopenfd last s, ok nopenfd last s → (flags.phys = false → Visited s.ftwList V) → Chain flags last V →
    ∃ s', walk nopenfd last s = some (0, s') ∧ Walked flags s s' V' (report s.level s.base)

/-- The call for an entry, once it was read.
SOURCE: dietlibc-ftw.patch:220-229 -/
def callFor (sys : System W D) (p : Bytes) (nopenfd : ℤ) (last : List Data) (de : Dirent) (dh : D) (data : Data)
    (path : Bytes) (s : State W) : WalkCall W :=
  ⟨de.dName, strncpy path (p.length + 1) de.dName, nopenfd - 1,
    (if nopenfd ≤ 1 then { data with fd := 0 } else data) :: last, if nopenfd ≤ 1 then closeStream sys dh s else s⟩

/-- INTERNAL: the call for an entry is the first one.
SOURCE: dietlibc-ftw.patch:212-229 -/
theorem callFor_mem (sys : System W D) (flags : Flags) (p : Bytes) (nopenfd : ℤ) (last : List Data)
    (walk : Bytes → ℤ → List Data → State W → Option (ℤ × State W)) (fuel : ℕ) (dh dh₁ : D) (data : Data)
    (path : Bytes) (s : State W) (de : Dirent) (w : W) (hdots : isDots de.dName = false)
    (hread : sys.readdir dh s.world = (some de, dh₁, w)) :
    callFor sys p nopenfd last de dh₁ data path { s with world := w } ∈
      loopCalls sys flags p (p.length + 1) nopenfd last walk (fuel + 1) dh data path s := by
  rw [loopCalls, hread]
  dsimp only
  rw [hdots, if_neg Bool.false_ne_true]
  simp only [decide_eq_true_eq]
  exact List.mem_cons_self

/-- INTERNAL: **one round of the `readdir` loop**: the entry is walked, and the loop goes on behind it,
with the stream that was kept open or with one that was opened again. Its calls are the first one and those
behind it.
SOURCE: dietlibc-ftw.patch:212-239 -/
theorem readLoop_entry (sys : System W D) (flags : Flags) (hchdir : flags.chdir = false) (p q : Bytes) (nopenfd : ℤ)
    (last : List Data) (walk : Bytes → ℤ → List Data → State W → Option (ℤ × State W)) (V V₁ : Finset FtwNode)
    (report : ℤ → ℕ → List Event) (de : Dirent) (hdots : isDots de.dName = false)
    (ok : ℤ → List Data → State W → Prop) (hwalk : Walks flags ok V V₁ report (walk q)) (es pre rest : List Dirent)
    (hserves : Serves sys p es) (hes : es = pre ++ de :: rest) (fuel : ℕ) (dh : D)
    (hdh : Yields sys dh (de :: rest)) (data : Data) (path : Bytes) (s : State W)
    (hok : ∀ dh₁ w, sys.readdir dh s.world = (some de, dh₁, w) →
      ok (nopenfd - 1) (callFor sys p nopenfd last de dh₁ data path { s with world := w }).last
        (callFor sys p nopenfd last de dh₁ data path { s with world := w }).state)
    (hopen : 1 < nopenfd → data.fd ≠ 0) (hcstr : cstr (strncpy path (p.length + 1) de.dName) = q)
    (hlist : flags.phys = false → Visited s.ftwList V) (hchain : Chain flags (data :: last) V) :
    ∃ dh₁ w dh₂ data₂ s₂, sys.readdir dh s.world = (some de, dh₁, w) ∧
      readLoop sys flags p (p.length + 1) nopenfd last walk (fuel + 1) dh data path s =
        readLoop sys flags p (p.length + 1) nopenfd last walk fuel dh₂ data₂
          (strncpy path (p.length + 1) de.dName) s₂ ∧
      loopCalls sys flags p (p.length + 1) nopenfd last walk (fuel + 1) dh data path s =
        callFor sys p nopenfd last de dh₁ data path { s with world := w } ::
          loopCalls sys flags p (p.length + 1) nopenfd last walk fuel dh₂ data₂
            (strncpy path (p.length + 1) de.dName) s₂ ∧
      Yields sys dh₂ rest ∧ (data₂ = data ∨ ∃ dh₃, data₂ = { data with fd := sys.fd dh₃ }) ∧
      Walked flags s s₂ V₁ (report s.level s.base) := by
  obtain ⟨dh₁, w, hread, hrest⟩ := hdh s.world
  have hworld := walked_world flags s V w hlist
  have hallowed := hok dh₁ w hread
  unfold callFor at hallowed
  by_cases hfull : nopenfd ≤ 1
  · -- the stream is closed before the recursion and opened again behind it
    rw [if_pos hfull, if_pos hfull] at hallowed
    have hclose := walked_close sys flags dh₁ { s with world := w } V hlist
    obtain ⟨s₁, hw, hwalked⟩ := hwalk (nopenfd - 1) ({ data with fd := 0 } :: last)
      (closeStream sys dh₁ { s with world := w }) hallowed hclose.list (by
        intro hphys d hd
        rcases List.mem_cons.mp hd with rfl | hd
        · exact hchain hphys data List.mem_cons_self
        · exact hchain hphys d (List.mem_cons_of_mem _ hd))
    obtain ⟨dh₂, w₂, hopen, -, hseek⟩ := hserves s₁.world
    have hopened := walked_open sys flags p s₁ V₁ hwalked.list
    refine ⟨dh₁, w, sys.seekdir dh₂ de.dOff, ⟨data.node, sys.fd dh₂, data.len⟩, (openStream sys p s₁).2, hread, ?_,
      ?_, hseek pre de rest hes, Or.inr ⟨dh₂, rfl⟩, ?_⟩
    · rw [readLoop]
      simp only [hread, hdots, hcstr, decide_eq_true hfull, if_true, hw, ne_eq, not_true_eq_false, if_false,
        hchdir, Bool.false_eq_true]
      rw [openStream_eq sys p s₁ (some dh₂) w₂ hopen]
    · unfold callFor
      rw [if_pos hfull, if_pos hfull, loopCalls]
      simp only [hread, hdots, hcstr, decide_eq_true hfull, if_true, hw, ne_eq, not_true_eq_false, if_false,
        hchdir, Bool.false_eq_true]
      rw [openStream_eq sys p s₁ (some dh₂) w₂ hopen]
    · have hall := ((hworld.trans hclose).trans hwalked).trans hopened
      simpa [hclose.level, hclose.base] using hall
  · rw [if_neg hfull, if_neg hfull] at hallowed
    have hfd := hopen (by omega)
    obtain ⟨s₁, hw, hwalked⟩ := hwalk (nopenfd - 1) (data :: last) { s with world := w } hallowed hlist hchain
    refine ⟨dh₁, w, dh₁, data, s₁, hread, ?_, ?_, hrest, Or.inl rfl, ?_⟩
    · rw [readLoop]
      simp only [hread, hdots, hcstr, decide_eq_false hfull, Bool.false_eq_true, if_false, hw, ne_eq,
        not_true_eq_false, hfd]
    · unfold callFor
      rw [if_neg hfull, if_neg hfull, loopCalls]
      simp only [hread, hdots, hcstr, decide_eq_false hfull, Bool.false_eq_true, if_false, hw, ne_eq,
        not_true_eq_false, hfd]
    · exact hworld.trans hwalked

/-- What the `readdir` loop of a directory does, from a state on in which it is allowed. -/
def Loops (sys : System W D) (flags : Flags) (ok : D → Data → Bytes → State W → Prop) (es : List Dirent)
    (V V' : Finset FtwNode) (report : ℤ → ℕ → List Event)
    (loop : D → Data → Bytes → State W → Option (LoopEnd D × State W)) (last : List Data) : Prop :=
  ∀ dh data path s, Yields sys dh es → ok dh data path s →
    (flags.phys = false → Visited s.ftwList V) → Chain flags (data :: last) V →
    ∃ dh' s', loop dh data path s = some (.done (some dh') 0, s') ∧
      Walked flags s s' V' (report s.level s.base)

/-- INTERNAL: the end of a directory.
SOURCE: dietlibc-ftw.patch:212 -/
theorem readLoop_nil (sys : System W D) (flags : Flags) (here : Bytes) (n : ℕ) (nopenfd : ℤ) (last : List Data)
    (walk : Bytes → ℤ → List Data → State W → Option (ℤ × State W)) (V : Finset FtwNode) (fuel : ℕ)
    (ok : D → Data → Bytes → State W → Prop) :
    Loops sys flags ok [] V V (fun _ _ => []) (readLoop sys flags here n nopenfd last walk (fuel + 1)) last := by
  intro dh data path s hdh _ hlist _
  obtain ⟨dh', w, hread⟩ := hdh s.world
  refine ⟨dh', { s with world := w }, ?_, walked_world flags s V w hlist⟩
  rw [readLoop]
  simp only [hread]

/-- The state in which the loop of a directory begins.
SOURCE: dietlibc-ftw.patch:205-207 -/
def inside (p : Bytes) (st : Stat) (s : State W) : State W :=
  { s with level := s.level + 1, base := p.length + 1 }.log (.entered st.node)

/-- The state in front of the entries: the callback was made, or is made behind them.
SOURCE: dietlibc-ftw.patch:168-171 -/
def beforeLoop (fn : Callback W) (conf : Conf) (p : Bytes) (st : Stat) (s : State W) : State W :=
  if conf.flags.depth then s else (callback fn p st .D s).2

section Dir

variable (sys : System W D) (conf : Conf) (hchdir : conf.flags.chdir = false) (p : Bytes) (st : Stat)
  (hstay : ¬(conf.flags.mount = true ∧ conf.basedev ≠ st.node.dev)) (nopenfd : ℤ) (last : List Data)
  (walk : Bytes → ℤ → List Data → State W → Option (ℤ × State W)) (fuel : ℕ)

include hchdir hstay

/-- INTERNAL: the calls from the check for loops on are those of the loop.
SOURCE: dietlibc-ftw.patch:156-239 -/
theorem visitCalls_eq (fn : Callback W) (hfn : ∀ c w, (fn c w).1 = 0) (dh : D) (s : State W)
    (hanc : isAncestor conf.flags st last = false) :
    visitCalls sys fn conf p p .D st nopenfd last walk fuel (some dh) s =
      loopCalls sys conf.flags p (p.length + 1) nopenfd last walk fuel dh ⟨st.node, sys.fd dh, 0⟩
        (pathBuffer (sys.stack (beforeLoop fn conf p st s).world) p) (inside p st (beforeLoop fn conf p st s)) := by
  have hdescend : ∀ s, descendCalls sys conf p p st nopenfd last walk fuel dh s =
      loopCalls sys conf.flags p (p.length + 1) nopenfd last walk fuel dh ⟨st.node, sys.fd dh, 0⟩
        (pathBuffer (sys.stack s.world) p) (inside p st s) := by
    intro s
    unfold descendCalls goDown
    rw [if_neg hstay, hchdir]
    rfl
  unfold visitCalls beforeLoop
  rw [hanc, if_neg Bool.false_ne_true]
  cases hdepth : conf.flags.depth with
  | true =>
    simp only [if_true]
    exact hdescend s
  | false =>
    have hzero : (callback fn p st .D s).1 = 0 := hfn _ _
    simp only [Bool.false_eq_true, if_false, hzero, if_true]
    exact hdescend _

variable (V V' : Finset FtwNode) (es : List Dirent) (report : ℤ → ℕ → List Event)
  (ok : D → Data → Bytes → State W → Prop)
  (hloop : Loops sys conf.flags ok es V V' report
    (readLoop sys conf.flags p (p.length + 1) nopenfd last walk fuel) last)

include hloop

/-- INTERNAL: the part for the entries of a directory restores depth and offset.
SOURCE: dietlibc-ftw.patch:171-257 -/
theorem descend_dir (dh : D) (hdh : Yields sys dh es) (s : State W)
    (hok : ok dh ⟨st.node, sys.fd dh, 0⟩ (pathBuffer (sys.stack s.world) p) (inside p st s))
    (hlist : conf.flags.phys = false → Visited s.ftwList V) (hchain : Chain conf.flags last V)
    (hmem : conf.flags.phys = false → st.node ∈ V) :
    ∃ dh' s', descend sys conf p p st nopenfd last walk fuel dh s = some (.done (some dh') 0, s') ∧
      Walked conf.flags s s' V' (.entered st.node :: report (s.level + 1) (p.length + 1)) := by
  have hgoDown : goDown sys conf.flags p last s = (some 0, s) := by
    unfold goDown
    rw [hchdir]
    rfl
  have hgoBack : ∀ s : State W, goBack sys conf.flags last s = (true, s) := by
    intro s
    unfold goBack
    rw [hchdir]
  obtain ⟨dh', s', hrun, hwalked⟩ := hloop dh ⟨st.node, sys.fd dh, 0⟩ (pathBuffer (sys.stack s.world) p)
    (inside p st s) hdh hok hlist (by
      intro hphys d hd
      rcases List.mem_cons.mp hd with rfl | hd
      · exact hmem hphys
      · exact hchain hphys d hd)
  refine ⟨dh', { s' with base := s.base, level := s'.level - 1 }, ?_, ?_⟩
  · unfold inside at hrun
    unfold descend
    rw [if_neg hstay]
    simp only [hgoDown, hrun, hgoBack]
  · refine ⟨?_, rfl, hwalked.list, hwalked.same, ?_⟩
    · have hlevel : s'.level = s.level + 1 := hwalked.level
      show s'.level - 1 = s.level
      omega
    · show observed s'.events = _
      rw [hwalked.events]
      show observed (s.events ++ [.entered st.node]) ++ _ = _
      rw [observed_append, List.append_assoc]
      rfl

/-- INTERNAL: a directory is reported before or behind its entries.
SOURCE: dietlibc-ftw.patch:156-268 -/
theorem visit_dir (fn : Callback W) (hfn : ∀ c w, (fn c w).1 = 0) (dh : D) (hdh : Yields sys dh es) (s : State W)
    (hok : ok dh ⟨st.node, sys.fd dh, 0⟩ (pathBuffer (sys.stack (beforeLoop fn conf p st s).world) p)
      (inside p st (beforeLoop fn conf p st s)))
    (hlist : conf.flags.phys = false → Visited s.ftwList V) (hchain : Chain conf.flags last V)
    (hmem : conf.flags.phys = false → st.node ∈ V) (hanc : isAncestor conf.flags st last = false) :
    ∃ s', visit sys fn conf p p .D st nopenfd last walk fuel (some dh) s = some (0, s') ∧
      Walked conf.flags s s' V' (dirReport conf.flags.depth p st s.level s.base
        (report (s.level + 1) (p.length + 1))) := by
  unfold beforeLoop at hok
  unfold visit dirReport
  rw [hanc]
  cases hdepth : conf.flags.depth with
  | true =>
    rw [hdepth, if_pos rfl] at hok
    obtain ⟨dh', s₁, hrun, hwalked⟩ := descend_dir sys conf hchdir p st hstay nopenfd last walk fuel V V'
      es report ok hloop dh hdh s hok hlist hchain hmem
    obtain ⟨hzero, hcall⟩ := callback_zero fn hfn conf.flags p st .DP s₁ V' hwalked.list
    refine ⟨cleanup sys (some dh') (callback fn p st .DP s₁).2, ?_, ?_⟩
    · simp only [Bool.false_eq_true, if_false, if_true, hrun]
      unfold conclude
      simp only [hdepth, and_self, if_true, hzero]
    · have hend := (hwalked.trans hcall).trans (walked_cleanup sys conf.flags (some dh') _ V' hcall.list)
      rw [hwalked.level, hwalked.base, List.append_nil] at hend
      exact hend
  | false =>
    rw [hdepth, if_neg Bool.false_ne_true] at hok
    obtain ⟨hzero, hcall⟩ := callback_zero fn hfn conf.flags p st .D s V hlist
    obtain ⟨dh', s₁, hrun, hwalked⟩ := descend_dir sys conf hchdir p st hstay nopenfd last walk fuel V V'
      es report ok hloop dh hdh (callback fn p st .D s).2 hok hcall.list hchain hmem
    refine ⟨cleanup sys (some dh') s₁, ?_, ?_⟩
    · simp only [Bool.false_eq_true, if_false, hzero, if_true, hrun]
      unfold conclude
      simp only [hdepth, Bool.false_eq_true, and_false, if_false]
    · have hend := (hcall.trans hwalked).trans (walked_cleanup sys conf.flags (some dh') _ V' hwalked.list)
      rw [hcall.level, List.append_nil] at hend
      exact hend

end Dir

/-! ## Directories and their entries -/

section Run

set_option linter.unusedSectionVars false

variable (sys : System W D) (fn : Callback W) (conf : Conf)

/-- `walker` at a path does what is said, given enough rounds, if its calls go well. -/
def WalksTo (p : Bytes) (V V' : Finset FtwNode) (report : ℤ → ℕ → List Event) : Prop :=
  ∃ N, ∀ fuel, N ≤ fuel →
    Walks conf.flags (Careful sys fn conf fuel p) V V' report (walker sys fn conf fuel p)

/-- The loop of a directory may go on: the buffer holds the path of the directory, and the calls go well. -/
structure LoopCareful (p : Bytes) (nopenfd : ℤ) (last : List Data) (f g : ℕ) (dh : D) (data : Data) (path : Bytes)
    (s : State W) : Prop where
  buffer : PathBuffer path p
  calls : ∀ c ∈ loopCalls sys conf.flags p (p.length + 1) nopenfd last (walker sys fn conf g) f dh data path s,
    c.GoesWell p ∧ Careful sys fn conf g (cstr c.buffer) c.nopenfd c.last c.state

/-- The loop of the directory at a path does what is said for its last entries, given enough rounds, if its
calls go well. -/
def LoopsTo (p : Bytes) (es : List Dirent) (V V' : Finset FtwNode) (report : ℤ → ℕ → List Event) : Prop :=
  ∃ N, ∀ f g, N ≤ f → N ≤ g → ∀ nopenfd last all pre, Serves sys p all → all = pre ++ es →
    Loops sys conf.flags (LoopCareful sys fn conf p nopenfd last f g) es V V' report
      (readLoop sys conf.flags p (p.length + 1) nopenfd last (walker sys fn conf g) f) last

variable (hfn : ∀ c w, (fn c w).1 = 0) (halloc : conf.flags.phys = false → Allocates sys)
  (hchdir : conf.flags.chdir = false)

include hfn halloc hchdir

/-- INTERNAL: the beginning of `walker` on a directory that is met for the first time: its stream is open.
SOURCE: dietlibc-ftw.patch:101-154 -/
theorem walker_arrives (p : Bytes) (st : Stat) (es : List Dirent) (V : Finset FtwNode)
    (hshow : Shows sys conf.flags p .D st) (hserves : Serves sys p es)
    (hnew : conf.flags.phys = false → st.node ∉ V) (f : ℕ) (nopenfd : ℤ) (last : List Data) (s : State W)
    (hlist : conf.flags.phys = false → Visited s.ftwList V) :
    ∃ dh s₁, walker sys fn conf (f + 1) p nopenfd last s =
        visit sys fn conf p p .D st nopenfd last (walker sys fn conf f) f (some dh) s₁ ∧
      walkCalls sys fn conf (walker sys fn conf f) f p nopenfd last s =
        visitCalls sys fn conf p p .D st nopenfd last (walker sys fn conf f) f (some dh) s₁ ∧
      Yields sys dh es ∧ Walked conf.flags s s₁ (mark conf.flags V st) [] := by
  obtain ⟨w, hw⟩ := hshow s.world
  obtain ⟨s₁, hprep, hmarked⟩ := prepare_new sys conf.flags halloc p st { s with world := w } V hlist hnew
  obtain ⟨dh, w₁, hopen, hdh, -⟩ := hserves s₁.world
  have hopened := walked_open sys conf.flags p s₁ _ hmarked.list
  refine ⟨dh, (openStream sys p s₁).2, ?_, ?_, hdh,
    ((walked_world conf.flags s V w hlist).trans hmarked).trans hopened⟩
  · rw [walker]
    simp only [hchdir, Bool.false_eq_true, if_false, hw, hprep]
    rw [openStream_eq sys p s₁ (some dh) w₁ hopen]
    rfl
  · unfold walkCalls
    simp only [hchdir, Bool.false_eq_true, if_false, hw, hprep]
    rw [openStream_eq sys p s₁ (some dh) w₁ hopen]
    rfl

/-- INTERNAL: `walker` on a directory that is met for the first time, given what its loop does.
SOURCE: dietlibc-ftw.patch:101-269 -/
theorem walker_dir (p : Bytes) (st : Stat) (hstay : ¬(conf.flags.mount = true ∧ conf.basedev ≠ st.node.dev))
    (es : List Dirent) (V V' : Finset FtwNode)
    (report : ℤ → ℕ → List Event) (hshow : Shows sys conf.flags p .D st) (hserves : Serves sys p es)
    (hnew : conf.flags.phys = false → st.node ∉ V) (f : ℕ) (nopenfd : ℤ) (last : List Data)
    (ok : D → Data → Bytes → State W → Prop)
    (hloop : Loops sys conf.flags ok es (mark conf.flags V st) V' report
      (readLoop sys conf.flags p (p.length + 1) nopenfd last (walker sys fn conf f) f) last)
    (s : State W)
    (hok : ∀ dh s₁, walkCalls sys fn conf (walker sys fn conf f) f p nopenfd last s =
        loopCalls sys conf.flags p (p.length + 1) nopenfd last (walker sys fn conf f) f dh ⟨st.node, sys.fd dh, 0⟩
          (pathBuffer (sys.stack s₁.world) p) (inside p st s₁) →
      ok dh ⟨st.node, sys.fd dh, 0⟩ (pathBuffer (sys.stack s₁.world) p) (inside p st s₁))
    (hlist : conf.flags.phys = false → Visited s.ftwList V) (hchain : Chain conf.flags last V) :
    ∃ s', walker sys fn conf (f + 1) p nopenfd last s = some (0, s') ∧
      Walked conf.flags s s' V' (dirReport conf.flags.depth p st s.level s.base
        (report (s.level + 1) (p.length + 1))) := by
  have hanc := isAncestor_eq_false conf.flags st last V hchain hnew
  obtain ⟨dh, s₁, hwalker, hcalls, hdh, hmarked⟩ := walker_arrives sys fn conf hfn halloc hchdir p st es V hshow
    hserves hnew f nopenfd last s hlist
  rw [visitCalls_eq sys conf hchdir p st hstay nopenfd last _ f fn hfn dh s₁ hanc] at hcalls
  obtain ⟨s', hrun, hwalked⟩ := visit_dir sys conf hchdir p st hstay nopenfd last (walker sys fn conf f) f
    (mark conf.flags V st) V' es report ok hloop fn hfn dh hdh s₁ (hok dh _ hcalls) hmarked.list
    (hchain.mono (subset_mark conf.flags V st)) (mem_mark conf.flags V st) hanc
  refine ⟨s', hwalker.trans hrun, ?_⟩
  have hend := hmarked.trans hwalked
  rw [hmarked.level, hmarked.base] at hend
  exact hend

/-- INTERNAL: a directory that is met for the first time.
SOURCE: dietlibc-ftw.patch:101-269 -/
theorem walksTo_dir (p : Bytes) (st : Stat) (hstay : ¬(conf.flags.mount = true ∧ conf.basedev ≠ st.node.dev))
    (es : List Dirent) (V V' : Finset FtwNode) (report : ℤ → ℕ → List Event)
    (hshow : Shows sys conf.flags p .D st) (hserves : Serves sys p es)
    (hnew : conf.flags.phys = false → st.node ∉ V)
    (hloop : LoopsTo sys fn conf p es (mark conf.flags V st) V' report) :
    WalksTo sys fn conf p V V' fun level base =>
      dirReport conf.flags.depth p st level base (report (level + 1) (p.length + 1)) := by
  obtain ⟨N, hN⟩ := hloop
  refine ⟨N + 1, ?_⟩
  intro fuel hfuel nopenfd last s hcareful hlist hchain
  obtain ⟨f, rfl⟩ : ∃ f, fuel = f + 1 := ⟨fuel - 1, by omega⟩
  exact walker_dir sys fn conf hfn halloc hchdir p st hstay es V V' report hshow hserves hnew f nopenfd last _
    (hN f f (by omega) (by omega) nopenfd last es [] hserves rfl) s
    (fun dh s₁ hcalls => ⟨pathBuffer_pathBuffer (sys.stack s₁.world) p, fun c hc => hcareful c (hcalls ▸ hc)⟩)
    hlist hchain

/-- INTERNAL: a file that is no directory, or cannot be read.
SOURCE: dietlibc-ftw.patch:116-169 -/
theorem walksTo_leaf (p : Bytes) (st : Stat) (type : FtwType) (V V' : Finset FtwNode)
    (hnew : conf.flags.phys = false → st.node ∉ V)
    (hshown : Shows sys conf.flags p type st ∧ type ≠ .D ∧ V' = V ∨
      Shows sys conf.flags p .D st ∧ Locked sys p ∧ type = .DNR ∧ V' = mark conf.flags V st) (fuel : ℕ)
    (hfuel : 1 ≤ fuel) :
    Walks conf.flags (fun _ _ _ => True) V V' (fun level base => [.call ⟨p, st, type, level, base⟩])
      (walker sys fn conf fuel p) := by
  intro nopenfd last s _ hlist hchain
  obtain ⟨f, rfl⟩ : ∃ f, fuel = f + 1 := ⟨fuel - 1, by omega⟩
  have hanc := isAncestor_eq_false conf.flags st last V hchain hnew
  rw [walker]
  simp only [hchdir, Bool.false_eq_true, if_false]
  rcases hshown with ⟨hshow, htype, rfl⟩ | ⟨hshow, hlocked, rfl, rfl⟩
  · obtain ⟨w, hw⟩ := hshow s.world
    obtain ⟨s', hrun, hwalked⟩ := visit_leaf sys fn hfn conf p p type htype st nopenfd last
      (walker sys fn conf f) f { s with world := w } V' hlist hanc
    refine ⟨s', ?_, (walked_world conf.flags s V' w hlist).trans hwalked⟩
    rw [hw]
    cases type with
    | D => exact absurd rfl htype
    | F | DNR | NS | SL | DP | SLN => exact hrun
  · obtain ⟨w, hw⟩ := hshow s.world
    obtain ⟨s₁, hprep, hmarked⟩ := prepare_new sys conf.flags halloc p st { s with world := w } V hlist hnew
    obtain ⟨w₁, hopen⟩ := hlocked s₁.world
    have hopened := walked_open sys conf.flags p s₁ _ hmarked.list
    obtain ⟨s', hrun, hwalked⟩ := visit_leaf sys fn hfn conf p p .DNR (by decide) st nopenfd last
      (walker sys fn conf f) f (openStream sys p s₁).2 _ hopened.list hanc
    refine ⟨s', ?_, ?_⟩
    · rw [hw]
      simp only [hprep]
      rw [openStream_eq sys p s₁ none w₁ hopen]
      exact hrun
    · have hend := ((walked_world conf.flags s V w hlist).trans hmarked).trans (hopened.trans hwalked)
      rw [hopened.level, hopened.base, hmarked.level, hmarked.base] at hend
      exact hend

omit hfn halloc hchdir in
/-- INTERNAL: what always holds also holds where the calls go well. -/
theorem WalksTo.of_walks {p : Bytes} {V V' : Finset FtwNode} {report : ℤ → ℕ → List Event}
    (h : ∀ fuel, 1 ≤ fuel → Walks conf.flags (fun _ _ _ => True) V V' report (walker sys fn conf fuel p)) :
    WalksTo sys fn conf p V V' report :=
  ⟨1, fun fuel hfuel nopenfd last s _ => h fuel hfuel nopenfd last s trivial⟩

/-- INTERNAL: a directory that was visited before.
SOURCE: dietlibc-ftw.patch:142-144 -/
theorem walksTo_seen (p : Bytes) (st : Stat) (V : Finset FtwNode) (hphys : conf.flags.phys = false)
    (hseen : st.node ∈ V) (hshow : Shows sys conf.flags p .D st) (fuel : ℕ) (hfuel : 1 ≤ fuel) :
    Walks conf.flags (fun _ _ _ => True) V V (fun _ _ => []) (walker sys fn conf fuel p) := by
  intro nopenfd last s _ hlist hchain
  obtain ⟨f, rfl⟩ : ∃ f, fuel = f + 1 := ⟨fuel - 1, by omega⟩
  obtain ⟨w, hw⟩ := hshow s.world
  refine ⟨{ s with world := w }, ?_, walked_world conf.flags s V w hlist⟩
  rw [walker]
  simp only [hchdir, Bool.false_eq_true, if_false, hw]
  rw [prepare_seen sys conf.flags p st { s with world := w } V hphys (hlist hphys) hseen]

/-- INTERNAL: the end of a directory. -/
theorem loopsTo_nil (p : Bytes) (V : Finset FtwNode) : LoopsTo sys fn conf p [] V V fun _ _ => [] := by
  refine ⟨1, ?_⟩
  intro f g hf _ nopenfd last es pre _ _
  obtain ⟨f, rfl⟩ : ∃ n, f = n + 1 := ⟨f - 1, by omega⟩
  exact readLoop_nil sys conf.flags p (p.length + 1) nopenfd last (walker sys fn conf g) V f _

omit hfn halloc hchdir in
/-- INTERNAL: the calls behind `.` and `..`.
SOURCE: dietlibc-ftw.patch:215-218 -/
theorem loopCalls_dots (p : Bytes) (nopenfd : ℤ) (last : List Data) (f g : ℕ) (dh dh₁ : D) (data : Data)
    (path : Bytes) (s : State W) (de : Dirent) (w : W) (hdots : isDots de.dName = true)
    (hread : sys.readdir dh s.world = (some de, dh₁, w)) :
    loopCalls sys conf.flags p (p.length + 1) nopenfd last (walker sys fn conf g) (f + 1) dh data path s =
      loopCalls sys conf.flags p (p.length + 1) nopenfd last (walker sys fn conf g) f dh₁ data path
        { s with world := w } := by
  rw [loopCalls]
  simp only [hread, hdots, if_true]

/-- INTERNAL: the entries `.` and `..` are left out.
SOURCE: dietlibc-ftw.patch:215-218 -/
theorem loopsTo_dots (p : Bytes) (de : Dirent) (hdots : isDots de.dName = true) (es : List Dirent)
    (V V' : Finset FtwNode) (report : ℤ → ℕ → List Event) (hrest : LoopsTo sys fn conf p es V V' report) :
    LoopsTo sys fn conf p (de :: es) V V' report := by
  obtain ⟨N, hN⟩ := hrest
  refine ⟨N + 1, ?_⟩
  intro f g hf hg nopenfd last all pre hserves hall dh data path s hdh hcareful hlist hchain
  obtain ⟨f, rfl⟩ : ∃ n, f = n + 1 := ⟨f - 1, by omega⟩
  obtain ⟨dh₁, w, hread, hrest⟩ := hdh s.world
  have hcalls := loopCalls_dots sys fn conf p nopenfd last f g dh dh₁ data path s de w hdots hread
  obtain ⟨dh', s', hrun, hwalked⟩ := hN f g (by omega) (by omega) nopenfd last all (pre ++ [de]) hserves
    (by rw [hall, List.append_assoc]; rfl) dh₁ data path { s with world := w } hrest
    ⟨hcareful.buffer, hcalls ▸ hcareful.calls⟩ hlist hchain
  refine ⟨dh', s', ?_, (walked_world conf.flags s V w hlist).trans hwalked⟩
  rw [readLoop]
  simp only [hread, hdots, if_true, hrun]

omit hfn halloc hchdir in
/-- INTERNAL: a call that goes well gets the path of its entry.
SOURCE: dietlibc-ftw.patch:220 -/
theorem cstr_of_goesWell (p path : Bytes) (nopenfd : ℤ) (last : List Data) (de : Dirent) (dh : D) (data : Data)
    (s : State W) (hp : (0 : UInt8) ∉ p) (hname : FileName de.dName) (hpath : PathBuffer path p)
    (h : (callFor sys p nopenfd last de dh data path s).GoesWell p) :
    cstr (strncpy path (p.length + 1) de.dName) = child p de.dName := by
  apply cstr_strncpy path p de.dName hpath hp hname.noZero
  rcases h.fits with hshort | ⟨hfull, hstale⟩
  · exact Or.inl hshort
  · refine Or.inr ⟨hfull, ?_⟩
    rw [List.getD_eq_getElem?_getD] at hstale ⊢
    rw [← getElem?_strncpy path p de.dName hpath]
    exact hstale

omit hfn halloc hchdir in
/-- INTERNAL: a call that goes well leaves a stream that is not closed with another descriptor than 0. -/
theorem fd_ne_zero_of_goesWell (p path : Bytes) (nopenfd : ℤ) (last : List Data) (de : Dirent) (dh : D) (data : Data)
    (s : State W) (h : (callFor sys p nopenfd last de dh data path s).GoesWell p) : 1 < nopenfd → data.fd ≠ 0 := by
  intro hopen
  have hstream := h.stream (show 0 < nopenfd - 1 by omega) (if nopenfd ≤ 1 then { data with fd := 0 } else data) rfl
  rwa [if_neg (by omega)] at hstream

/-- INTERNAL: an entry and the entries behind it.
SOURCE: dietlibc-ftw.patch:212-239 -/
theorem loopsTo_entry (p : Bytes) (hp : (0 : UInt8) ∉ p) (de : Dirent) (hdots : isDots de.dName = false)
    (hname : FileName de.dName) (es : List Dirent) (V V₁ V' : Finset FtwNode) (hsub : V ⊆ V₁)
    (report rest : ℤ → ℕ → List Event) (ht : WalksTo sys fn conf (child p de.dName) V V₁ report)
    (hrest : LoopsTo sys fn conf p es V₁ V' rest) :
    LoopsTo sys fn conf p (de :: es) V V' fun level base => report level base ++ rest level base := by
  obtain ⟨N₁, hN₁⟩ := ht
  obtain ⟨N₂, hN₂⟩ := hrest
  refine ⟨N₁ + N₂ + 1, ?_⟩
  intro f g hf hg nopenfd last all pre hserves hall dh data path s hdh hcareful hlist hchain
  obtain ⟨f, rfl⟩ : ∃ n, f = n + 1 := ⟨f - 1, by omega⟩
  have hfirst : ∀ dh₁ w, sys.readdir dh s.world = (some de, dh₁, w) →
      (callFor sys p nopenfd last de dh₁ data path { s with world := w }).GoesWell p ∧
        Careful sys fn conf g (cstr (strncpy path (p.length + 1) de.dName)) (nopenfd - 1)
          (callFor sys p nopenfd last de dh₁ data path { s with world := w }).last
          (callFor sys p nopenfd last de dh₁ data path { s with world := w }).state := fun dh₁ w hread =>
    hcareful.calls _ (callFor_mem sys conf.flags p nopenfd last _ f dh dh₁ data path s de w hdots hread)
  obtain ⟨dh₀, w₀, hread₀, -⟩ := hdh s.world
  have hwell := (hfirst dh₀ w₀ hread₀).1
  have hcstr := cstr_of_goesWell sys p path nopenfd last de dh₀ data _ hp hname hcareful.buffer hwell
  rw [hcstr] at hfirst
  obtain ⟨dh₁, w, dh₂, data₂, s₂, hread, hstep, hcalls, hdh₂, hdata, hwalked⟩ :=
    readLoop_entry sys conf.flags hchdir p (child p de.dName) nopenfd last (walker sys fn conf g) V V₁ _ de
      hdots _ (hN₁ g (by omega)) all pre es hserves hall f dh hdh data path s
      (fun dh₁ w hread => (hfirst dh₁ w hread).2)
      (fd_ne_zero_of_goesWell sys p path nopenfd last de dh₀ data _ hwell) hcstr hlist hchain
  have hnode : data₂.node = data.node := by
    obtain rfl | ⟨dh₃, rfl⟩ := hdata <;> rfl
  have hchain₂ : Chain conf.flags (data₂ :: last) V₁ := by
    intro hphys d hd
    apply hsub
    rcases List.mem_cons.mp hd with rfl | hd
    · exact hnode ▸ hchain hphys data List.mem_cons_self
    · exact hchain hphys d (List.mem_cons_of_mem _ hd)
  obtain ⟨dh', s', hrun, hwalked'⟩ := hN₂ f g (by omega) (by omega) nopenfd last all (pre ++ [de]) hserves
    (by rw [hall, List.append_assoc]; rfl) dh₂ data₂ _ s₂ hdh₂
    ⟨hcareful.buffer.strncpy de.dName, fun c hc => hcareful.calls c (hcalls ▸ List.mem_cons_of_mem _ hc)⟩
    hwalked.list hchain₂
  refine ⟨dh', s', hstep.trans hrun, ?_⟩
  have hend := hwalked.trans hwalked'
  rw [hwalked.level, hwalked.base] at hend
  exact hend

/-! ## Directories whose calls go well -/

/-- The calls of a walk at a path go well, given enough rounds. -/
def StaysCareful (p : Bytes) (V : Finset FtwNode) : Prop :=
  ∃ N, ∀ fuel, N ≤ fuel → ∀ nopenfd last s, (1 < nopenfd → NeverZero sys) →
    (conf.flags.phys = false → Visited s.ftwList V) → Chain conf.flags last V →
    Careful sys fn conf fuel p nopenfd last s

/-- The calls for the last entries of the directory at a path go well, given enough rounds. -/
def LoopStaysCareful (p : Bytes) (es : List Dirent) (V : Finset FtwNode) : Prop :=
  ∃ N, ∀ f g, N ≤ f → N ≤ g → ∀ nopenfd last all pre, (1 < nopenfd → NeverZero sys) → Serves sys p all →
    all = pre ++ es → ∀ dh data path s, Yields sys dh es → (1 < nopenfd → data.fd ≠ 0) → PathBuffer path p →
      (conf.flags.phys = false → Visited s.ftwList V) → Chain conf.flags (data :: last) V →
      LoopCareful sys fn conf p nopenfd last f g dh data path s

/-- INTERNAL: nothing is called for a file that is no directory, or cannot be read.
SOURCE: dietlibc-ftw.patch:116-171 -/
theorem staysCareful_leaf (p : Bytes) (st : Stat) (type : FtwType) (V V' : Finset FtwNode)
    (hnew : conf.flags.phys = false → st.node ∉ V)
    (hshown : Shows sys conf.flags p type st ∧ type ≠ .D ∧ V' = V ∨
      Shows sys conf.flags p .D st ∧ Locked sys p ∧ type = .DNR ∧ V' = mark conf.flags V st) :
    StaysCareful sys fn conf p V := by
  refine ⟨1, ?_⟩
  intro fuel hfuel nopenfd last s _ hlist _
  obtain ⟨f, rfl⟩ : ∃ f, fuel = f + 1 := ⟨fuel - 1, by omega⟩
  suffices hnone : walkCalls sys fn conf (walker sys fn conf f) f p nopenfd last s = [] by
    intro c hc
    rw [hnone] at hc
    exact absurd hc List.not_mem_nil
  unfold walkCalls
  simp only [hchdir, Bool.false_eq_true, if_false]
  rcases hshown with ⟨hshow, htype, -⟩ | ⟨hshow, hlocked, -, -⟩
  · obtain ⟨w, hw⟩ := hshow s.world
    rw [hw]
    cases type with
    | D => exact absurd rfl htype
    | F | DNR | NS | SL | DP | SLN => rfl
  · obtain ⟨w, hw⟩ := hshow s.world
    obtain ⟨s₁, hprep, -⟩ := prepare_new sys conf.flags halloc p st { s with world := w } V hlist hnew
    obtain ⟨w₁, hopen⟩ := hlocked s₁.world
    rw [hw]
    simp only [hprep]
    rw [openStream_eq sys p s₁ none w₁ hopen]
    unfold visitCalls
    split_ifs <;> rfl

/-- INTERNAL: nothing is called for a directory that was visited before.
SOURCE: dietlibc-ftw.patch:142-144 -/
theorem staysCareful_seen (p : Bytes) (st : Stat) (V : Finset FtwNode) (hphys : conf.flags.phys = false)
    (hseen : st.node ∈ V) (hshow : Shows sys conf.flags p .D st) : StaysCareful sys fn conf p V := by
  refine ⟨1, ?_⟩
  intro fuel hfuel nopenfd last s _ hlist _
  obtain ⟨f, rfl⟩ : ∃ f, fuel = f + 1 := ⟨fuel - 1, by omega⟩
  obtain ⟨w, hw⟩ := hshow s.world
  intro c hc
  unfold walkCalls at hc
  simp only [hchdir, Bool.false_eq_true, if_false, hw] at hc
  rw [prepare_seen sys conf.flags p st { s with world := w } V hphys (hlist hphys) hseen] at hc
  exact absurd hc List.not_mem_nil

/-- INTERNAL: a directory, given its entries.
SOURCE: dietlibc-ftw.patch:101-239 -/
theorem staysCareful_dir (p : Bytes) (st : Stat) (hstay : ¬(conf.flags.mount = true ∧ conf.basedev ≠ st.node.dev))
    (es : List Dirent) (V : Finset FtwNode) (hshow : Shows sys conf.flags p .D st) (hserves : Serves sys p es)
    (hnew : conf.flags.phys = false → st.node ∉ V)
    (hloop : LoopStaysCareful sys fn conf p es (mark conf.flags V st)) : StaysCareful sys fn conf p V := by
  obtain ⟨N, hN⟩ := hloop
  refine ⟨N + 1, ?_⟩
  intro fuel hfuel nopenfd last s hfds hlist hchain
  obtain ⟨f, rfl⟩ : ∃ f, fuel = f + 1 := ⟨fuel - 1, by omega⟩
  obtain ⟨dh, s₁, -, hcalls, hdh, hmarked⟩ := walker_arrives sys fn conf hfn halloc hchdir p st es V hshow
    hserves hnew f nopenfd last s hlist
  rw [visitCalls_eq sys conf hchdir p st hstay nopenfd last _ f fn hfn dh s₁
    (isAncestor_eq_false conf.flags st last V hchain hnew)] at hcalls
  have hbefore : (beforeLoop fn conf p st s₁).ftwList = s₁.ftwList := by
    unfold beforeLoop
    split_ifs <;> rfl
  have hgood := hN f f (by omega) (by omega) nopenfd last es [] hfds hserves rfl dh
    ⟨st.node, sys.fd dh, 0⟩ (pathBuffer (sys.stack (beforeLoop fn conf p st s₁).world) p)
    (inside p st (beforeLoop fn conf p st s₁)) hdh (fun hmany => hfds hmany dh) (pathBuffer_pathBuffer _ p)
    (fun hphys => hbefore ▸ hmarked.list hphys) (by
      intro hphys d hd
      rcases List.mem_cons.mp hd with rfl | hd
      · exact mem_mark conf.flags V st hphys
      · exact hchain.mono (subset_mark conf.flags V st) hphys d hd)
  intro c hc
  exact hgood.calls c (hcalls ▸ hc)

/-- INTERNAL: an entry with a short name, and the entries behind it.
SOURCE: dietlibc-ftw.patch:212-239 -/
theorem loopStaysCareful_entry (p : Bytes) (hp : (0 : UInt8) ∉ p) (de : Dirent) (hdots : isDots de.dName = false)
    (hname : NameFits de.dName) (es : List Dirent) (V V₁ : Finset FtwNode) (hsub : V ⊆ V₁)
    (report : ℤ → ℕ → List Event) (hwalk : WalksTo sys fn conf (child p de.dName) V V₁ report)
    (ht : StaysCareful sys fn conf (child p de.dName) V) (hrest : LoopStaysCareful sys fn conf p es V₁) :
    LoopStaysCareful sys fn conf p (de :: es) V := by
  obtain ⟨N₀, hN₀⟩ := hwalk
  obtain ⟨N₁, hN₁⟩ := ht
  obtain ⟨N₂, hN₂⟩ := hrest
  refine ⟨N₀ + N₁ + N₂ + 1, ?_⟩
  intro f g hf hg nopenfd last all pre hfds hserves hall dh data path s hdh hfd hpath hlist hchain
  obtain ⟨f, rfl⟩ : ∃ n, f = n + 1 := ⟨f - 1, by omega⟩
  obtain ⟨hcstr, hpath₂⟩ := strncpy_cstr path p de.dName hpath hp hname
  have hcall : ∀ dh₁ w, Careful sys fn conf g (child p de.dName) (nopenfd - 1)
      (callFor sys p nopenfd last de dh₁ data path { s with world := w }).last
      (callFor sys p nopenfd last de dh₁ data path { s with world := w }).state := by
    intro dh₁ w
    unfold callFor
    split_ifs
    · exact hN₁ g (by omega) _ _ _ (fun hmany => hfds (by omega)) hlist (by
        intro hphys d hd
        rcases List.mem_cons.mp hd with rfl | hd
        · exact hchain hphys data List.mem_cons_self
        · exact hchain hphys d (List.mem_cons_of_mem _ hd))
    · exact hN₁ g (by omega) _ _ _ (fun hmany => hfds (by omega)) hlist hchain
  obtain ⟨dh₁, w, dh₂, data₂, s₂, -, -, hcalls, hdh₂, hdata, hwalked⟩ :=
    readLoop_entry sys conf.flags hchdir p (child p de.dName) nopenfd last (walker sys fn conf g) V V₁ _ de
      hdots _ (hN₀ g (by omega)) all pre es hserves hall f dh hdh data path s (fun dh₁ w _ => hcall dh₁ w)
      hfd hcstr hlist hchain
  have hnode : data₂.node = data.node ∧ (1 < nopenfd → data₂.fd ≠ 0) := by
    obtain rfl | ⟨dh₃, rfl⟩ := hdata
    · exact ⟨rfl, hfd⟩
    · exact ⟨rfl, fun hmany => hfds hmany dh₃⟩
  have hchain₂ : Chain conf.flags (data₂ :: last) V₁ := by
    intro hphys d hd
    apply hsub
    rcases List.mem_cons.mp hd with rfl | hd
    · exact hnode.1 ▸ hchain hphys data List.mem_cons_self
    · exact hchain hphys d (List.mem_cons_of_mem _ hd)
  have hrest := hN₂ f g (by omega) (by omega) nopenfd last all (pre ++ [de]) hfds hserves
    (by rw [hall, List.append_assoc]; rfl) dh₂ data₂ _ s₂ hdh₂ hnode.2 hpath₂ hwalked.list hchain₂
  refine ⟨hpath, ?_⟩
  intro c hc
  rw [hcalls] at hc
  rcases List.mem_cons.mp hc with rfl | hc
  · refine ⟨⟨Or.inl hname.short, ?_⟩, ?_⟩
    · intro hpos d hd
      have hpos : 0 < nopenfd - 1 := hpos
      have hd : d ∈ some (if nopenfd ≤ 1 then { data with fd := 0 } else data) := hd
      rw [if_neg (by omega), Option.mem_some_iff] at hd
      exact hd ▸ hfd (by omega)
    · show Careful sys fn conf g (cstr (strncpy path (p.length + 1) de.dName)) _ _ _
      rw [hcstr]
      exact hcall dh₁ w
  · exact hrest.calls c hc

/-- INTERNAL: no call is made at the end of a directory.
SOURCE: dietlibc-ftw.patch:212 -/
theorem loopStaysCareful_nil (p : Bytes) (V : Finset FtwNode) : LoopStaysCareful sys fn conf p [] V := by
  refine ⟨1, ?_⟩
  intro f g hf _ nopenfd last all pre _ _ _ dh data path s hdh _ hpath _ _
  obtain ⟨f, rfl⟩ : ∃ n, f = n + 1 := ⟨f - 1, by omega⟩
  obtain ⟨dh', w, hread⟩ := hdh s.world
  refine ⟨hpath, ?_⟩
  intro c hc
  rw [loopCalls, hread] at hc
  exact absurd hc List.not_mem_nil

/-- INTERNAL: no call is made for `.` and `..`.
SOURCE: dietlibc-ftw.patch:215-218 -/
theorem loopStaysCareful_dots (p : Bytes) (de : Dirent) (hdots : isDots de.dName = true) (es : List Dirent)
    (V : Finset FtwNode) (hrest : LoopStaysCareful sys fn conf p es V) :
    LoopStaysCareful sys fn conf p (de :: es) V := by
  obtain ⟨N, hN⟩ := hrest
  refine ⟨N + 1, ?_⟩
  intro f g hf hg nopenfd last all pre hfds hserves hall dh data path s hdh hfd hpath hlist hchain
  obtain ⟨f, rfl⟩ : ∃ n, f = n + 1 := ⟨f - 1, by omega⟩
  obtain ⟨dh₁, w, hread, hrest⟩ := hdh s.world
  have hgood := hN f g (by omega) (by omega) nopenfd last all (pre ++ [de]) hfds hserves
    (by rw [hall, List.append_assoc]; rfl) dh₁ data path { s with world := w } hrest hfd hpath hlist hchain
  exact ⟨hpath, loopCalls_dots sys fn conf p nopenfd last f g dh dh₁ data path s de w hdots hread ▸ hgood.calls⟩

/-! ## Whole trees -/

variable (hmount : conf.flags.mount = false)

include hmount

mutual

/-- **`walker` reports the tree that it meets** if its calls go well, in a bounded number of steps and
whatever the number of descriptors.
SOURCE: dietlibc-ftw.patch:101-269 -/
theorem walker_tree : (t : Tree) → (p : Bytes) → (V V' : Finset FtwNode) → (0 : UInt8) ∉ p →
    t.Met sys conf.flags p V V' →
    WalksTo sys fn conf p V V' fun level base => t.report conf.flags.depth p level base
  | .leaf st type, p, V, V', hp, hmet => by
    rw [Tree.Met] at hmet
    exact WalksTo.of_walks sys fn conf
      (walksTo_leaf sys fn conf hfn halloc hchdir p st type V V' hmet.1 hmet.2)
  | .seen st, p, V, V', hp, hmet => by
    rw [Tree.Met] at hmet
    obtain ⟨hphys, hseen, hshow, rfl⟩ := hmet
    exact WalksTo.of_walks sys fn conf (walksTo_seen sys fn conf hfn halloc hchdir p st V' hphys hseen hshow)
  | .dir st l, p, V, V', hp, hmet => by
    rw [Tree.Met] at hmet
    obtain ⟨hnew, hshow, hserves, hl⟩ := hmet
    exact walksTo_dir sys fn conf hfn halloc hchdir p st (by simp [hmount]) l.dirents V V' _ hshow hserves hnew
      (readLoop_listing l p (mark conf.flags V st) V' hp hl)

/-- INTERNAL: the `readdir` loop reports the entries that it meets.
SOURCE: dietlibc-ftw.patch:212-239 -/
theorem readLoop_listing : (l : Listing) → (p : Bytes) → (V V' : Finset FtwNode) → (0 : UInt8) ∉ p →
    l.Met sys conf.flags p V V' →
    LoopsTo sys fn conf p l.dirents V V' fun level base => l.report conf.flags.depth p level base
  | .nil, p, V, V', hp, hmet => by
    rw [Listing.Met] at hmet
    subst hmet
    exact loopsTo_nil sys fn conf hfn halloc hchdir p V'
  | .dots de rest, p, V, V', hp, hmet => by
    rw [Listing.Met] at hmet
    exact loopsTo_dots sys fn conf hfn halloc hchdir p de hmet.1 rest.dirents V V' _
      (readLoop_listing rest p V V' hp hmet.2)
  | .entry de t rest, p, V, V', hp, hmet => by
    rw [Listing.Met] at hmet
    obtain ⟨hdots, hname, V₁, ht, hrest⟩ := hmet
    exact loopsTo_entry sys fn conf hfn halloc hchdir p hp de hdots hname rest.dirents V V₁ V'
      (Tree.Met.subset ht) _ _ (walker_tree t (child p de.dName) V V₁ (zero_notMem_child p _ hp hname.noZero) ht)
      (readLoop_listing rest p V₁ V' hp hrest)

end

mutual

/-- **All calls go well** where the names are short, if no stream stays open or none has descriptor 0.
SOURCE: dietlibc-ftw.patch:101-269 -/
theorem careful_tree : (t : Tree) → (p : Bytes) → (V V' : Finset FtwNode) → (0 : UInt8) ∉ p →
    t.NamesFit → t.Met sys conf.flags p V V' → StaysCareful sys fn conf p V
  | .leaf st type, p, V, V', hp, _, hmet => by
    rw [Tree.Met] at hmet
    exact staysCareful_leaf sys fn conf hfn halloc hchdir p st type V V' hmet.1 hmet.2
  | .seen st, p, V, V', hp, _, hmet => by
    rw [Tree.Met] at hmet
    obtain ⟨hphys, hseen, hshow, rfl⟩ := hmet
    exact staysCareful_seen sys fn conf hfn halloc hchdir p st V' hphys hseen hshow
  | .dir st l, p, V, V', hp, hfit, hmet => by
    rw [Tree.NamesFit] at hfit
    rw [Tree.Met] at hmet
    obtain ⟨hnew, hshow, hserves, hl⟩ := hmet
    exact staysCareful_dir sys fn conf hfn halloc hchdir p st (by simp [hmount]) l.dirents V hshow hserves hnew
      (careful_listing l p (mark conf.flags V st) V' hp hfit hl)

/-- INTERNAL: all calls for the entries go well. -/
theorem careful_listing : (l : Listing) → (p : Bytes) → (V V' : Finset FtwNode) → (0 : UInt8) ∉ p →
    l.NamesFit → l.Met sys conf.flags p V V' → LoopStaysCareful sys fn conf p l.dirents V
  | .nil, p, V, V', hp, _, hmet => loopStaysCareful_nil sys fn conf hfn halloc hchdir p V
  | .dots de rest, p, V, V', hp, hfit, hmet => by
    rw [Listing.NamesFit] at hfit
    rw [Listing.Met] at hmet
    exact loopStaysCareful_dots sys fn conf hfn halloc hchdir p de hmet.1 rest.dirents V
      (careful_listing rest p V V' hp hfit hmet.2)
  | .entry de t rest, p, V, V', hp, hfit, hmet => by
    rw [Listing.NamesFit] at hfit
    rw [Listing.Met] at hmet
    obtain ⟨hshort, htree, hbehind⟩ := hfit
    obtain ⟨hdots, hname, V₁, ht, hrest⟩ := hmet
    have hchild := zero_notMem_child p _ hp hname.noZero
    exact loopStaysCareful_entry sys fn conf hfn halloc hchdir p hp de hdots ⟨hname, hshort⟩
      rest.dirents V V₁ (Tree.Met.subset ht) _
      (walker_tree sys fn conf hfn halloc hchdir hmount t (child p de.dName) V V₁ hchild ht)
      (careful_tree t (child p de.dName) V V₁ hchild htree ht) (careful_listing rest p V₁ V' hp hbehind hrest)

end

/-- **A walk with short names and descriptors other than 0** reports the tree that it meets.
SOURCE: dietlibc-ftw.patch:101-269 -/
theorem walker_reports (hfds : NeverZero sys) (t : Tree) (p : Bytes) (V V' : Finset FtwNode)
    (hp : (0 : UInt8) ∉ p) (hfit : t.NamesFit) (hmet : t.Met sys conf.flags p V V') :
    ∃ N, ∀ fuel, N ≤ fuel → Walks conf.flags (fun _ _ _ => True) V V'
      (fun level base => t.report conf.flags.depth p level base) (walker sys fn conf fuel p) := by
  obtain ⟨N, hN⟩ := walker_tree sys fn conf hfn halloc hchdir hmount t p V V' hp hmet
  obtain ⟨M, hM⟩ := careful_tree sys fn conf hfn halloc hchdir hmount t p V V' hp hfit hmet
  refine ⟨N + M, ?_⟩
  intro fuel hfuel nopenfd last s _ hlist hchain
  exact hN fuel (by omega) nopenfd last s (hM fuel (by omega) nopenfd last s (fun _ => hfds) hlist hchain) hlist hchain

end Run

end TTLinux.Analysis.FtwWalk
