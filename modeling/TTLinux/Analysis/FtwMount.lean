import TTLinux.Analysis.FtwStart

/-!
# A walk that stays on its device

With `FTW_MOUNT` a directory on another device than the start is not entered. The test stands between the report
before the entries and the one behind them, and ends the call: with `FTW_DEPTH` such a directory is not
reported at all.
-/

set_option autoImplicit false

namespace TTLinux.Analysis.FtwMount

open TTLinux.Lib
open TTLinux.Model.Ftw
open TTLinux.Analysis.FtwCalls
open TTLinux.Analysis.FtwStart
open TTLinux.Analysis.FtwStreams (mountSystem)
open TTLinux.Analysis.FtwTable
open TTLinux.Analysis.FtwTree
open TTLinux.Analysis.FtwVisited
open TTLinux.Analysis.FtwWalk

variable {W D : Type}

/-! ## What is on the device -/

/-- A file that is met: its path, and whether it is a directory that can be read. -/
structure Met where
  path : Bytes
  st : Stat
  isDir : Bool

mutual

/-- The files that are met: the start, and the entries of the directories on the device. -/
def met (dev : ℕ) (p : Bytes) : Tree → List Met
  | .leaf st _ => [⟨p, st, false⟩]
  | .seen _ => []
  | .dir st l => ⟨p, st, true⟩ :: if st.node.dev = dev then entriesMet dev p l else []

/-- The files that are met among the entries of a directory and below them. -/
def entriesMet (dev : ℕ) (p : Bytes) : Listing → List Met
  | .nil => []
  | .dots _ rest => entriesMet dev p rest
  | .entry de t rest => met dev (child p de.dName) t ++ entriesMet dev p rest

end

/-- A mount point: a directory on another device. -/
def Met.isMount (dev : ℕ) (f : Met) : Bool := f.isDir && decide (f.st.node.dev ≠ dev)

/-- A directory on the device. -/
def Met.isHome (dev : ℕ) (f : Met) : Bool := f.isDir && decide (f.st.node.dev = dev)

/-- The directories that are entered. -/
def enteredNodes (events : List Event) : List FtwNode :=
  events.filterMap fun
    | .entered node => some node
    | _ => none

/-- INTERNAL: the directories that are entered in two parts. -/
theorem enteredNodes_append (a b : List Event) : enteredNodes (a ++ b) = enteredNodes a ++ enteredNodes b :=
  List.filterMap_append

/-- INTERNAL: opening and closing streams enters none. -/
theorem enteredNodes_observed (events : List Event) : enteredNodes (observed events) = enteredNodes events := by
  induction events with
  | nil => rfl
  | cons e es ih =>
    unfold observed enteredNodes at ih ⊢
    cases e <;> simp [ih]

/-- The reported paths. -/
def reportedPaths (events : List Event) : List Bytes := (calls events).map Call.path

/-- INTERNAL: the paths that are reported in two parts. -/
theorem reportedPaths_append (a b : List Event) : reportedPaths (a ++ b) = reportedPaths a ++ reportedPaths b := by
  unfold reportedPaths
  rw [calls_append, List.map_append]

/-- **What a walk with `FTW_MOUNT` should do**: exactly the directories on the device are entered, and every file
that is met is reported once. -/
structure StaysOnDevice (dev : ℕ) (start : Bytes) (t : Tree) (events : List Event) : Prop where
  entered : (enteredNodes events).Perm (((met dev start t).filter (Met.isHome dev)).map fun f => f.st.node)
  reported : (reportedPaths events).Perm ((met dev start t).map Met.path)

/-! ## What is done -/

mutual

/-- What `walker` does with `FTW_MOUNT`: a mount point is reported before its entries, or not at all. -/
def mountReport (dev : ℕ) (depth : Bool) (p : Bytes) (level : ℤ) (base : ℕ) : Tree → List Event
  | .leaf st type => [.call ⟨p, st, type, level, base⟩]
  | .seen _ => []
  | .dir st l =>
    if st.node.dev = dev then
      dirReport depth p st level base (entriesMountReport dev depth p (level + 1) (p.length + 1) l)
    else if depth then []
    else [.call ⟨p, st, .D, level, base⟩]

/-- What is done for the entries of a directory. -/
def entriesMountReport (dev : ℕ) (depth : Bool) (p : Bytes) (level : ℤ) (base : ℕ) : Listing → List Event
  | .nil => []
  | .dots _ rest => entriesMountReport dev depth p level base rest
  | .entry de t rest =>
    mountReport dev depth (child p de.dName) level base t ++ entriesMountReport dev depth p level base rest

end

section Run

variable (sys : System W D) (fn : Callback W) (hfn : ∀ c w, (fn c w).1 = 0) (dev : ℕ) (depth : Bool)

include hfn

omit hfn in
/-- INTERNAL: a directory that can be read is opened.
SOURCE: dietlibc-ftw.patch:116-154 -/
theorem prepare_readable (p : Bytes) (st : Stat) (hst : Lstats sys p st) (hkind : st.kind = .dir)
    (es : List Dirent) (hserves : Serves sys p es) (s : State W) :
    ∃ w dh s₁, classify sys ⟨true, true, false, depth⟩ p s.world = (some (.D, st), w) ∧
      prepare sys ⟨true, true, false, depth⟩ p st { s with world := w } = some (.ready (some dh), s₁) ∧
      Walked ⟨true, true, false, depth⟩ s s₁ ∅ [] := by
  have hshow := shows_of_lstats sys ⟨true, true, false, depth⟩ rfl p st hst
  rw [hkind] at hshow
  obtain ⟨w, hw⟩ := hshow s.world
  obtain ⟨dh, w₁, hopen, -, -⟩ := hserves w
  have hopened := walked_open sys ⟨true, true, false, depth⟩ p { s with world := w } ∅ (by simp)
  have hworld := walked_world ⟨true, true, false, depth⟩ s ∅ w (by simp)
  refine ⟨w, dh, (openStream sys p { s with world := w }).2, hw, ?_, hworld.trans hopened⟩
  unfold prepare
  rw [if_pos rfl]
  dsimp only
  rw [openStream_eq sys p { s with world := w } (some dh) w₁ hopen]

/-- INTERNAL: **a mount point**: it is reported before its entries, and the call ends.
SOURCE: dietlibc-ftw.patch:168-178 -/
theorem walksTo_mount (p : Bytes) (st : Stat) (hst : Lstats sys p st) (hkind : st.kind = .dir)
    (hdev : st.node.dev ≠ dev) (es : List Dirent) (hserves : Serves sys p es) (fuel : ℕ) (hfuel : 1 ≤ fuel) :
    Walks ⟨true, true, false, depth⟩ (fun _ _ _ => True) ∅ ∅
      (fun level base => if depth then [] else [.call ⟨p, st, .D, level, base⟩])
      (walker sys fn ⟨⟨true, true, false, depth⟩, dev⟩ fuel p) := by
  intro nopenfd last s _ _ hchain
  obtain ⟨f, rfl⟩ : ∃ f, fuel = f + 1 := ⟨fuel - 1, by omega⟩
  obtain ⟨w, dh, s₁, hw, hprep, hopened⟩ := prepare_readable sys depth p st hst hkind es hserves s
  have hleave : ∀ s : State W, descend sys ⟨⟨true, true, false, depth⟩, dev⟩ p p st nopenfd last
      (walker sys fn ⟨⟨true, true, false, depth⟩, dev⟩ f) f dh s = some (.leave, s) := by
    intro s
    unfold descend
    rw [if_pos ⟨rfl, hdev.symm⟩]
  rw [walker]
  simp only [Bool.false_eq_true, if_false, hw, hprep]
  unfold visit isAncestor
  cases depth with
  | true =>
    refine ⟨s₁, ?_, hopened⟩
    simp [hleave]
  | false =>
    obtain ⟨hzero, hcall⟩ := callback_zero fn hfn ⟨true, true, false, false⟩ p st .D s₁ ∅ hopened.list
    refine ⟨(callback fn p st .D s₁).2, ?_, ?_⟩
    · simp [hleave, hzero]
    · have hend := hopened.trans hcall
      rw [hopened.level, hopened.base] at hend
      exact hend

omit hfn in
/-- INTERNAL: nothing is called for the entries of a mount point.
SOURCE: dietlibc-ftw.patch:168-178 -/
theorem staysCareful_mount (p : Bytes) (st : Stat) (hst : Lstats sys p st) (hkind : st.kind = .dir)
    (hdev : st.node.dev ≠ dev) (es : List Dirent) (hserves : Serves sys p es) :
    StaysCareful sys fn ⟨⟨true, true, false, depth⟩, dev⟩ p ∅ := by
  refine ⟨1, ?_⟩
  intro fuel hfuel nopenfd last s _ _ _
  obtain ⟨f, rfl⟩ : ∃ f, fuel = f + 1 := ⟨fuel - 1, by omega⟩
  obtain ⟨w, dh, s₁, hw, hprep, -⟩ := prepare_readable sys depth p st hst hkind es hserves s
  have hnone : ∀ s : State W, descendCalls sys ⟨⟨true, true, false, depth⟩, dev⟩ p p st nopenfd last
      (walker sys fn ⟨⟨true, true, false, depth⟩, dev⟩ f) f dh s = [] := by
    intro s
    unfold descendCalls
    rw [if_pos ⟨rfl, hdev.symm⟩]
  intro c hc
  unfold walkCalls at hc
  simp only [Bool.false_eq_true, if_false, hw, hprep] at hc
  unfold visitCalls at hc
  simp only [hnone, ite_self] at hc
  exact absurd hc List.not_mem_nil

mutual

/-- INTERNAL: **`walker` with `FTW_MOUNT`** on a tree.
SOURCE: dietlibc-ftw.patch:101-269 -/
theorem walksTo_mounted : (t : Tree) → (p : Bytes) → (0 : UInt8) ∉ p → Stands sys p t →
    WalksTo sys fn ⟨⟨true, true, false, depth⟩, dev⟩ p ∅ ∅ fun level base => mountReport dev depth p level base t
  | .leaf st type, p, hp, h => by
    have hmet := met_of_stands sys ⟨true, true, false, depth⟩ rfl ∅ (.leaf st type) p h
    rw [Tree.Met] at hmet
    simp only [mountReport]
    exact WalksTo.of_walks sys fn _ (walksTo_leaf sys fn _ hfn (by simp) rfl p st type ∅ ∅ hmet.1 hmet.2)
  | .seen st, p, hp, h => by
    rw [Stands] at h
    exact h.elim
  | .dir st l, p, hp, h => by
    rw [Stands] at h
    obtain ⟨hst, hkind, hserves, hl⟩ := h
    simp only [mountReport]
    by_cases hdev : st.node.dev = dev
    · have hshow : Shows sys ⟨true, true, false, depth⟩ p .D st := by
        have hshows := shows_of_lstats sys ⟨true, true, false, depth⟩ rfl p st hst
        rwa [hkind] at hshows
      simp only [if_pos hdev]
      exact walksTo_dir sys fn _ hfn (by simp) rfl p st (by simp [hdev]) l.dirents ∅ ∅ _ hshow hserves (by simp)
        (loopsTo_mounted l p hp hl)
    · simp only [if_neg hdev]
      exact WalksTo.of_walks sys fn _ (walksTo_mount sys fn hfn dev depth p st hst hkind hdev l.dirents hserves)

/-- INTERNAL: the loop of a directory with `FTW_MOUNT`.
SOURCE: dietlibc-ftw.patch:212-239 -/
theorem loopsTo_mounted : (l : Listing) → (p : Bytes) → (0 : UInt8) ∉ p → EntriesStand sys p l →
    LoopsTo sys fn ⟨⟨true, true, false, depth⟩, dev⟩ p l.dirents ∅ ∅ fun level base =>
      entriesMountReport dev depth p level base l
  | .nil, p, hp, h => by
    simp only [entriesMountReport]
    exact loopsTo_nil sys fn _ hfn (by simp) rfl p ∅
  | .dots de rest, p, hp, h => by
    rw [EntriesStand] at h
    simp only [entriesMountReport]
    exact loopsTo_dots sys fn _ hfn (by simp) rfl p de h.1 rest.dirents ∅ ∅ _ (loopsTo_mounted rest p hp h.2)
  | .entry de t rest, p, hp, h => by
    rw [EntriesStand] at h
    obtain ⟨hdots, hname, ht, hrest⟩ := h
    simp only [entriesMountReport]
    exact loopsTo_entry sys fn _ hfn (by simp) rfl p hp de hdots hname rest.dirents ∅ ∅ ∅ (Finset.Subset.refl _)
      _ _ (walksTo_mounted t _ (zero_notMem_child p _ hp hname.noZero) ht) (loopsTo_mounted rest p hp hrest)

end

mutual

/-- INTERNAL: all calls go well where the names are short, if no stream stays open or none has descriptor 0.
SOURCE: dietlibc-ftw.patch:101-269 -/
theorem careful_mounted : (t : Tree) → (p : Bytes) → (0 : UInt8) ∉ p → t.NamesFit → Stands sys p t →
    StaysCareful sys fn ⟨⟨true, true, false, depth⟩, dev⟩ p ∅
  | .leaf st type, p, hp, _, h => by
    have hmet := met_of_stands sys ⟨true, true, false, depth⟩ rfl ∅ (.leaf st type) p h
    rw [Tree.Met] at hmet
    exact staysCareful_leaf sys fn _ hfn (by simp) rfl p st type ∅ ∅ hmet.1 hmet.2
  | .seen st, p, hp, _, h => by
    rw [Stands] at h
    exact h.elim
  | .dir st l, p, hp, hfit, h => by
    rw [Tree.NamesFit] at hfit
    rw [Stands] at h
    obtain ⟨hst, hkind, hserves, hl⟩ := h
    by_cases hdev : st.node.dev = dev
    · have hshow := shows_of_lstats sys ⟨true, true, false, depth⟩ rfl p st hst
      rw [hkind] at hshow
      exact staysCareful_dir sys fn _ hfn (by simp) rfl p st (by simp [hdev]) l.dirents ∅ hshow hserves (by simp)
        (carefulEntries_mounted l p hp hfit hl)
    · exact staysCareful_mount sys fn dev depth p st hst hkind hdev l.dirents hserves

/-- INTERNAL: all calls for the entries of a directory go well. -/
theorem carefulEntries_mounted : (l : Listing) → (p : Bytes) → (0 : UInt8) ∉ p → l.NamesFit → EntriesStand sys p l →
    LoopStaysCareful sys fn ⟨⟨true, true, false, depth⟩, dev⟩ p l.dirents ∅
  | .nil, p, hp, _, _ => loopStaysCareful_nil sys fn _ hfn (by simp) rfl p ∅
  | .dots de rest, p, hp, hfit, h => by
    rw [Listing.NamesFit] at hfit
    rw [EntriesStand] at h
    exact loopStaysCareful_dots sys fn _ hfn (by simp) rfl p de h.1 rest.dirents ∅
      (carefulEntries_mounted rest p hp hfit h.2)
  | .entry de t rest, p, hp, hfit, h => by
    rw [Listing.NamesFit] at hfit
    rw [EntriesStand] at h
    obtain ⟨hshort, htree, hbehind⟩ := hfit
    obtain ⟨hdots, hname, ht, hrest⟩ := h
    have hchild := zero_notMem_child p _ hp hname.noZero
    exact loopStaysCareful_entry sys fn _ hfn (by simp) rfl p hp de hdots ⟨hname, hshort⟩ rest.dirents ∅ ∅
      (Finset.Subset.refl _) _ (walksTo_mounted sys fn hfn dev depth t _ hchild ht)
      (careful_mounted t _ hchild htree ht) (carefulEntries_mounted rest p hp hbehind hrest)

end

end Run

/-! ## The files that are reported -/

/-- The files that are reported: with `FTW_DEPTH` all but the mount points. -/
def isReported (dev : ℕ) (depth : Bool) (f : Met) : Bool := !depth || !f.isMount dev

/-- INTERNAL: a directory is reported once, before or behind its entries. -/
theorem reportedPaths_dir (depth : Bool) (p : Bytes) (st : Stat) (level : ℤ) (base : ℕ) (entries : List Event) :
    (reportedPaths (dirReport depth p st level base entries)).Perm (p :: reportedPaths entries) := by
  unfold dirReport
  cases depth with
  | true =>
    rw [if_pos rfl, ← List.singleton_append, List.append_assoc, reportedPaths_append, reportedPaths_append]
    exact List.perm_append_singleton p (reportedPaths entries)
  | false => exact List.Perm.refl _

/-- INTERNAL: and entered once. -/
theorem enteredNodes_dir (depth : Bool) (p : Bytes) (st : Stat) (level : ℤ) (base : ℕ) (entries : List Event) :
    enteredNodes (dirReport depth p st level base entries) = st.node :: enteredNodes entries := by
  unfold dirReport
  cases depth with
  | true =>
    rw [if_pos rfl, enteredNodes_append]
    exact List.append_nil _
  | false => rfl

mutual

/-- INTERNAL: the paths that are reported for a tree. -/
theorem reportedPaths_mountReport (dev : ℕ) (depth : Bool) : (t : Tree) → (p : Bytes) → (level : ℤ) → (base : ℕ) →
    (reportedPaths (mountReport dev depth p level base t)).Perm
      (((met dev p t).filter (isReported dev depth)).map Met.path)
  | .leaf st type, p, level, base => by
    rw [mountReport, met]
    simp [isReported, Met.isMount, reportedPaths, calls]
  | .seen st, p, level, base => by
    rw [mountReport, met]
    exact List.Perm.refl _
  | .dir st l, p, level, base => by
    rw [mountReport, met]
    by_cases hdev : st.node.dev = dev
    · rw [if_pos hdev, if_pos hdev]
      have hhome : isReported dev depth ⟨p, st, true⟩ = true := by simp [isReported, Met.isMount, hdev]
      rw [List.filter_cons_of_pos hhome, List.map_cons]
      exact (reportedPaths_dir depth p st level base _).trans
        ((reportedPaths_entries dev depth l p (level + 1) (p.length + 1)).cons p)
    · rw [if_neg hdev, if_neg hdev]
      cases depth with
      | true =>
        simp [isReported, Met.isMount, hdev, reportedPaths, calls]
      | false =>
        simp [isReported, reportedPaths, calls]

/-- INTERNAL: the paths that are reported for the entries of a directory. -/
theorem reportedPaths_entries (dev : ℕ) (depth : Bool) : (l : Listing) → (p : Bytes) → (level : ℤ) → (base : ℕ) →
    (reportedPaths (entriesMountReport dev depth p level base l)).Perm
      (((entriesMet dev p l).filter (isReported dev depth)).map Met.path)
  | .nil, p, level, base => by
    rw [entriesMountReport, entriesMet]
    exact List.Perm.refl _
  | .dots de rest, p, level, base => by
    rw [entriesMountReport, entriesMet]
    exact reportedPaths_entries dev depth rest p level base
  | .entry de t rest, p, level, base => by
    rw [entriesMountReport, entriesMet, reportedPaths_append, List.filter_append, List.map_append]
    exact (reportedPaths_mountReport dev depth t (child p de.dName) level base).append
      (reportedPaths_entries dev depth rest p level base)

end

mutual

/-- INTERNAL: the directories that are entered in a tree are those on the device. -/
theorem enteredNodes_mountReport (dev : ℕ) (depth : Bool) : (t : Tree) → (p : Bytes) → (level : ℤ) → (base : ℕ) →
    enteredNodes (mountReport dev depth p level base t) =
      ((met dev p t).filter (Met.isHome dev)).map fun f => f.st.node
  | .leaf st type, p, level, base => by
    rw [mountReport, met]
    rfl
  | .seen st, p, level, base => by
    rw [mountReport, met]
    rfl
  | .dir st l, p, level, base => by
    rw [mountReport, met]
    by_cases hdev : st.node.dev = dev
    · have hhome : Met.isHome dev ⟨p, st, true⟩ = true := by simp [Met.isHome, hdev]
      rw [if_pos hdev, if_pos hdev, List.filter_cons_of_pos hhome, List.map_cons, enteredNodes_dir,
        enteredNodes_entries dev depth l p (level + 1) (p.length + 1)]
    · have hhome : ¬Met.isHome dev ⟨p, st, true⟩ = true := by simp [Met.isHome, hdev]
      rw [if_neg hdev, if_neg hdev, List.filter_cons_of_neg hhome]
      cases depth <;> rfl

/-- INTERNAL: the directories that are entered among the entries of a directory. -/
theorem enteredNodes_entries (dev : ℕ) (depth : Bool) : (l : Listing) → (p : Bytes) → (level : ℤ) → (base : ℕ) →
    enteredNodes (entriesMountReport dev depth p level base l) =
      ((entriesMet dev p l).filter (Met.isHome dev)).map fun f => f.st.node
  | .nil, p, level, base => by
    rw [entriesMountReport, entriesMet]
    rfl
  | .dots de rest, p, level, base => by
    rw [entriesMountReport, entriesMet]
    exact enteredNodes_entries dev depth rest p level base
  | .entry de t rest, p, level, base => by
    rw [entriesMountReport, entriesMet, enteredNodes_append, List.filter_append, List.map_append,
      enteredNodes_mountReport dev depth t (child p de.dName) level base,
      enteredNodes_entries dev depth rest p level base]

end

/-! ## `nftw` -/

/-- All calls of a walk with `FTW_MOUNT` go well, which `nftw` begins behind its `stat` of the start.
SOURCE: dietlibc-ftw.patch:293-344 -/
def NftwCareful (sys : System W D) (fn : Callback W) (fuel : ℕ) (dir : Bytes) (nopenfd : ℤ) (depth : Bool) (dev : ℕ)
    (w : W) : Prop :=
  Careful sys fn ⟨⟨true, true, false, depth⟩, dev⟩ fuel (trimmed dir) nopenfd []
    ⟨(sys.stat dir w).2, 0, nameOffset (trimmed dir), .empty, [], []⟩

/-- INTERNAL: what `nftw` does with `FTW_MOUNT`.
SOURCE: dietlibc-ftw.patch:101-358 -/
theorem nftw_mounted (sys : System W D) (fn : Callback W) (hfn : ∀ c w, (fn c w).1 = 0) (depth : Bool)
    (dir : Bytes) (hzero : (0 : UInt8) ∉ dir) (dev : ℕ)
    (hstat : ∀ w, ∃ st w', sys.stat dir w = (.ok st, w') ∧ st.node.dev = dev) (t : Tree)
    (ht : Stands sys (trimmed dir) t) :
    ∃ N, ∀ fuel, N ≤ fuel → ∀ nopenfd w, NftwCareful sys fn fuel dir nopenfd depth dev w → ∃ s,
      nftw sys fn fuel dir nopenfd ⟨true, true, false, depth⟩ w = some (0, s) ∧
        enteredNodes s.events = ((met dev (trimmed dir) t).filter (Met.isHome dev)).map (fun f => f.st.node) ∧
        (reportedPaths s.events).Perm (((met dev (trimmed dir) t).filter (isReported dev depth)).map Met.path) := by
  have htrim := zero_notMem_trimmed dir hzero
  obtain ⟨N, hN⟩ := walksTo_mounted sys fn hfn dev depth t (trimmed dir) htrim ht
  refine ⟨N, ?_⟩
  intro fuel hfuel nopenfd w hcareful
  obtain ⟨st, w₁, hst, rfl⟩ := hstat w
  unfold NftwCareful at hcareful
  rw [hst] at hcareful
  obtain ⟨s, hrun, hwalked⟩ := hN fuel hfuel nopenfd [] _ hcareful (by simp) (by simp [Chain])
  have hevents : observed s.events = mountReport st.node.dev depth (trimmed dir) 0 (nameOffset (trimmed dir)) t :=
    hwalked.events
  refine ⟨s, ?_, ?_, ?_⟩
  · have hlist : s.ftwList.root = none := by
      rw [hwalked.same rfl]
      rfl
    rw [nftw_eq_walker sys fn fuel dir hzero nopenfd _ rfl w st w₁ hst]
    simp only [if_true, hrun, Option.bind_some]
    simp [nftw.destroy, hlist]
  · rw [← enteredNodes_observed, hevents, enteredNodes_mountReport]
  · unfold reportedPaths
    rw [← calls_observed, hevents]
    exact reportedPaths_mountReport st.node.dev depth t (trimmed dir) 0 _

/-- **A walk with `FTW_MOUNT` does the same with and without `FTW_DEPTH` exactly if it meets no mount point**, where the
calls of both walks go well: the directories on the device are entered, every file that is met is reported once, and
the reported paths are the same. The directories below the start are read without failures, whatever the number of
descriptors.
SOURCE: dietlibc-ftw.patch:168-269, 293-301 -/
theorem stays_on_device_iff (sys : System W D) (fn : Callback W) (hfn : ∀ c w, (fn c w).1 = 0) (dir : Bytes) (hzero : (0 : UInt8) ∉ dir) (dev : ℕ)
    (hstat : ∀ w, ∃ st w', sys.stat dir w = (.ok st, w') ∧ st.node.dev = dev) (t : Tree)
    (ht : Stands sys (trimmed dir) t) :
    ∃ N, ∀ fuel, N ≤ fuel → ∀ nopenfd w w', NftwCareful sys fn fuel dir nopenfd false dev w →
      NftwCareful sys fn fuel dir nopenfd true dev w' → ∃ s s',
      nftw sys fn fuel dir nopenfd ⟨true, true, false, false⟩ w = some (0, s) ∧
      nftw sys fn fuel dir nopenfd ⟨true, true, false, true⟩ w' = some (0, s') ∧
      ((StaysOnDevice dev (trimmed dir) t s.events ∧ StaysOnDevice dev (trimmed dir) t s'.events ∧
          ∀ p, p ∈ reportedPaths s.events ↔ p ∈ reportedPaths s'.events) ↔
        ∀ f ∈ met dev (trimmed dir) t, f.isDir = true → f.st.node.dev = dev) := by
  obtain ⟨N₁, hN₁⟩ := nftw_mounted sys fn hfn false dir hzero dev hstat t ht
  obtain ⟨N₂, hN₂⟩ := nftw_mounted sys fn hfn true dir hzero dev hstat t ht
  refine ⟨N₁ + N₂, ?_⟩
  intro fuel hfuel nopenfd w w' hcareful hcareful'
  obtain ⟨s, hrun, hentered, hreported⟩ := hN₁ fuel (by omega) nopenfd w hcareful
  obtain ⟨s', hrun', hentered', hreported'⟩ := hN₂ fuel (by omega) nopenfd w' hcareful'
  have hall : (met dev (trimmed dir) t).filter (isReported dev false) = met dev (trimmed dir) t := by
    rw [List.filter_eq_self]
    intro f _
    rfl
  rw [hall] at hreported
  refine ⟨s, s', hrun, hrun', ?_⟩
  constructor
  · rintro ⟨-, ⟨-, hboth⟩, -⟩ f hf hdir
    have hlength := (hreported'.symm.trans hboth).length_eq
    rw [List.length_map, List.length_map, List.length_filter_eq_length_iff] at hlength
    have hnot := hlength f hf
    simpa [isReported, Met.isMount, hdir] using hnot
  · intro hhome
    have hsame : (met dev (trimmed dir) t).filter (isReported dev true) = met dev (trimmed dir) t := by
      rw [List.filter_eq_self]
      intro f hf
      cases hdir : f.isDir with
      | true => simp [isReported, Met.isMount, hhome f hf hdir]
      | false => simp [isReported, Met.isMount, hdir]
    rw [hsame] at hreported'
    refine ⟨⟨hentered ▸ List.Perm.refl _, hreported⟩, ⟨hentered' ▸ List.Perm.refl _, hreported'⟩, ?_⟩
    intro p
    rw [hreported.mem_iff, hreported'.mem_iff]

/-- **With `FTW_DEPTH` a mount point is not reported**: the walk of `d`, which holds a mount point `m` and a file
`f`, reports all three in pre-order, and leaves `m` out in post-order. -/
theorem mount_point_unreported :
    (nftw mountSystem (fun _ w => (0, w)) 10 (ascii ['d']) 3 ⟨true, true, false, false⟩ ()).map
        (fun p => (p.1, reportedPaths p.2.events)) =
      some (0, [ascii ['d'], ascii ['d', '/', 'm'], ascii ['d', '/', 'f']]) ∧
    (nftw mountSystem (fun _ w => (0, w)) 10 (ascii ['d']) 3 ⟨true, true, false, true⟩ ()).map
        (fun p => (p.1, reportedPaths p.2.events)) =
      some (0, [ascii ['d', '/', 'f'], ascii ['d']]) := by
  refine ⟨?_, ?_⟩
  · decide +kernel
  · decide +kernel

/-- INTERNAL: the calls of the walks of the small tree go well. -/
theorem sampleTree_careful (depth : Bool) :
    ∃ N, ∀ fuel, N ≤ fuel → ∀ nopenfd w,
      NftwCareful sampleSystem (fun _ w => (0, w)) fuel (ascii ['d']) nopenfd depth 1 w := by
  obtain ⟨N, hN⟩ := careful_mounted sampleSystem (fun _ w => (0, w)) (fun _ _ => rfl) 1 depth sampleTree (ascii ['d'])
    (by decide) sampleTree_namesFit sampleTree_stands
  refine ⟨N, ?_⟩
  intro fuel hfuel nopenfd w
  exact hN fuel hfuel nopenfd [] _ (fun _ => neverZero_table _ _ _ _) (by simp) (by simp [Chain])

/-- **A tree on one device** is walked alike with and without `FTW_DEPTH`. -/
theorem stays_on_device_iff_one_device :
    ∃ N, ∀ fuel, N ≤ fuel → ∀ nopenfd w w', ∃ s s',
      nftw sampleSystem (fun _ w => (0, w)) fuel (ascii ['d']) nopenfd ⟨true, true, false, false⟩ w = some (0, s) ∧
      nftw sampleSystem (fun _ w => (0, w)) fuel (ascii ['d']) nopenfd ⟨true, true, false, true⟩ w' = some (0, s') ∧
      ∀ p, p ∈ reportedPaths s.events ↔ p ∈ reportedPaths s'.events := by
  obtain ⟨N, hN⟩ := stays_on_device_iff sampleSystem (fun _ w => (0, w)) (fun _ _ => rfl) (ascii ['d']) (by decide) 1
    (fun w => ⟨⟨⟨1, 1⟩, .dir⟩, w, rfl, rfl⟩) sampleTree sampleTree_stands
  obtain ⟨M, hM⟩ := sampleTree_careful false
  obtain ⟨M', hM'⟩ := sampleTree_careful true
  refine ⟨N + M + M', ?_⟩
  intro fuel hfuel nopenfd w w'
  obtain ⟨s, s', hrun, hrun', hiff⟩ := hN fuel (by omega) nopenfd w w' (hM fuel (by omega) nopenfd w)
    (hM' fuel (by omega) nopenfd w')
  have hhome : ∀ f ∈ met 1 (trimmed (ascii ['d'])) sampleTree, f.isDir = true → f.st.node.dev = 1 := by
    simp [sampleTree, met, entriesMet]
  exact ⟨s, s', hrun, hrun', (hiff.mpr hhome).2.2⟩

end TTLinux.Analysis.FtwMount
