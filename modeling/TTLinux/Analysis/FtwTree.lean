import TTLinux.Analysis.FtwTable

/-!
# A physical walk of a tree

With `FTW_PHYS` nothing is followed and nothing is met twice: the file system below the
start is a tree, and `nftw_traversal` says that the callbacks of `nftw` are its
traversal, in pre-order, or in post-order with `FTW_DEPTH`.
-/

set_option autoImplicit false

namespace TTLinux.Analysis.FtwTree

open TTLinux.Lib
open TTLinux.Model.Ftw
open TTLinux.Analysis.FtwCalls
open TTLinux.Analysis.FtwVisited
open TTLinux.Analysis.FtwWalk
open TTLinux.Analysis.FtwTable

variable {W D : Type}

/-! ## Trees in the file system -/

/-- `lstat` of a path succeeds at any time, with this result. -/
def Lstats (sys : System W D) (p : Bytes) (st : Stat) : Prop := ∀ w, ∃ w', sys.lstat p w = (.ok st, w')

mutual

/-- The tree stands in the file system at a path: a leaf is a symbolic link, a file or a directory
that cannot be read. -/
def Stands (sys : System W D) (p : Bytes) : Tree → Prop
  | .leaf st type =>
    Lstats sys p st ∧ (st.kind = .lnk ∧ type = .SL ∨ st.kind = .other ∧ type = .F ∨
      st.kind = .dir ∧ Locked sys p ∧ type = .DNR)
  | .seen _ => False
  | .dir st l => Lstats sys p st ∧ st.kind = .dir ∧ Serves sys p l.dirents ∧ EntriesStand sys p l

/-- The entries of a directory stand in the file system. -/
def EntriesStand (sys : System W D) (p : Bytes) : Listing → Prop
  | .nil => True
  | .dots de rest => isDots de.dName = true ∧ EntriesStand sys p rest
  | .entry de t rest =>
    isDots de.dName = false ∧ FileName de.dName ∧ Stands sys (child p de.dName) t ∧
      EntriesStand sys p rest

end

/-- INTERNAL: what `lstat` says of a file.
SOURCE: dietlibc-ftw.patch:116-136 -/
theorem shows_of_lstats (sys : System W D) (flags : Flags) (hphys : flags.phys = true) (p : Bytes)
    (st : Stat) (h : Lstats sys p st) :
    Shows sys flags p (match st.kind with
      | .dir => .D
      | .lnk => .SL
      | .other => .F) st := by
  intro w
  obtain ⟨w', hw⟩ := h w
  refine ⟨w', ?_⟩
  obtain ⟨node, kind⟩ := st
  unfold classify
  cases kind <;> simp only [hphys, if_true, hw]

mutual

/-- INTERNAL: a physical walk meets the tree that stands there.
SOURCE: dietlibc-ftw.patch:116-154 -/
theorem met_of_stands (sys : System W D) (flags : Flags) (hphys : flags.phys = true)
    (V : Finset FtwNode) : (t : Tree) → (p : Bytes) → Stands sys p t → t.Met sys flags p V V
  | .leaf st type, p, h => by
    rw [Stands] at h
    obtain ⟨hst, htype⟩ := h
    have hshow := shows_of_lstats sys flags hphys p st hst
    rw [Tree.Met]
    refine ⟨by simp [hphys], ?_⟩
    rcases htype with ⟨hk, rfl⟩ | ⟨hk, rfl⟩ | ⟨hk, hlocked, rfl⟩
    · rw [hk] at hshow
      exact Or.inl ⟨hshow, by decide, rfl⟩
    · rw [hk] at hshow
      exact Or.inl ⟨hshow, by decide, rfl⟩
    · rw [hk] at hshow
      exact Or.inr ⟨hshow, hlocked, rfl, by simp [mark, hphys]⟩
  | .seen st, p, h => by
    rw [Stands] at h
    exact h.elim
  | .dir st l, p, h => by
    rw [Stands] at h
    obtain ⟨hst, hk, hserves, hl⟩ := h
    have hshow := shows_of_lstats sys flags hphys p st hst
    have hmark : mark flags V st = V := by simp [mark, hphys]
    rw [hk] at hshow
    rw [Tree.Met, hmark]
    exact ⟨by simp [hphys], hshow, hserves, listing_met_of_stands sys flags hphys V l p hl⟩

/-- INTERNAL: a physical walk meets the entries that stand there. -/
theorem listing_met_of_stands (sys : System W D) (flags : Flags) (hphys : flags.phys = true)
    (V : Finset FtwNode) : (l : Listing) → (p : Bytes) → EntriesStand sys p l → l.Met sys flags p V V
  | .nil, p, _ => by rw [Listing.Met]
  | .dots de rest, p, h => by
    rw [EntriesStand] at h
    rw [Listing.Met]
    exact ⟨h.1, listing_met_of_stands sys flags hphys V rest p h.2⟩
  | .entry de t rest, p, h => by
    rw [EntriesStand] at h
    obtain ⟨hdots, hname, ht, hrest⟩ := h
    rw [Listing.Met]
    exact ⟨hdots, hname, V, met_of_stands sys flags hphys V t _ ht,
      listing_met_of_stands sys flags hphys V rest p hrest⟩

end

/-! ## Traversals -/

/-- The start path followed by the components of a file below it. -/
def joined (start : Bytes) (comps : List Bytes) : Bytes := start ++ comps.flatMap fun name => 47 :: name

/-- The offset of the last component of a path. -/
def nameOffset (p : Bytes) : ℕ := p.length - p.reverse.findIdx (· = 47)

/-- The call for a file below the start: its path, its depth, and the offset of its last component. -/
def callFor (start : Bytes) (comps : List Bytes) (st : Stat) (type : FtwType) : Call :=
  ⟨joined start comps, st, type, comps.length, nameOffset (joined start comps)⟩

mutual

/-- The traversal of a tree: pre-order, or post-order in which the directories have another type. -/
def traversal (depth : Bool) (start : Bytes) (comps : List Bytes) : Tree → List Call
  | .leaf st type => [callFor start comps st type]
  | .seen _ => []
  | .dir st l =>
    if depth then entriesTraversal depth start comps l ++ [callFor start comps st .DP]
    else callFor start comps st .D :: entriesTraversal depth start comps l

/-- The traversals of the entries of a directory, in the order of `readdir`. -/
def entriesTraversal (depth : Bool) (start : Bytes) (comps : List Bytes) : Listing → List Call
  | .nil => []
  | .dots _ rest => entriesTraversal depth start comps rest
  | .entry de t rest =>
    traversal depth start (comps ++ [de.dName]) t ++ entriesTraversal depth start comps rest

end

/-- INTERNAL: one more component is one more child. -/
theorem joined_append (start : Bytes) (comps : List Bytes) (name : Bytes) :
    joined start (comps ++ [name]) = child (joined start comps) name := by
  simp [joined, child]

/-- INTERNAL: a name has no slash. -/
theorem findIdx_slash (name : Bytes) (h : (47 : UInt8) ∉ name) :
    name.reverse.findIdx (· = 47) = name.reverse.length := by
  apply List.findIdx_eq_length_of_false
  intro c hc
  rw [decide_eq_false_iff_not]
  rintro rfl
  exact h (List.mem_reverse.mp hc)

/-- INTERNAL: a name is its own last component. -/
theorem nameOffset_name (name : Bytes) (h : (47 : UInt8) ∉ name) : nameOffset name = 0 := by
  rw [nameOffset, findIdx_slash name h, List.length_reverse, Nat.sub_self]

/-- INTERNAL: the last component of an entry is its name. -/
theorem nameOffset_child (p name : Bytes) (h : (47 : UInt8) ∉ name) :
    nameOffset (child p name) = p.length + 1 := by
  unfold nameOffset child
  rw [List.reverse_append, List.reverse_cons, List.append_assoc, List.findIdx_append, findIdx_slash name h,
    if_neg (lt_irrefl _)]
  simp [List.findIdx_cons]
  omega

mutual

/-- INTERNAL: the calls for a tree are its traversal. -/
theorem calls_report (sys : System W D) (depth : Bool) (start : Bytes) :
    (t : Tree) → (comps : List Bytes) → Stands sys (joined start comps) t →
    calls (t.report depth (joined start comps) comps.length (nameOffset (joined start comps))) =
      traversal depth start comps t
  | .leaf st type, comps, _ => by
    rw [Tree.report, traversal]
    rfl
  | .seen st, comps, _ => by
    rw [Tree.report, traversal]
    rfl
  | .dir st l, comps, h => by
    rw [Stands] at h
    have hl := calls_entries sys depth start l comps h.2.2.2
    rw [Tree.report, traversal, dirReport]
    cases depth with
    | true =>
      rw [if_pos rfl, if_pos rfl, calls_append, ← hl]
      rfl
    | false =>
      rw [if_neg (by decide), if_neg (by decide), ← hl]
      rfl

/-- INTERNAL: the calls for the entries of a directory are their traversals. -/
theorem calls_entries (sys : System W D) (depth : Bool) (start : Bytes) :
    (l : Listing) → (comps : List Bytes) → EntriesStand sys (joined start comps) l →
    calls (l.report depth (joined start comps) (comps.length + 1) ((joined start comps).length + 1)) =
      entriesTraversal depth start comps l
  | .nil, comps, _ => by
    rw [Listing.report, entriesTraversal]
    rfl
  | .dots de rest, comps, h => by
    rw [EntriesStand] at h
    rw [Listing.report, entriesTraversal]
    exact calls_entries sys depth start rest comps h.2
  | .entry de t rest, comps, h => by
    rw [EntriesStand] at h
    obtain ⟨-, hname, ht, hrest⟩ := h
    have hcalls := calls_report sys depth start t (comps ++ [de.dName]) (joined_append start comps _ ▸ ht)
    rw [joined_append, nameOffset_child _ _ hname.noSlash, List.length_append, List.length_singleton]
      at hcalls
    push_cast at hcalls
    rw [Listing.report, entriesTraversal, calls_append, hcalls, calls_entries sys depth start rest comps hrest]

end

/-! ## `nftw` -/

/-- INTERNAL: a path that does not end in a slash is left as it is.
SOURCE: dietlibc-ftw.patch:289-291 -/
theorem trimSlashes_eq (p : Bytes) (hend : p.getLast? ≠ some 47) :
    trimSlashes (p ++ [0]) p.length = (p ++ [0], p.length - 1) := by
  rcases List.eq_nil_or_concat' p with rfl | ⟨init, c, rfl⟩
  · rfl
  · have hc : c ≠ 47 := by simpa using hend
    rw [List.length_append, List.length_singleton, trimSlashes]
    simp [hc]

/-- INTERNAL: the string in the buffer. -/
theorem cstr_append_zero (p : Bytes) (hp : (0 : UInt8) ∉ p) : cstr (p ++ [0]) = p := by
  rw [cstr_append, cstr_eq_self p hp]

/-- INTERNAL: `nftw` finds the last component of the start.
SOURCE: dietlibc-ftw.patch:312-313 -/
theorem slash_offset (p : Bytes) (hend : p.getLast? ≠ some 47) :
    startBase (if p.length - 1 ≠ 0 then strrchr p else none) = nameOffset p := by
  have hle : p.reverse.findIdx (· = 47) ≤ p.reverse.length := List.findIdx_le_length
  rw [List.length_reverse] at hle
  unfold nameOffset
  by_cases hlen : p.length - 1 = 0
  · rw [if_neg (by omega)]
    rcases List.eq_nil_or_concat' p with rfl | ⟨init, c, rfl⟩
    · rfl
    · obtain rfl : init = [] := by
        rw [List.length_append, List.length_singleton] at hlen
        exact List.length_eq_zero_iff.mp (by omega)
      have hc : c ≠ 47 := by simpa using hend
      simp [List.findIdx_cons, hc, startBase]
  · rw [if_pos hlen]
    unfold strrchr
    rw [List.findIdx?_eq_guard_findIdx_lt, List.length_reverse]
    generalize p.reverse.findIdx (· = 47) = i at hle ⊢
    by_cases hlt : i < p.length
    · simp only [Option.guard, hlt, decide_true, if_true, Option.map_some, startBase]
      omega
    · simp only [Option.guard, hlt, decide_false, Bool.false_eq_true, if_false, Option.map_none, startBase]
      omega

/-- **A physical walk is a traversal**: whatever the number of descriptors, `nftw` returns 0, and the
callbacks that it makes are the pre-order traversal of the tree at the start path, or the post-order
traversal with `FTW_DEPTH`.
SOURCE: dietlibc-ftw.patch:101-358 -/
theorem nftw_traversal (sys : System W D) (hfds : NeverZero sys) (fn : Callback W)
    (hfn : ∀ c w, (fn c w).1 = 0) (depth : Bool) (t : Tree) (start : Bytes)
    (hzero : (0 : UInt8) ∉ start) (hend : start.getLast? ≠ some 47)
    (hstat : ∀ w, ∃ st w', sys.stat start w = (.ok st, w')) (ht : Stands sys start t) (hfit : t.NamesFit) :
    ∃ N, ∀ fuel, N ≤ fuel → ∀ nopenfd w, ∃ s,
      nftw sys fn fuel start nopenfd ⟨true, false, false, depth⟩ w = some (0, s) ∧
        calls s.events = traversal depth start [] t := by
  have hmet := met_of_stands sys ⟨true, false, false, depth⟩ rfl ∅ t start ht
  obtain ⟨N, hN⟩ := walker_reports sys fn ⟨⟨true, false, false, depth⟩, 0⟩ hfn (by simp) rfl rfl hfds t start
    ∅ ∅ hzero hfit hmet
  refine ⟨N, ?_⟩
  intro fuel hfuel nopenfd w
  obtain ⟨st, w₁, hst⟩ := hstat w
  obtain ⟨s, hrun, hwalked⟩ := hN fuel hfuel nopenfd [] ⟨w₁, 0, nameOffset start, .empty, [], []⟩ trivial
    (by simp) (by simp [Chain])
  refine ⟨s, ?_, ?_⟩
  · have hlist : s.ftwList.root = none := by rw [hwalked.same rfl]; rfl
    unfold nftw
    rw [trimSlashes_eq start hend]
    simp only [cstr_append_zero start hzero, hst, Bool.false_eq_true, if_false, slash_offset start hend]
    rw [hrun]
    simp [nftw.destroy, hlist]
  · rw [← calls_observed, hwalked.events]
    have hnil : joined start [] = start := by simp [joined]
    have hcalls := calls_report sys depth start t [] (hnil.symm ▸ ht)
    rw [hnil] at hcalls
    exact hcalls

/-- The files of a small tree: a directory with a file and another directory, which holds a link. -/
def sampleLstat (p : Bytes) : Except ℕ Stat :=
  if p = ascii ['d'] then .ok ⟨⟨1, 1⟩, .dir⟩
  else if p = ascii ['d', '/', 'a'] then .ok ⟨⟨2, 1⟩, .other⟩
  else if p = ascii ['d', '/', 'b'] then .ok ⟨⟨3, 1⟩, .dir⟩
  else if p = ascii ['d', '/', 'b', '/', 'c'] then .ok ⟨⟨4, 1⟩, .lnk⟩
  else .error ENOENT

/-- The directories of the small tree. -/
def sampleNames (p : Bytes) : Option (List Bytes) :=
  if p = ascii ['d'] then some [ascii ['.'], ascii ['a'], ascii ['b']]
  else if p = ascii ['d', '/', 'b'] then some [ascii ['c'], ascii ['.', '.']]
  else none

/-- The kernel for the small tree. -/
def sampleSystem : System Unit (List Dirent × ℕ) := tableSystem sampleLstat sampleLstat sampleNames [1, 2, 3]

/-- The small tree. -/
def sampleTree : Tree :=
  .dir ⟨⟨1, 1⟩, .dir⟩ (.dots ⟨ascii ['.'], 1⟩ (.entry ⟨ascii ['a'], 2⟩ (.leaf ⟨⟨2, 1⟩, .other⟩ .F)
    (.entry ⟨ascii ['b'], 3⟩ (.dir ⟨⟨3, 1⟩, .dir⟩ (.entry ⟨ascii ['c'], 1⟩ (.leaf ⟨⟨4, 1⟩, .lnk⟩ .SL)
      (.dots ⟨ascii ['.', '.'], 2⟩ .nil))) .nil)))

/-- INTERNAL: the small tree stands in its file system. -/
theorem sampleTree_stands : Stands sampleSystem (ascii ['d']) sampleTree := by
  have hname : ∀ c, c ∈ ['a', 'b', 'c'] → FileName (ascii [c]) := by
    intro c hc
    simp only [List.mem_cons, List.not_mem_nil, or_false] at hc
    obtain rfl | rfl | rfl := hc <;> exact ⟨by decide, by decide⟩
  have hd : Serves sampleSystem (ascii ['d']) [⟨ascii ['.'], 1⟩, ⟨ascii ['a'], 2⟩, ⟨ascii ['b'], 3⟩] :=
    serves_table sampleLstat sampleLstat sampleNames [1, 2, 3] (ascii ['d'])
      [ascii ['.'], ascii ['a'], ascii ['b']] rfl
  have hb : Serves sampleSystem (ascii ['d', '/', 'b']) [⟨ascii ['c'], 1⟩, ⟨ascii ['.', '.'], 2⟩] :=
    serves_table sampleLstat sampleLstat sampleNames [1, 2, 3] (ascii ['d', '/', 'b'])
      [ascii ['c'], ascii ['.', '.']] rfl
  unfold sampleTree
  simp only [Stands, EntriesStand]
  refine ⟨fun w => ⟨w, rfl⟩, trivial, hd, rfl, rfl, hname 'a' (by simp), ⟨fun w => ⟨w, rfl⟩, ?_⟩, rfl,
    hname 'b' (by simp), ⟨fun w => ⟨w, rfl⟩, trivial, hb, rfl, hname 'c' (by simp),
      ⟨fun w => ⟨w, rfl⟩, ?_⟩, rfl, trivial⟩, trivial⟩
  · exact Or.inr (Or.inl ⟨trivial, trivial⟩)
  · exact Or.inl ⟨trivial, trivial⟩

/-- INTERNAL: the names in the small tree are short. -/
theorem sampleTree_namesFit : sampleTree.NamesFit := by
  unfold sampleTree
  simp only [Tree.NamesFit, Listing.NamesFit, and_true, true_and]
  decide

/-- The walk of the small tree with `FTW_DEPTH`. -/
theorem nftw_traversal_sample :
    ∃ N, ∀ fuel, N ≤ fuel → ∀ nopenfd w, ∃ s,
      nftw sampleSystem (fun _ w => (0, w)) fuel (ascii ['d']) nopenfd ⟨true, false, false, true⟩ w =
        some (0, s) ∧
      calls s.events = [⟨ascii ['d', '/', 'a'], ⟨⟨2, 1⟩, .other⟩, .F, 1, 2⟩,
        ⟨ascii ['d', '/', 'b', '/', 'c'], ⟨⟨4, 1⟩, .lnk⟩, .SL, 2, 4⟩,
        ⟨ascii ['d', '/', 'b'], ⟨⟨3, 1⟩, .dir⟩, .DP, 1, 2⟩, ⟨ascii ['d'], ⟨⟨1, 1⟩, .dir⟩, .DP, 0, 0⟩] :=
  nftw_traversal sampleSystem (neverZero_table _ _ _ _) (fun _ w => (0, w)) (fun _ _ => rfl) true sampleTree
    (ascii ['d']) (by decide) (by decide) (fun w => ⟨⟨⟨1, 1⟩, .dir⟩, w, rfl⟩) sampleTree_stands
    sampleTree_namesFit

end TTLinux.Analysis.FtwTree
