import TTLinux.Analysis.FtwSearch
import TTLinux.Analysis.FtwTable

/-!
# A walk that follows links

`walker_explores` says that a walk that follows links ends, and that it reports and enters
every reachable directory once, if all its calls go well. Where one does not, a name of
`NAME_MAX` bytes is stored without its terminator, and the walk goes on with what the
stack holds behind it (`name_max_is_lost`), or a stream with descriptor 0 is taken for a
closed one (`descriptor_zero_is_read_twice`). With short names, and with descriptors other
than 0 or no stream that stays open, all calls go well (`careful_graph`).
-/

set_option autoImplicit false

namespace TTLinux.Analysis.FtwGraph

open TTLinux.Lib
open TTLinux.Model.Ftw
open TTLinux.Analysis.FtwCalls
open TTLinux.Analysis.FtwVisited
open TTLinux.Analysis.FtwWalk
open TTLinux.Analysis.FtwTable
open TTLinux.Analysis.FtwSearch

variable {W D : Type}

/-! ## What is reported -/

/-- A call for a directory. -/
def isDirCall (c : Call) : Bool := c.type = .D || c.type = .DP

/-- The number of calls for a directory. -/
def reports (d : FtwNode) (events : List Event) : ℕ :=
  (calls events).countP fun c => isDirCall c && decide (c.st.node = d)

/-- The reported paths. -/
def paths (events : List Event) : List Bytes := (calls events).map Call.path

/-- INTERNAL: the reports of a directory in one of two parts. -/
theorem reports_append (d : FtwNode) (es fs : List Event) :
    reports d (es ++ fs) = reports d es + reports d fs := by
  unfold reports
  rw [calls_append, List.countP_append]

/-- INTERNAL: the paths of two parts. -/
theorem paths_append (es fs : List Event) : paths (es ++ fs) = paths es ++ paths fs := by
  unfold paths
  rw [calls_append, List.map_append]

/-- INTERNAL: a directory is reported once, before or behind its entries. -/
theorem reports_dirReport (d : FtwNode) (depth : Bool) (p : Bytes) (st : Stat) (level : ℤ) (base : ℕ)
    (entries : List Event) :
    reports d (dirReport depth p st level base entries) = [st.node].count d + reports d entries := by
  unfold dirReport
  cases depth with
  | true =>
    rw [if_pos rfl, reports_append]
    simp [reports, calls, isDirCall, List.count_singleton, Nat.add_comm]
  | false =>
    rw [if_neg (by decide)]
    simp [reports, calls, isDirCall, List.count_singleton, List.countP_cons, Nat.add_comm]

/-- INTERNAL: a directory is entered once. -/
theorem count_dirReport (d : FtwNode) (depth : Bool) (p : Bytes) (st : Stat) (level : ℤ) (base : ℕ)
    (entries : List Event) :
    (dirReport depth p st level base entries).count (.entered d) =
      [st.node].count d + entries.count (.entered d) := by
  unfold dirReport
  cases depth with
  | true => simp [List.count_cons, List.count_append, Nat.add_comm]
  | false => simp [List.count_cons, Nat.add_comm]

mutual

/-- INTERNAL: the directories of a tree are reported and entered as often as they are in it, and
none is refused. -/
theorem report_dirs (G : Graph) (d : FtwNode) (depth : Bool) :
    (t : Tree) → (n : FtwNode) → (p : Bytes) → (level : ℤ) → (base : ℕ) → TreeOf G n t →
    reports d (t.report depth p level base) = (enteredBy t).count d ∧
      (t.report depth p level base).count (.entered d) = (enteredBy t).count d ∧
      .refused d ∉ t.report depth p level base
  | .leaf st type, n, p, level, base, h => by
    rw [TreeOf] at h
    rw [Tree.report, enteredBy]
    refine ⟨?_, ?_, ?_⟩
    · simp [reports, calls, isDirCall, h.2.1, h.2.2]
    · simp
    · simp
  | .seen st, n, p, level, base, _ => by
    rw [Tree.report, enteredBy]
    exact ⟨rfl, rfl, List.not_mem_nil⟩
  | .dir st l, n, p, level, base, h => by
    rw [TreeOf] at h
    obtain ⟨-, es, -, hl⟩ := h
    obtain ⟨hreports, hentered, hrefused⟩ := report_entries G d depth l es p (level + 1) (p.length + 1) hl
    rw [Tree.report, enteredBy, ← List.singleton_append, List.count_append, reports_dirReport,
      count_dirReport]
    refine ⟨by rw [hreports], by rw [hentered], ?_⟩
    unfold dirReport
    split_ifs <;> simp [hrefused]

/-- INTERNAL: the directories below a listing. -/
theorem report_entries (G : Graph) (d : FtwNode) (depth : Bool) :
    (l : Listing) → (es : List Entry) → (p : Bytes) → (level : ℤ) → (base : ℕ) → ListingOf G es l →
    reports d (l.report depth p level base) = (enteredByEntries l).count d ∧
      (l.report depth p level base).count (.entered d) = (enteredByEntries l).count d ∧
      .refused d ∉ l.report depth p level base
  | .nil, _, p, level, base, _ => by
    rw [Listing.report, enteredByEntries]
    exact ⟨rfl, rfl, List.not_mem_nil⟩
  | .dots de rest, [], p, level, base, h => by
    simp [ListingOf] at h
  | .dots de rest, e :: es, p, level, base, h => by
    rw [ListingOf] at h
    rw [Listing.report, enteredByEntries]
    exact report_entries G d depth rest es p level base h.2.2
  | .entry de t rest, [], p, level, base, h => by
    simp [ListingOf] at h
  | .entry de t rest, e :: es, p, level, base, h => by
    rw [ListingOf] at h
    obtain ⟨-, -, ht, hrest⟩ := h
    obtain ⟨h₁, h₂, h₃⟩ := report_dirs G d depth t e.node (child p de.dName) level base ht
    obtain ⟨h₁', h₂', h₃'⟩ := report_entries G d depth rest es p level base hrest
    rw [Listing.report, enteredByEntries, List.count_append, reports_append, List.count_append, h₁, h₁', h₂,
      h₂', List.mem_append, not_or]
    exact ⟨rfl, rfl, h₃, h₃'⟩

end

/-! ## Paths -/

/-- The path is another one, or goes on behind it. -/
def Below (p q : Bytes) : Prop := q = p ∨ ∃ r, q = p ++ 47 :: r

/-- INTERNAL: a path lies below one entry of a directory only. -/
theorem below_child_inj (p a b q : Bytes) (ha : (47 : UInt8) ∉ a) (hb : (47 : UInt8) ∉ b)
    (hqa : Below (child p a) q) (hqb : Below (child p b) q) : a = b := by
  have hsplit : ∀ name, Below (child p name) q →
      ∃ x, q = (p ++ [47]) ++ (name ++ x) ∧ ∀ c ∈ x.head?, decide (c ≠ 47) = false := by
    intro name hq
    unfold child at hq
    rcases hq with rfl | ⟨r, rfl⟩
    · exact ⟨[], by simp, by simp⟩
    · exact ⟨47 :: r, by simp, by simp⟩
  obtain ⟨x, hx, hx47⟩ := hsplit a hqa
  obtain ⟨y, hy, hy47⟩ := hsplit b hqb
  refine (append_inj_of_stop (fun c => decide (c ≠ 47)) a b x y ?_ ?_ hx47 hy47
    (List.append_cancel_left (hx.symm.trans hy))).1
  · intro c hc
    rw [decide_eq_true_eq]
    intro heq
    exact ha (heq ▸ hc)
  · intro c hc
    rw [decide_eq_true_eq]
    intro heq
    exact hb (heq ▸ hc)

/-- INTERNAL: an entry of a directory has a longer path. -/
theorem ne_of_below_child (p name q : Bytes) (h : Below (child p name) q) : q ≠ p := by
  intro heq
  have hlen := congrArg List.length heq
  unfold child at h
  rcases h with rfl | ⟨r, rfl⟩
  · simp only [List.length_append, List.length_cons] at hlen
    omega
  · simp only [List.length_append, List.length_cons] at hlen
    omega

/-- INTERNAL: the path of a directory and the paths of its entries. -/
theorem paths_dirReport_perm (depth : Bool) (p : Bytes) (st : Stat) (level : ℤ) (base : ℕ)
    (entries : List Event) : (paths (dirReport depth p st level base entries)).Perm (p :: paths entries) := by
  unfold dirReport
  cases depth with
  | true =>
    rw [if_pos rfl, paths_append]
    exact List.perm_append_comm
  | false => exact List.Perm.refl _

mutual

/-- INTERNAL: **no path is reported twice**, and all of them lie below the start. -/
theorem paths_tree (G : Graph) (hwf : WellFormed G) (depth : Bool) :
    (t : Tree) → (n : FtwNode) → (p : Bytes) → (level : ℤ) → (base : ℕ) → TreeOf G n t →
    (paths (t.report depth p level base)).Nodup ∧ ∀ q ∈ paths (t.report depth p level base), Below p q
  | .leaf st type, n, p, level, base, _ => by
    rw [Tree.report]
    refine ⟨by simp [paths, calls], ?_⟩
    intro q hq
    left
    simpa [paths, calls] using hq
  | .seen st, n, p, level, base, _ => by
    rw [Tree.report]
    exact ⟨List.nodup_nil, by simp [paths, calls]⟩
  | .dir st l, n, p, level, base, h => by
    rw [TreeOf] at h
    obtain ⟨-, es, hes, hl⟩ := h
    have hslash := fun e he => (hwf.names st.node es hes e he).2
    obtain ⟨hnodup, hbelow⟩ := paths_listing G hwf depth l es p (level + 1) (p.length + 1) hl
      (hwf.distinct st.node es hes) hslash
    have hperm := paths_dirReport_perm depth p st level base (l.report depth p (level + 1) (p.length + 1))
    rw [Tree.report]
    refine ⟨hperm.nodup_iff.mpr (List.nodup_cons.mpr ⟨?_, hnodup⟩), ?_⟩
    · intro hp
      obtain ⟨e, -, he⟩ := hbelow p hp
      exact ne_of_below_child p _ p he rfl
    · intro q hq
      rcases List.mem_cons.mp (hperm.mem_iff.mp hq) with rfl | hq
      · exact Or.inl rfl
      · obtain ⟨e, -, he⟩ := hbelow q hq
        unfold child at he
        rcases he with rfl | ⟨r, rfl⟩
        · exact Or.inr ⟨_, rfl⟩
        · exact Or.inr ⟨e.de.dName ++ 47 :: r, by simp⟩

/-- INTERNAL: the paths below the entries of a directory. -/
theorem paths_listing (G : Graph) (hwf : WellFormed G) (depth : Bool) :
    (l : Listing) → (es : List Entry) → (p : Bytes) → (level : ℤ) → (base : ℕ) → ListingOf G es l →
    (es.map fun e => e.de.dName).Nodup → (∀ e ∈ es, (47 : UInt8) ∉ e.de.dName) →
    (paths (l.report depth p level base)).Nodup ∧
      ∀ q ∈ paths (l.report depth p level base), ∃ e ∈ es, Below (child p e.de.dName) q
  | .nil, _, p, level, base, _, _, _ => by
    rw [Listing.report]
    exact ⟨List.nodup_nil, by simp [paths, calls]⟩
  | .dots de rest, [], p, level, base, h, _, _ => by
    simp [ListingOf] at h
  | .dots de rest, e :: es, p, level, base, h, hnames, hslash => by
    rw [ListingOf] at h
    rw [Listing.report]
    obtain ⟨hnodup, hbelow⟩ := paths_listing G hwf depth rest es p level base h.2.2
      (List.nodup_cons.mp hnames).2 (fun e' he' => hslash e' (List.mem_cons_of_mem e he'))
    refine ⟨hnodup, ?_⟩
    intro q hq
    obtain ⟨e', he', hb⟩ := hbelow q hq
    exact ⟨e', List.mem_cons_of_mem e he', hb⟩
  | .entry de t rest, [], p, level, base, h, _, _ => by
    simp [ListingOf] at h
  | .entry de t rest, e :: es, p, level, base, h, hnames, hslash => by
    rw [ListingOf] at h
    obtain ⟨rfl, -, ht, hrest⟩ := h
    obtain ⟨hnodup, hbelow⟩ := paths_tree G hwf depth t e.node (child p e.de.dName) level base ht
    obtain ⟨hnodup', hbelow'⟩ := paths_listing G hwf depth rest es p level base hrest
      (List.nodup_cons.mp hnames).2 (fun e' he' => hslash e' (List.mem_cons_of_mem e he'))
    rw [Listing.report, paths_append]
    refine ⟨List.nodup_append.mpr ⟨hnodup, hnodup', ?_⟩, ?_⟩
    · intro q hq q' hq' heq
      subst heq
      obtain ⟨e', he', hb⟩ := hbelow' q hq'
      have hname := below_child_inj p _ _ q (hslash e List.mem_cons_self)
        (hslash e' (List.mem_cons_of_mem e he')) (hbelow q hq) hb
      exact (List.nodup_cons.mp hnames).1 (List.mem_map.mpr ⟨e', he', hname.symm⟩)
    · intro q hq
      rcases List.mem_append.mp hq with hq | hq
      · exact ⟨e, List.mem_cons_self, hbelow q hq⟩
      · obtain ⟨e', he', hb⟩ := hbelow' q hq
        exact ⟨e', List.mem_cons_of_mem e he', hb⟩

end

/-- INTERNAL: the entries of a directory that do not lead to a directory are reported. -/
theorem leaf_mem_paths (G : Graph) (depth : Bool) (p : Bytes) (level : ℤ) (base : ℕ) (l : Listing)
    (es : List Entry) (h : ListingOf G es l) (e : Entry) (he : e ∈ es) (hdots : isDots e.de.dName = false)
    (hfile : ¬ LeadsToDir G e.node) : child p e.de.dName ∈ paths (l.report depth p level base) := by
  induction es generalizing l with
  | nil => cases he
  | cons e₀ es ih =>
    cases l with
    | nil => simp [ListingOf] at h
    | dots de rest =>
      rw [ListingOf] at h
      rw [Listing.report]
      rcases List.mem_cons.mp he with rfl | he
      · rw [← h.1, h.2.1] at hdots
        cases hdots
      · exact ih rest h.2.2 he
    | entry de t rest =>
      rw [ListingOf] at h
      obtain ⟨rfl, -, ht, hrest⟩ := h
      rw [Listing.report, paths_append, List.mem_append]
      rcases List.mem_cons.mp he with rfl | he
      · left
        cases t with
        | leaf st type => simp [Tree.report, paths, calls]
        | seen st =>
          rw [TreeOf] at ht
          exact absurd ht hfile
        | dir st l =>
          rw [TreeOf] at ht
          obtain ⟨hf, es', hes', -⟩ := ht
          exact absurd ⟨st.node, hf, es', hes'⟩ hfile
      · exact Or.inr (ih rest hrest he)

/-- INTERNAL: the calls for a directory and its entries. -/
theorem mem_calls_dirReport (depth : Bool) (p : Bytes) (st : Stat) (level : ℤ) (base : ℕ)
    (entries : List Event) (c : Call) (hc : c ∈ calls (dirReport depth p st level base entries)) :
    (c.path = p ∧ c.st = st) ∨ c ∈ calls entries := by
  unfold dirReport at hc
  cases depth with
  | true =>
    rw [if_pos rfl, calls_append] at hc
    rcases List.mem_append.mp hc with hc | hc
    · exact Or.inr hc
    · left
      obtain rfl := List.mem_singleton.mp hc
      exact ⟨rfl, rfl⟩
  | false =>
    rw [if_neg (by decide)] at hc
    rcases List.mem_cons.mp hc with rfl | hc
    · exact Or.inl ⟨rfl, rfl⟩
    · exact Or.inr hc

mutual

/-- INTERNAL: where a directory is reported, so are its files. -/
theorem files_tree (G : Graph) (depth : Bool) :
    (t : Tree) → (n : FtwNode) → (p : Bytes) → (level : ℤ) → (base : ℕ) → TreeOf G n t →
    ∀ c ∈ calls (t.report depth p level base), isDirCall c = true → ∀ es, G c.st.node = .dir es →
      ∀ e ∈ es, isDots e.de.dName = false → ¬ LeadsToDir G e.node →
      child c.path e.de.dName ∈ paths (t.report depth p level base)
  | .leaf st type, n, p, level, base, h => by
    rw [TreeOf] at h
    rw [Tree.report]
    intro c hc hdir
    obtain rfl : c = _ := List.mem_singleton.mp hc
    simp [isDirCall, h.2.1, h.2.2] at hdir
  | .seen st, n, p, level, base, _ => by
    rw [Tree.report]
    intro c hc
    cases hc
  | .dir st l, n, p, level, base, h => by
    rw [TreeOf] at h
    obtain ⟨-, es₀, hes₀, hl⟩ := h
    rw [Tree.report]
    intro c hc hdir es hes e he hdots hfile
    have hperm := paths_dirReport_perm depth p st level base (l.report depth p (level + 1) (p.length + 1))
    rw [hperm.mem_iff]
    refine List.mem_cons_of_mem p ?_
    rcases mem_calls_dirReport depth p st level base _ c hc with ⟨hpath, hst⟩ | hc
    · obtain rfl : es₀ = es := by
        rw [hst, hes₀] at hes
        exact Inode.dir.inj hes
      rw [hpath]
      exact leaf_mem_paths G depth p _ _ l es₀ hl e he hdots hfile
    · exact files_listing G depth l es₀ p _ _ hl c hc hdir es hes e he hdots hfile

/-- INTERNAL: where a directory below a listing is reported, so are its files. -/
theorem files_listing (G : Graph) (depth : Bool) :
    (l : Listing) → (es₀ : List Entry) → (p : Bytes) → (level : ℤ) → (base : ℕ) → ListingOf G es₀ l →
    ∀ c ∈ calls (l.report depth p level base), isDirCall c = true → ∀ es, G c.st.node = .dir es →
      ∀ e ∈ es, isDots e.de.dName = false → ¬ LeadsToDir G e.node →
      child c.path e.de.dName ∈ paths (l.report depth p level base)
  | .nil, _, p, level, base, _ => by
    rw [Listing.report]
    intro c hc
    cases hc
  | .dots de rest, [], p, level, base, h => by
    simp [ListingOf] at h
  | .dots de rest, e₀ :: es₀, p, level, base, h => by
    rw [ListingOf] at h
    rw [Listing.report]
    exact files_listing G depth rest es₀ p level base h.2.2
  | .entry de t rest, [], p, level, base, h => by
    simp [ListingOf] at h
  | .entry de t rest, e₀ :: es₀, p, level, base, h => by
    rw [ListingOf] at h
    obtain ⟨-, -, ht, hrest⟩ := h
    rw [Listing.report, calls_append, paths_append]
    intro c hc hdir es hes e he hdots hfile
    rw [List.mem_append]
    rcases List.mem_append.mp hc with hc | hc
    · exact Or.inl (files_tree G depth t e₀.node _ level base ht c hc hdir es hes e he hdots hfile)
    · exact Or.inr (files_listing G depth rest es₀ p level base hrest c hc hdir es hes e he hdots hfile)

end

/-! ## Whole walks -/

/-- What a walk of a graph is to do: every reachable directory is reported and entered once and no
other one is, a file that is no directory is reported once for the directory that it is in, and the
check for loops refuses no directory. -/
structure Explores (G : Graph) (n₀ : FtwNode) (events : List Event) : Prop where
  reached : ∀ d, Reached G n₀ d → reports d events = 1 ∧ events.count (.entered d) = 1
  others : ∀ d, ¬ Reached G n₀ d → reports d events = 0 ∧ events.count (.entered d) = 0
  files : ∀ c ∈ calls events, isDirCall c = true → ∀ es, G c.st.node = .dir es →
    ∀ e ∈ es, isDots e.de.dName = false → ¬ LeadsToDir G e.node →
    (paths events).count (child c.path e.de.dName) = 1
  unrefused : ∀ d, .refused d ∉ events

/-- `walker` ends with 0 and has explored the graph, for any number of descriptors, with or without
`FTW_DEPTH`. -/
def WalkExplores (sys : System W D) (fn : Callback W) (G : Graph) (start : Bytes) (n₀ : FtwNode) : Prop :=
  ∀ depth basedev, ∃ N, ∀ fuel, N ≤ fuel → ∀ nopenfd w level base fullpath, ∃ s,
    walker sys fn ⟨⟨false, false, false, depth⟩, basedev⟩ fuel start nopenfd []
      ⟨w, level, base, .empty, fullpath, []⟩ = some (0, s) ∧ Explores G n₀ s.events

/-- INTERNAL: exploring is observed. -/
theorem explores_of_observed (G : Graph) (n₀ : FtwNode) (events : List Event)
    (h : Explores G n₀ (observed events)) : Explores G n₀ events := by
  have hreports : ∀ d, reports d (observed events) = reports d events := by
    intro d
    unfold reports
    rw [calls_observed]
  have hcount : ∀ d, (observed events).count (.entered d) = events.count (.entered d) := by
    intro d
    exact List.count_filter rfl
  have hpaths : paths (observed events) = paths events := by
    unfold paths
    rw [calls_observed]
  refine ⟨?_, ?_, ?_, ?_⟩
  · intro d hd
    rw [← hreports, ← hcount]
    exact h.reached d hd
  · intro d hd
    rw [← hreports, ← hcount]
    exact h.others d hd
  · rw [← calls_observed, ← hpaths]
    exact h.files
  · intro d hd
    exact h.unrefused d (List.mem_filter.mpr ⟨hd, rfl⟩)

/-- INTERNAL: the report of a search explores the graph. -/
theorem explores_report (sys : System W D) (flags : Flags) (G : Graph) (hwf : WellFormed G) (n₀ : FtwNode)
    (V' : Finset FtwNode) (t : Tree) (depth : Bool) (p : Bytes) (level : ℤ) (base : ℕ)
    (h : Searched sys flags G p n₀ ∅ V' t) : Explores G n₀ (t.report depth p level base) := by
  have hmem : ∀ d, d ∈ enteredBy t ↔ Reached G n₀ d := by
    intro d
    constructor
    · intro hd
      obtain ⟨s, hs, hreach⟩ := h.sound d hd
      exact ⟨s, hs, isDir_of_reach G s d hreach (h.isDir d hd), hreach⟩
    · intro ⟨s, hs, hdir, hreach⟩
      have hstart : s ∈ enteredBy t := by
        have hV' := (h.explored.mem s).mp (h.reached s hs hdir)
        exact hV'.resolve_left (Finset.notMem_empty s)
      refine (h.explored.mem_iff_reachable hstart ?_ d).mpr hreach
      intro x hx
      obtain ⟨s', hs', hx'⟩ := h.sound x hx
      rw [hs] at hs'
      exact Option.some.inj hs' ▸ hx'
  refine ⟨?_, ?_, ?_, ?_⟩
  · intro d hd
    obtain ⟨hreports, hentered, -⟩ := report_dirs G d depth t n₀ p level base h.treeOf
    have hone := List.count_eq_one_of_mem h.explored.nodup ((hmem d).mpr hd)
    exact ⟨hreports.trans hone, hentered.trans hone⟩
  · intro d hd
    obtain ⟨hreports, hentered, -⟩ := report_dirs G d depth t n₀ p level base h.treeOf
    have hzero := List.count_eq_zero_of_not_mem fun hd' => hd ((hmem d).mp hd')
    exact ⟨hreports.trans hzero, hentered.trans hzero⟩
  · intro c hc hdir es hes e he hdots hfile
    exact List.count_eq_one_of_mem (paths_tree G hwf depth t n₀ p level base h.treeOf).1
      (files_tree G depth t n₀ p level base h.treeOf c hc hdir es hes e he hdots hfile)
  · intro d
    exact (report_dirs G d depth t n₀ p level base h.treeOf).2.2

/-- **A walk that follows links explores the graph**, if all its calls go well: it ends, every reachable
directory is reported and entered once, its files are reported once for it, and the check for loops
never fires for a directory.
SOURCE: dietlibc-ftw.patch:66-89, 101-269 -/
theorem walker_explores (sys : System W D) (fn : Callback W) (hfn : ∀ c w, (fn c w).1 = 0) (G : Graph)
    (hwf : WellFormed G) (start : Bytes) (hzero : (0 : UInt8) ∉ start) (n₀ : FtwNode)
    (hkernel : Kernel sys G start n₀) (depth : Bool) (basedev : ℕ) :
    ∃ N, ∀ fuel, N ≤ fuel → ∀ nopenfd w level base fullpath,
      Careful sys fn ⟨⟨false, false, false, depth⟩, basedev⟩ fuel start nopenfd []
        ⟨w, level, base, .empty, fullpath, []⟩ →
      ∃ s, walker sys fn ⟨⟨false, false, false, depth⟩, basedev⟩ fuel start nopenfd []
          ⟨w, level, base, .empty, fullpath, []⟩ = some (0, s) ∧ Explores G n₀ s.events := by
  obtain ⟨t, V', ht⟩ := search_start sys ⟨false, false, false, depth⟩ rfl G start n₀ hkernel hwf
  obtain ⟨N, hN⟩ := walker_tree sys fn ⟨⟨false, false, false, depth⟩, basedev⟩ hfn
    (fun _ => hkernel.allocates) rfl rfl t start ∅ V' hzero ht.met
  refine ⟨N, ?_⟩
  intro fuel hfuel nopenfd w level base fullpath hcareful
  obtain ⟨s, hrun, hwalked⟩ := hN fuel hfuel nopenfd [] ⟨w, level, base, .empty, fullpath, []⟩ hcareful
    (fun _ => visited_empty) (by simp [Chain])
  refine ⟨s, hrun, explores_of_observed G n₀ s.events ?_⟩
  rw [hwalked.events]
  exact explores_report sys _ G hwf n₀ V' t depth start level base ht

mutual

/-- INTERNAL: the names of the graph are those of the tree that a search meets. -/
theorem namesFit_of_treeOf (G : Graph) (hshort : ∀ n es, G n = .dir es → ∀ e ∈ es, e.de.dName.length < NAME_MAX) :
    (t : Tree) → (n : FtwNode) → TreeOf G n t → t.NamesFit
  | .leaf st type, n, _ => by
    rw [Tree.NamesFit]
    trivial
  | .seen st, n, _ => by
    rw [Tree.NamesFit]
    trivial
  | .dir st l, n, h => by
    rw [TreeOf] at h
    obtain ⟨-, es, hes, hl⟩ := h
    rw [Tree.NamesFit]
    exact namesFit_of_listingOf G hshort l es (hshort st.node es hes) hl

/-- INTERNAL: the names of a directory. -/
theorem namesFit_of_listingOf (G : Graph)
    (hshort : ∀ n es, G n = .dir es → ∀ e ∈ es, e.de.dName.length < NAME_MAX) :
    (l : Listing) → (es : List Entry) → (∀ e ∈ es, e.de.dName.length < NAME_MAX) → ListingOf G es l → l.NamesFit
  | .nil, _, _, _ => by
    rw [Listing.NamesFit]
    trivial
  | .dots de rest, [], _, h => by
    simp [ListingOf] at h
  | .dots de rest, e :: es, hes, h => by
    rw [ListingOf] at h
    rw [Listing.NamesFit]
    exact namesFit_of_listingOf G hshort rest es (fun e' he' => hes e' (List.mem_cons_of_mem e he')) h.2.2
  | .entry de t rest, [], _, h => by
    simp [ListingOf] at h
  | .entry de t rest, e :: es, hes, h => by
    rw [ListingOf] at h
    obtain ⟨rfl, -, ht, hrest⟩ := h
    rw [Listing.NamesFit]
    exact ⟨hes e List.mem_cons_self, namesFit_of_treeOf G hshort t e.node ht,
      namesFit_of_listingOf G hshort rest es (fun e' he' => hes e' (List.mem_cons_of_mem e he')) hrest⟩

end

/-- **All calls of a walk that follows links go well** where the names are short, if no stream has descriptor 0
or none stays open.
SOURCE: dietlibc-ftw.patch:101-269 -/
theorem careful_graph (sys : System W D) (fn : Callback W) (hfn : ∀ c w, (fn c w).1 = 0) (G : Graph)
    (hwf : WellFormed G) (start : Bytes) (hzero : (0 : UInt8) ∉ start) (n₀ : FtwNode)
    (hkernel : Kernel sys G start n₀)
    (hshort : ∀ n es, G n = .dir es → ∀ e ∈ es, e.de.dName.length < NAME_MAX) (depth : Bool) (basedev : ℕ) :
    ∃ N, ∀ fuel, N ≤ fuel → ∀ nopenfd w level base fullpath, (1 < nopenfd → NeverZero sys) →
      Careful sys fn ⟨⟨false, false, false, depth⟩, basedev⟩ fuel start nopenfd []
        ⟨w, level, base, .empty, fullpath, []⟩ := by
  obtain ⟨t, V', ht⟩ := search_start sys ⟨false, false, false, depth⟩ rfl G start n₀ hkernel hwf
  obtain ⟨N, hN⟩ := careful_tree sys fn ⟨⟨false, false, false, depth⟩, basedev⟩ hfn
    (fun _ => hkernel.allocates) rfl rfl t start ∅ V' hzero (namesFit_of_treeOf G hshort t n₀ ht.treeOf) ht.met
  refine ⟨N, ?_⟩
  intro fuel hfuel nopenfd w level base fullpath hfds
  exact hN fuel hfuel nopenfd [] _ hfds (fun _ => visited_empty) (by simp [Chain])

/-! ## A link to the start -/

/-- A directory with a file and a link to the directory itself. -/
def loopGraph : Graph := fun n =>
  if n = ⟨1, 1⟩ then .dir [⟨⟨ascii ['f'], 1⟩, ⟨2, 1⟩⟩, ⟨⟨ascii ['l'], 2⟩, ⟨3, 1⟩⟩]
  else if n = ⟨3, 1⟩ then .lnk (some ⟨1, 1⟩)
  else .other

/-- Every path that ends in the name of the file names the file, every other one the directory. -/
def loopStat (p : Bytes) : Except ℕ Stat :=
  if p.getLast? = some 102 then .ok ⟨⟨2, 1⟩, .other⟩ else .ok ⟨⟨1, 1⟩, .dir⟩

/-- The kernel for the directory with the link. -/
def loopSystem : System Unit (List Dirent × ℕ) :=
  tableSystem loopStat loopStat (fun _ => some [ascii ['f'], ascii ['l']]) [1, 2, 3]

/-- INTERNAL: only one file is a directory. -/
theorem loopGraph_dir (n : FtwNode) (es : List Entry) (h : loopGraph n = .dir es) :
    n = ⟨1, 1⟩ ∧ es = [⟨⟨ascii ['f'], 1⟩, ⟨2, 1⟩⟩, ⟨⟨ascii ['l'], 2⟩, ⟨3, 1⟩⟩] := by
  unfold loopGraph at h
  split_ifs at h with h₁
  exact ⟨h₁, (Inode.dir.inj h).symm⟩

/-- INTERNAL: distinct names, one directory. -/
theorem loopGraph_wellFormed : WellFormed loopGraph where
  finite := by
    refine (Set.finite_singleton (⟨1, 1⟩ : FtwNode)).subset ?_
    intro n ⟨es, hes⟩
    exact (loopGraph_dir n es hes).1
  distinct := by
    intro n es hes
    obtain ⟨-, rfl⟩ := loopGraph_dir n es hes
    decide
  names := by
    intro n es hes e he
    obtain ⟨-, rfl⟩ := loopGraph_dir n es hes
    simp only [List.mem_cons, List.not_mem_nil, or_false] at he
    rcases he with rfl | rfl <;> decide

/-- INTERNAL: which paths lead where. -/
theorem loopGraph_leads (p : Bytes) (n : FtwNode) (h : Leads loopGraph (ascii ['s']) ⟨1, 1⟩ p n) :
    (n = ⟨2, 1⟩ ∧ p.getLast? = some 102) ∨ ((n = ⟨1, 1⟩ ∨ n = ⟨3, 1⟩) ∧ p.getLast? ≠ some 102) := by
  cases h with
  | start => exact Or.inr ⟨Or.inl rfl, by decide⟩
  | entry p n d es e _ _ hes he _ =>
    obtain ⟨-, rfl⟩ := loopGraph_dir d es hes
    simp only [List.mem_cons, List.not_mem_nil, or_false] at he
    rcases he with rfl | rfl
    · left
      simp [child, ascii]
    · right
      simp [child, ascii]

/-- INTERNAL: the kernel knows the directory with the link. -/
theorem loopSystem_kernel : Kernel loopSystem loopGraph (ascii ['s']) ⟨1, 1⟩ where
  allocates := allocates_table _ _ _ _
  stat := by
    intro p n m hleads hm w
    refine ⟨w, ?_⟩
    show (loopStat p, w) = _
    unfold loopStat
    rcases loopGraph_leads p n hleads with ⟨rfl, hlast⟩ | ⟨rfl | rfl, hlast⟩
    · obtain rfl : (⟨2, 1⟩ : FtwNode) = m := Option.some.inj hm
      rw [if_pos hlast]
      rfl
    · obtain rfl : (⟨1, 1⟩ : FtwNode) = m := Option.some.inj hm
      rw [if_neg hlast]
      rfl
    · obtain rfl : (⟨1, 1⟩ : FtwNode) = m := Option.some.inj hm
      rw [if_neg hlast]
      rfl
  dangling := by
    intro p n hleads hn
    rcases loopGraph_leads p n hleads with ⟨rfl, -⟩ | ⟨rfl | rfl, -⟩ <;> cases hn
  serves := by
    intro p n d es _ _ hes
    obtain ⟨-, rfl⟩ := loopGraph_dir d es hes
    exact serves_table _ _ _ _ p [ascii ['f'], ascii ['l']] rfl

/-- INTERNAL: the calls of the walk go well. -/
theorem loopSystem_careful :
    ∃ N, ∀ fuel, N ≤ fuel → ∀ nopenfd w level base fullpath,
      Careful loopSystem (fun _ w => (0, w)) ⟨⟨false, false, false, false⟩, 0⟩ fuel (ascii ['s']) nopenfd []
        ⟨w, level, base, .empty, fullpath, []⟩ := by
  have hshort : ∀ n es, loopGraph n = .dir es → ∀ e ∈ es, e.de.dName.length < NAME_MAX := by
    intro n es hes e he
    obtain ⟨-, rfl⟩ := loopGraph_dir n es hes
    simp only [List.mem_cons, List.not_mem_nil, or_false] at he
    rcases he with rfl | rfl <;> decide
  obtain ⟨N, hN⟩ := careful_graph loopSystem (fun _ w => (0, w)) (fun _ _ => rfl) loopGraph loopGraph_wellFormed
    (ascii ['s']) (by decide) ⟨1, 1⟩ loopSystem_kernel hshort false 0
  refine ⟨N, ?_⟩
  intro fuel hfuel nopenfd w level base fullpath
  exact hN fuel hfuel nopenfd w level base fullpath fun _ => neverZero_table _ _ _ _

/-- A link to the start does not keep the walk from ending. -/
theorem walker_explores_loop :
    ∃ N, ∀ fuel, N ≤ fuel → ∀ nopenfd w level base fullpath, ∃ s,
      walker loopSystem (fun _ w => (0, w)) ⟨⟨false, false, false, false⟩, 0⟩ fuel (ascii ['s']) nopenfd []
        ⟨w, level, base, .empty, fullpath, []⟩ = some (0, s) ∧ Explores loopGraph ⟨1, 1⟩ s.events := by
  obtain ⟨N, hN⟩ := walker_explores loopSystem (fun _ w => (0, w)) (fun _ _ => rfl) loopGraph loopGraph_wellFormed
    (ascii ['s']) (by decide) ⟨1, 1⟩ loopSystem_kernel false 0
  obtain ⟨M, hM⟩ := loopSystem_careful
  refine ⟨N + M, ?_⟩
  intro fuel hfuel nopenfd w level base fullpath
  exact hN fuel (by omega) nopenfd w level base fullpath (hM fuel (by omega) nopenfd w level base fullpath)

/-! ## A name of `NAME_MAX` bytes -/

/-- A name that fills the path buffer. -/
def longName : Bytes := List.replicate NAME_MAX 97

/-- A directory whose only entry is a directory with the long name, which holds a file. -/
def longGraph : Graph := fun n =>
  if n = ⟨1, 1⟩ then .dir [⟨⟨longName, 1⟩, ⟨2, 1⟩⟩]
  else if n = ⟨2, 1⟩ then .dir [⟨⟨ascii ['x'], 1⟩, ⟨3, 1⟩⟩]
  else .other

/-- The path of the directory with the long name. -/
def longPath : Bytes := child (ascii ['s']) longName

/-- The files of the graph. -/
def longStat (p : Bytes) : Except ℕ Stat :=
  if p = ascii ['s'] then .ok ⟨⟨1, 1⟩, .dir⟩
  else if p = longPath then .ok ⟨⟨2, 1⟩, .dir⟩
  else if p = child longPath (ascii ['x']) then .ok ⟨⟨3, 1⟩, .other⟩
  else .error ENOENT

/-- The directories of the graph. -/
def longNames (p : Bytes) : Option (List Bytes) :=
  if p = ascii ['s'] then some [longName]
  else if p = longPath then some [ascii ['x']]
  else none

/-- What earlier calls left on the stack: a slash and an `x` where the name ends. -/
def longStack : Bytes := List.replicate 257 1 ++ ascii ['/', 'x']

/-- The kernel for the long name. -/
def longSystem : System Unit (List Dirent × ℕ) := tableSystem longStat longStat longNames longStack

/-- INTERNAL: the directories of the graph. -/
theorem longGraph_dir (n : FtwNode) (es : List Entry) (h : longGraph n = .dir es) :
    (n = ⟨1, 1⟩ ∧ es = [⟨⟨longName, 1⟩, ⟨2, 1⟩⟩]) ∨
      (n = ⟨2, 1⟩ ∧ es = [⟨⟨ascii ['x'], 1⟩, ⟨3, 1⟩⟩]) := by
  unfold longGraph at h
  split_ifs at h with h₁ h₂
  · exact Or.inl ⟨h₁, (Inode.dir.inj h).symm⟩
  · exact Or.inr ⟨h₂, (Inode.dir.inj h).symm⟩

/-- INTERNAL: two directories with one entry each. -/
theorem longGraph_wellFormed : WellFormed longGraph where
  finite := by
    refine (Set.toFinite {(⟨1, 1⟩ : FtwNode), ⟨2, 1⟩}).subset ?_
    intro n ⟨es, hes⟩
    rcases longGraph_dir n es hes with ⟨rfl, -⟩ | ⟨rfl, -⟩
    · exact Set.mem_insert _ _
    · exact Set.mem_insert_of_mem _ rfl
  distinct := by
    intro n es hes
    rcases longGraph_dir n es hes with ⟨-, rfl⟩ | ⟨-, rfl⟩
    · exact List.nodup_singleton _
    · exact List.nodup_singleton _
  names := by
    intro n es hes e he
    rcases longGraph_dir n es hes with ⟨-, rfl⟩ | ⟨-, rfl⟩
    · obtain rfl := List.mem_singleton.mp he
      decide +kernel
    · obtain rfl := List.mem_singleton.mp he
      decide

/-- INTERNAL: there are no links in the example. -/
theorem longGraph_followed (n : FtwNode) : followed longGraph n = some n := by
  unfold followed longGraph
  split_ifs <;> rfl

/-- INTERNAL: which paths lead where. -/
theorem longGraph_leads (p : Bytes) (n : FtwNode) (h : Leads longGraph (ascii ['s']) ⟨1, 1⟩ p n) :
    (p = ascii ['s'] ∧ n = ⟨1, 1⟩) ∨ (p = longPath ∧ n = ⟨2, 1⟩) ∨
      (p = child longPath (ascii ['x']) ∧ n = ⟨3, 1⟩) := by
  induction h with
  | start => exact Or.inl ⟨rfl, rfl⟩
  | entry p n d es e _ hd hes he _ ih =>
    rw [longGraph_followed] at hd
    obtain rfl := Option.some.inj hd
    rcases longGraph_dir n es hes with ⟨rfl, rfl⟩ | ⟨rfl, rfl⟩
    · obtain rfl := List.mem_singleton.mp he
      rcases ih with ⟨rfl, -⟩ | ⟨-, h⟩ | ⟨-, h⟩
      · exact Or.inr (Or.inl ⟨rfl, rfl⟩)
      · simp at h
      · simp at h
    · obtain rfl := List.mem_singleton.mp he
      rcases ih with ⟨-, h⟩ | ⟨rfl, -⟩ | ⟨-, h⟩
      · simp at h
      · exact Or.inr (Or.inr ⟨rfl, rfl⟩)
      · simp at h

/-- INTERNAL: its paths differ. -/
theorem longPath_ne : longPath ≠ ascii ['s'] ∧ child longPath (ascii ['x']) ≠ ascii ['s'] ∧
    child longPath (ascii ['x']) ≠ longPath := by
  decide +kernel

/-- INTERNAL: the kernel knows the graph, and none of its calls fails. -/
theorem longSystem_kernel : Kernel longSystem longGraph (ascii ['s']) ⟨1, 1⟩ where
  allocates := allocates_table _ _ _ _
  stat := by
    intro p n m hleads hm w
    rw [longGraph_followed] at hm
    obtain rfl := Option.some.inj hm
    refine ⟨w, ?_⟩
    obtain ⟨h₁, h₂, h₃⟩ := longPath_ne
    show (longStat p, w) = _
    unfold longStat
    rcases longGraph_leads p n hleads with ⟨rfl, rfl⟩ | ⟨rfl, rfl⟩ | ⟨rfl, rfl⟩
    · rfl
    · rw [if_neg h₁, if_pos rfl]
      rfl
    · rw [if_neg h₂, if_neg h₃, if_pos rfl]
      rfl
  dangling := by
    intro p n _ hn
    rw [longGraph_followed] at hn
    cases hn
  serves := by
    intro p n d es hleads hd hes
    rw [longGraph_followed] at hd
    obtain rfl := Option.some.inj hd
    rcases longGraph_dir n es hes with ⟨rfl, rfl⟩ | ⟨rfl, rfl⟩
    · rcases longGraph_leads p _ hleads with ⟨rfl, -⟩ | ⟨-, h⟩ | ⟨-, h⟩
      · exact serves_table _ _ _ _ _ [longName] rfl
      · simp at h
      · simp at h
    · rcases longGraph_leads p _ hleads with ⟨-, h⟩ | ⟨rfl, -⟩ | ⟨-, h⟩
      · simp at h
      · refine serves_table _ _ _ _ _ [ascii ['x']] ?_
        unfold longNames
        rw [if_neg longPath_ne.1, if_pos rfl]
      · simp at h

/-- INTERNAL: **the name is not terminated**: the recursive call gets the path of the file in the
directory.
SOURCE: dietlibc-ftw.patch:220 -/
theorem longName_cstr :
    cstr (strncpy (pathBuffer longStack (ascii ['s'])) ((ascii ['s']).length + 1) longName) =
      child longPath (ascii ['x']) := by
  rw [strncpy_unterminated _ (ascii ['s']) longName (pathBuffer_pathBuffer longStack _)
    List.length_replicate]
  decide +kernel

/-- INTERNAL: the walk of the graph reports the start and the file only. -/
theorem longSystem_walk : ∃ N, ∀ fuel, N ≤ fuel → ∃ s,
    walker longSystem (fun _ w => (0, w)) ⟨⟨false, false, false, false⟩, 0⟩ fuel (ascii ['s']) 1 []
      ⟨(), 0, 0, .empty, [], []⟩ = some (0, s) ∧
    observed s.events = dirReport false (ascii ['s']) ⟨⟨1, 1⟩, .dir⟩ 0 0
      [.call ⟨child longPath (ascii ['x']), ⟨⟨3, 1⟩, .other⟩, .F, 1, 2⟩] := by
  have hkernel := longSystem_kernel
  have hstart : Leads longGraph (ascii ['s']) ⟨1, 1⟩ (ascii ['s']) ⟨1, 1⟩ := Leads.start
  have hlong : Leads longGraph (ascii ['s']) ⟨1, 1⟩ longPath ⟨2, 1⟩ :=
    Leads.entry _ _ ⟨1, 1⟩ [⟨⟨longName, 1⟩, ⟨2, 1⟩⟩] ⟨⟨longName, 1⟩, ⟨2, 1⟩⟩ hstart rfl rfl
      List.mem_cons_self (by decide +kernel)
  have hfile : Leads longGraph (ascii ['s']) ⟨1, 1⟩ (child longPath (ascii ['x'])) ⟨3, 1⟩ :=
    Leads.entry _ _ ⟨2, 1⟩ [⟨⟨ascii ['x'], 1⟩, ⟨3, 1⟩⟩] ⟨⟨ascii ['x'], 1⟩, ⟨3, 1⟩⟩ hlong rfl rfl
      List.mem_cons_self rfl
  have hshow := shows_of_stat longSystem ⟨false, false, false, false⟩ rfl _ _
    (hkernel.stat _ _ ⟨1, 1⟩ hstart rfl)
  have hshowFile := shows_of_stat longSystem ⟨false, false, false, false⟩ rfl _ _
    (hkernel.stat _ _ ⟨3, 1⟩ hfile rfl)
  have hleaf := walksTo_leaf longSystem (fun _ w => (0, w)) ⟨⟨false, false, false, false⟩, 0⟩ (fun _ _ => rfl)
    (fun _ => hkernel.allocates) rfl (child longPath (ascii ['x'])) ⟨⟨3, 1⟩, .other⟩ .F {⟨1, 1⟩} {⟨1, 1⟩} (by decide)
    (Or.inl ⟨hshowFile, by decide, rfl⟩)
  refine ⟨3, ?_⟩
  intro fuel hfuel
  obtain ⟨f, rfl⟩ : ∃ f, fuel = f + 2 + 1 := ⟨fuel - 3, by omega⟩
  have hserves : Serves longSystem (ascii ['s']) [⟨longName, 1⟩] := hkernel.serves _ _ _ _ hstart rfl rfl
  have hloop : Loops longSystem ⟨false, false, false, false⟩ (fun _ _ path _ => path = pathBuffer longStack (ascii ['s']))
      [⟨longName, 1⟩] {⟨1, 1⟩} {⟨1, 1⟩}
      (fun level base => [.call ⟨child longPath (ascii ['x']), ⟨⟨3, 1⟩, .other⟩, .F, level, base⟩])
      (readLoop longSystem ⟨false, false, false, false⟩ (ascii ['s']) 2 1 []
        (walker longSystem (fun _ w => (0, w)) ⟨⟨false, false, false, false⟩, 0⟩ (f + 2)) (f + 2)) [] := by
    intro dh data path s hdh hpath hlist hchain
    subst hpath
    obtain ⟨dh₁, w, dh₂, data₂, s₂, -, hstep, -, hdh₂, hdata, hwalked⟩ :=
      readLoop_entry longSystem ⟨false, false, false, false⟩ rfl (ascii ['s']) _ 1 []
        (walker longSystem (fun _ w => (0, w)) ⟨⟨false, false, false, false⟩, 0⟩ (f + 2)) {⟨1, 1⟩} {⟨1, 1⟩} _
        ⟨longName, 1⟩ (by decide +kernel) _ (hleaf (f + 2) (by omega)) [⟨longName, 1⟩] [] [] hserves rfl (f + 1) dh hdh
        data _ s (fun _ _ _ => trivial) (fun hmany => absurd hmany (by decide)) longName_cstr hlist hchain
    have hnode : data₂.node = data.node := by
      obtain rfl | ⟨dh₃, rfl⟩ := hdata <;> rfl
    obtain ⟨dh', s', hrun, hend⟩ := readLoop_nil longSystem ⟨false, false, false, false⟩ (ascii ['s']) 2 1 []
      (walker longSystem (fun _ w => (0, w)) ⟨⟨false, false, false, false⟩, 0⟩ (f + 2)) {⟨1, 1⟩} f
      (fun _ _ _ _ => True) dh₂ data₂ _ s₂ hdh₂ trivial hwalked.list (by
        intro _ d hd
        obtain rfl := List.mem_singleton.mp hd
        exact hnode ▸ hchain rfl data List.mem_cons_self)
    exact ⟨dh', s', hstep.trans hrun, hwalked.trans hend⟩
  obtain ⟨s, hrun, hwalked⟩ := walker_dir longSystem (fun _ w => (0, w)) ⟨⟨false, false, false, false⟩, 0⟩
    (fun _ _ => rfl) (fun _ => hkernel.allocates) rfl (ascii ['s']) ⟨⟨1, 1⟩, .dir⟩ (by decide) [⟨longName, 1⟩] ∅
    {⟨1, 1⟩} _ hshow hserves (by simp) (f + 2) 1 [] _ hloop ⟨(), 0, 0, .empty, [], []⟩ (fun _ _ _ => rfl)
    (fun _ => visited_empty) (by simp [Chain])
  exact ⟨s, hrun, hwalked.events⟩

/-- **A directory with a name of `NAME_MAX` bytes is lost**: no call fails, but what lay on the stack behind
the name is walked instead of the directory.
SOURCE: dietlibc-ftw.patch:201-220 -/
theorem name_max_is_lost :
    WellFormed longGraph ∧ Kernel longSystem longGraph (ascii ['s']) ⟨1, 1⟩ ∧ NeverZero longSystem ∧
      ¬ WalkExplores longSystem (fun _ w => (0, w)) longGraph (ascii ['s']) ⟨1, 1⟩ := by
  refine ⟨longGraph_wellFormed, longSystem_kernel, neverZero_table _ _ _ _, ?_⟩
  intro h
  obtain ⟨N₁, hN₁⟩ := h false 0
  obtain ⟨N₂, hN₂⟩ := longSystem_walk
  obtain ⟨s₁, hrun₁, hexplores⟩ := hN₁ (N₁ + N₂) (by omega) 1 () 0 0 []
  obtain ⟨s₂, hrun₂, hevents⟩ := hN₂ (N₁ + N₂) (by omega)
  obtain rfl : s₁ = s₂ := by
    rw [hrun₁] at hrun₂
    exact (Prod.mk.inj (Option.some.inj hrun₂)).2
  have hreached : Reached longGraph ⟨1, 1⟩ ⟨2, 1⟩ :=
    ⟨⟨1, 1⟩, rfl, ⟨_, rfl⟩, Relation.ReflTransGen.single
      ⟨_, rfl, _, List.mem_cons_self, by decide +kernel, rfl, _, rfl⟩⟩
  have hone := (hexplores.reached ⟨2, 1⟩ hreached).1
  unfold reports at hone
  rw [← calls_observed, hevents] at hone
  revert hone
  decide +kernel

/-! ## Descriptor 0 -/

/-- A directory with a file. -/
def fileGraph : Graph := fun n => if n = ⟨1, 1⟩ then .dir [⟨⟨ascii ['f'], 1⟩, ⟨2, 1⟩⟩] else .other

/-- The files of the graph. -/
def fileStat (p : Bytes) : Except ℕ Stat :=
  if p = ascii ['s'] then .ok ⟨⟨1, 1⟩, .dir⟩
  else if p = ascii ['s', '/', 'f'] then .ok ⟨⟨2, 1⟩, .other⟩
  else .error ENOENT

/-- A kernel whose first stream gets descriptor 0, for standard input is closed; the world says whether
the descriptor is in use. -/
def closedStdin : System Bool (ℕ × List Dirent × ℕ) where
  stat p w := (fileStat p, w)
  lstat p w := (fileStat p, w)
  opendir p w :=
    if p = ascii ['s'] then (some (if w then 3 else 0, direntsOf [ascii ['f']], 0), true) else (none, w)
  fd dh := dh.1
  readdir dh w := (dh.2.1[dh.2.2]?, (dh.1, dh.2.1, dh.2.2 + 1), w)
  seekdir dh off := (dh.1, dh.2.1, off.toNat)
  closedir dh w := w && decide (dh.1 ≠ 0)
  chdir _ w := (true, w)
  fchdir _ w := (true, w)
  getcwd w := (some [47], w)
  malloc w := (true, w)
  calloc m w := (SearchRuns.bump 0 m, w)
  stack _ := []

/-- INTERNAL: the only directory of the example. -/
theorem fileGraph_dir (n : FtwNode) (es : List Entry) (h : fileGraph n = .dir es) :
    n = ⟨1, 1⟩ ∧ es = [⟨⟨ascii ['f'], 1⟩, ⟨2, 1⟩⟩] := by
  unfold fileGraph at h
  split_ifs at h with h₁
  exact ⟨h₁, (Inode.dir.inj h).symm⟩

/-- INTERNAL: it has no links either. -/
theorem fileGraph_followed (n : FtwNode) : followed fileGraph n = some n := by
  unfold followed fileGraph
  split_ifs <;> rfl

/-- INTERNAL: one directory with one entry. -/
theorem fileGraph_wellFormed : WellFormed fileGraph where
  finite := by
    refine (Set.finite_singleton (⟨1, 1⟩ : FtwNode)).subset ?_
    intro n ⟨es, hes⟩
    exact (fileGraph_dir n es hes).1
  distinct := by
    intro n es hes
    obtain ⟨-, rfl⟩ := fileGraph_dir n es hes
    exact List.nodup_singleton _
  names := by
    intro n es hes e he
    obtain ⟨-, rfl⟩ := fileGraph_dir n es hes
    obtain rfl := List.mem_singleton.mp he
    decide

/-- INTERNAL: which paths lead where. -/
theorem fileGraph_leads (p : Bytes) (n : FtwNode) (h : Leads fileGraph (ascii ['s']) ⟨1, 1⟩ p n) :
    (p = ascii ['s'] ∧ n = ⟨1, 1⟩) ∨ (p = ascii ['s', '/', 'f'] ∧ n = ⟨2, 1⟩) := by
  induction h with
  | start => exact Or.inl ⟨rfl, rfl⟩
  | entry p n d es e _ hd hes he _ ih =>
    rw [fileGraph_followed] at hd
    obtain rfl := Option.some.inj hd
    obtain ⟨rfl, rfl⟩ := fileGraph_dir n es hes
    obtain rfl := List.mem_singleton.mp he
    rcases ih with ⟨rfl, -⟩ | ⟨-, h⟩
    · exact Or.inr ⟨rfl, rfl⟩
    · simp at h

/-- INTERNAL: the kernel knows the graph, and none of its calls fails. -/
theorem closedStdin_kernel : Kernel closedStdin fileGraph (ascii ['s']) ⟨1, 1⟩ where
  allocates := {
    malloc := fun w => ⟨w, rfl⟩
    calloc := by
      intro m w
      obtain ⟨a, ha, hfresh⟩ := SearchRuns.bump_succeeds 0 m
      exact ⟨a, w, by show (SearchRuns.bump 0 m, w) = _; rw [ha], hfresh⟩ }
  stat := by
    intro p n m hleads hm w
    rw [fileGraph_followed] at hm
    obtain rfl := Option.some.inj hm
    rcases fileGraph_leads p n hleads with ⟨rfl, rfl⟩ | ⟨rfl, rfl⟩
    · exact ⟨w, rfl⟩
    · exact ⟨w, rfl⟩
  dangling := by
    intro p n _ hn
    rw [fileGraph_followed] at hn
    cases hn
  serves := by
    intro p n d es hleads hd hes w
    rw [fileGraph_followed] at hd
    obtain rfl := Option.some.inj hd
    obtain ⟨rfl, rfl⟩ := fileGraph_dir n es hes
    obtain rfl : p = ascii ['s'] := by
      rcases fileGraph_leads p _ hleads with ⟨rfl, -⟩ | ⟨-, h⟩
      · rfl
      · simp at h
    refine ⟨_, true, rfl, fun w => ⟨_, w, rfl, fun w => ⟨_, w, rfl⟩⟩, ?_⟩
    intro pre e rest hes
    obtain ⟨rfl, rfl, rfl⟩ : pre = [] ∧ e = ⟨ascii ['f'], 1⟩ ∧ rest = [] := by
      cases pre with
      | nil => exact ⟨rfl, (List.cons.inj hes).1.symm, (List.cons.inj hes).2.symm⟩
      | cons d pre => simp at hes
    exact fun w => ⟨_, w, rfl⟩

/-- **A stream with descriptor 0 is read twice**: `walker` takes it for a closed one, opens the directory
again and starts from offset 0, and the file is reported once more.
SOURCE: dietlibc-ftw.patch:213, 232-238 -/
theorem descriptor_zero_is_read_twice :
    WellFormed fileGraph ∧ Kernel closedStdin fileGraph (ascii ['s']) ⟨1, 1⟩ ∧
      ¬ WalkExplores closedStdin (fun _ w => (0, w)) fileGraph (ascii ['s']) ⟨1, 1⟩ := by
  refine ⟨fileGraph_wellFormed, closedStdin_kernel, ?_⟩
  intro h
  obtain ⟨N, hN⟩ := h false 0
  obtain ⟨s, hrun, hexplores⟩ := hN (N + 5) (by omega) 2 false 0 0 []
  have hcalls : calls s.events = [⟨ascii ['s'], ⟨⟨1, 1⟩, .dir⟩, .D, 0, 0⟩,
      ⟨ascii ['s', '/', 'f'], ⟨⟨2, 1⟩, .other⟩, .F, 1, 2⟩,
      ⟨ascii ['s', '/', 'f'], ⟨⟨2, 1⟩, .other⟩, .F, 1, 2⟩] := by
    have hmap := congrArg (Option.map fun r => calls r.2.events) hrun
    exact (Option.some.inj hmap).symm
  have hfile : ¬ LeadsToDir fileGraph ⟨2, 1⟩ := by
    intro ⟨d, hd, es, hes⟩
    cases hd
    cases hes
  have hmem : ⟨ascii ['s'], ⟨⟨1, 1⟩, .dir⟩, .D, 0, 0⟩ ∈ calls s.events := by
    rw [hcalls]
    exact List.mem_cons_self
  have hone := hexplores.files _ hmem rfl _ rfl _ List.mem_cons_self rfl hfile
  unfold paths at hone
  rw [hcalls] at hone
  revert hone
  decide

end TTLinux.Analysis.FtwGraph
