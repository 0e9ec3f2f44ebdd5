import Mathlib.Data.Set.Finite.Basic
import TTLinux.Analysis.FtwWalk
import TTLinux.Lib.Exploration

/-!
# The search of a directory graph

Without `FTW_PHYS` symbolic links are followed, and what lies below the start is a graph
of directories, in which links may lead back or lead to one directory twice. The list of
visited directories makes the walk a depth-first search of this graph: `search_ends`
says that every graph has a finite tree of what the walk meets in it, and that this
tree enters each directory once.
-/

set_option autoImplicit false

namespace TTLinux.Analysis.FtwSearch

open TTLinux.Lib
open TTLinux.Model.Ftw
open TTLinux.Analysis.FtwCalls
open TTLinux.Analysis.FtwVisited
open TTLinux.Analysis.FtwWalk

variable {W D : Type}

/-! ## Directory graphs -/

/-- An entry of a directory and the file it names. -/
structure Entry where
  de : Dirent
  node : FtwNode

/-- A file: a directory, a symbolic link with the file it finally leads to, if any, or something else. -/
inductive Inode where
  | dir (entries : List Entry)
  | lnk (target : Option FtwNode)
  | other

/-- The kind of a file. -/
def Inode.kind : Inode → Kind
  | .dir _ => .dir
  | .lnk _ => .lnk
  | .other => .other

/-- The files by their identity. -/
abbrev Graph := FtwNode → Inode

/-- The file that a name leads to, once links are followed. -/
def followed (G : Graph) (n : FtwNode) : Option FtwNode :=
  match G n with
  | .lnk target => target
  | _ => some n

/-- A directory. -/
def IsDir (G : Graph) (n : FtwNode) : Prop := ∃ es, G n = .dir es

/-- The name leads to a directory. -/
def LeadsToDir (G : Graph) (n : FtwNode) : Prop := ∃ d, followed G n = some d ∧ IsDir G d

/-- The second directory is a subdirectory of the first one, or a link in it leads there. -/
def Edge (G : Graph) (d d' : FtwNode) : Prop :=
  ∃ es, G d = .dir es ∧ ∃ e ∈ es, isDots e.de.dName = false ∧ followed G e.node = some d' ∧ IsDir G d'

/-- A directory that is reachable from the start. -/
def Reached (G : Graph) (n₀ d : FtwNode) : Prop :=
  ∃ s, followed G n₀ = some s ∧ IsDir G s ∧ Relation.ReflTransGen (Edge G) s d

/-- A finite graph of directories, in which the names of a directory are distinct file names. -/
structure WellFormed (G : Graph) : Prop where
  finite : {n | IsDir G n}.Finite
  distinct : ∀ n es, G n = .dir es → (es.map fun e => e.de.dName).Nodup
  names : ∀ n es, G n = .dir es → ∀ e ∈ es, (0 : UInt8) ∉ e.de.dName ∧ (47 : UInt8) ∉ e.de.dName

/-- A path below the start and the file that its last component names. -/
inductive Leads (G : Graph) (start : Bytes) (n₀ : FtwNode) : Bytes → FtwNode → Prop where
  | start : Leads G start n₀ start n₀
  | entry (p : Bytes) (n d : FtwNode) (es : List Entry) (e : Entry) (h : Leads G start n₀ p n)
      (hd : followed G n = some d) (hes : G d = .dir es) (he : e ∈ es) (hdots : isDots e.de.dName = false) :
      Leads G start n₀ (child p e.de.dName) e.node

/-- The kernel knows the graph, and no call fails but `stat` of a link that leads nowhere. -/
structure Kernel (sys : System W D) (G : Graph) (start : Bytes) (n₀ : FtwNode) : Prop where
  allocates : Allocates sys
  stat : ∀ p n m, Leads G start n₀ p n → followed G n = some m →
    ∀ w, ∃ w', sys.stat p w = (.ok ⟨m, (G m).kind⟩, w')
  dangling : ∀ p n, Leads G start n₀ p n → followed G n = none →
    (∀ w, ∃ w', sys.stat p w = (.error ENOENT, w')) ∧ ∀ w, ∃ w', sys.lstat p w = (.ok ⟨n, .lnk⟩, w')
  serves : ∀ p n d es, Leads G start n₀ p n → followed G n = some d → G d = .dir es →
    Serves sys p (es.map Entry.de)

/-! ## The tree of a search -/

mutual

/-- The directories of a tree in the order in which they are entered. -/
def enteredBy : Tree → List FtwNode
  | .leaf _ _ => []
  | .seen _ => []
  | .dir st l => st.node :: enteredByEntries l

/-- The directories below a listing. -/
def enteredByEntries : Listing → List FtwNode
  | .nil => []
  | .dots _ rest => enteredByEntries rest
  | .entry _ t rest => enteredBy t ++ enteredByEntries rest

end

mutual

/-- The tree is what a search meets at a name: leaves are not directories, and a directory has its
own entries. -/
def TreeOf (G : Graph) (n : FtwNode) : Tree → Prop
  | .leaf _ type => ¬ LeadsToDir G n ∧ type ≠ .D ∧ type ≠ .DP
  | .seen _ => LeadsToDir G n
  | .dir st l => followed G n = some st.node ∧ ∃ es, G st.node = .dir es ∧ ListingOf G es l

/-- The listing is what a search meets in a directory. -/
def ListingOf (G : Graph) : List Entry → Listing → Prop
  | [], .nil => True
  | e :: es, .dots de rest => de = e.de ∧ isDots de.dName = true ∧ ListingOf G es rest
  | e :: es, .entry de t rest =>
    de = e.de ∧ isDots de.dName = false ∧ TreeOf G e.node t ∧ ListingOf G es rest
  | _, _ => False

end

/-- INTERNAL: the names of a listing. -/
theorem dirents_of_listingOf (G : Graph) (es : List Entry) (l : Listing) (h : ListingOf G es l) :
    l.dirents = es.map Entry.de := by
  induction es generalizing l with
  | nil =>
    cases l with
    | nil => rfl
    | dots de rest => simp [ListingOf] at h
    | entry de t rest => simp [ListingOf] at h
  | cons e es ih =>
    cases l with
    | nil => simp [ListingOf] at h
    | dots de rest =>
      rw [ListingOf] at h
      rw [Listing.dirents, ih rest h.2.2, h.1]
      rfl
    | entry de t rest =>
      rw [ListingOf] at h
      rw [Listing.dirents, ih rest h.2.2.2, h.1]
      rfl

/-! ## The search -/

/-- What a search from a name does. -/
structure Searched (sys : System W D) (flags : Flags) (G : Graph) (p : Bytes) (n : FtwNode)
    (V V' : Finset FtwNode) (t : Tree) : Prop where
  met : t.Met sys flags p V V'
  treeOf : TreeOf G n t
  explored : Explored (Edge G) V V' (enteredBy t)
  isDir : ∀ x ∈ enteredBy t, IsDir G x
  reached : ∀ d, followed G n = some d → IsDir G d → d ∈ V'
  sound : ∀ x ∈ enteredBy t, ∃ d, followed G n = some d ∧ Relation.ReflTransGen (Edge G) d x

/-- What a search from the entries of a directory does. -/
structure SearchedEntries (sys : System W D) (flags : Flags) (G : Graph) (p : Bytes) (es : List Entry)
    (V V' : Finset FtwNode) (l : Listing) : Prop where
  met : l.Met sys flags p V V'
  listingOf : ListingOf G es l
  explored : Explored (Edge G) V V' (enteredByEntries l)
  isDir : ∀ x ∈ enteredByEntries l, IsDir G x
  reached : ∀ e ∈ es, isDots e.de.dName = false → ∀ d, followed G e.node = some d → IsDir G d → d ∈ V'
  sound : ∀ x ∈ enteredByEntries l, ∃ e ∈ es, isDots e.de.dName = false ∧
    ∃ d, followed G e.node = some d ∧ IsDir G d ∧ Relation.ReflTransGen (Edge G) d x

/-- INTERNAL: only directories lead on. -/
theorem isDir_of_reach (G : Graph) (d x : FtwNode) (h : Relation.ReflTransGen (Edge G) d x) (hx : IsDir G x) :
    IsDir G d := by
  rcases Relation.ReflTransGen.cases_head h with rfl | ⟨y, ⟨es, hes, -⟩, -⟩
  · exact hx
  · exact ⟨es, hes⟩

/-- INTERNAL: what `stat` says of a name that leads somewhere.
SOURCE: dietlibc-ftw.patch:116-136 -/
theorem shows_of_stat (sys : System W D) (flags : Flags) (hphys : flags.phys = false) (p : Bytes) (st : Stat)
    (h : ∀ w, ∃ w', sys.stat p w = (.ok st, w')) :
    Shows sys flags p (match st.kind with
      | .dir => .D
      | .lnk => .SL
      | .other => .F) st := by
  intro w
  obtain ⟨w', hw⟩ := h w
  refine ⟨w', ?_⟩
  obtain ⟨node, kind⟩ := st
  unfold classify
  cases kind <;> simp only [hphys, Bool.false_eq_true, if_false, hw]

/-- INTERNAL: a link that leads nowhere.
SOURCE: dietlibc-ftw.patch:118-124 -/
theorem shows_dangling (sys : System W D) (flags : Flags) (hphys : flags.phys = false) (p : Bytes)
    (n : FtwNode) (h : ∀ w, ∃ w', sys.stat p w = (.error ENOENT, w'))
    (hl : ∀ w, ∃ w', sys.lstat p w = (.ok ⟨n, .lnk⟩, w')) : Shows sys flags p .SLN ⟨n, .lnk⟩ := by
  intro w
  obtain ⟨w₁, hw₁⟩ := h w
  obtain ⟨w₂, hw₂⟩ := hl w₁
  refine ⟨w₂, ?_⟩
  unfold classify
  simp only [hphys, Bool.false_eq_true, if_false, if_true, hw₁, hw₂]

section Search

variable (sys : System W D) (flags : Flags) (hphys : flags.phys = false) (G : Graph) (start : Bytes)
  (n₀ : FtwNode) (hkernel : Kernel sys G start n₀)

include hphys hkernel

/-- INTERNAL: a name that does not lead to a directory.
SOURCE: dietlibc-ftw.patch:116-136 -/
theorem search_leaf (V : Finset FtwNode) (hV : ∀ x ∈ V, IsDir G x) (p : Bytes) (n : FtwNode)
    (hleads : Leads G start n₀ p n) (hn : ¬ LeadsToDir G n) : ∃ t, Searched sys flags G p n V V t := by
  obtain ⟨st, type, hshow, hfile, hD, hDP⟩ : ∃ st type, Shows sys flags p type st ∧ ¬ IsDir G st.node ∧
      type ≠ .D ∧ type ≠ .DP := by
    cases hf : followed G n with
    | none =>
      obtain ⟨hstat, hlstat⟩ := hkernel.dangling p n hleads hf
      refine ⟨⟨n, .lnk⟩, .SLN, shows_dangling sys flags hphys p n hstat hlstat, ?_, by decide, by decide⟩
      intro ⟨es, hes⟩
      simp [followed, hes] at hf
    | some m =>
      have hshow := shows_of_stat sys flags hphys p _ (hkernel.stat p n m hleads hf)
      have hm : ¬ IsDir G m := fun hm => hn ⟨m, hf, hm⟩
      cases hG : G m with
      | dir es => exact absurd ⟨es, hG⟩ hm
      | other =>
        rw [hG] at hshow
        exact ⟨⟨m, .other⟩, .F, hshow, hm, by decide, by decide⟩
      | lnk t =>
        rw [hG] at hshow
        exact ⟨⟨m, .lnk⟩, .SL, hshow, hm, by decide, by decide⟩
  refine ⟨.leaf st type, ?_, ?_, ?_, ?_, ?_, ?_⟩
  · rw [Tree.Met]
    exact ⟨fun _ hmem => hfile (hV _ hmem), Or.inl ⟨hshow, hD, rfl⟩⟩
  · rw [TreeOf]
    exact ⟨hn, hD, hDP⟩
  · rw [enteredBy]
    exact Explored.refl V
  · simp [enteredBy]
  · intro d hd hdir
    exact absurd ⟨d, hd, hdir⟩ hn
  · simp [enteredBy]

/-- INTERNAL: a directory that was visited before.
SOURCE: dietlibc-ftw.patch:142-144 -/
theorem search_seen (V : Finset FtwNode) (p : Bytes) (n d : FtwNode) (hleads : Leads G start n₀ p n)
    (hd : followed G n = some d) (hdir : IsDir G d) (hmem : d ∈ V) : ∃ t, Searched sys flags G p n V V t := by
  have hshow := shows_of_stat sys flags hphys p _ (hkernel.stat p n d hleads hd)
  obtain ⟨es, hes⟩ := hdir
  rw [hes] at hshow
  refine ⟨.seen ⟨d, .dir⟩, ?_, ?_, ?_, ?_, ?_, ?_⟩
  · rw [Tree.Met]
    exact ⟨hphys, hmem, hshow, rfl⟩
  · rw [TreeOf]
    exact ⟨d, hd, es, hes⟩
  · rw [enteredBy]
    exact Explored.refl V
  · simp [enteredBy]
  · intro d' hd' _
    rw [hd] at hd'
    exact Option.some.inj hd' ▸ hmem
  · simp [enteredBy]

/-- INTERNAL: a directory that is entered, given the search from its entries.
SOURCE: dietlibc-ftw.patch:138-257 -/
theorem search_dir (V V' : Finset FtwNode) (p : Bytes) (n d : FtwNode) (es : List Entry)
    (hleads : Leads G start n₀ p n) (hd : followed G n = some d) (hes : G d = .dir es) (hmem : d ∉ V)
    (l : Listing) (hl : SearchedEntries sys flags G p es (insert d V) V' l) :
    Searched sys flags G p n V V' (.dir ⟨d, .dir⟩ l) := by
  have hshow := shows_of_stat sys flags hphys p _ (hkernel.stat p n d hleads hd)
  have hserves := hkernel.serves p n d es hleads hd hes
  rw [hes] at hshow
  refine ⟨?_, ?_, ?_, ?_, ?_, ?_⟩
  · rw [Tree.Met, dirents_of_listingOf G es l hl.listingOf]
    refine ⟨fun _ => hmem, hshow, hserves, ?_⟩
    unfold mark
    rw [hphys]
    exact hl.met
  · rw [TreeOf]
    exact ⟨hd, es, hes, hl.listingOf⟩
  · rw [enteredBy]
    refine Explored.enter hmem hl.explored ?_
    intro y ⟨es', hes', e, he, hdots, hy, hydir⟩
    obtain rfl : es = es' := by
      rw [hes] at hes'
      exact Inode.dir.inj hes'
    exact hl.reached e he hdots y hy hydir
  · intro x hx
    rw [enteredBy] at hx
    rcases List.mem_cons.mp hx with rfl | hx
    · exact ⟨es, hes⟩
    · exact hl.isDir x hx
  · intro d' hd' _
    rw [hd] at hd'
    obtain rfl := Option.some.inj hd'
    exact hl.explored.subset (Finset.mem_insert_self _ _)
  · intro x hx
    rw [enteredBy] at hx
    refine ⟨d, hd, ?_⟩
    rcases List.mem_cons.mp hx with rfl | hx
    · exact Relation.ReflTransGen.refl
    · obtain ⟨e, he, hdots, d', hd', hdir', hreach⟩ := hl.sound x hx
      exact Relation.ReflTransGen.head ⟨es, hes, e, he, hdots, hd', hdir'⟩ hreach

variable (hwf : WellFormed G)

include hwf

omit hphys hkernel in
/-- INTERNAL: the search from the entries of a directory, given the search from every name while fewer
than `k` directories are not visited.
SOURCE: dietlibc-ftw.patch:212-239 -/
theorem search_entries (S : Finset FtwNode) (k : ℕ)
    (ih : ∀ V : Finset FtwNode, (∀ x ∈ V, IsDir G x) → (S \ V).card < k → ∀ p n, Leads G start n₀ p n →
      ∃ t V', Searched sys flags G p n V V' t)
    (p : Bytes) (n d : FtwNode) (all : List Entry) (hleads : Leads G start n₀ p n)
    (hd : followed G n = some d) (hall : G d = .dir all) (es : List Entry) (hes : ∀ e ∈ es, e ∈ all)
    (V : Finset FtwNode) (hV : ∀ x ∈ V, IsDir G x) (hk : (S \ V).card < k) :
    ∃ l V', SearchedEntries sys flags G p es V V' l := by
  induction es generalizing V with
  | nil =>
    refine ⟨.nil, V, by rw [Listing.Met], by rw [ListingOf]; trivial, ?_, ?_, ?_, ?_⟩
    · rw [enteredByEntries]
      exact Explored.refl V
    · simp [enteredByEntries]
    · simp
    · simp [enteredByEntries]
  | cons e es ihes =>
    have he := hes e List.mem_cons_self
    have hrest := fun e' he' => hes e' (List.mem_cons_of_mem e he')
    cases hdots : isDots e.de.dName with
    | true =>
      obtain ⟨l, V', hl⟩ := ihes hrest V hV hk
      refine ⟨.dots e.de l, V', ?_, ?_, ?_, ?_, ?_, ?_⟩
      · rw [Listing.Met]
        exact ⟨hdots, hl.met⟩
      · rw [ListingOf]
        exact ⟨rfl, hdots, hl.listingOf⟩
      · rw [enteredByEntries]
        exact hl.explored
      · rw [enteredByEntries]
        exact hl.isDir
      · intro e' he' hdots'
        rcases List.mem_cons.mp he' with rfl | he'
        · rw [hdots] at hdots'
          cases hdots'
        · exact hl.reached e' he' hdots'
      · intro x hx
        rw [enteredByEntries] at hx
        obtain ⟨e', he', hsound⟩ := hl.sound x hx
        exact ⟨e', List.mem_cons_of_mem e he', hsound⟩
    | false =>
      obtain ⟨t, V₁, ht⟩ := ih V hV hk _ _ (Leads.entry p n d all e hleads hd hall he hdots)
      have hV₁ : ∀ x ∈ V₁, IsDir G x := by
        intro x hx
        rcases (ht.explored.mem x).mp hx with hx | hx
        · exact hV x hx
        · exact ht.isDir x hx
      have hk₁ : (S \ V₁).card < k :=
        lt_of_le_of_lt (Finset.card_le_card (Finset.sdiff_subset_sdiff (Finset.Subset.refl S)
          ht.explored.subset)) hk
      obtain ⟨l, V', hl⟩ := ihes hrest V₁ hV₁ hk₁
      have hname : FileName e.de.dName := ⟨(hwf.names d all hall e he).1, (hwf.names d all hall e he).2⟩
      refine ⟨.entry e.de t l, V', ?_, ?_, ?_, ?_, ?_, ?_⟩
      · rw [Listing.Met]
        exact ⟨hdots, hname, V₁, ht.met, hl.met⟩
      · rw [ListingOf]
        exact ⟨rfl, hdots, ht.treeOf, hl.listingOf⟩
      · rw [enteredByEntries]
        exact ht.explored.trans hl.explored
      · intro x hx
        rw [enteredByEntries] at hx
        rcases List.mem_append.mp hx with hx | hx
        · exact ht.isDir x hx
        · exact hl.isDir x hx
      · intro e' he' hdots' d' hd' hdir'
        rcases List.mem_cons.mp he' with rfl | he'
        · exact hl.explored.subset (ht.reached d' hd' hdir')
        · exact hl.reached e' he' hdots' d' hd' hdir'
      · intro x hx
        rw [enteredByEntries] at hx
        rcases List.mem_append.mp hx with hx | hx
        · obtain ⟨d', hd', hreach⟩ := ht.sound x hx
          exact ⟨e, List.mem_cons_self, hdots, d', hd', isDir_of_reach G d' x hreach (ht.isDir x hx), hreach⟩
        · obtain ⟨e', he', hsound⟩ := hl.sound x hx
          exact ⟨e', List.mem_cons_of_mem e he', hsound⟩

/-- INTERNAL: **the search ends**: every directory that is entered leaves one fewer.
SOURCE: dietlibc-ftw.patch:138-257 -/
theorem search_ends (S : Finset FtwNode) (hS : ∀ x, IsDir G x → x ∈ S) (k : ℕ) :
    ∀ V : Finset FtwNode, (∀ x ∈ V, IsDir G x) → (S \ V).card < k → ∀ p n, Leads G start n₀ p n →
      ∃ t V', Searched sys flags G p n V V' t := by
  induction k with
  | zero =>
    intro V _ hk
    omega
  | succ k ih =>
    intro V hV hk p n hleads
    by_cases hn : LeadsToDir G n
    · obtain ⟨d, hd, es, hes⟩ := hn
      by_cases hmem : d ∈ V
      · obtain ⟨t, ht⟩ := search_seen sys flags hphys G start n₀ hkernel V p n d hleads hd ⟨es, hes⟩ hmem
        exact ⟨t, V, ht⟩
      · have hV' : ∀ x ∈ insert d V, IsDir G x := by
          intro x hx
          rcases Finset.mem_insert.mp hx with rfl | hx
          · exact ⟨es, hes⟩
          · exact hV x hx
        have hk' : (S \ insert d V).card < k := by
          have hlt : (S \ insert d V).card < (S \ V).card := by
            apply Finset.card_lt_card
            rw [Finset.ssubset_iff_of_subset (Finset.sdiff_subset_sdiff (Finset.Subset.refl S)
              (Finset.subset_insert d V))]
            exact ⟨d, Finset.mem_sdiff.mpr ⟨hS d ⟨es, hes⟩, hmem⟩, by simp⟩
          omega
        obtain ⟨l, V', hl⟩ := search_entries sys flags G start n₀ hwf S k ih p n d es hleads hd hes
          es (fun _ h => h) (insert d V) hV' hk'
        exact ⟨_, V', search_dir sys flags hphys G start n₀ hkernel V V' p n d es hleads hd hes hmem l hl⟩
    · obtain ⟨t, ht⟩ := search_leaf sys flags hphys G start n₀ hkernel V hV p n hleads hn
      exact ⟨t, V, ht⟩

/-- INTERNAL: the search from the start.
SOURCE: dietlibc-ftw.patch:101-269 -/
theorem search_start : ∃ t V', Searched sys flags G start n₀ ∅ V' t :=
  search_ends sys flags hphys G start n₀ hkernel hwf hwf.finite.toFinset
    (fun x hx => hwf.finite.mem_toFinset.mpr hx) (hwf.finite.toFinset.card + 1) ∅ (by simp) (by simp) start n₀ Leads.start

end Search

end TTLinux.Analysis.FtwSearch
