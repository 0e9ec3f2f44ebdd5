import Mathlib.Data.Finset.Insert
import TTLinux.Analysis.SearchHeap
import TTLinux.Model.Ftw

/-!
# The list of visited directories

`nodecmp` tells equal directories from different ones and orders nothing. Every search
therefore goes to the right: the tree is a chain, which `tsearch` extends at its end, and
`find_node` and `add_node` work on the set of the directories in it.
-/

set_option autoImplicit false

namespace TTLinux.Analysis.FtwVisited

open TTLinux.Lib
open TTLinux.Model.Search (Mem tsearch)
open TTLinux.Model.Ftw
open TTLinux.Analysis.SearchHeap

variable {W D : Type}

/-- No node has a left child. -/
def RightChain {K : Type} : LTree K → Prop
  | .nil => True
  | .node _ _ l r => l = .nil ∧ RightChain r

/-- INTERNAL: `nodecmp` recognises a directory.
SOURCE: dietlibc-ftw.patch:66-70 -/
theorem nodecmp_self (k : FtwNode) : nodecmp k k = 0 := by
  unfold nodecmp
  rw [if_pos ⟨rfl, rfl⟩]

/-- INTERNAL: `nodecmp` sends every other directory to the right.
SOURCE: dietlibc-ftw.patch:66-70 -/
theorem nodecmp_of_ne (k x : FtwNode) (h : k ≠ x) : nodecmp k x = 1 := by
  unfold nodecmp
  rw [if_neg]
  intro heq
  apply h
  cases k
  cases x
  simpa using heq

section Chain

variable {K : Type} (compar : K → K → ℤ) (f : K → FtwNode) (hcompar : ∀ p q, compar p q = nodecmp (f p) (f q))

include hcompar

/-- INTERNAL: the search ends at the directory if the chain has it, else at the end.
SOURCE: dietlibc-ftw.patch:83-89 -/
theorem descend_chain (k : K) (t : LTree K) (h : RightChain t) :
    (t.descend compar k).ptr.isSome = decide (f k ∈ t.keys.map f) := by
  induction t with
  | nil => simp [LTree.descend]
  | node a x l r _ ih =>
    obtain ⟨rfl, hr⟩ := h
    rw [LTree.descend, hcompar]
    by_cases hk : f k = f x
    · rw [hk, nodecmp_self]
      simp
    · rw [nodecmp_of_ne _ _ hk, if_neg (by decide), if_pos (by decide), ih hr]
      simp [hk]

/-- INTERNAL: a new directory is added at the end of the chain.
SOURCE: dietlibc-ftw.patch:73-81 -/
theorem insert_chain (k : K) (a : Addr) (t : LTree K) (h : RightChain t) (hk : f k ∉ t.keys.map f) :
    RightChain (t.insert compar k a) ∧ (t.insert compar k a).cells = t.cells ++ [(a, k)] := by
  induction t with
  | nil => exact ⟨⟨rfl, trivial⟩, rfl⟩
  | node b x l r _ ih =>
    obtain ⟨rfl, hr⟩ := h
    simp only [LTree.keys_node, LTree.keys_nil, List.nil_append, List.map_cons, List.mem_cons, not_or] at hk
    obtain ⟨hchain, hcells⟩ := ih hr hk.2
    rw [LTree.insert, hcompar, nodecmp_of_ne _ _ hk.1, if_neg (by decide), if_pos (by decide)]
    refine ⟨⟨rfl, hchain⟩, ?_⟩
    simp [hcells]

end Chain

/-- The list stands for a set of directories. -/
def Visited (m : Mem FtwNode) (V : Finset FtwNode) : Prop :=
  ∃ t, Represents m t ∧ RightChain t ∧ ∀ k, k ∈ t.keys ↔ k ∈ V

/-- INTERNAL: before the first directory none was visited. -/
theorem visited_empty : Visited Mem.empty ∅ := by
  refine ⟨.nil, ⟨rfl, trivial, List.nodup_nil⟩, trivial, ?_⟩
  simp

/-- INTERNAL: **`find_node` decides whether a directory was visited.**
SOURCE: dietlibc-ftw.patch:83-89 -/
theorem findNode_eq (st : Stat) (s : State W) (V : Finset FtwNode) (h : Visited s.ftwList V) :
    findNode st s = some (decide (st.node ∈ V)) := by
  obtain ⟨t, hrep, hchain, hkeys⟩ := h
  unfold findNode
  rw [tfind_eq nodecmp st.node s.ftwList t hrep, Option.map_some,
    descend_chain nodecmp id (fun _ _ => rfl) st.node t hchain]
  simp only [List.map_id, id, hkeys]

/-- No allocation fails, and a new node does not overlap the tree. -/
structure Allocates (sys : System W D) : Prop where
  malloc : ∀ w, ∃ w', sys.malloc w = (true, w')
  calloc : ∀ m w, ∃ a w', sys.calloc m w = (some a, w') ∧ a ∉ m.heap

/-- INTERNAL: **`add_node` adds a directory to the set.**
SOURCE: dietlibc-ftw.patch:73-81 -/
theorem addNode_eq (sys : System W D) (halloc : Allocates sys) (st : Stat) (s : State W)
    (V : Finset FtwNode) (h : Visited s.ftwList V) (hnew : st.node ∉ V) :
    ∃ w m, addNode sys st s = some (true, { s with world := w, ftwList := m }) ∧
      Visited m (insert st.node V) := by
  obtain ⟨t, hrep, hchain, hkeys⟩ := h
  obtain ⟨w₁, hmalloc⟩ := halloc.malloc s.world
  obtain ⟨a, w₂, hcalloc, hfresh⟩ := halloc.calloc s.ftwList w₁
  obtain ⟨p, m, hsearch, hrep', -⟩ := tsearch_eq nodecmp st.node s.ftwList t a hrep hfresh
  obtain ⟨hchain', hcells'⟩ := insert_chain nodecmp id (fun _ _ => rfl) st.node a t hchain
    (by rw [List.map_id]; exact fun hk => hnew ((hkeys _).mp hk))
  refine ⟨w₂, m, ?_, _, hrep', hchain', ?_⟩
  · unfold addNode
    simp only [hmalloc, if_true, hcalloc, hsearch, Option.map_some, Option.isSome_some]
  · intro k
    rw [LTree.keys, hcells', List.map_append, List.mem_append, List.map_singleton, List.mem_singleton,
      Finset.mem_insert]
    exact (or_congr_left (hkeys k)).trans Or.comm

/-! ## A list that can be freed -/

/-- The list is a tree in memory. -/
def Standing (m : Mem FtwNode) : Prop := ∃ t, Represents m t

/-- `calloc` returns no cell that is in use. -/
def FreshCells (sys : System W D) : Prop := ∀ m w a w', sys.calloc m w = (some a, w') → a ∉ m.heap

/-- INTERNAL: and the list stands on no memory. -/
theorem standing_empty : Standing Mem.empty := ⟨.nil, rfl, trivial, List.nodup_nil⟩

/-- INTERNAL: `tsearch` without a cell leaves the tree as it is.
SOURCE: dietlibc-0.28-search.patch:70-92 -/
theorem tsearch_without_cell (key : FtwNode) (m : Mem FtwNode) (t : LTree FtwNode) (h : Represents m t) :
    ∃ p m', tsearch nodecmp key (some .root) none m = some (p, m') ∧ Standing m' := by
  obtain ⟨hd, hroot, hcs, hst, hderef⟩ := seek_from_root nodecmp key m t h
  cases hsub : t.descend nodecmp key with
  | node a x l r =>
    refine ⟨some a, m, ?_, t, h⟩
    simp [tsearch, hd, hderef, hsub]
  | nil =>
    have hzip : (Ctx.seek nodecmp key .top t).1.zip .nil = t := by
      have hseek : (Ctx.seek nodecmp key .top t).2 = .nil := by rw [Ctx.seek_snd, hsub]
      rw [← hseek]
      exact Ctx.zip_seek nodecmp key .top t
    rw [hsub] at hroot hcs hderef
    obtain ⟨m', hassign, hrep⟩ := represents_assign m _ .nil .nil none hroot hcs trivial (by rw [hzip]; exact h.nodup)
    refine ⟨none, m', ?_, _, hrep⟩
    rw [LTree.ptr_nil] at hassign
    simp [tsearch, hd, hderef, hassign]

/-- INTERNAL: `add_node` keeps the list a tree, also where it fails.
SOURCE: dietlibc-ftw.patch:73-81 -/
theorem addNode_standing (sys : System W D) (hcells : FreshCells sys) (st : Stat) (s : State W)
    (h : Standing s.ftwList) (ok : Bool) (s' : State W) (hadd : addNode sys st s = some (ok, s')) :
    Standing s'.ftwList := by
  obtain ⟨t, hrep⟩ := h
  unfold addNode at hadd
  rcases hmalloc : sys.malloc s.world with ⟨_ | _, w₁⟩
  · simp only [hmalloc, Bool.false_eq_true, if_false] at hadd
    cases hadd
    exact ⟨t, hrep⟩
  · simp only [hmalloc, if_true] at hadd
    rcases hcalloc : sys.calloc s.ftwList w₁ with ⟨_ | a, w₂⟩
    · obtain ⟨p, m, hsearch, hstanding⟩ := tsearch_without_cell st.node s.ftwList t hrep
      simp only [hcalloc, hsearch, Option.map_some] at hadd
      cases hadd
      exact hstanding
    · obtain ⟨p, m, hsearch, hrep', -⟩ := tsearch_eq nodecmp st.node s.ftwList t a hrep (hcells _ _ _ _ hcalloc)
      simp only [hcalloc, hsearch, Option.map_some] at hadd
      cases hadd
      exact ⟨_, hrep'⟩

/-- A child is freed, if there is one.
SOURCE: dietlibc-ftw.patch:93-96 -/
def destroyChild (fuel : ℕ) (p : Option Addr) (m : Mem FtwNode) : Option (Mem FtwNode) :=
  match p with
  | some a => tdestroyRecurse fuel a m
  | none => some m

/-- INTERNAL: one level of the recursion, with its two children. -/
theorem tdestroyRecurse_succ (fuel : ℕ) (root : Addr) (m : Mem FtwNode) :
    tdestroyRecurse (fuel + 1) root m = (m.node root).bind fun n => (destroyChild fuel n.left m).bind fun m =>
      (m.node root).bind fun n => (destroyChild fuel n.right m).bind fun m =>
        (m.node root).bind fun _ => some (m.free root) := by
  rw [tdestroyRecurse]
  apply Option.bind_congr
  intro n _
  cases hleft : n.left <;>
  · apply Option.bind_congr
    intro m _
    apply Option.bind_congr
    intro n _
    cases hright : n.right <;> rfl

/-- INTERNAL: **`tdestroy_recurse` frees a tree** and touches nothing else.
SOURCE: dietlibc-ftw.patch:91-99 -/
theorem tdestroyRecurse_returns (t : LTree FtwNode) (fuel : ℕ) (a : Addr) (m : Mem FtwNode) (hptr : t.ptr = some a)
    (hs : Stored m.heap t) (hn : t.addrs.Nodup) (hfuel : t.addrs.length ≤ fuel) :
    ∃ m', tdestroyRecurse fuel a m = some m' ∧ ∀ b ∉ t.addrs, m'.node b = m.node b := by
  induction t generalizing fuel a m with
  | nil => cases hptr
  | node x k l r ihl ihr =>
    obtain ⟨hx, hl, hr⟩ := hs
    obtain rfl : x = a := Option.some.inj hptr
    rw [LTree.addrs_node] at hn hfuel
    obtain ⟨hnl, hnr, hdisj⟩ := List.nodup_append.mp hn
    rw [List.nodup_cons] at hnr
    rw [List.length_append, List.length_cons] at hfuel
    have hxl : x ∉ l.addrs := fun hmem => hdisj x hmem x List.mem_cons_self rfl
    obtain ⟨fuel, rfl⟩ : ∃ n, fuel = n + 1 := ⟨fuel - 1, by omega⟩
    have hnode : m.node x = some ⟨k, l.ptr, r.ptr⟩ := hx
    have hchild : ∀ (t : LTree FtwNode) (m : Mem FtwNode),
        (∀ a m, t.ptr = some a → Stored m.heap t → ∃ m', tdestroyRecurse fuel a m = some m' ∧
          ∀ b ∉ t.addrs, m'.node b = m.node b) → Stored m.heap t →
        ∃ m', destroyChild fuel t.ptr m = some m' ∧ ∀ b ∉ t.addrs, m'.node b = m.node b := by
      intro t m h hstored
      cases hp : t.ptr with
      | none => exact ⟨m, rfl, fun b _ => rfl⟩
      | some a => exact h a m hp hstored
    obtain ⟨m₁, hleft, hframe₁⟩ := hchild l m (fun a m hp hs => ihl fuel a m hp hs hnl (by omega)) hl
    have hr₁ : Stored m₁.heap r := by
      apply stored_congr m.heap _ r _ hr
      intro b hb
      exact hframe₁ b fun hbl => hdisj b hbl b (List.mem_cons_of_mem _ hb) rfl
    obtain ⟨m₂, hright, hframe₂⟩ := hchild r m₁ (fun a m hp hs => ihr fuel a m hp hs hnr.2 (by omega)) hr₁
    have hnode₁ : m₁.node x = some ⟨k, l.ptr, r.ptr⟩ := (hframe₁ x hxl).trans hnode
    have hnode₂ : m₂.node x = some ⟨k, l.ptr, r.ptr⟩ := (hframe₂ x hnr.1).trans hnode₁
    refine ⟨m₂.free x, ?_, ?_⟩
    · simp only [tdestroyRecurse_succ, hnode, hleft, hnode₁, hright, hnode₂, Option.bind_some]
    · intro b hb
      rw [LTree.addrs_node, List.mem_append, List.mem_cons, not_or, not_or] at hb
      obtain ⟨hbl, hbx, hbr⟩ := hb
      have hfree : (m₂.free x).node b = m₂.node b := Finmap.lookup_erase_ne hbx
      rw [hfree, hframe₂ b hbr, hframe₁ b hbl]

/-- INTERNAL: **the end of `nftw`** returns.
SOURCE: dietlibc-ftw.patch:354-357 -/
theorem destroy_returns (rc : ℤ) (s : State W) (h : Standing s.ftwList) :
    ∃ m, nftw.destroy rc s = some (rc, { s with ftwList := m }) := by
  obtain ⟨t, hrep⟩ := h
  unfold nftw.destroy
  cases hroot : s.ftwList.root with
  | none => exact ⟨s.ftwList, rfl⟩
  | some a =>
    have hlive := length_le_live s.ftwList t hrep.stored hrep.nodup
    obtain ⟨m, hdestroy, -⟩ := tdestroyRecurse_returns t (s.ftwList.live + 1) a s.ftwList
      (hrep.root ▸ hroot) hrep.stored hrep.nodup (by omega)
    refine ⟨m, ?_⟩
    dsimp only
    rw [hdestroy]
    rfl

/-- INTERNAL: the end of `nftw` changes nothing but the list of visited directories.
SOURCE: dietlibc-ftw.patch:354-357 -/
theorem destroy_eq {rc rc' : ℤ} {s s' : State W} (h : nftw.destroy rc s = some (rc', s')) :
    rc' = rc ∧ ∃ m, s' = { s with ftwList := m } := by
  unfold nftw.destroy at h
  split at h
  · cases h
    exact ⟨rfl, s.ftwList, rfl⟩
  · obtain ⟨m, -, hm⟩ := Option.map_eq_some_iff.mp h
    cases hm
    exact ⟨rfl, m, rfl⟩

end TTLinux.Analysis.FtwVisited
