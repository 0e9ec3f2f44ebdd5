import Mathlib.Order.Lattice.Nat
import TTLinux.Analysis.FtwVisited
import TTLinux.Analysis.SearchKeys
import TTLinux.Model.FtwBlocks

/-!
# What the list of visited directories allocates and frees

`nodecmp` is no order, and the tree of the list is a chain to the right. `Holds` says that the memory has such a chain,
in which no directory and no block occurs twice, and whose blocks are in use; it is what a call of `add_node` keeps.
`released` is the order in which `tdestroy_recurse` frees the blocks of any tree, and a list of different blocks in use
can be freed.
-/

set_option autoImplicit false

namespace TTLinux.Analysis.FtwBlocks

open TTLinux.Lib
open TTLinux.Model.FtwBlocks
open TTLinux.Model.Search (Mem)
open TTLinux.Model.Ftw (FtwNode Stat)
open TTLinux.Analysis.FtwVisited (RightChain Visited descend_chain insert_chain)
open TTLinux.Analysis.SearchHeap TTLinux.Analysis.SearchKeys

/-- INTERNAL: pointers to nodes compare as the nodes do. -/
theorem nodecmp_eq (p q : NodePtr) : nodecmp p q = Model.Ftw.nodecmp p.node q.node := rfl

/-! ## Blocks that are freed -/

/-- The memory after these blocks have been freed. -/
def without (m : Memory) (blocks : List Addr) : Memory := blocks.foldl Memory.drop m

/-- INTERNAL: freeing two lists of blocks is freeing them one after the other. -/
theorem without_append (m : Memory) (a b : List Addr) : without m (a ++ b) = without (without m a) b :=
  List.foldl_append

/-- INTERNAL: the blocks that are in use when one is freed. -/
theorem inUse_drop (m : Memory) (a b : Addr) : (m.drop a).InUse b ↔ b ≠ a ∧ m.InUse b := by
  have hheap : b ∈ (m.drop a).ftwList.heap ↔ b ≠ a ∧ b ∈ m.ftwList.heap := Finmap.mem_erase
  have hstructs : b ∈ (m.drop a).structs ↔ b ≠ a ∧ b ∈ m.structs := Finset.mem_erase
  unfold Memory.InUse
  rw [hheap, hstructs, and_or_left]

/-- INTERNAL: the blocks that are in use when a list is freed. -/
theorem inUse_without (m : Memory) (blocks : List Addr) (b : Addr) :
    (without m blocks).InUse b ↔ b ∉ blocks ∧ m.InUse b := by
  induction blocks generalizing m with
  | nil => simp [without]
  | cons a l ih =>
    have hrest : (without m (a :: l)).InUse b ↔ b ∉ l ∧ (m.drop a).InUse b := ih (m.drop a)
    rw [hrest, inUse_drop, List.mem_cons, not_or, and_left_comm, and_assoc]

/-- INTERNAL: a block that is not freed keeps its node. -/
theorem node_without (m : Memory) (blocks : List Addr) (b : Addr) (hb : b ∉ blocks) :
    (without m blocks).ftwList.node b = m.ftwList.node b := by
  induction blocks generalizing m with
  | nil => rfl
  | cons a l ih =>
    rw [List.mem_cons, not_or] at hb
    have hdrop : (m.drop a).ftwList.node b = m.ftwList.node b := Finmap.lookup_erase_ne hb.1
    exact (ih (m.drop a) hb.2).trans hdrop

/-- INTERNAL: the list of the freed blocks grows by those that are freed. -/
theorem freed_without (m : Memory) (blocks : List Addr) : (without m blocks).freed = m.freed ++ blocks := by
  induction blocks generalizing m with
  | nil => exact (List.append_nil m.freed).symm
  | cons a l ih =>
    have hrest : (without m (a :: l)).freed = (m.freed ++ [a]) ++ l := ih (m.drop a)
    rw [hrest, List.append_assoc, List.singleton_append]

/-- INTERNAL: the `struct ftw_node`s lose those that are freed. -/
theorem structs_without (m : Memory) (blocks : List Addr) :
    (without m blocks).structs = m.structs \ blocks.toFinset := by
  induction blocks generalizing m with
  | nil => simp [without]
  | cons a l ih =>
    have hrest : (without m (a :: l)).structs = m.structs.erase a \ l.toFinset := ih (m.drop a)
    rw [hrest, List.toFinset_cons, Finset.sdiff_insert, Finset.erase_sdiff_comm]

/-- The blocks of a tree in the order in which they are freed: what lies below a node, its key and the node.
SOURCE: dietlibc-ftw.patch:91-99 -/
def released : LTree NodePtr → List Addr
  | .nil => []
  | .node a k l r => released l ++ (released r ++ [k.addr, a])

/-- INTERNAL: **each block of the tree once.** -/
theorem released_perm (t : LTree NodePtr) : (released t).Perm (t.addrs ++ t.keys.map NodePtr.addr) := by
  induction t with
  | nil => exact List.Perm.nil
  | node a k l r ihl ihr =>
    rw [List.perm_iff_count] at ihl ihr ⊢
    intro b
    have hl := ihl b
    have hr := ihr b
    simp only [released, LTree.addrs_node, LTree.keys_node, List.map_append, List.map_cons, List.count_append,
      List.count_cons, List.count_nil] at hl hr ⊢
    omega

/-- INTERNAL: the blocks of the tree itself are released. -/
theorem addr_mem_released {t : LTree NodePtr} {a : Addr} (h : a ∈ t.addrs) : a ∈ released t :=
  (released_perm t).mem_iff.mpr (List.mem_append_left _ h)

/-- A child is freed, if there is one.
SOURCE: dietlibc-ftw.patch:93-96 -/
def destroyChild (fuel : ℕ) (p : Option Addr) (m : Memory) : Option Memory :=
  match p with
  | some a => tdestroyRecurse free fuel a m
  | none => some m

/-- INTERNAL: one level of the recursion reads the two pointers before their node is freed. -/
theorem tdestroyRecurse_succ (fuel : ℕ) (root : Addr) (m : Memory) :
    tdestroyRecurse free (fuel + 1) root m =
      (m.ftwList.node root).bind fun n => (destroyChild fuel n.left m).bind fun m =>
        (m.ftwList.node root).bind fun n => (destroyChild fuel n.right m).bind fun m =>
          (m.ftwList.node root).bind fun n => (free n.key.addr m).bind (free root) := by
  rw [tdestroyRecurse]
  apply Option.bind_congr
  intro n _
  cases hleft : n.left <;>
  · apply Option.bind_congr
    intro m _
    apply Option.bind_congr
    intro n _
    cases hright : n.right <;> rfl

/-- INTERNAL: a child that may be null, from what is known of the blocks. -/
theorem destroyChild_eq (fuel : ℕ) (t : LTree NodePtr) (m : Memory)
    (h : ∀ a, t.ptr = some a → tdestroyRecurse free fuel a m = some (without m (released t))) :
    destroyChild fuel t.ptr m = some (without m (released t)) := by
  cases t with
  | nil => rfl
  | node a k l r => exact h a rfl

/-- INTERNAL: a key and its node are freed. -/
theorem free_both (m : Memory) (a b : Addr) (ha : m.InUse a) (hb : m.InUse b) (hne : b ≠ a) :
    (free a m).bind (free b) = some (without m [a, b]) := by
  have hfirst : free a m = some (m.drop a) := if_pos ha
  rw [hfirst, Option.bind_some]
  exact if_pos ((inUse_drop m a b).mpr ⟨hne, hb⟩)

/-- INTERNAL: **`tdestroy_recurse` frees the blocks of a tree**, if they are different and in use.
SOURCE: dietlibc-ftw.patch:91-99 -/
theorem tdestroyRecurse_eq (t : LTree NodePtr) (fuel : ℕ) (a : Addr) (m : Memory) (hptr : t.ptr = some a)
    (hs : Stored m.ftwList.heap t) (hn : (released t).Nodup) (huse : ∀ b ∈ released t, m.InUse b)
    (hfuel : t.addrs.length ≤ fuel) : tdestroyRecurse free fuel a m = some (without m (released t)) := by
  induction t generalizing fuel a m with
  | nil => cases hptr
  | node x k l r ihl ihr =>
    obtain ⟨hx, hl, hr⟩ := hs
    obtain rfl : x = a := Option.some.inj hptr
    rw [released] at hn huse
    obtain ⟨hnl, hnrest, hdisj⟩ := List.nodup_append.mp hn
    obtain ⟨hnr, hnx, hdisj'⟩ := List.nodup_append.mp hnrest
    rw [LTree.addrs_node, List.length_append, List.length_cons] at hfuel
    obtain ⟨fuel, rfl⟩ : ∃ n, fuel = n + 1 := ⟨fuel - 1, by omega⟩
    -- below the node, on the left
    have hleft : destroyChild fuel l.ptr m = some (without m (released l)) :=
      destroyChild_eq fuel l m fun b hb =>
        ihl fuel b m hb hl hnl (fun c hc => huse c (List.mem_append_left _ hc)) (by omega)
    -- on the right, where nothing has been freed yet
    have hright : destroyChild fuel r.ptr (without m (released l)) =
        some (without (without m (released l)) (released r)) := by
      apply destroyChild_eq
      intro b hb
      have hother : ∀ c ∈ released r, c ∉ released l :=
        fun c hc hcl => hdisj c hcl c (List.mem_append_left _ hc) rfl
      apply ihr fuel b _ hb
      · apply stored_congr m.ftwList.heap _ r _ hr
        intro c hc
        exact node_without m (released l) c (hother c (addr_mem_released hc))
      · exact hnr
      · intro c hc
        exact (inUse_without m _ c).mpr ⟨hother c hc, huse c (List.mem_append_right _ (List.mem_append_left _ hc))⟩
      · omega
    -- and the key and the node, which are still there
    have hstill : ∀ b ∈ [k.addr, x], b ∉ released l ∧ b ∉ released r :=
      fun b hb => ⟨fun h => hdisj b h b (List.mem_append_right _ hb) rfl, fun h => hdisj' b h b hb rfl⟩
    have hself : x ∈ [k.addr, x] := List.mem_cons_of_mem _ List.mem_cons_self
    have hnode : m.ftwList.node x = some ⟨k, l.ptr, r.ptr⟩ := hx
    have hnode₁ := (node_without m (released l) x (hstill x hself).1).trans hnode
    have hnode₂ := (node_without (without m (released l)) (released r) x (hstill x hself).2).trans hnode₁
    have hin : ∀ b ∈ [k.addr, x], (without (without m (released l)) (released r)).InUse b := by
      intro b hb
      refine (inUse_without _ _ b).mpr ⟨(hstill b hb).2, (inUse_without m _ b).mpr ⟨(hstill b hb).1, ?_⟩⟩
      exact huse b (List.mem_append_right _ (List.mem_append_right _ hb))
    have hne : x ≠ k.addr := by
      rintro heq
      simp [heq] at hnx
    have hboth := free_both _ k.addr x (hin _ List.mem_cons_self) (hin x hself) hne
    simp only [tdestroyRecurse_succ, hnode, hleft, hnode₁, hright, hnode₂, Option.bind_some, hboth]
    rw [released, without_append, without_append]

/-! ## Directories that are added -/

/-- The memory has this tree: a chain, in which no directory occurs twice, of different blocks in use. There is no
node beside it, and nothing has been freed. -/
structure Holds (m : Memory) (t : LTree NodePtr) : Prop where
  represents : Represents m.ftwList t
  chain : RightChain t
  distinct : (t.keys.map NodePtr.node).Nodup
  blocks : (released t).Nodup
  nodes : ∀ a ∈ m.ftwList.heap, a ∈ t.addrs
  owned : ∀ k ∈ t.keys, k.addr ∈ m.structs
  apart : ∀ a ∈ m.structs, a ∉ m.ftwList.heap
  freed : m.freed = []

/-- INTERNAL: before the first directory, the empty tree is held. -/
theorem holds_empty : Holds Memory.empty .nil where
  represents := ⟨rfl, trivial, List.nodup_nil⟩
  chain := trivial
  distinct := List.nodup_nil
  blocks := List.nodup_nil
  nodes := fun a h => absurd h Finmap.notMem_empty
  owned := by simp
  apart := fun a h => absurd h (Finset.notMem_empty a)
  freed := rfl

/-- INTERNAL: what is released was in use. -/
theorem Holds.inUse {m : Memory} {t : LTree NodePtr} (h : Holds m t) (b : Addr) (hb : b ∈ released t) : m.InUse b := by
  rcases List.mem_append.mp ((released_perm t).mem_iff.mp hb) with hb | hb
  · exact Or.inr (mem_of_stored m.ftwList.heap t h.represents.stored b hb)
  · obtain ⟨k, hk, rfl⟩ := List.mem_map.mp hb
    exact Or.inl (h.owned k hk)

/-- INTERNAL: the nodes in memory are those of the tree. -/
theorem Holds.mem_cells {m : Memory} {t : LTree NodePtr} (h : Holds m t) (a : Addr) (k : NodePtr) :
    (a, k) ∈ t.cells ↔ ∃ n, m.ftwList.node a = some n ∧ n.key = k := by
  constructor
  · exact exists_node_of_stored m.ftwList.heap t h.represents.stored a k
  · rintro ⟨n, hn, rfl⟩
    obtain ⟨⟨b, k⟩, hcell, rfl⟩ := List.mem_map.mp (h.nodes a (Finmap.mem_of_lookup_eq_some hn))
    obtain ⟨n', hn', rfl⟩ := exists_node_of_stored m.ftwList.heap t h.represents.stored b k hcell
    obtain rfl : n = n' := Option.some.inj (hn.symm.trans hn')
    exact hcell

/-- INTERNAL: **`find_node` decides whether the directory is in the list.**
SOURCE: dietlibc-ftw.patch:83-89 -/
theorem findNode_holds {m : Memory} {t : LTree NodePtr} (h : Holds m t) (node : Addr) (st : Stat) :
    findNode node st m = some (decide (st.node ∈ t.keys.map NodePtr.node)) := by
  unfold findNode
  rw [tfind_eq nodecmp _ m.ftwList t h.represents, Option.map_some,
    descend_chain nodecmp NodePtr.node nodecmp_eq _ t h.chain]

/-- INTERNAL: the tree with one directory more.
SOURCE: dietlibc-ftw.patch:73-81 -/
theorem Holds.insert {m : Memory} {t : LTree NodePtr} (h : Holds m t) (k : NodePtr) (cell : Addr)
    (hk : k.node ∉ t.keys.map NodePtr.node) (hblock : ¬m.InUse k.addr) (hcell : ¬m.InUse cell) (hne : cell ≠ k.addr)
    (list : Mem NodePtr) (hrep : Represents list (t.insert nodecmp k cell))
    (hheap : ∀ a ∈ list.heap, a = cell ∨ a ∈ m.ftwList.heap) :
    Holds { m with ftwList := list, structs := insert k.addr m.structs } (t.insert nodecmp k cell) ∧
      (t.insert nodecmp k cell).keys = t.keys ++ [k] := by
  obtain ⟨hchain, hcells⟩ := insert_chain nodecmp NodePtr.node nodecmp_eq k cell t h.chain hk
  have haddrs : (t.insert nodecmp k cell).addrs = t.addrs ++ [cell] := by
    rw [LTree.addrs, hcells, List.map_append]
    rfl
  have hkeys : (t.insert nodecmp k cell).keys = t.keys ++ [k] := by
    rw [LTree.keys, hcells, List.map_append]
    rfl
  -- the two blocks are new
  have hperm : (released (t.insert nodecmp k cell)).Perm (cell :: k.addr :: released t) := by
    rw [List.perm_iff_count]
    intro b
    rw [(released_perm _).count_eq, List.count_cons, List.count_cons, (released_perm t).count_eq, haddrs, hkeys]
    simp only [List.map_append, List.count_append, List.map_cons, List.map_nil, List.count_cons, List.count_nil]
    omega
  refine ⟨⟨hrep, hchain, ?_, ?_, ?_, ?_, ?_, h.freed⟩, hkeys⟩
  · rw [hkeys, List.map_append, List.map_singleton, ← List.concat_eq_append]
    exact h.distinct.concat hk
  · rw [hperm.nodup_iff, List.nodup_cons, List.nodup_cons, List.mem_cons, not_or]
    exact ⟨⟨hne, fun hb => hcell (h.inUse cell hb)⟩, fun hb => hblock (h.inUse _ hb), h.blocks⟩
  · intro a ha
    rw [haddrs, List.mem_append, List.mem_singleton]
    exact (hheap a ha).symm.imp_left (h.nodes a)
  · intro x hx
    rw [hkeys, List.mem_append, List.mem_singleton] at hx
    rcases hx with hx | rfl
    · exact Finset.mem_insert_of_mem (h.owned x hx)
    · exact Finset.mem_insert_self _ _
  · intro a ha hin
    rcases Finset.mem_insert.mp ha with rfl | ha
    · rcases hheap _ hin with heq | hin
      · exact hne heq.symm
      · exact hblock (Or.inr hin)
    · rcases hheap a hin with rfl | hin
      · exact hcell (Or.inl ha)
      · exact h.apart a ha hin

/-- INTERNAL: **one call of `add_node`** with memory for it returns 0 and adds the directory, unless it is in the list.
SOURCE: dietlibc-ftw.patch:73-81 -/
theorem addNode_holds (malloc calloc : Memory → Option Addr) (hmalloc : ∀ m, ∃ a, malloc m = some a ∧ ¬m.InUse a)
    (hcalloc : ∀ m, ∃ a, calloc m = some a ∧ ¬m.InUse a) (st : Stat) (m : Memory) (t : LTree NodePtr) (h : Holds m t) :
    ∃ m' t', addNode malloc calloc st m = some (0, m') ∧ Holds m' t' ∧
      m'.structs.card = m.structs.card + 1 ∧
      ∀ n, n ∈ t'.keys.map NodePtr.node ↔ n ∈ t.keys.map NodePtr.node ∨ n = st.node := by
  obtain ⟨p, hp, hblock⟩ := hmalloc m
  obtain ⟨a, ha, hcell⟩ := hcalloc { m with structs := insert p m.structs }
  have hcell' : ¬m.InUse a := fun hin => hcell (hin.imp_left Finset.mem_insert_of_mem)
  have hne : a ≠ p := fun heq => hcell (Or.inl (heq ▸ Finset.mem_insert_self p m.structs))
  obtain ⟨r, list, hsearch, hrep, hwhere⟩ :=
    tsearch_eq nodecmp ⟨p, st.node⟩ m.ftwList t a h.represents fun hin => hcell' (Or.inr hin)
  have hadd : addNode malloc calloc st m =
      some (0, { m with ftwList := list, structs := insert p m.structs }) := by
    unfold addNode
    simp only [hp, ha, hsearch, Option.map_some, Option.isSome_some, if_true]
  have hcard : (insert p m.structs).card = m.structs.card + 1 :=
    Finset.card_insert_of_notMem fun hin => hblock (Or.inl hin)
  by_cases hmem : st.node ∈ t.keys.map NodePtr.node
  · -- the search ends at the directory, and the new block is lost
    have hfound := descend_chain nodecmp NodePtr.node nodecmp_eq ⟨p, st.node⟩ t h.chain
    rw [decide_eq_true hmem] at hfound
    rcases hwhere with ⟨hnil, -⟩ | ⟨-, rfl⟩
    · rw [hnil] at hfound
      cases hfound
    · refine ⟨_, t, hadd, ⟨h.represents, h.chain, h.distinct, h.blocks, h.nodes, ?_, ?_, h.freed⟩, hcard, ?_⟩
      · exact fun k hk => Finset.mem_insert_of_mem (h.owned k hk)
      · intro b hb hin
        rcases Finset.mem_insert.mp hb with rfl | hb
        · exact hblock (Or.inr hin)
        · exact h.apart b hb hin
      · intro n
        refine (or_iff_left_of_imp ?_).symm
        rintro rfl
        exact hmem
  · obtain ⟨hholds, hkeys⟩ := h.insert ⟨p, st.node⟩ a hmem hblock hcell' hne list hrep
      (mem_heap_tsearch hsearch)
    refine ⟨_, _, hadd, hholds, hcard, ?_⟩
    intro n
    rw [hkeys, List.map_append, List.mem_append, List.map_singleton, List.mem_singleton]

/-- What `malloc` or `calloc` returns in the `n`-th call of a run. -/
abbrev Allocator := ℕ → Memory → Option Addr

/-- No allocation fails, and no block in use is given out again. -/
def Allocator.Succeeds (alloc : Allocator) : Prop := ∀ n m, ∃ a, alloc n m = some a ∧ ¬m.InUse a

/-- The memory after these calls of `add_node`, the first of which is the `n`-th. -/
def run (malloc calloc : Allocator) : ℕ → Memory → List Stat → Option Memory
  | _, m, [] => some m
  | n, m, st :: calls => (addNode (malloc n) (calloc n) st m).bind fun r => run malloc calloc (n + 1) r.2 calls

/-- INTERNAL: **every sequence of calls** adds its directories.
SOURCE: dietlibc-ftw.patch:73-81 -/
theorem run_holds (malloc calloc : Allocator) (hmalloc : malloc.Succeeds) (hcalloc : calloc.Succeeds)
    (calls : List Stat) (n : ℕ) (m : Memory) (t : LTree NodePtr) (h : Holds m t) :
    ∃ m' t', run malloc calloc n m calls = some m' ∧ Holds m' t' ∧
      m'.structs.card = m.structs.card + calls.length ∧
      ∀ x, x ∈ t'.keys.map NodePtr.node ↔ x ∈ t.keys.map NodePtr.node ∨ x ∈ calls.map Stat.node := by
  induction calls generalizing n m t with
  | nil => exact ⟨m, t, rfl, h, rfl, by simp⟩
  | cons st calls ih =>
    obtain ⟨m₁, t₁, hadd, h₁, hcard₁, hmem₁⟩ := addNode_holds (malloc n) (calloc n) (hmalloc n) (hcalloc n) st m t h
    obtain ⟨m', t', hrun, h', hcard, hmem⟩ := ih (n + 1) m₁ t₁ h₁
    refine ⟨m', t', ?_, h', ?_, ?_⟩
    · rw [run, hadd]
      exact hrun
    · rw [hcard, hcard₁, List.length_cons]
      omega
    · intro x
      rw [hmem, hmem₁, List.map_cons, List.mem_cons, or_assoc]

/-! ## The list of the walk -/

section Walk

variable {W D : Type}

/-- INTERNAL: **the walk adds the same directories**: its list has the structures where this one has pointers to them.
SOURCE: dietlibc-ftw.patch:73-81 -/
theorem addNode_translates (sys : Model.Ftw.System W D) (malloc calloc : Memory → Option Addr) (st : Stat)
    (s : Model.Ftw.State W) (m m' : Memory) (rc : ℤ) (h : Translates NodePtr.node m.ftwList s.ftwList)
    (hmalloc : (sys.malloc s.world).1 = (malloc m).isSome)
    (hcalloc : ∀ p, malloc m = some p →
      (sys.calloc s.ftwList (sys.malloc s.world).2).1 = calloc { m with structs := insert p m.structs })
    (hadd : addNode malloc calloc st m = some (rc, m')) :
    ∃ s', Model.Ftw.addNode sys st s = some (decide (rc = 0), s') ∧
      Translates NodePtr.node m'.ftwList s'.ftwList := by
  unfold addNode at hadd
  unfold Model.Ftw.addNode
  cases hp : malloc m with
  | none =>
    rw [hp] at hadd hmalloc
    cases hadd
    refine ⟨{ s with world := (sys.malloc s.world).2 }, ?_, h⟩
    simp [hmalloc]
  | some p =>
    rw [hp] at hadd hmalloc
    obtain ⟨⟨q, list⟩, hsearch, heq⟩ := Option.map_eq_some_iff.mp hadd
    cases heq
    obtain ⟨list', hsearch', h'⟩ := h.exists_tsearch nodecmp_eq _ _ _ _ hsearch
    refine ⟨{ s with world := (sys.calloc s.ftwList (sys.malloc s.world).2).2, ftwList := list' }, ?_, h'⟩
    simp only [hmalloc, Option.isSome_some, if_true, hcalloc p hp, hsearch', Option.map_some]
    cases q <;> rfl

/-- INTERNAL: and finds the same.
SOURCE: dietlibc-ftw.patch:83-89 -/
theorem findNode_translates (node : Addr) (st : Stat) (s : Model.Ftw.State W) (m : Memory)
    (h : Translates NodePtr.node m.ftwList s.ftwList) : Model.Ftw.findNode st s = findNode node st m := by
  unfold Model.Ftw.findNode findNode
  rw [← h.tfind_eq nodecmp_eq]

/-- INTERNAL: the list of the walk stands for the directories of the chain. -/
theorem Holds.visited {m : Memory} {t : LTree NodePtr} (h : Holds m t) (list : Mem FtwNode)
    (htranslates : Translates NodePtr.node m.ftwList list) : Visited list (t.keys.map NodePtr.node).toFinset := by
  refine ⟨mapKeys NodePtr.node t, htranslates.represents h.represents, ?_, ?_⟩
  · have hchain := h.chain
    clear h htranslates
    induction t with
    | nil => trivial
    | node a k l r _ ihr =>
      obtain ⟨rfl, hr⟩ := hchain
      exact ⟨rfl, ihr hr⟩
  · intro k
    rw [keys_mapKeys, List.mem_toFinset]

end Walk

/-! ## The list is destroyed -/

/-- INTERNAL: the root is null when no directory was visited. -/
theorem Holds.root_eq_none {m : Memory} {t : LTree NodePtr} (h : Holds m t) :
    m.ftwList.root = none ↔ t.keys.map NodePtr.node = [] := by
  rw [h.represents.root]
  cases t with
  | nil => simp
  | node a k l r => simp

/-- INTERNAL: no directory is stored twice. -/
theorem Holds.node_unique {m : Memory} {t : LTree NodePtr} (h : Holds m t) (a b : Addr)
    (x y : Model.Search.Node NodePtr) (ha : m.ftwList.node a = some x) (hb : m.ftwList.node b = some y)
    (hxy : x.key.node = y.key.node) : a = b := by
  have hcell := (h.mem_cells a x.key).mpr ⟨x, ha, rfl⟩
  have hcell' := (h.mem_cells b y.key).mpr ⟨y, hb, rfl⟩
  have hdistinct := h.distinct
  rw [LTree.keys, List.map_map] at hdistinct
  exact congrArg Prod.fst (List.inj_on_of_nodup_map hdistinct hcell hcell' hxy)

/-- INTERNAL: the destruction of the list.
SOURCE: dietlibc-ftw.patch:91-99 -/
theorem Holds.destroy {m : Memory} {t : LTree NodePtr} (h : Holds m t) (root : Addr) (fuel : ℕ)
    (hroot : m.ftwList.root = some root) (hfuel : m.ftwList.live ≤ fuel) :
    tdestroyRecurse free fuel root m = some (without m (released t)) :=
  tdestroyRecurse_eq t fuel root m (h.represents.root ▸ hroot) h.represents.stored h.blocks h.inUse
    ((length_le_live m.ftwList t h.represents.stored h.represents.nodup).trans hfuel)

/-- INTERNAL: the blocks that are freed are the nodes in memory and their keys. -/
theorem Holds.mem_released {m : Memory} {t : LTree NodePtr} (h : Holds m t) (b : Addr) :
    b ∈ released t ↔ ∃ a x, m.ftwList.node a = some x ∧ (b = a ∨ b = x.key.addr) := by
  rw [(released_perm t).mem_iff, List.mem_append]
  constructor
  · rintro (hb | hb)
    · obtain ⟨⟨a, k⟩, hcell, rfl⟩ := List.mem_map.mp hb
      obtain ⟨x, hx, -⟩ := (h.mem_cells a k).mp hcell
      exact ⟨a, x, hx, Or.inl rfl⟩
    · obtain ⟨k, hk, rfl⟩ := List.mem_map.mp hb
      obtain ⟨⟨a, k⟩, hcell, rfl⟩ := List.mem_map.mp hk
      obtain ⟨x, hx, rfl⟩ := (h.mem_cells a k).mp hcell
      exact ⟨a, x, hx, Or.inr rfl⟩
  · rintro ⟨a, x, hx, hb⟩
    have hcell := (h.mem_cells a x.key).mpr ⟨x, hx, rfl⟩
    rcases hb with rfl | rfl
    · exact Or.inl (List.mem_map_of_mem hcell)
    · exact Or.inr (List.mem_map_of_mem (List.mem_map_of_mem hcell))

/-- INTERNAL: two directories are the same if inode and device are. -/
theorem ftwNode_eq_iff (x y : FtwNode) : x = y ↔ x.ino = y.ino ∧ x.dev = y.dev := by
  obtain ⟨ino, dev⟩ := x
  obtain ⟨ino', dev'⟩ := y
  rw [Model.Ftw.FtwNode.mk.injEq]

/-- INTERNAL: **no order**: two different directories are each greater than the other.
SOURCE: dietlibc-ftw.patch:66-70 -/
theorem not_strictTotal_nodecmp : ¬StrictTotal Model.Ftw.nodecmp := by
  intro horder
  have hneg := (horder.neg_iff_pos ⟨0, 0⟩ ⟨1, 0⟩).mpr (by decide)
  revert hneg
  decide

/-- **The list of visited directories** after any calls of `add_node`. `nodecmp` is 0 or 1 and no order; still
`find_node` says whether one of the calls was for the same directory, no directory is stored twice, and
`tdestroy_recurse` frees each node and each stored key once and nothing else. There is nothing to destroy exactly if
there was no call.
SOURCE: dietlibc-ftw.patch:66-99 -/
theorem nodes_freed_once (malloc calloc : Allocator) (hmalloc : malloc.Succeeds) (hcalloc : calloc.Succeeds)
    (calls : List Stat) :
    (∀ p q, nodecmp p q = 0 ∨ nodecmp p q = 1) ∧ ¬StrictTotal Model.Ftw.nodecmp ∧
    ∃ m, run malloc calloc 0 Memory.empty calls = some m ∧
      (∀ node st, findNode node st m = some (decide (∃ st' ∈ calls,
        st'.node.ino = st.node.ino ∧ st'.node.dev = st.node.dev))) ∧
      (∀ a b x y, m.ftwList.node a = some x → m.ftwList.node b = some y → x.key.node = y.key.node → a = b) ∧
      (m.ftwList.root = none ↔ calls = []) ∧
      ∀ root fuel, m.ftwList.root = some root → m.ftwList.live ≤ fuel →
        ∃ m', tdestroyRecurse free fuel root m = some m' ∧
          (∀ a x, m.ftwList.node a = some x → m'.freed.count a = 1 ∧ m'.freed.count x.key.addr = 1) ∧
          ∀ b ∈ m'.freed, ∃ a x, m.ftwList.node a = some x ∧ (b = a ∨ b = x.key.addr) := by
  obtain ⟨m, t, hrun, h, -, hmem⟩ := run_holds malloc calloc hmalloc hcalloc calls 0 _ _ holds_empty
  have hadded : ∀ n, n ∈ t.keys.map NodePtr.node ↔ n ∈ calls.map Stat.node := by
    intro n
    rw [hmem]
    exact or_iff_right List.not_mem_nil
  refine ⟨?_, not_strictTotal_nodecmp, m, hrun, ?_, h.node_unique, ?_, ?_⟩
  · intro p q
    exact ite_eq_or_eq _ _ _
  · intro node st
    rw [findNode_holds h]
    simp only [hadded, List.mem_map, ftwNode_eq_iff]
  · rw [h.root_eq_none, ← List.map_eq_nil_iff (f := Stat.node), List.eq_nil_iff_forall_not_mem,
      List.eq_nil_iff_forall_not_mem]
    exact forall_congr' fun n => not_congr (hadded n)
  · intro root fuel hroot hfuel
    refine ⟨_, h.destroy root fuel hroot hfuel, ?_, ?_⟩
    · intro a x hx
      have ha : a ∈ released t := (h.mem_released a).mpr ⟨a, x, hx, Or.inl rfl⟩
      have hkey : x.key.addr ∈ released t := (h.mem_released _).mpr ⟨a, x, hx, Or.inr rfl⟩
      rw [freed_without, h.freed, List.nil_append]
      exact ⟨List.count_eq_one_of_mem h.blocks ha, List.count_eq_one_of_mem h.blocks hkey⟩
    · intro b hb
      rw [freed_without, h.freed, List.nil_append] at hb
      exact (h.mem_released b).mp hb

/-- The allocator that returns the first address above all those in use. -/
def bump : Allocator := fun _ m => some ((m.structs ∪ m.ftwList.heap.keys).sup id + 1)

/-- INTERNAL: an allocator that always has a new address. -/
theorem bump_succeeds : bump.Succeeds := by
  intro n m
  refine ⟨_, rfl, ?_⟩
  intro hin
  have hmem : (m.structs ∪ m.ftwList.heap.keys).sup id + 1 ∈ m.structs ∪ m.ftwList.heap.keys := by
    rw [Finset.mem_union, Finmap.mem_keys]
    exact hin
  exact Nat.not_succ_le_self _ (Finset.le_sup (f := id) hmem)

/-- Two directories with one inode number on different devices, the first of them twice. -/
def sampleCalls : List Stat := [⟨⟨7, 1⟩, .dir⟩, ⟨⟨7, 2⟩, .dir⟩, ⟨⟨7, 1⟩, .dir⟩]

/-- The second directory is found, another one is not, and the list is destroyed. -/
theorem nodes_freed_once_sample :
    bump.Succeeds ∧ ∃ m, run bump bump 0 Memory.empty sampleCalls = some m ∧
      findNode 0 ⟨⟨7, 2⟩, .dir⟩ m = some true ∧ findNode 0 ⟨⟨8, 1⟩, .dir⟩ m = some false ∧
      ∃ root m', m.ftwList.root = some root ∧
        tdestroyRecurse free m.ftwList.live root m = some m' ∧
        ∀ a x, m.ftwList.node a = some x → m'.freed.count a = 1 ∧ m'.freed.count x.key.addr = 1 := by
  obtain ⟨-, -, m, hrun, hfind, -, hroot, hdestroy⟩ := nodes_freed_once bump bump bump_succeeds bump_succeeds sampleCalls
  refine ⟨bump_succeeds, m, hrun, ?_, ?_, ?_⟩
  · rw [hfind]
    decide
  · rw [hfind]
    decide
  · obtain ⟨root, hr⟩ := Option.ne_none_iff_exists'.mp fun h => absurd (hroot.mp h) (by decide)
    obtain ⟨m', hm', hfreed, -⟩ := hdestroy root m.ftwList.live hr le_rfl
    exact ⟨root, m', hr, hm', hfreed⟩

/-! ## Blocks that are lost -/

/-- **A directory that is added again costs a block** that nothing frees: after the destruction of the list no node
remains, and one structure for each call whose directory was in the list.
SOURCE: dietlibc-ftw.patch:73-99 -/
theorem structs_lost (malloc calloc : Allocator) (hmalloc : malloc.Succeeds) (hcalloc : calloc.Succeeds)
    (calls : List Stat) :
    ∃ m, run malloc calloc 0 Memory.empty calls = some m ∧
      ∀ root fuel, m.ftwList.root = some root → m.ftwList.live ≤ fuel →
        ∃ m', tdestroyRecurse free fuel root m = some m' ∧ (∀ a, m'.InUse a → a ∈ m'.structs) ∧
          m'.structs.card + (calls.map Stat.node).toFinset.card = calls.length := by
  obtain ⟨m, t, hrun, h, hcard, hmem⟩ := run_holds malloc calloc hmalloc hcalloc calls 0 _ _ holds_empty
  refine ⟨m, hrun, fun root fuel hroot hfuel => ⟨_, h.destroy root fuel hroot hfuel, ?_, ?_⟩⟩
  · intro a ha
    obtain ⟨hnot, hin⟩ := (inUse_without m _ a).mp ha
    rw [structs_without, Finset.mem_sdiff, List.mem_toFinset]
    rcases hin with hin | hin
    · exact ⟨hin, hnot⟩
    · exact absurd (addr_mem_released (h.nodes a hin)) hnot
  · -- of the structures those of the keys are freed
    have hkeys : m.structs \ (released t).toFinset = m.structs \ (t.keys.map NodePtr.addr).toFinset := by
      ext a
      simp only [Finset.mem_sdiff, List.mem_toFinset]
      refine and_congr_right fun ha => not_congr ?_
      rw [(released_perm t).mem_iff, List.mem_append]
      refine or_iff_right fun haddr => h.apart a ha ?_
      exact mem_of_stored m.ftwList.heap t h.represents.stored a haddr
    have hblocks : (t.keys.map NodePtr.addr).Nodup := by
      have hnodup := (released_perm t).nodup_iff.mp h.blocks
      exact (List.nodup_append.mp hnodup).2.1
    have hsubset : (t.keys.map NodePtr.addr).toFinset ⊆ m.structs := by
      intro a ha
      obtain ⟨k, hk, rfl⟩ := List.mem_map.mp (List.mem_toFinset.mp ha)
      exact h.owned k hk
    have hnodes : (calls.map Stat.node).toFinset = (t.keys.map NodePtr.node).toFinset := by
      ext n
      rw [List.mem_toFinset, List.mem_toFinset, hmem]
      exact (or_iff_right List.not_mem_nil).symm
    have hle := Finset.card_le_card hsubset
    rw [List.toFinset_card_of_nodup hblocks, List.length_map] at hle
    rw [structs_without, hkeys, Finset.card_sdiff_of_subset hsubset, List.toFinset_card_of_nodup hblocks, hnodes,
      List.toFinset_card_of_nodup h.distinct, List.length_map, List.length_map, hcard]
    have hempty : Memory.empty.structs.card = 0 := rfl
    omega

end TTLinux.Analysis.FtwBlocks
