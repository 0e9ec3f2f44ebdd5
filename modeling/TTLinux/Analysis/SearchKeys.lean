import TTLinux.Analysis.SearchHeap

/-!
# Keys that stand for others

The functions of `search.h` look at keys only through the comparison. Two memories with the same links, in which the
keys of the one stand for those of the other, are therefore changed alike (`Translates.exists_tsearch`).
-/

set_option autoImplicit false

namespace TTLinux.Analysis.SearchKeys

open TTLinux.Lib TTLinux.Model.Search TTLinux.Analysis.SearchHeap

variable {K L : Type}

/-- A node with another key. -/
def translate (f : K → L) (n : Node K) : Node L := ⟨f n.key, n.left, n.right⟩

/-- A tree with other keys. -/
def mapKeys (f : K → L) : LTree K → LTree L
  | .nil => .nil
  | .node a k l r => .node a (f k) (mapKeys f l) (mapKeys f r)

/-- INTERNAL: the pointer to a tree does not depend on its keys. -/
@[simp] theorem ptr_mapKeys (f : K → L) (t : LTree K) : (mapKeys f t).ptr = t.ptr := by
  cases t with
  | nil => rfl
  | node a k l r => rfl

/-- INTERNAL: the nodes have the new keys. -/
@[simp] theorem cells_mapKeys (f : K → L) (t : LTree K) :
    (mapKeys f t).cells = t.cells.map fun c => (c.1, f c.2) := by
  induction t with
  | nil => rfl
  | node a k l r ihl ihr =>
    rw [mapKeys, LTree.cells_node, LTree.cells_node, ihl, ihr, List.map_append, List.map_cons]

/-- INTERNAL: and so has the tree. -/
@[simp] theorem keys_mapKeys (f : K → L) (t : LTree K) : (mapKeys f t).keys = t.keys.map f := by
  rw [LTree.keys, cells_mapKeys, List.map_map, LTree.keys, List.map_map]
  rfl

/-- The second memory has the nodes of the first one, with the keys that `f` gives. -/
structure Translates (f : K → L) (m : Mem K) (m' : Mem L) : Prop where
  root : m'.root = m.root
  node : ∀ a, m'.node a = (m.node a).map (translate f)

namespace Translates

variable {f : K → L} {m : Mem K} {m' : Mem L}

/-- INTERNAL: the empty memory. -/
theorem empty (f : K → L) : Translates f Mem.empty Mem.empty := ⟨rfl, fun _ => rfl⟩

/-- INTERNAL: the addresses in use are the same. -/
theorem mem_heap (h : Translates f m m') (a : Addr) : a ∈ m'.heap ↔ a ∈ m.heap := by
  rw [← Finmap.lookup_isSome, ← Finmap.lookup_isSome]
  have hnode : m'.heap.lookup a = (m.heap.lookup a).map (translate f) := h.node a
  rw [hnode, Option.isSome_map]

/-- INTERNAL: the nodes in use are the same. -/
theorem live (h : Translates f m m') : m'.live = m.live := by
  apply congrArg Finset.card
  ext a
  rw [Finmap.mem_keys, Finmap.mem_keys, h.mem_heap]

/-- INTERNAL: so are the pointers in slots. -/
theorem deref (h : Translates f m m') (rp : Slot) : m'.deref rp = m.deref rp := by
  cases rp with
  | root => exact congrArg some h.root
  | left a =>
    rw [Mem.deref, Mem.deref, h.node, Option.map_map]
    rfl
  | right a =>
    rw [Mem.deref, Mem.deref, h.node, Option.map_map]
    rfl

/-- INTERNAL: nodes that correspond are stored at one address. -/
theorem insert (h : Translates f m m') (a : Addr) (n : Node K) :
    Translates f { m with heap := m.heap.insert a n } { m' with heap := m'.heap.insert a (translate f n) } where
  root := h.root
  node := by
    intro b
    unfold Mem.node
    by_cases hb : b = a
    · subst hb
      rw [Finmap.lookup_insert, Finmap.lookup_insert]
      rfl
    · rw [Finmap.lookup_insert_of_ne _ hb, Finmap.lookup_insert_of_ne _ hb]
      exact h.node b

/-- INTERNAL: and an assignment to a slot. -/
theorem assign (h : Translates f m m') (rp : Slot) (p : Option Addr) {m₁ : Mem K} (hm : m.assign rp p = some m₁) :
    ∃ m₁', m'.assign rp p = some m₁' ∧ Translates f m₁ m₁' := by
  cases rp with
  | root =>
    cases hm
    exact ⟨{ m' with root := p }, rfl, rfl, h.node⟩
  | left a =>
    obtain ⟨n, hn, rfl⟩ := Option.map_eq_some_iff.mp hm
    refine ⟨_, ?_, h.insert a { n with left := p }⟩
    rw [Mem.assign, h.node, hn]
    rfl
  | right a =>
    obtain ⟨n, hn, rfl⟩ := Option.map_eq_some_iff.mp hm
    refine ⟨_, ?_, h.insert a { n with right := p }⟩
    rw [Mem.assign, h.node, hn]
    rfl

/-- INTERNAL: and the freeing of a node. -/
theorem free (h : Translates f m m') (a : Addr) : Translates f (m.free a) (m'.free a) where
  root := h.root
  node := by
    intro b
    unfold Mem.node Mem.free
    by_cases hb : b = a
    · subst hb
      rw [Finmap.lookup_erase, Finmap.lookup_erase]
      rfl
    · rw [Finmap.lookup_erase_ne hb, Finmap.lookup_erase_ne hb]
      exact h.node b

/-- INTERNAL: a tree stays in memory with other keys. -/
theorem stored (h : Translates f m m') (t : LTree K) (hs : Stored m.heap t) : Stored m'.heap (mapKeys f t) := by
  induction t with
  | nil => trivial
  | node a k l r ihl ihr =>
    obtain ⟨ha, hl, hr⟩ := hs
    refine ⟨?_, ihl hl, ihr hr⟩
    have hnode : m'.heap.lookup a = (m.heap.lookup a).map (translate f) := h.node a
    rw [hnode, ha, ptr_mapKeys, ptr_mapKeys]
    rfl

/-- INTERNAL: and the tree that is represented. -/
theorem represents (h : Translates f m m') {t : LTree K} (ht : Represents m t) : Represents m' (mapKeys f t) where
  root := by rw [h.root, ht.root, ptr_mapKeys]
  stored := h.stored t ht.stored
  nodup := by
    rw [LTree.addrs, cells_mapKeys, List.map_map]
    exact ht.nodup

variable {compar : K → K → ℤ} {compar' : L → L → ℤ} (hcompar : ∀ x y, compar x y = compar' (f x) (f y))

include hcompar

/-- INTERNAL: the descents are the same.
SOURCE: dietlibc-0.28-search.patch:77-85, 106-114 -/
theorem descend_eq (h : Translates f m m') (key : K) (fuel : ℕ) (rp : Slot) :
    descend compar' (f key) m' fuel rp = descend compar key m fuel rp := by
  induction fuel generalizing rp with
  | zero => rfl
  | succ fuel ih =>
    unfold descend
    rw [h.deref]
    rcases m.deref rp with _ | _ | a
    · rfl
    · rfl
    · dsimp only
      rw [h.node]
      cases m.node a with
      | none => rfl
      | some n =>
        simp only [Option.map_some, translate, ← hcompar, ih]

/-- INTERNAL: **`tfind` finds the same node.**
SOURCE: dietlibc-0.28-search.patch:99-117 -/
theorem tfind_eq (h : Translates f m m') (key : K) (rootp : Option Slot) :
    tfind compar' (f key) rootp m' = tfind compar key rootp m := by
  cases rootp with
  | none => rfl
  | some rp₀ =>
    unfold tfind
    simp only [h.live, h.descend_eq hcompar, h.deref]

/-- INTERNAL: **`tsearch` returns the same node** and adds the same.
SOURCE: dietlibc-0.28-search.patch:70-92 -/
theorem exists_tsearch (h : Translates f m m') (key : K) (rp₀ : Slot) (cell p : Option Addr) {m₁ : Mem K}
    (hm : tsearch compar key (some rp₀) cell m = some (p, m₁)) :
    ∃ m₁', tsearch compar' (f key) (some rp₀) cell m' = some (p, m₁') ∧ Translates f m₁ m₁' := by
  unfold tsearch at hm ⊢
  simp only [h.live, h.descend_eq hcompar, h.deref, Option.bind_eq_bind] at hm ⊢
  obtain ⟨rp, hrp, hm⟩ := Option.bind_eq_some_iff.mp hm
  obtain ⟨q, hq, hm⟩ := Option.bind_eq_some_iff.mp hm
  rw [hrp, Option.bind_some, hq, Option.bind_some]
  cases q with
  | some a =>
    cases hm
    exact ⟨m', rfl, h⟩
  | none =>
    cases cell with
    | none =>
      obtain ⟨m₂, hassign, hm⟩ := Option.bind_eq_some_iff.mp hm
      cases hm
      obtain ⟨m₂', hassign', h'⟩ := h.assign rp none hassign
      refine ⟨m₂', ?_, h'⟩
      dsimp only
      rw [hassign']
      rfl
    | some a =>
      obtain ⟨m₂, hassign, hm⟩ := Option.bind_eq_some_iff.mp hm
      cases hm
      obtain ⟨m₂', hassign', h'⟩ := (h.insert a ⟨key, none, none⟩).assign rp (some a) hassign
      refine ⟨m₂', ?_, h'⟩
      dsimp only
      rw [translate] at hassign'
      rw [hassign']
      rfl

end Translates

/-! ## The nodes after a search -/

/-- INTERNAL: an assignment to a slot moves no node. -/
theorem mem_heap_assign {m m' : Mem K} {rp : Slot} {p : Option Addr} (h : m.assign rp p = some m') (a : Addr) :
    a ∈ m'.heap ↔ a ∈ m.heap := by
  have howner : ∀ b (n : Node K) (n' : Node K), m.node b = some n → (a ∈ m.heap.insert b n' ↔ a ∈ m.heap) := by
    intro b n n' hb
    rw [Finmap.mem_insert]
    refine or_iff_right_of_imp ?_
    rintro rfl
    exact Finmap.mem_of_lookup_eq_some hb
  cases rp with
  | root =>
    cases h
    exact Iff.rfl
  | left b =>
    obtain ⟨n, hn, rfl⟩ := Option.map_eq_some_iff.mp h
    exact howner b n _ hn
  | right b =>
    obtain ⟨n, hn, rfl⟩ := Option.map_eq_some_iff.mp h
    exact howner b n _ hn

/-- INTERNAL: `tsearch` adds no node but the one that it allocates.
SOURCE: dietlibc-0.28-search.patch:70-92 -/
theorem mem_heap_tsearch {compar : K → K → ℤ} {key : K} {rp₀ : Slot} {cell : Addr} {p : Option Addr} {m m' : Mem K}
    (h : tsearch compar key (some rp₀) (some cell) m = some (p, m')) (a : Addr) (ha : a ∈ m'.heap) :
    a = cell ∨ a ∈ m.heap := by
  unfold tsearch at h
  simp only [Option.bind_eq_bind] at h
  obtain ⟨rp, -, h⟩ := Option.bind_eq_some_iff.mp h
  obtain ⟨q, -, h⟩ := Option.bind_eq_some_iff.mp h
  cases q with
  | some b =>
    cases h
    exact Or.inr ha
  | none =>
    obtain ⟨m₁, hassign, h⟩ := Option.bind_eq_some_iff.mp h
    cases h
    rw [mem_heap_assign hassign, Finmap.mem_insert] at ha
    exact ha

end TTLinux.Analysis.SearchKeys
