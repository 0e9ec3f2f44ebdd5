import Mathlib.Data.List.Nodup
import Mathlib.Data.List.Pairwise
import Mathlib.Data.Set.Insert

/-!
# Binary search trees whose nodes carry an identity

A tree of keys in which every node also has an address, so that a linked
structure in memory can be described by the tree it spells out. Searching,
inserting and deleting are the textbook descents by a three-way comparison; the
deletion of an inner node moves its in-order successor, with the successor's
address, into the vacated place.

The comparison is an arbitrary function into the integers. The facts about the
shape (`cells_splice`, `popMin_cells`) need nothing of it; the facts about the
keys need it to be a strict total order.
-/

set_option autoImplicit false

namespace TTLinux.Lib

/-- The identity of a node. -/
abbrev Addr := ℕ

/-- A three-way comparison that is a strict total order: zero exactly on equal
keys, antisymmetric in sign, transitive. -/
structure StrictTotal {K : Type} (cmp : K → K → ℤ) : Prop where
  eq_zero_iff : ∀ a b, cmp a b = 0 ↔ a = b
  neg_iff_pos : ∀ a b, cmp a b < 0 ↔ 0 < cmp b a
  trans : ∀ a b c, cmp a b < 0 → cmp b c < 0 → cmp a c < 0

/-- A binary tree whose nodes have an address and a key. -/
inductive LTree (K : Type) where
  | nil : LTree K
  | node (addr : Addr) (key : K) (left right : LTree K) : LTree K
  deriving Repr, DecidableEq

namespace LTree

variable {K : Type}

/-- The address of the root, if there is one. -/
def ptr : LTree K → Option Addr
  | nil => none
  | node a _ _ _ => some a

/-- The nodes from left to right. -/
def cells : LTree K → List (Addr × K)
  | nil => []
  | node a k l r => l.cells ++ (a, k) :: r.cells

/-- The keys from left to right. -/
def keys (t : LTree K) : List K := t.cells.map Prod.snd

/-- The addresses from left to right. -/
def addrs (t : LTree K) : List Addr := t.cells.map Prod.fst

/-- INTERNAL: the empty tree has a null pointer. -/
@[simp] theorem ptr_nil : (nil : LTree K).ptr = none := rfl

/-- INTERNAL: a tree has the address of its root. -/
@[simp] theorem ptr_node (a : Addr) (k : K) (l r : LTree K) : (node a k l r).ptr = some a := rfl

/-- INTERNAL: the empty tree has no cells. -/
@[simp] theorem cells_nil : (nil : LTree K).cells = [] := rfl

/-- INTERNAL: the cells of a tree, from left to right. -/
@[simp] theorem cells_node (a : Addr) (k : K) (l r : LTree K) :
    (node a k l r).cells = l.cells ++ (a, k) :: r.cells := rfl

/-- INTERNAL: the empty tree has no keys. -/
@[simp] theorem keys_nil : (nil : LTree K).keys = [] := rfl

/-- INTERNAL: the keys of a tree, from left to right. -/
@[simp] theorem keys_node (a : Addr) (k : K) (l r : LTree K) :
    (node a k l r).keys = l.keys ++ k :: r.keys := by simp [keys]

/-- INTERNAL: the empty tree has no addresses. -/
@[simp] theorem addrs_nil : (nil : LTree K).addrs = [] := rfl

/-- INTERNAL: the addresses of a tree, from left to right. -/
@[simp] theorem addrs_node (a : Addr) (k : K) (l r : LTree K) :
    (node a k l r).addrs = l.addrs ++ a :: r.addrs := by simp [addrs]

/-- The in-order keys increase strictly. -/
def Ordered (cmp : K → K → ℤ) (t : LTree K) : Prop :=
  t.keys.Pairwise fun a b => cmp a b < 0

/-! ## The operations -/

/-- The subtree at which the search for `k` ends: the node that holds `k`, or the
empty place where it would go. -/
def descend (cmp : K → K → ℤ) (k : K) : LTree K → LTree K
  | nil => nil
  | node a x l r =>
    if cmp k x < 0 then descend cmp k l
    else if 0 < cmp k x then descend cmp k r
    else node a x l r

/-- Put a new node `a` for `k` at the empty place where the search ends; a tree
that already holds `k` is not changed. -/
def insert (cmp : K → K → ℤ) (k : K) (a : Addr) : LTree K → LTree K
  | nil => node a k nil nil
  | node b x l r =>
    if cmp k x < 0 then node b x (insert cmp k a l) r
    else if 0 < cmp k x then node b x l (insert cmp k a r)
    else node b x l r

/-- Split off the leftmost node. -/
def popMin : LTree K → Option ((Addr × K) × LTree K)
  | nil => none
  | node b x l r =>
    match popMin l with
    | none => some ((b, x), r)
    | some (c, l') => some (c, node b x l' r)

/-- What replaces a deleted node with the subtrees `l` and `r`. -/
def splice (l r : LTree K) : LTree K :=
  match l with
  | nil => r
  | node _ _ _ _ =>
    match popMin r with
    | none => l
    | some ((q, x), r') => node q x l r'

/-- Delete the node at which the search for `k` ends. -/
def erase (cmp : K → K → ℤ) (k : K) : LTree K → LTree K
  | nil => nil
  | node a x l r =>
    if cmp k x < 0 then node a x (erase cmp k l) r
    else if 0 < cmp k x then node a x l (erase cmp k r)
    else splice l r

/-! ## What the operations do to the nodes -/

/-- INTERNAL: only the empty tree has no leftmost node. -/
theorem popMin_eq_none (t : LTree K) : popMin t = none ↔ t = nil := by
  cases t with
  | nil => simp [popMin]
  | node b x l r =>
    simp only [popMin]
    split <;> simp

/-- INTERNAL: the leftmost node is the first of the in-order listing. -/
theorem popMin_cells (t : LTree K) (c : Addr × K) (t' : LTree K)
    (h : popMin t = some (c, t')) : t.cells = c :: t'.cells := by
  induction t generalizing t' with
  | nil => simp [popMin] at h
  | node b x l r ihl _ =>
    simp only [popMin] at h
    split at h
    · next hl =>
      rw [popMin_eq_none] at hl
      simp only [Option.some.injEq, Prod.mk.injEq] at h
      obtain ⟨rfl, rfl⟩ := h
      simp [hl]
    · next c' l' hl =>
      simp only [Option.some.injEq, Prod.mk.injEq] at h
      obtain ⟨rfl, rfl⟩ := h
      simp [ihl l' hl]

/-- INTERNAL: splicing keeps exactly the nodes of both subtrees, in order. -/
@[simp] theorem cells_splice (l r : LTree K) : (splice l r).cells = l.cells ++ r.cells := by
  cases l with
  | nil => simp [splice]
  | node a x ll lr =>
    simp only [splice]
    split
    · next h =>
      rw [popMin_eq_none] at h
      simp [h]
    · next q y r' h => simp [popMin_cells r _ _ h]

/-- INTERNAL: a deletion takes nodes away and reorders none. -/
theorem cells_erase_sublist (cmp : K → K → ℤ) (k : K) (t : LTree K) :
    (erase cmp k t).cells.Sublist t.cells := by
  induction t with
  | nil => exact List.Sublist.refl _
  | node a x l r ihl ihr =>
    simp only [erase]
    split
    · exact ihl.append (List.Sublist.refl _)
    · split
      · exact (List.Sublist.refl _).append (ihr.cons_cons _)
      · rw [cells_splice, cells_node]
        exact (List.Sublist.refl _).append (List.sublist_cons_self _ _)

/-- INTERNAL: the keys after an insertion are the old keys and the new one. -/
theorem mem_keys_insert (cmp : K → K → ℤ) (hc : StrictTotal cmp) (k : K) (a : Addr)
    (t : LTree K) (x : K) : x ∈ (insert cmp k a t).keys ↔ x = k ∨ x ∈ t.keys := by
  induction t with
  | nil => simp [insert]
  | node b y l r ihl ihr =>
    simp only [insert]
    split
    · simp only [keys_node, List.mem_append, List.mem_cons, ihl]
      rw [or_assoc]
    · next h1 =>
      split
      · simp only [keys_node, List.mem_append, List.mem_cons, ihr]
        rw [@or_left_comm (x = y), or_left_comm]
      · next h2 =>
        have hk : k = y := (hc.eq_zero_iff k y).mp (by omega)
        simp only [keys_node, List.mem_append, List.mem_cons, hk]
        exact (or_iff_right_of_imp fun h => Or.inr (Or.inl h)).symm

/-! ## Ordered trees -/

section Ordered

variable {cmp : K → K → ℤ}

/-- INTERNAL: order at a node, split into the parts and what lies between them. -/
theorem ordered_node_iff (a : Addr) (x : K) (l r : LTree K) (hc : StrictTotal cmp) :
    Ordered cmp (node a x l r) ↔
      Ordered cmp l ∧ Ordered cmp r ∧ (∀ y ∈ l.keys, cmp y x < 0) ∧
        ∀ y ∈ r.keys, cmp x y < 0 := by
  simp only [Ordered, keys_node, List.pairwise_append, List.pairwise_cons, List.mem_cons]
  constructor
  · rintro ⟨hl, ⟨hxr, hr⟩, hlr⟩
    exact ⟨hl, hr, fun y hy => hlr y hy x (Or.inl rfl), hxr⟩
  · rintro ⟨hl, hr, hlx, hxr⟩
    refine ⟨hl, ⟨hxr, hr⟩, ?_⟩
    rintro y hy z (rfl | hz)
    · exact hlx y hy
    · exact hc.trans y x z (hlx y hy) (hxr z hz)

/-- INTERNAL: a part of the cells of an ordered tree is in order. -/
theorem Ordered.of_sublist {t t' : LTree K} (h : Ordered cmp t)
    (hs : t'.cells.Sublist t.cells) : Ordered cmp t' :=
  List.Pairwise.sublist (hs.map Prod.snd) h

/-- Inserting keeps the order. -/
theorem Ordered.insert (hc : StrictTotal cmp) (k : K) (a : Addr) {t : LTree K}
    (h : Ordered cmp t) : Ordered cmp (LTree.insert cmp k a t) := by
  induction t with
  | nil => simp [LTree.insert, Ordered]
  | node b x l r ihl ihr =>
    obtain ⟨hl, hr, hlx, hxr⟩ := (ordered_node_iff b x l r hc).mp h
    simp only [LTree.insert]
    split
    · next hlt =>
      refine (ordered_node_iff b x _ r hc).mpr ⟨ihl hl, hr, ?_, hxr⟩
      intro y hy
      rcases (mem_keys_insert cmp hc k a l y).mp hy with rfl | hy
      · exact hlt
      · exact hlx y hy
    · split
      · next hgt =>
        refine (ordered_node_iff b x l _ hc).mpr ⟨hl, ihr hr, hlx, ?_⟩
        intro y hy
        rcases (mem_keys_insert cmp hc k a r y).mp hy with rfl | hy
        · exact (hc.neg_iff_pos x y).mpr hgt
        · exact hxr y hy
      · exact h

/-- Deleting keeps the order. -/
theorem Ordered.erase (k : K) {t : LTree K} (h : Ordered cmp t) :
    Ordered cmp (LTree.erase cmp k t) :=
  h.of_sublist (cells_erase_sublist cmp k t)

/-- INTERNAL: a key on the other side of the root is another one. -/
theorem ne_of_lt_root (hc : StrictTotal cmp) {k x y : K} (hk : cmp k x < 0)
    (hy : cmp x y < 0) : y ≠ k := by
  rintro rfl
  have := (hc.neg_iff_pos y x).mp hk
  omega

/-- INTERNAL: and the other way. -/
theorem ne_of_root_lt {k x y : K} (hk : 0 < cmp k x)
    (hy : cmp y x < 0) : y ≠ k := by
  rintro rfl
  omega

/-- Deleting removes exactly the key. -/
theorem mem_keys_erase (hc : StrictTotal cmp) (k : K) {t : LTree K} (h : Ordered cmp t)
    (x : K) : x ∈ (LTree.erase cmp k t).keys ↔ x ∈ t.keys ∧ x ≠ k := by
  induction t with
  | nil => simp [LTree.erase]
  | node a y l r ihl ihr =>
    obtain ⟨hl, hr, hly, hyr⟩ := (ordered_node_iff a y l r hc).mp h
    have hzero := hc.eq_zero_iff k y
    simp only [LTree.erase]
    split
    · next hlt =>
      have hyk : y ≠ k := by
        rintro rfl
        have := hzero.mpr rfl
        omega
      have hr' : ∀ z ∈ r.keys, z ≠ k := fun z hz => ne_of_lt_root hc hlt (hyr z hz)
      simp only [keys_node, List.mem_append, List.mem_cons, ihl hl]
      constructor
      · rintro (⟨hx, hne⟩ | rfl | hx)
        · exact ⟨Or.inl hx, hne⟩
        · exact ⟨Or.inr (Or.inl rfl), hyk⟩
        · exact ⟨Or.inr (Or.inr hx), hr' x hx⟩
      · rintro ⟨hx | hx | hx, hne⟩
        · exact Or.inl ⟨hx, hne⟩
        · exact Or.inr (Or.inl hx)
        · exact Or.inr (Or.inr hx)
    · split
      · next hgt =>
        have hyk : y ≠ k := by
          rintro rfl
          have := hzero.mpr rfl
          omega
        have hl' : ∀ z ∈ l.keys, z ≠ k := fun z hz => ne_of_root_lt hgt (hly z hz)
        simp only [keys_node, List.mem_append, List.mem_cons, ihr hr]
        constructor
        · rintro (hx | rfl | ⟨hx, hne⟩)
          · exact ⟨Or.inl hx, hl' x hx⟩
          · exact ⟨Or.inr (Or.inl rfl), hyk⟩
          · exact ⟨Or.inr (Or.inr hx), hne⟩
        · rintro ⟨hx | hx | hx, hne⟩
          · exact Or.inl hx
          · exact Or.inr (Or.inl hx)
          · exact Or.inr (Or.inr ⟨hx, hne⟩)
      · next h1 h2 =>
        obtain rfl : k = y := hzero.mp (by omega)
        have hself : ¬ cmp k k < 0 := h1
        have hl' : ∀ z ∈ l.keys, z ≠ k := fun z hz he => hself (he ▸ hly z hz)
        have hr' : ∀ z ∈ r.keys, z ≠ k := fun z hz he => hself (he ▸ hyr z hz)
        have hkeys : (splice l r).keys = l.keys ++ r.keys := by simp [keys]
        simp only [hkeys, keys_node, List.mem_append, List.mem_cons]
        constructor
        · rintro (hx | hx)
          · exact ⟨Or.inl hx, hl' x hx⟩
          · exact ⟨Or.inr (Or.inr hx), hr' x hx⟩
        · rintro ⟨hx | hx | hx, hne⟩
          · exact Or.inl hx
          · exact absurd hx hne
          · exact Or.inr hx

/-- The search ends at a node holding the key exactly when the tree has it. -/
theorem descend_spec (hc : StrictTotal cmp) (k : K) {t : LTree K} (h : Ordered cmp t) :
    (k ∈ t.keys → ∃ a l r, descend cmp k t = node a k l r) ∧
      (k ∉ t.keys → descend cmp k t = nil) := by
  induction t with
  | nil => simp [descend]
  | node a y l r ihl ihr =>
    obtain ⟨hl, hr, hly, hyr⟩ := (ordered_node_iff a y l r hc).mp h
    have hzero := hc.eq_zero_iff k y
    simp only [descend]
    split
    · next hlt =>
      have hmem : k ∈ (node a y l r).keys ↔ k ∈ l.keys := by
        simp only [keys_node, List.mem_append, List.mem_cons]
        constructor
        · rintro (hk | rfl | hk)
          · exact hk
          · have := hzero.mpr rfl
            omega
          · exact absurd rfl (ne_of_lt_root hc hlt (hyr k hk))
        · exact Or.inl
      rw [hmem]
      exact ihl hl
    · split
      · next hgt =>
        have hmem : k ∈ (node a y l r).keys ↔ k ∈ r.keys := by
          simp only [keys_node, List.mem_append, List.mem_cons]
          constructor
          · rintro (hk | rfl | hk)
            · exact absurd rfl (ne_of_root_lt hgt (hly k hk))
            · have := hzero.mpr rfl
              omega
            · exact hk
          · exact fun hk => Or.inr (Or.inr hk)
        rw [hmem]
        exact ihr hr
      · obtain rfl : k = y := hzero.mp (by omega)
        simp

end Ordered

end LTree

end TTLinux.Lib
