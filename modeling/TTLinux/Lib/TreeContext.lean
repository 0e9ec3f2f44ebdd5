import TTLinux.Lib.SearchTree

/-!
# Trees with a hole

A context is what surrounds a subtree: the path from the subtree up to the root,
with the siblings passed on the way. A descent that remembers where it came from
walks through pairs of a context and a subtree; `seek` is that descent for a
search key, and inserting or deleting the key replaces the subtree at which it
ends (`insert_eq_zip`, `erase_eq_zip`).
-/

set_option autoImplicit false

namespace TTLinux.Lib

/-- A tree with one subtree cut out, innermost frame first. -/
inductive Ctx (K : Type) where
  | top : Ctx K
  | left (addr : Addr) (key : K) (right : LTree K) (outer : Ctx K) : Ctx K
  | right (addr : Addr) (key : K) (left : LTree K) (outer : Ctx K) : Ctx K

namespace Ctx

variable {K : Type}

/-- Put a subtree back into the hole. -/
def zip : Ctx K → LTree K → LTree K
  | top, t => t
  | left a k r c, t => c.zip (.node a k t r)
  | right a k l c, t => c.zip (.node a k l t)

/-- The nodes to the left of the hole. -/
def before : Ctx K → List (Addr × K)
  | top => []
  | left _ _ _ c => c.before
  | right a k l c => c.before ++ (l.cells ++ [(a, k)])

/-- The nodes to the right of the hole. -/
def after : Ctx K → List (Addr × K)
  | top => []
  | left a k r c => (a, k) :: (r.cells ++ c.after)
  | right _ _ _ c => c.after

/-- The addresses of the nodes around the hole. -/
def addrs (c : Ctx K) : List Addr := (c.before ++ c.after).map Prod.fst

/-- INTERNAL: the nodes of a filled context, in order. -/
theorem cells_zip (c : Ctx K) (t : LTree K) :
    (c.zip t).cells = c.before ++ (t.cells ++ c.after) := by
  induction c generalizing t with
  | top => simp [zip, before, after]
  | left a k r c ih => simp [zip, before, after, ih]
  | right a k l c ih => simp [zip, before, after, ih]

/-- INTERNAL: an address is in the context or in the tree. -/
theorem mem_addrs_zip (c : Ctx K) (t : LTree K) (x : Addr) :
    x ∈ (c.zip t).addrs ↔ x ∈ c.addrs ∨ x ∈ t.addrs := by
  simp only [LTree.addrs, addrs, cells_zip, List.map_append, List.mem_append]
  tauto

/-- INTERNAL: the nodes around the outer hole are around the inner one. -/
theorem addrs_subset_left (a : Addr) (k : K) (r : LTree K) (c : Ctx K) : c.addrs ⊆ (left a k r c).addrs := by
  intro d hd
  rw [addrs, List.map_append, List.mem_append] at hd ⊢
  rcases hd with hbefore | hafter
  · exact Or.inl hbefore
  · rw [after, List.map_cons, List.map_append]
    exact Or.inr (List.mem_cons_of_mem _ (List.mem_append_right _ hafter))

/-- INTERNAL: the context of a right subtree has the addresses of its own context. -/
theorem addrs_subset_right (a : Addr) (k : K) (l : LTree K) (c : Ctx K) : c.addrs ⊆ (right a k l c).addrs := by
  intro d hd
  rw [addrs, List.map_append, List.mem_append] at hd ⊢
  rcases hd with hbefore | hafter
  · rw [before, List.map_append]
    exact Or.inl (List.mem_append_left _ hbefore)
  · exact Or.inr hafter

/-- INTERNAL: the addresses of a filled context are distinct when those around the
hole are, those in the hole are, and no address is on both sides. -/
theorem nodup_addrs_zip (c : Ctx K) (t : LTree K) :
    (c.zip t).addrs.Nodup ↔
      c.addrs.Nodup ∧ t.addrs.Nodup ∧ ∀ x ∈ t.addrs, x ∉ c.addrs := by
  have hperm : (c.zip t).addrs.Perm (c.addrs ++ t.addrs) := by
    simp only [LTree.addrs, addrs, cells_zip, List.map_append, List.append_assoc]
    exact List.Perm.append_left _ List.perm_append_comm
  rw [hperm.nodup_iff, List.nodup_append]
  refine and_congr_right fun _ => and_congr_right fun _ => ?_
  constructor
  · intro h x hx hc
    exact h x hc x hx rfl
  · intro h x hc y hy hxy
    exact h y hy (hxy ▸ hc)

/-- INTERNAL: a proper context hides the root pointer of what fills it. -/
theorem ptr_zip_congr (c : Ctx K) (t t' : LTree K) (h : t.ptr = t'.ptr) :
    (c.zip t).ptr = (c.zip t').ptr := by
  induction c generalizing t t' with
  | top => exact h
  | left a k r c ih => exact ih _ _ rfl
  | right a k l c ih => exact ih _ _ rfl

/-! ## The descent with a context -/

/-- The search for `k` from the subtree `t` under the context `c`. -/
def seek (cmp : K → K → ℤ) (k : K) : Ctx K → LTree K → Ctx K × LTree K
  | c, .nil => (c, .nil)
  | c, .node a x l r =>
    if cmp k x < 0 then seek cmp k (.left a x r c) l
    else if 0 < cmp k x then seek cmp k (.right a x l c) r
    else (c, .node a x l r)

/-- INTERNAL: the descent cuts the tree but does not change it. -/
theorem zip_seek (cmp : K → K → ℤ) (k : K) (c : Ctx K) (t : LTree K) :
    (seek cmp k c t).1.zip (seek cmp k c t).2 = c.zip t := by
  induction t generalizing c with
  | nil => rfl
  | node a x l r ihl ihr =>
    simp only [seek]
    split
    · rw [ihl]
      rfl
    · split
      · rw [ihr]
        rfl
      · rfl

/-- INTERNAL: the descent ends where the plain search ends. -/
theorem seek_snd (cmp : K → K → ℤ) (k : K) (c : Ctx K) (t : LTree K) :
    (seek cmp k c t).2 = t.descend cmp k := by
  induction t generalizing c with
  | nil => rfl
  | node a x l r ihl ihr =>
    simp only [seek, LTree.descend]
    split
    · exact ihl _
    · split
      · exact ihr _
      · rfl

/-- INTERNAL: inserting a key that the tree does not hold fills the empty place at
which the descent ends. -/
theorem insert_eq_zip (cmp : K → K → ℤ) (k : K) (a : Addr) (c : Ctx K) (t : LTree K)
    (h : (seek cmp k c t).2 = .nil) :
    c.zip (t.insert cmp k a) = (seek cmp k c t).1.zip (.node a k .nil .nil) := by
  induction t generalizing c with
  | nil => rfl
  | node b x l r ihl ihr =>
    simp only [seek, LTree.insert] at h ⊢
    split
    · next hlt =>
      rw [if_pos hlt] at h
      exact ihl _ h
    · next hlt =>
      rw [if_neg hlt] at h
      split
      · next hgt =>
        rw [if_pos hgt] at h
        exact ihr _ h
      · next hgt =>
        rw [if_neg hgt] at h
        cases h

/-- INTERNAL: a tree that holds the key is not changed by inserting it. -/
theorem insert_eq_self (cmp : K → K → ℤ) (k : K) (a : Addr) (t : LTree K)
    (h : t.descend cmp k ≠ .nil) : t.insert cmp k a = t := by
  induction t with
  | nil => exact absurd rfl h
  | node b x l r ihl ihr =>
    simp only [LTree.descend, LTree.insert] at h ⊢
    split
    · next hlt =>
      rw [if_pos hlt] at h
      rw [ihl h]
    · next hlt =>
      rw [if_neg hlt] at h
      split
      · next hgt =>
        rw [if_pos hgt] at h
        rw [ihr h]
      · rfl

/-- INTERNAL: deleting a key splices the node at which the descent ends. -/
theorem erase_eq_zip (cmp : K → K → ℤ) (k : K) (c : Ctx K) (t : LTree K) (a : Addr) (x : K)
    (l r : LTree K) (h : (seek cmp k c t).2 = .node a x l r) :
    c.zip (t.erase cmp k) = (seek cmp k c t).1.zip (l.splice r) := by
  induction t generalizing c with
  | nil => cases h
  | node b y l' r' ihl ihr =>
    simp only [seek, LTree.erase] at h ⊢
    split
    · next hlt =>
      rw [if_pos hlt] at h
      exact ihl _ h
    · next hlt =>
      rw [if_neg hlt] at h
      split
      · next hgt =>
        rw [if_pos hgt] at h
        exact ihr _ h
      · next hgt =>
        rw [if_neg hgt] at h
        cases h
        rfl

/-- INTERNAL: a tree that does not hold the key is not changed by deleting it. -/
theorem erase_eq_self (cmp : K → K → ℤ) (k : K) (t : LTree K)
    (h : t.descend cmp k = .nil) : t.erase cmp k = t := by
  induction t with
  | nil => rfl
  | node b x l r ihl ihr =>
    simp only [LTree.descend, LTree.erase] at h ⊢
    split
    · next hlt =>
      rw [if_pos hlt] at h
      rw [ihl h]
    · next hlt =>
      rw [if_neg hlt] at h
      split
      · next hgt =>
        rw [if_pos hgt] at h
        rw [ihr h]
      · next hgt =>
        rw [if_neg hgt] at h
        cases h

end Ctx

end TTLinux.Lib
