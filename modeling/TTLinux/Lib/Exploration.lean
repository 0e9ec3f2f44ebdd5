import Mathlib.Data.Finset.Insert
import Mathlib.Data.List.Nodup
import Mathlib.Logic.Relation

/-!
# Exploring a graph with a set of visited nodes

`Explored edge V V' new` says what one part of a depth-first search does: the nodes `new`
are entered, in this order and each once, none of them was in the visited set `V`, and
every successor of an entered node is in the visited set `V'` afterwards. Parts follow
each other (`Explored.trans`), and entering a node before its successors makes a part
out of theirs (`Explored.enter`). A whole search enters exactly what is reachable.
-/

set_option autoImplicit false

namespace TTLinux.Lib

variable {α : Type}

/-- A part of a search, with the visited nodes before and after it and the nodes that it enters. -/
structure Explored (edge : α → α → Prop) (V V' : Finset α) (new : List α) : Prop where
  mem : ∀ x, x ∈ V' ↔ x ∈ V ∨ x ∈ new
  fresh : ∀ x ∈ new, x ∉ V
  nodup : new.Nodup
  closed : ∀ x ∈ new, ∀ y, edge x y → y ∈ V'

namespace Explored

variable {edge : α → α → Prop} {V V₁ V₂ : Finset α}

/-- INTERNAL: nothing was visited. -/
theorem refl (V : Finset α) : Explored edge V V [] where
  mem := by simp
  fresh := by simp
  nodup := List.nodup_nil
  closed := by simp

/-- INTERNAL: what was visited stays so. -/
theorem subset {new : List α} (h : Explored edge V V₁ new) : V ⊆ V₁ := by
  intro x hx
  exact (h.mem x).mpr (Or.inl hx)

/-- INTERNAL: two parts after each other. -/
theorem trans {new₁ new₂ : List α} (h₁ : Explored edge V V₁ new₁) (h₂ : Explored edge V₁ V₂ new₂) :
    Explored edge V V₂ (new₁ ++ new₂) where
  mem := by
    intro x
    rw [h₂.mem, h₁.mem, List.mem_append, or_assoc]
  fresh := by
    intro x hx
    rcases List.mem_append.mp hx with hx | hx
    · exact h₁.fresh x hx
    · intro hV
      exact h₂.fresh x hx (h₁.subset hV)
  nodup := by
    refine List.nodup_append.mpr ⟨h₁.nodup, h₂.nodup, ?_⟩
    intro x hx y hy hxy
    exact h₂.fresh y hy ((h₁.mem y).mpr (Or.inr (hxy ▸ hx)))
  closed := by
    intro x hx y hxy
    rcases List.mem_append.mp hx with hx | hx
    · exact h₂.subset (h₁.closed x hx y hxy)
    · exact h₂.closed x hx y hxy

/-- INTERNAL: a node is entered before its successors. -/
theorem enter [DecidableEq α] {x : α} {new : List α} (hx : x ∉ V) (h : Explored edge (insert x V) V₁ new)
    (hsucc : ∀ y, edge x y → y ∈ V₁) : Explored edge V V₁ (x :: new) where
  mem := by
    intro y
    rw [h.mem, Finset.mem_insert, List.mem_cons]
    constructor
    · intro hy
      rcases hy with (hy | hy) | hy
      · exact Or.inr (Or.inl hy)
      · exact Or.inl hy
      · exact Or.inr (Or.inr hy)
    · intro hy
      rcases hy with hy | hy | hy
      · exact Or.inl (Or.inr hy)
      · exact Or.inl (Or.inl hy)
      · exact Or.inr hy
  fresh := by
    intro y hy
    rcases List.mem_cons.mp hy with rfl | hy
    · exact hx
    · intro hV
      exact h.fresh y hy (Finset.mem_insert_of_mem hV)
  nodup := by
    refine List.nodup_cons.mpr ⟨?_, h.nodup⟩
    intro hmem
    exact h.fresh x hmem (Finset.mem_insert_self x V)
  closed := by
    intro y hy z hyz
    rcases List.mem_cons.mp hy with rfl | hy
    · exact hsucc z hyz
    · exact h.closed y hy z hyz

/-- INTERNAL: **a whole search enters what is reachable**: if nothing was visited before, the start is
entered and only reachable nodes are, then the entered nodes are the reachable ones. -/
theorem mem_iff_reachable {start : α} {new : List α} (h : Explored edge ∅ V₁ new) (hstart : start ∈ new)
    (hsound : ∀ x ∈ new, Relation.ReflTransGen edge start x) (x : α) :
    x ∈ new ↔ Relation.ReflTransGen edge start x := by
  refine ⟨hsound x, ?_⟩
  intro hreach
  induction hreach with
  | refl => exact hstart
  | tail _ hstep ih =>
    have hvisited := h.closed _ ih _ hstep
    rw [h.mem] at hvisited
    exact hvisited.resolve_left (Finset.notMem_empty _)

end Explored

end TTLinux.Lib
