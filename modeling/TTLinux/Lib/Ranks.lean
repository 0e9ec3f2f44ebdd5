import Mathlib.Data.List.Range
import Mathlib.Data.Nat.Count

/-!
# The ranks of the members of a set of numbers

A loop that goes up a range and numbers the members of a set gives each of them its rank: the number of
members below it. The ranks of the members below a bound are all the numbers below their count, in order.
-/

set_option autoImplicit false

namespace TTLinux.Lib.Ranks

variable (p q : ℕ → Prop) [DecidablePred p] [DecidablePred q]

/-- INTERNAL: sets with the same members below a bound. -/
theorem count_congr {n : ℕ} (h : ∀ k < n, (p k ↔ q k)) : Nat.count p n = Nat.count q n := by
  apply le_antisymm
  · exact Nat.count_mono_left fun k hk => (h k hk).mp
  · exact Nat.count_mono_left fun k hk => (h k hk).mpr

/-- INTERNAL: no member is below this number. -/
theorem count_eq_zero {n : ℕ} (h : ∀ k < n, ¬p k) : Nat.count p n = 0 := Nat.count_iff_forall_not.mpr h

/-- INTERNAL: one more member. -/
theorem count_insert {n i : ℕ} (hi : i < n) (hp : ¬p i) (hq : q i) (h : ∀ k, k ≠ i → (p k ↔ q k)) :
    Nat.count q n = Nat.count p n + 1 := by
  induction n with
  | zero => omega
  | succ n ih =>
    rw [Nat.count_succ, Nat.count_succ]
    by_cases hlast : i = n
    · subst hlast
      have hbelow : Nat.count q i = Nat.count p i := count_congr q p fun k hk => (h k hk.ne).symm
      rw [if_pos hq, if_neg hp, hbelow]
    · rw [ih (by omega), if_congr (h n (Ne.symm hlast)) rfl rfl]
      omega

/-- INTERNAL: **the ranks of the members** below a bound. -/
theorem map_count_filter (n : ℕ) :
    ((List.range n).filter fun k => p k).map (Nat.count p) = List.range (Nat.count p n) := by
  induction n with
  | zero => rfl
  | succ n ih =>
    rw [List.range_succ, List.filter_append, List.map_append, ih, Nat.count_succ]
    by_cases hp : p n
    · have hmember : [n].filter (fun k => p k) = [n] := List.filter_eq_self.mpr (by simpa using hp)
      rw [if_pos hp, hmember, List.range_succ]
      rfl
    · have hnone : [n].filter (fun k => p k) = [] := List.filter_eq_nil_iff.mpr (by simpa using hp)
      rw [if_neg hp, hnone]
      exact List.append_nil _

/-- INTERNAL: each number below the count is the rank of a member. -/
theorem exists_rank {n j : ℕ} (hj : j < Nat.count p n) : ∃ k < n, p k ∧ Nat.count p k = j := by
  rw [← List.mem_range, ← map_count_filter] at hj
  obtain ⟨k, hk, hrank⟩ := List.mem_map.mp hj
  obtain ⟨hlt, hp⟩ := List.mem_filter.mp hk
  exact ⟨k, List.mem_range.mp hlt, of_decide_eq_true hp, hrank⟩

/-- INTERNAL: other numbers for the members are their ranks if and only if they are those below the count, in
order. -/
theorem map_eq_range_iff (f : ℕ → ℕ) (n : ℕ) :
    ((List.range n).filter fun k => p k).map f = List.range (Nat.count p n) ↔
      ∀ k < n, p k → f k = Nat.count p k := by
  rw [← map_count_filter, List.map_inj_left]
  constructor
  · intro h k hk hp
    exact h k (List.mem_filter.mpr ⟨List.mem_range.mpr hk, decide_eq_true hp⟩)
  · intro h k hk
    obtain ⟨hlt, hp⟩ := List.mem_filter.mp hk
    exact h k (List.mem_range.mp hlt) (of_decide_eq_true hp)

end TTLinux.Lib.Ranks
