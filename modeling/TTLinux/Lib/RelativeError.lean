import Mathlib.Algebra.Order.Field.Basic
import Mathlib.Algebra.Order.Ring.Pow
import Mathlib.Tactic.Linarith
import Mathlib.Tactic.Ring

/-!
# Relative errors

Positive numbers that differ by a few roundings: either is the other one times at least `1 - u` for each rounding. Errors
add up along a chain, and in products and quotients. From a number of roundings follows a bound of the difference.
-/

set_option autoImplicit false

namespace TTLinux.Lib

variable {K : Type*} [Field K] [LinearOrder K] [IsStrictOrderedRing K]

/-- `x` and `y` are positive and differ by at most `n` roundings with the relative error `u`. -/
structure Within (u : K) (n : ℕ) (x y : K) : Prop where
  pos : 0 < y
  low : y * (1 - u) ^ n ≤ x
  high : x * (1 - u) ^ n ≤ y

namespace Within

omit [IsStrictOrderedRing K] in
/-- INTERNAL: no error. -/
theorem refl (u : K) {y : K} (hy : 0 < y) : Within u 0 y y := ⟨hy, by rw [pow_zero, mul_one], by rw [pow_zero, mul_one]⟩

section

variable {u : K} (h1 : u < 1)

include h1

/-- INTERNAL: the bound of an error is positive. -/
theorem factor_pos (n : ℕ) : 0 < (1 - u) ^ n := pow_pos (sub_pos.mpr h1) n

/-- INTERNAL: numbers with an error are positive. -/
theorem pos_left {n : ℕ} {x y : K} (h : Within u n x y) : 0 < x :=
  (mul_pos h.pos (factor_pos h1 n)).trans_le h.low

/-- INTERNAL: the error the other way. -/
theorem symm {n : ℕ} {x y : K} (h : Within u n x y) : Within u n y x := ⟨h.pos_left h1, h.high, h.low⟩

/-- INTERNAL: two errors one after the other. -/
theorem trans {m n : ℕ} {x y z : K} (h : Within u m x y) (h' : Within u n y z) : Within u (m + n) x z := by
  refine ⟨h'.pos, ?_, ?_⟩
  · calc z * (1 - u) ^ (m + n) = z * (1 - u) ^ n * (1 - u) ^ m := by ring
      _ ≤ y * (1 - u) ^ m := mul_le_mul_of_nonneg_right h'.low (factor_pos h1 m).le
      _ ≤ x := h.low
  · calc x * (1 - u) ^ (m + n) = x * (1 - u) ^ m * (1 - u) ^ n := by ring
      _ ≤ y * (1 - u) ^ n := mul_le_mul_of_nonneg_right h.high (factor_pos h1 n).le
      _ ≤ z := h'.high

/-- INTERNAL: the error of a product. -/
theorem mul {m n : ℕ} {x y x' y' : K} (h : Within u m x y) (h' : Within u n x' y') : Within u (m + n) (x * x') (y * y') := by
  have hx := h.pos_left h1
  refine ⟨mul_pos h.pos h'.pos, ?_, ?_⟩
  · calc y * y' * (1 - u) ^ (m + n) = y * (1 - u) ^ m * (y' * (1 - u) ^ n) := by ring
      _ ≤ x * x' := mul_le_mul h.low h'.low (mul_pos h'.pos (factor_pos h1 n)).le hx.le
  · calc x * x' * (1 - u) ^ (m + n) = x * (1 - u) ^ m * (x' * (1 - u) ^ n) := by ring
      _ ≤ y * y' := mul_le_mul h.high h'.high (mul_pos (h'.pos_left h1) (factor_pos h1 n)).le h.pos.le

/-- INTERNAL: of an inverse. -/
theorem inv {n : ℕ} {x y : K} (h : Within u n x y) : Within u n x⁻¹ y⁻¹ := by
  have hx := h.pos_left h1
  have hy := h.pos
  refine ⟨inv_pos.mpr hy, ?_, ?_⟩
  · rw [inv_mul_le_iff₀ hy, ← div_eq_mul_inv, le_div_iff₀ hx, mul_comm]
    exact h.high
  · rw [inv_mul_le_iff₀ hx, ← div_eq_mul_inv, le_div_iff₀ hy, mul_comm]
    exact h.low

/-- INTERNAL: and of a quotient. -/
theorem div {m n : ℕ} {x y x' y' : K} (h : Within u m x y) (h' : Within u n x' y') : Within u (m + n) (x / x') (y / y') := by
  rw [div_eq_mul_inv, div_eq_mul_inv]
  exact h.mul h1 (h'.inv h1)

/-- **The difference**, by the number of roundings. -/
theorem sub_le {n : ℕ} {x y : K} (h : Within u n x y) : x - y ≤ n * u * x ∧ y - x ≤ n * u * y := by
  have hbernoulli : 1 - n * u ≤ (1 - u) ^ n := by
    have := one_add_mul_le_pow (a := -u) (by linarith) n
    rwa [mul_neg, ← sub_eq_add_neg, ← sub_eq_add_neg] at this
  have hlow := (mul_le_mul_of_nonneg_left hbernoulli h.pos.le).trans h.low
  have hhigh := (mul_le_mul_of_nonneg_left hbernoulli (h.pos_left h1).le).trans h.high
  constructor
  · linarith
  · linarith

end

section

variable {u : K} (h0 : 0 ≤ u) (h1 : u < 1)

include h0 h1

/-- INTERNAL: a smaller error is within a greater bound. -/
theorem mono {m n : ℕ} {x y : K} (h : Within u m x y) (hmn : m ≤ n) : Within u n x y := by
  have hle : (1 - u) ^ n ≤ (1 - u) ^ m := pow_le_pow_of_le_one (sub_nonneg.mpr h1.le) (sub_le_self 1 h0) hmn
  exact ⟨h.pos, (mul_le_mul_of_nonneg_left hle h.pos.le).trans h.low,
    (mul_le_mul_of_nonneg_left hle (h.pos_left h1).le).trans h.high⟩

/-- One rounding. -/
theorem of_abs_sub_le {x y : K} (hy : 0 < y) (h : |x - y| ≤ y * u) : Within u 1 x y := by
  have h' := abs_le.mp h
  refine ⟨hy, by rw [pow_one]; linarith, ?_⟩
  rw [pow_one]
  calc x * (1 - u) ≤ y * (1 + u) * (1 - u) := mul_le_mul_of_nonneg_right (by linarith) (by linarith)
    _ = y - y * (u * u) := by ring
    _ ≤ y := sub_le_self _ (mul_nonneg hy.le (mul_nonneg h0 h0))

end

end Within

end TTLinux.Lib
