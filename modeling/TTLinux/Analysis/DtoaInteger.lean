import Mathlib.Data.Nat.Cast.Order.Field
import TTLinux.Analysis.DtoaLong

/-!
# The conversion of small integers

An integer below `10^15` is converted with doubles, and all of them are exact but the quotient, whose integer part is
right since the number is not within a unit of the next multiple. So the digits are those of the number and it is rounded
as with big integers, but for one thing: when it is rounded down the zeros at the end are not left out.
-/

set_option autoImplicit false

namespace TTLinux.Analysis.DtoaInteger

open TTLinux.Lib
open TTLinux.Lib.FloatFormat
open TTLinux.Model.Dtoa
open TTLinux.Analysis.DtoaEstimate
open TTLinux.Analysis.DtoaDigits
open TTLinux.Analysis.DtoaLong

/-! ## Exact operations -/

/-- INTERNAL: integers up to `2^53` are not rounded. -/
theorem fl_natCast (n : ℕ) (hn : n ≤ 2 ^ 53) : fl (n : ℚ) = n :=
  (isFloat_natCast (F := binary64) n hn (by decide)).round_eq

/-- INTERNAL: the integer part of a quotient of integers is not changed by rounding. -/
theorem truncate_fl_div (n q : ℕ) (hq : 0 < q) (hsmall : q ≤ 10 ^ 14) (hn : n < 10 * q) :
    truncate (fl ((n : ℚ) / q)) = (n / q : ℕ) := by
  have hq' : (0 : ℚ) < q := by exact_mod_cast hq
  have hlow : ((n / q : ℕ) : ℚ) ≤ n / q := Nat.cast_div_le
  have hdig : n / q < 10 := (Nat.div_lt_iff_lt_mul hq).mpr hn
  have hnext : (n : ℚ) / q ≤ (n / q : ℕ) + 1 - 1 / 10 ^ 14 := by
    have hlt : n + 1 ≤ (n / q + 1) * q := Nat.lt_mul_of_div_lt (Nat.lt_succ_self _) hq
    have hlt' : (n : ℚ) + 1 ≤ ((n / q : ℕ) + 1) * q := by exact_mod_cast hlt
    have hunit : (1 : ℚ) / 10 ^ 14 ≤ 1 / q := one_div_le_one_div_of_le hq' (by exact_mod_cast hsmall)
    have hdiv : (n : ℚ) / q + 1 / q ≤ (n / q : ℕ) + 1 := by
      rw [← add_div, div_le_iff₀ hq']
      exact hlt'
    linarith
  have hdig' : ((n / q : ℕ) : ℚ) ≤ 9 := by exact_mod_cast Nat.lt_succ_iff.mp hdig
  generalize n / q = g at hlow hdig hnext hdig' ⊢
  have hge : (g : ℚ) ≤ fl (n / q) := by
    rw [← fl_natCast g (by omega)]
    exact round_mono hlow
  have herror := abs_le.mp (abs_fl_sub_le ((n : ℚ) / q) 4 (by
    rw [abs_of_nonneg (by positivity)]
    norm_num at hnext ⊢
    linarith) (by omega))
  have hlt : fl ((n : ℚ) / q) < g + 1 := by
    norm_num at herror hnext
    linarith
  have hnonneg : ¬ fl ((n : ℚ) / q) < 0 := not_lt.mpr ((by positivity : (0 : ℚ) ≤ g).trans hge)
  unfold truncate
  rw [if_neg hnonneg, Int.floor_eq_iff]
  exact ⟨by exact_mod_cast hge, by exact_mod_cast hlt⟩

/-- INTERNAL: what is left of an integer at the next place. -/
theorem fl_sub_mul (n q : ℕ) (hsmall : q ≤ 10 ^ 14) (hn : n < 10 * q) :
    fl ((n : ℚ) - fl (((n / q : ℕ) : ℤ) * q)) = (n % q : ℕ) := by
  have hle : n / q * q ≤ n := Nat.div_mul_le_self n q
  have hmul : (((n / q : ℕ) : ℤ) : ℚ) * q = ((n / q * q : ℕ) : ℚ) := by push_cast; rfl
  have hsub : (n : ℚ) - ((n / q * q : ℕ) : ℚ) = (n % q : ℕ) := by
    rw [← Nat.cast_sub hle]
    congr 1
    have := Nat.div_add_mod' n q
    omega
  rw [hmul, fl_natCast _ (by omega), hsub, fl_natCast]
  have := Nat.mod_le n q
  omega

/-! ## The digits -/

/-- What the loop over the digits of the integer `n` has found, `q` being the unit of the first place. -/
structure IntegerFound (n q : ℕ) (ilim : ℤ) (up : Bool) (s : Bytes) (v : ℕ) : Prop where
  nonempty : s ≠ []
  decimal : Decimal s
  length : (s.length : ℤ) ≤ ilim
  value : n * 10 ^ (s.length - 1) = digitsValue 10 s * q + v
  lt : v < q
  ended : v = 0 → up = false ∧ Suppressed s
  limited : v ≠ 0 → (s.length : ℤ) = ilim
  rounding : v ≠ 0 → (up = true ↔ q < 2 * v ∨ q = 2 * v ∧ digitsValue 10 s % 2 = 1)

/-- **The digits are those of the integer**, and it is rounded up if the nearest integer at the last place asks for it.
SOURCE: dietlibc-printf.patch:3400-3435 -/
theorem integerDigits_spec (n q : ℕ) (ilim : ℤ) (hq : 0 < q) (hsmall : q ≤ 10 ^ 14) (room : ℕ) (i : ℤ) (m : ℕ) (s : Bytes)
    (hm : m ≠ 0) (hlt : m < 10 * q) (hdec : Decimal s) (hfirst : s = [] → q ≤ m) (hi : i = s.length + 1) (hilim : i ≤ ilim)
    (hroom : ilim ≤ s.length + room) (hinv : n * 10 ^ s.length = 10 * digitsValue 10 s * q + m) :
    ∃ up s' v, integerDigits q ilim room i m s = some (up, s') ∧ IntegerFound n q ilim up s' v := by
  induction room generalizing i m s with
  | zero => omega
  | succ room ih =>
    have hL := truncate_fl_div m q hq hsmall hlt
    have hrest := fl_sub_mul m q hsmall hlt
    have hdig : m / q < 10 := (Nat.div_lt_iff_lt_mul hq).mpr hlt
    have hmod : m % q < q := Nat.mod_lt _ hq
    have hdiv : q * (m / q) + m % q = m := Nat.div_add_mod m q
    have hone : s = [] → m / q ≠ 0 := fun hnil => (Nat.div_pos (hfirst hnil) hq).ne'
    simp only [integerDigits, hL, hrest]
    generalize m / q = g at hdig hdiv hone ⊢
    generalize m % q = v at hmod hdiv ⊢
    obtain ⟨hdec', hvalue, hlast⟩ := hdec.digit g hdig hone
    have hlen : (s ++ [digit g]).length = s.length + 1 := by simp
    have hinv' : n * 10 ^ s.length = digitsValue 10 (s ++ [digit g]) * q + v := by
      rw [hinv, hvalue, Nat.add_mul]
      linarith
    by_cases hdone : v = 0
    · rw [if_pos (by rw [hdone, Nat.cast_zero])]
      refine ⟨false, _, v, rfl, by simp, hdec', by omega, by rw [hlen, Nat.add_sub_cancel, hinv'], hmod, fun _ => ⟨rfl, ?_⟩,
        fun h => absurd hdone h, fun h => absurd hdone h⟩
      refine hlast.mpr ?_
      rintro rfl
      omega
    · rw [if_neg (by exact_mod_cast hdone)]
      by_cases hlimited : i = ilim
      · rw [if_pos hlimited]
        have hdouble : fl ((v : ℚ) + v) = ((2 * v : ℕ) : ℚ) := by
          rw [← two_mul, ← Nat.cast_ofNat, ← Nat.cast_mul, fl_natCast _ (by omega)]
        refine ⟨_, _, v, rfl, by simp, hdec', by omega, by rw [hlen, Nat.add_sub_cancel, hinv'], hmod,
          fun h => absurd h hdone, fun _ => by omega, fun _ => ?_⟩
        rw [hdouble, decide_eq_true_eq, gt_iff_lt, Nat.cast_lt, Nat.cast_inj, hvalue]
        omega
      · rw [if_neg hlimited]
        have hten : fl ((v : ℚ) * 10) = ((10 * v : ℕ) : ℚ) := by
          rw [mul_comm, ← Nat.cast_ofNat, ← Nat.cast_mul, fl_natCast _ (by omega)]
        rw [hten]
        refine ih (i + 1) (10 * v) _ (by omega) (by omega) hdec' (by simp) (by omega) (by omega) (by omega) ?_
        rw [hlen, pow_succ, ← mul_assoc, hinv']
        ring

/-- The number is rounded down, to digits that end in zero. -/
def EndsInZero (d : ℚ) (k ilim : ℤ) : Prop :=
  (nearestEven (d * 10 ^ (ilim - 1 - k)) : ℚ) < d * 10 ^ (ilim - 1 - k) ∧ 10 ∣ nearestEven (d * 10 ^ (ilim - 1 - k))

/-- **A small integer is rounded like any other number**, but zeros at the end stay if it is rounded down.
SOURCE: dietlibc-printf.patch:3400-3435 -/
theorem integer_spec (n room : ℕ) (k ilim : ℤ) (hk : 0 ≤ k ∧ k ≤ 14) (hlow : (10 : ℚ) ^ k ≤ n) (hhigh : (n : ℚ) < 10 ^ (k + 1))
    (hilim : 0 < ilim) (hroom : ilim ≤ room) : ∃ up s, integerDigits (10 ^ k.toNat) ilim room 1 n [] = some (up, s) ∧
      Converted n k ilim (if up then roundoff s k else (s, k)) ∧
      (Suppressed (if up then roundoff s k else (s, k)).1 ↔ ¬ EndsInZero n k ilim) := by
  obtain ⟨e, rfl⟩ := Int.eq_ofNat_of_zero_le hk.1
  have hq : 0 < 10 ^ e := by positivity
  have hsmall : 10 ^ e ≤ 10 ^ 14 := Nat.pow_le_pow_right (by omega) (by omega)
  have hfirst : 10 ^ e ≤ n := by rw [zpow_natCast] at hlow; exact_mod_cast hlow
  have hlt : n < 10 * 10 ^ e := by
    rw [← Nat.cast_succ, zpow_natCast, pow_succ] at hhigh
    rw [mul_comm]
    exact_mod_cast hhigh
  obtain ⟨up, s, v, hrun, h⟩ := integerDigits_spec n (10 ^ e) ilim hq hsmall room 1 n [] (by omega) hlt decimal_nil
    (fun _ => hfirst) (by simp) (by omega) (by simpa using hroom) (by simp)
  rw [Int.toNat_natCast, show ((10 : ℚ) ^ e) = ((10 ^ e : ℕ) : ℚ) by push_cast; rfl]
  refine ⟨up, s, hrun, ?_⟩
  have hpos := List.length_pos_iff.mpr h.nonempty
  have hd : (n : ℚ) = n / (10 ^ e : ℕ) * 10 ^ (e : ℤ) := by
    rw [zpow_natCast]
    push_cast
    rw [div_mul_cancel₀ _ (by positivity)]
  by_cases hv : v = 0
  · obtain ⟨hup, hlast⟩ := h.ended hv
    have hvalue : (n : ℚ) = valueAt s e := by
      have hscaled := scaled_of_quotient n (10 ^ e) (digitsValue 10 s) v s.length hq hd rfl hpos h.value
      rw [hv, Nat.cast_zero, zero_div, add_zero] at hscaled
      rw [valueAt, ← hscaled, mul_assoc, ← zpow_add₀ (by norm_num),
        show (s.length : ℤ) - 1 - e + (e + 1 - s.length) = 0 by ring, zpow_zero, mul_one]
    rw [hup, if_neg Bool.false_ne_true]
    refine ⟨⟨rounded_exact h.decimal h.nonempty h.length hvalue, fun _ => h.nonempty⟩, iff_of_true hlast ?_⟩
    intro hends
    exact hends.1.ne (nearestEven_exact h.length hvalue)
  · have hlen := h.limited hv
    have hscaled := scaled_of_quotient n (10 ^ e) (digitsValue 10 s) v s.length hq hd hlen hpos h.value
    have hnear := nearestEven_quotient (digitsValue 10 s) v (10 ^ e) hq h.lt
    have hfrac : (0 : ℚ) < v / (10 ^ e : ℕ) := by positivity
    have hfrac' : (v : ℚ) / (10 ^ e : ℕ) < 1 := by
      rw [div_lt_one (by positivity)]
      exact_mod_cast h.lt
    rw [← hscaled] at hnear
    unfold EndsInZero
    by_cases hup : up = true
    · rw [if_pos ((h.rounding hv).mp hup)] at hnear
      obtain ⟨hne, hlast, hrounded⟩ := rounded_roundoff h.decimal hlen hnear
      rw [if_pos hup]
      refine ⟨⟨hrounded, fun _ => hne⟩, iff_of_true hlast ?_⟩
      rintro ⟨hdown, -⟩
      rw [hnear, hscaled] at hdown
      push_cast at hdown hfrac'
      linarith
    · rw [if_neg (mt (h.rounding hv).mpr hup)] at hnear
      rw [if_neg hup]
      refine ⟨⟨rounded_kept h.decimal h.nonempty hlen hnear, fun _ => h.nonempty⟩, ?_⟩
      rw [h.decimal.suppressed_iff h.nonempty, hnear, hscaled]
      push_cast
      have hdown : (digitsValue 10 s : ℚ) < digitsValue 10 s + v / 10 ^ e := by
        push_cast at hfrac
        linarith
      simp only [hdown, true_and, ne_eq, not_iff_not]
      omega

end TTLinux.Analysis.DtoaInteger
