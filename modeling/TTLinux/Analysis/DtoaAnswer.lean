import Mathlib.Data.Int.Log
import TTLinux.Analysis.DtoaModes
import TTLinux.Analysis.PrintfDecimal
import TTLinux.Analysis.PrintfHexValue

/-!
# The answers of `dtoa`

`dtoa` takes the sign off, tells zero and the numbers that are not finite from the others, and converts. In modes 2, 3, 6
and 7 the answer is the number rounded to the last place that is asked for. It is the same after any calls before it: the
powers of five that these have kept stay powers of five. It is also the same whether or not doubles only have been tried
first.
-/

set_option autoImplicit false

namespace TTLinux.Analysis.DtoaAnswer

open TTLinux.Lib
open TTLinux.Lib.FloatFormat
open TTLinux.Model.Dtoa
open TTLinux.Model.DtoaBigint
open TTLinux.Analysis.DtoaBigint
open TTLinux.Analysis.DtoaWords
open TTLinux.Analysis.DtoaEstimate
open TTLinux.Analysis.DtoaDigits
open TTLinux.Analysis.DtoaLong
open TTLinux.Analysis.DtoaModes
open TTLinux.Model.Printf (SIGNMASK EXPOMASK MANTMASK)
open TTLinux.Analysis.PrintfLayout (IsFinite)
open TTLinux.Analysis.PrintfHex (isNegative biased)
open TTLinux.Analysis.PrintfHexValue (doubleValue biased_lt)
open TTLinux.Analysis.PrintfDecimal (IsZero answerValue)

/-! ## A double and its words -/

/-- INTERNAL: a double without its sign bit. -/
theorem toNat_clearSign (u : BitVec 64) : (clearSign u).toNat = u.toNat % 2 ^ 63 := by
  unfold clearSign
  rw [BitVec.toNat_and, show (0x7fffffffffffffff#64 : BitVec 64).toNat = 2 ^ 63 - 1 by decide, Nat.and_two_pow_sub_one_eq_mod]

/-- INTERNAL: the upper word is the number above 32 bits. -/
theorem word0_eq (u : BitVec 64) : word0 u = u.toNat / 2 ^ 32 := by
  unfold word0
  rw [BitVec.toNat_ushiftRight, Nat.shiftRight_eq_div_pow]

/-- INTERNAL: the lower word is the number below them. -/
theorem word1_eq (u : BitVec 64) : word1 u = u.toNat % 2 ^ 32 := by
  unfold word1
  rw [BitVec.toNat_and, show (0xffffffff#64 : BitVec 64).toNat = 2 ^ 32 - 1 by decide, Nat.and_two_pow_sub_one_eq_mod]

/-- INTERNAL: the biased exponent stands above the 52 bits of the fraction. -/
theorem biased_eq (u : BitVec 64) : biased u = u.toNat / 2 ^ 52 % 2 ^ 11 := by
  unfold biased
  rw [BitVec.toNat_ushiftRight, BitVec.toNat_and, Nat.shiftRight_and_distrib,
    show EXPOMASK.toNat >>> 52 = 2 ^ 11 - 1 by decide, Nat.and_two_pow_sub_one_eq_mod, Nat.shiftRight_eq_div_pow]

/-- INTERNAL: a double is finite if its exponent is not the greatest. -/
theorem isFinite_iff (u : BitVec 64) : IsFinite u ↔ biased u ≠ 2047 := by
  unfold IsFinite
  rw [not_iff_not, biased_eq]
  have hmask : EXPOMASK.toNat = 2047 * 2 ^ 52 := by decide
  have hbits : u.toNat &&& EXPOMASK.toNat = u.toNat / 2 ^ 52 % 2 ^ 11 * 2 ^ 52 := by
    rw [← Nat.and_two_pow_sub_one_eq_mod, ← Nat.shiftRight_eq_div_pow, ← Nat.shiftLeft_eq]
    apply Nat.eq_of_testBit_eq
    intro i
    rw [Nat.testBit_shiftLeft, Nat.testBit_and, Nat.testBit_and, Nat.testBit_shiftRight, hmask,
      show 2047 * 2 ^ 52 = (2 ^ 11 - 1) <<< 52 by decide, Nat.testBit_shiftLeft]
    by_cases hi : 52 ≤ i
    · rw [Nat.add_sub_cancel' hi]
      simp [hi]
    · simp [hi]
  rw [← BitVec.toNat_inj, BitVec.toNat_and, hbits, hmask]
  omega

/-- INTERNAL: the sign is the uppermost bit. -/
theorem isNegative_eq (u : BitVec 64) : isNegative u = decide (2 ^ 63 ≤ u.toNat) := by
  have hand : u.toNat &&& SIGNMASK.toNat = 2 ^ 63 * (u.toNat.testBit 63).toNat := by
    rw [show SIGNMASK.toNat = 2 ^ 63 by decide, Nat.and_two_pow]
    ring
  have hbit : u.toNat.testBit 63 = decide (2 ^ 63 ≤ u.toNat) := by
    have hlt := u.isLt
    rw [Nat.testBit_eq_decide_div_mod_eq]
    exact decide_eq_decide.mpr (by omega)
  unfold isNegative
  refine decide_eq_decide.mpr ?_
  rw [ne_eq, ← BitVec.toNat_inj, BitVec.toNat_and, hand, hbit]
  by_cases h : 2 ^ 63 ≤ u.toNat
  · exact iff_of_true (by rw [decide_eq_true h]; decide) h
  · exact iff_of_false (by rw [decide_eq_false h]; decide) h

/-- INTERNAL: the test of the sign. -/
theorem sign_spec (u : BitVec 64) : decide (word0 u &&& 0x80000000 ≠ 0) = isNegative u := by
  have hlt := u.isLt
  rw [isNegative_eq, show 0x80000000 = 2 ^ 31 from rfl, Nat.and_two_pow, Nat.testBit_eq_decide_div_mod_eq, word0_eq]
  refine decide_eq_decide.mpr ?_
  by_cases h : 2 ^ 63 ≤ u.toNat
  · exact iff_of_true (by rw [show u.toNat / 2 ^ 32 / 2 ^ 31 % 2 = 1 by omega]; decide) h
  · exact iff_of_false (by rw [show u.toNat / 2 ^ 32 / 2 ^ 31 % 2 = 0 by omega]; decide) h

/-- INTERNAL: the upper word without the sign bit. -/
theorem word0_clearSign_lt (u : BitVec 64) : word0 (clearSign u) < 2 ^ 31 := by
  rw [word0_eq, toNat_clearSign]
  omega

/-- INTERNAL: the exponent does not depend on the sign. -/
theorem exponent_clearSign (u : BitVec 64) : exponent (clearSign u) = biased u := by
  unfold exponent
  rw [Nat.shiftRight_eq_div_pow, word0_eq, toNat_clearSign, biased_eq]
  omega

/-- INTERNAL: and neither does the fraction. -/
theorem fraction_clearSign (u : BitVec 64) : fraction (clearSign u) = PrintfHex.mantissa u := by
  unfold PrintfHex.mantissa
  rw [fraction_eq, word0_eq, word1_eq, toNat_clearSign, BitVec.toNat_and, show MANTMASK.toNat = 2 ^ 52 - 1 by decide,
    Nat.and_two_pow_sub_one_eq_mod]
  omega

/-- INTERNAL: the test for numbers that are not finite. -/
theorem finite_spec (u : BitVec 64) : word0 (clearSign u) &&& 0x7ff00000 = 0x7ff00000 ↔ ¬ IsFinite u := by
  have hlt := word0_clearSign_lt u
  have hexp := exponent_clearSign u
  unfold exponent at hexp
  have hbits : word0 (clearSign u) &&& 0x7ff00000 = biased u * 2 ^ 20 := by
    rw [← hexp, ← Nat.shiftLeft_eq]
    apply Nat.eq_of_testBit_eq
    intro i
    rw [Nat.testBit_and, Nat.testBit_shiftLeft, Nat.testBit_shiftRight, show 0x7ff00000 = (2 ^ 11 - 1) <<< 20 by decide,
      Nat.testBit_shiftLeft, Nat.testBit_two_pow_sub_one]
    by_cases hi : 20 ≤ i
    · rw [Nat.add_sub_cancel' hi]
      by_cases hhigh : i < 31
      · simp [hi, show i - 20 < 11 by omega]
      · have hle : 2 ^ 31 ≤ 2 ^ i := Nat.pow_le_pow_right (by omega) (by omega)
        rw [Nat.testBit_lt_two_pow (hlt.trans_le hle)]
        simp
    · simp [hi]
  rw [hbits, isFinite_iff]
  omega

/-- INTERNAL: the value without the sign. -/
theorem dval_clearSign (u : BitVec 64) : dval (word0 (clearSign u)) (word1 (clearSign u)) = |doubleValue u| := by
  have hsign : |(if isNegative u then -1 else 1 : ℚ)| = 1 := by split_ifs <;> simp
  rw [dval_eq]
  unfold doubleValue DtoaWords.mantissa lastPlace
  rw [abs_mul, hsign, one_mul, exponent_clearSign, fraction_clearSign]
  by_cases hzero : biased u = 0
  · rw [if_pos hzero, if_pos hzero, if_pos hzero, abs_of_nonneg (by positivity), div_mul_eq_mul_div, eq_div_iff (by positivity),
      mul_assoc, ← zpow_natCast, ← zpow_add₀ (by norm_num)]
    norm_num
  · rw [if_neg hzero, if_neg hzero, if_neg hzero, abs_of_nonneg (by positivity)]
    have hpow : (2 : ℚ) ^ ((biased u : ℤ) - 1023) = 2 ^ 52 * 2 ^ ((biased u : ℤ) - 1075) := by
      rw [← zpow_natCast, ← zpow_add₀ (by norm_num)]
      congr 1
      push_cast
      ring
    rw [hpow, ← mul_assoc, add_mul, one_mul, div_mul_cancel₀ _ (by norm_num)]
    push_cast
    rfl

/-- INTERNAL: the mantissa is zero for the two zeros only. -/
theorem mantissa_eq_zero_iff (u : BitVec 64) : DtoaWords.mantissa (clearSign u) = 0 ↔ IsZero u := by
  unfold DtoaWords.mantissa IsZero
  rw [exponent_clearSign, fraction_clearSign]
  split_ifs with h
  · exact ⟨fun hm => ⟨h, hm⟩, fun hm => hm.2⟩
  · exact iff_of_false (by omega) fun hm => h hm.1

/-- INTERNAL: and so is the value. -/
theorem doubleValue_eq_zero_iff (u : BitVec 64) : |doubleValue u| = 0 ↔ IsZero u := by
  rw [← dval_clearSign, dval_eq, ← mantissa_eq_zero_iff, mul_eq_zero, Nat.cast_eq_zero]
  exact or_iff_left (zpow_pos (by norm_num) _).ne'

/-- INTERNAL: the place of the first digit of a double. -/
theorem log_spec (u : BitVec 64) (hfin : IsFinite u) (hne : ¬ IsZero u) :
    0 < |doubleValue u| ∧ -324 ≤ Int.log 10 |doubleValue u| ∧ Int.log 10 |doubleValue u| ≤ 308 := by
  have hfinite : exponent (clearSign u) < 2047 := by
    have hlt := biased_lt u
    have hexp := (isFinite_iff u).mp hfin
    rw [exponent_clearSign]
    omega
  obtain ⟨b, v, be, n, -, htaken⟩ := d2b_spec (clearSign u) (word0_clearSign_lt u) ((mantissa_eq_zero_iff u).not.mpr hne)
  obtain ⟨t, ht, hlow, hhigh⟩ := first_digit _ _ _ (highestBit_spec (clearSign u) b v be n hfinite htaken).2
  rw [dval_clearSign] at hlow hhigh
  have hpos : 0 < |doubleValue u| := (zpow_pos (by norm_num) t).trans_le hlow
  refine ⟨hpos, ?_⟩
  have hle : t ≤ Int.log 10 |doubleValue u| := by
    rw [← Int.zpow_le_iff_le_log (by omega) hpos]
    exact_mod_cast hlow
  have hlt : Int.log 10 |doubleValue u| < t + 1 := by
    rw [← Int.lt_zpow_iff_log_lt (by omega) hpos]
    exact_mod_cast hhigh
  omega

/-- INTERNAL: the decimal logarithm from the powers of ten around a number. -/
theorem log_eq {x : ℚ} {t : ℤ} (hlow : 10 ^ t ≤ x) (hhigh : x < 10 ^ (t + 1)) : Int.log 10 x = t := by
  have hpos : 0 < x := (zpow_pos (by norm_num) t).trans_le hlow
  have hle : t ≤ Int.log 10 x := by
    rw [← Int.zpow_le_iff_le_log (by omega) hpos]
    exact_mod_cast hlow
  have hlt : Int.log 10 x < t + 1 := by
    rw [← Int.lt_zpow_iff_log_lt (by omega) hpos]
    exact_mod_cast hhigh
  omega

/-! ## One call -/

/-- A number rounded to a multiple of `10^-q`, to the nearest and to an even one in the middle. -/
def roundedTo (x : ℚ) (q : ℤ) : ℚ := nearestEven (x * 10 ^ q) * 10 ^ (-q)

/-- The last place that is asked for, counted behind the point. -/
def lastAsked (mode ndigits : ℤ) (x : ℚ) : ℤ := if reduced mode = 2 then max 1 ndigits - 1 - Int.log 10 x else ndigits

/-- **The answer for a double**: its sign and the number, rounded to the last place that is asked for. Zero has one digit;
otherwise the first digit is not zero, and the digits do not go past the last place. -/
structure Answered (u : BitVec 64) (mode ndigits : ℤ) (a : Answer) : Prop where
  sign : a.sign = isNegative u
  value : answerValue (a.digits, a.decpt) = roundedTo |doubleValue u| (lastAsked mode ndigits |doubleValue u|)
  zero : IsZero u → a.digits = [0x30] ∧ a.decpt = 1
  decimal : ¬ IsZero u → Decimal a.digits
  places : ¬ IsZero u → (a.digits.length : ℤ) ≤ a.decpt + lastAsked mode ndigits |doubleValue u|
  few : reduced mode = 2 → (a.digits.length : ℤ) ≤ max 1 ndigits
  nonempty : reduced mode = 2 → a.digits ≠ []
  empty : a.digits = [] → a.decpt = -lastAsked mode ndigits |doubleValue u|
  kept : ¬ IsZero u → Suppressed a.digits ∨ KeepsZeros |doubleValue u| (Int.log 10 |doubleValue u|)
    (wanted (reduced mode) ndigits (Int.log 10 |doubleValue u|))

/-- INTERNAL: an answer consists of decimal digits. -/
theorem Answered.isDecimal {u : BitVec 64} {mode ndigits : ℤ} {a : Answer} (h : Answered u mode ndigits a) :
    ∀ c ∈ a.digits, isDecimal c = true := by
  by_cases hzero : IsZero u
  · rw [(h.zero hzero).1]
    intro c hc
    rw [List.mem_singleton.mp hc]
    rfl
  · exact (h.decimal hzero).digits

/-- INTERNAL: the value of an answer is that of its digits before the decimal point. -/
theorem answerValue_eq (ds : Bytes) (decpt : ℤ) : answerValue (ds, decpt) = valueAt ds (decpt - 1) := by
  rw [valueAt, answerValue, div_mul_eq_mul_div, div_eq_iff (by positivity), mul_assoc, ← zpow_natCast, ← zpow_add₀ (by norm_num)]
  congr 2
  simp only
  omega

/-- INTERNAL: what is converted is answered. -/
theorem answered_of_converted (u : BitVec 64) (mode ndigits t : ℤ) (r : Result) (hne : ¬ IsZero u) (ht : Int.log 10 |doubleValue u| = t)
    (h : Converted |doubleValue u| t (wanted (reduced mode) ndigits t) r)
    (hkept : Suppressed r.1 ∨ KeepsZeros |doubleValue u| t (wanted (reduced mode) ndigits t)) :
    Answered u mode ndigits ⟨r.1, r.2 + 1, isNegative u⟩ := by
  have hlast : wanted (reduced mode) ndigits t - 1 - t = lastAsked mode ndigits |doubleValue u| := by
    unfold wanted lastAsked
    rw [ht]
    split_ifs <;> ring
  have hwanted : reduced mode = 2 → wanted (reduced mode) ndigits t = max 1 ndigits := fun h2 => if_pos h2
  refine ⟨rfl, ?_, fun hzero => absurd hzero hne, fun _ => h.rounded.decimal, fun _ => ?_, fun h2 => ?_, fun h2 => ?_,
    fun hnil => ?_, fun _ => ?_⟩
  · have hvalue := h.rounded.value
    rw [hlast, show t + 1 - wanted (reduced mode) ndigits t = -lastAsked mode ndigits |doubleValue u| by omega] at hvalue
    rw [answerValue_eq, add_sub_cancel_right]
    exact hvalue
  · have hplaces := h.rounded.places
    simp only
    omega
  · have hshort := h.rounded.short
    have := hwanted h2
    simp only
    omega
  · refine h.nonempty ?_
    have := hwanted h2
    omega
  · have hempty := h.rounded.empty hnil
    simp only
    omega
  · rw [ht]
    exact hkept

/-- **What `dtoa` returns for a finite number** is its rounding, whatever powers of five have been kept, and these stay right;
if so many digits are asked for that there is no block for them, it never returns.
SOURCE: dietlibc-printf.patch:3030-3715 -/
theorem dtoa_spec (u : BitVec 64) (mode ndigits : ℤ) (hfin : IsFinite u) (hmode : mode = 2 ∨ mode = 3 ∨ mode = 6 ∨ mode = 7) :
    (∃ a, Answered u mode ndigits a ∧
      ∀ p5s, Cache p5s → ∃ p5s', dtoa p5s u mode ndigits = some (a, p5s') ∧ Cache p5s') ∨
    16 + 4 * 2 ^ Kmax ≤ ndigits + 310 ∧ ∀ p5s, dtoa p5s u mode ndigits = none := by
  have hdtoa : ∀ p5s, dtoa p5s u mode ndigits = if |doubleValue u| = 0 then some (⟨[0x30], 1, isNegative u⟩, p5s)
      else (convert p5s (clearSign u) mode ndigits).map fun r => (⟨r.1.1, r.1.2 + 1, isNegative u⟩, r.2) := by
    intro p5s
    unfold dtoa
    simp only [sign_spec, finite_spec, dval_clearSign]
    rw [if_neg (not_not_intro hfin)]
  by_cases hzero : IsZero u
  · have hvalue := (doubleValue_eq_zero_iff u).mpr hzero
    refine .inl ⟨⟨[0x30], 1, isNegative u⟩, ⟨rfl, ?_, fun _ => ⟨rfl, rfl⟩, fun h => absurd hzero h, fun h => absurd hzero h,
      fun _ => le_max_left _ _, fun _ => List.cons_ne_nil _ _, fun h => absurd h (List.cons_ne_nil _ _), fun h => absurd hzero h⟩, fun p5s hcache => ⟨p5s, ?_, hcache⟩⟩
    · rw [hvalue, roundedTo, zero_mul, show nearestEven (0 : ℚ) = 0 from nearestEven_intCast 0]
      simp [answerValue, digitsValue_singleton, show nibble 0x30 = 0 from rfl]
    · rw [hdtoa, if_pos hvalue]
  · have hvalue := (doubleValue_eq_zero_iff u).not.mpr hzero
    have hfinite : exponent (clearSign u) < 2047 := by
      have hlt := biased_lt u
      have hexp := (isFinite_iff u).mp hfin
      rw [exponent_clearSign]
      omega
    obtain ⟨k, t, hlow, hhigh, htk, hkt, hconvert⟩ := convert_spec (clearSign u) mode ndigits (word0_clearSign_lt u) hfinite
      ((mantissa_eq_zero_iff u).not.mpr hzero) hmode
    rw [dval_clearSign] at hlow hhigh hconvert
    have ht := log_eq hlow hhigh
    have hrange := (log_spec u hfin hzero).2
    simp only [if_neg hvalue] at hdtoa
    split_ifs at hconvert with hfits
    · obtain ⟨r, hconverted, hkept, hall⟩ := hconvert
      refine .inl ⟨_, answered_of_converted u mode ndigits t r hzero ht hconverted hkept, fun p5s hcache => ?_⟩
      obtain ⟨p5s', hr, hcache'⟩ := hall p5s hcache
      exact ⟨p5s', by rw [hdtoa, hr]; rfl, hcache'⟩
    · refine .inr ⟨?_, fun p5s => by rw [hdtoa, hconvert]; rfl⟩
      have hKmax : (2 : ℕ) ^ Kmax = 32768 ∧ (2 : ℤ) ^ Kmax = 32768 := ⟨rfl, rfl⟩
      unfold wanted at hfits
      rw [hKmax.1] at hfits
      rw [hKmax.2]
      split_ifs at hfits <;> omega

/-- INTERNAL: there is an answer unless too many digits are asked for. -/
theorem dtoa_returns (p5s : List Bigint) (u : BitVec 64) (mode ndigits : ℤ) (hcache : Cache p5s) (hfin : IsFinite u)
    (hmode : mode = 2 ∨ mode = 3 ∨ mode = 6 ∨ mode = 7) (hfew : ndigits + 310 < 16 + 4 * 2 ^ Kmax) :
    ∃ a p5s', dtoa p5s u mode ndigits = some (a, p5s') ∧ Answered u mode ndigits a := by
  rcases dtoa_spec u mode ndigits hfin hmode with ⟨a, ha, hall⟩ | ⟨hmany, -⟩
  · obtain ⟨p5s', hr, -⟩ := hall p5s hcache
    exact ⟨a, p5s', hr, ha⟩
  · exact absurd hmany (by omega)

/-- **`dtoa` rounds.** In modes 2, 3, 6 and 7 what it returns for a finite number is its sign and the number, rounded to the
nearest number with the digits that are asked for, and to the even one in the middle; and it does return unless more than a
hundred thousand digits are asked for.
SOURCE: dietlibc-printf.patch:3030-3715 -/
theorem dtoa_rounds (p5s : List Bigint) (u : BitVec 64) (mode ndigits : ℤ) (hcache : Cache p5s) (hfin : IsFinite u)
    (hmode : mode = 2 ∨ mode = 3 ∨ mode = 6 ∨ mode = 7) :
    (∀ a p5s', dtoa p5s u mode ndigits = some (a, p5s') → Answered u mode ndigits a ∧ Cache p5s') ∧
      (ndigits + 310 < 16 + 4 * 2 ^ Kmax → dtoa p5s u mode ndigits ≠ none) := by
  rcases dtoa_spec u mode ndigits hfin hmode with ⟨a, ha, hall⟩ | ⟨hmany, hnone⟩
  · obtain ⟨p5s', hr, hcache'⟩ := hall p5s hcache
    rw [hr]
    refine ⟨fun a' p' heq => ?_, fun _ => Option.some_ne_none _⟩
    obtain ⟨rfl, rfl⟩ := Prod.mk.inj (Option.some.inj heq)
    exact ⟨ha, hcache'⟩
  · exact ⟨fun a p' heq => absurd heq (by rw [hnone]; exact nofun), fun hfew => absurd hmany (by omega)⟩

/-- A half is rounded to the even number, here 2; the zero at the end of 10500 with two digits is kept. -/
example : (dtoa [] 0x3ff8000000000000#64 3 0).map (fun r => (r.1.digits, r.1.decpt)) = some ([0x32], 1) ∧
    (dtoa [] 0x40c4820000000000#64 2 2).map (fun r => (r.1.digits, r.1.decpt)) = some ([0x31, 0x30], 5) := by decide +kernel

/-- INTERNAL: rounding a number and its opposite. -/
theorem roundedTo_neg (x : ℚ) (q : ℤ) : roundedTo (-x) q = -roundedTo x q := by
  rw [roundedTo, roundedTo, neg_mul, nearestEven_neg, Int.cast_neg, neg_mul]

/-- INTERNAL: rounding to significant digits stays between the powers of ten. -/
theorem roundedTo_bounds {x : ℚ} {t m : ℤ} (hlow : 10 ^ t ≤ x) (hhigh : x < 10 ^ (t + 1)) (hm : 1 ≤ m) :
    10 ^ t ≤ roundedTo x (m - 1 - t) ∧ roundedTo x (m - 1 - t) ≤ 10 ^ (t + 1) := by
  obtain ⟨e, rfl⟩ := Int.le.dest hm
  have hpos : (0 : ℚ) < 10 ^ (1 + (e : ℤ) - 1 - t) := zpow_pos (by norm_num) _
  have hpos' : (0 : ℚ) < 10 ^ (-(1 + (e : ℤ) - 1 - t)) := zpow_pos (by norm_num) _
  have hscale : ∀ i : ℕ, (10 : ℚ) ^ (t + i) * 10 ^ (1 + (e : ℤ) - 1 - t) = ((10 ^ (e + i) : ℕ) : ℤ) := fun i => by
    rw [← zpow_add₀ (by norm_num), show t + i + (1 + (e : ℤ) - 1 - t) = ((e + i : ℕ) : ℤ) by push_cast; ring, zpow_natCast]
    push_cast
    rfl
  have hback : ∀ i : ℕ, (((10 ^ (e + i) : ℕ) : ℤ) : ℚ) * 10 ^ (-(1 + (e : ℤ) - 1 - t)) = 10 ^ (t + i) := fun i => by
    rw [← hscale, mul_assoc, ← zpow_add₀ (by norm_num), add_neg_cancel, zpow_zero, mul_one]
  have hzero : (10 : ℚ) ^ t * 10 ^ (1 + (e : ℤ) - 1 - t) = ((10 ^ e : ℕ) : ℤ) := by simpa using hscale 0
  have hone : (10 : ℚ) ^ (t + 1) * 10 ^ (1 + (e : ℤ) - 1 - t) = ((10 ^ (e + 1) : ℕ) : ℤ) := by exact_mod_cast hscale 1
  have hge := nearestEven_mono ((hzero.symm.le).trans (mul_le_mul_of_nonneg_right hlow hpos.le))
  have hle := nearestEven_mono ((mul_le_mul_of_nonneg_right hhigh.le hpos.le).trans hone.le)
  rw [nearestEven_intCast] at hge hle
  refine ⟨?_, ?_⟩
  · calc (10 : ℚ) ^ t = ((10 ^ e : ℕ) : ℤ) * 10 ^ (-(1 + (e : ℤ) - 1 - t)) := by simpa using (hback 0).symm
      _ ≤ _ := mul_le_mul_of_nonneg_right (by exact_mod_cast hge) hpos'.le
  · calc roundedTo x (1 + e - 1 - t) ≤ ((10 ^ (e + 1) : ℕ) : ℤ) * 10 ^ (-(1 + (e : ℤ) - 1 - t)) :=
          mul_le_mul_of_nonneg_right (by exact_mod_cast hle) hpos'.le
      _ = 10 ^ (t + 1) := by exact_mod_cast hback 1

/-- INTERNAL: the first significant digit stays where it is, or moves up by one place. -/
theorem Answered.place {u : BitVec 64} {mode ndigits : ℤ} {a : Answer} (h : Answered u mode ndigits a) (hmode : reduced mode = 2)
    (hfin : IsFinite u) (hne : ¬ IsZero u) :
    Int.log 10 |doubleValue u| + 1 ≤ a.decpt ∧ a.decpt ≤ Int.log 10 |doubleValue u| + 2 := by
  obtain ⟨hpos, -⟩ := log_spec u hfin hne
  have hlow : (10 : ℚ) ^ Int.log 10 |doubleValue u| ≤ |doubleValue u| := by
    exact_mod_cast Int.zpow_log_le_self (b := 10) (by omega) hpos
  have hhigh : |doubleValue u| < (10 : ℚ) ^ (Int.log 10 |doubleValue u| + 1) := by
    exact_mod_cast Int.lt_zpow_succ_log_self (b := 10) (by omega) |doubleValue u|
  have hvalue := h.value
  obtain ⟨hdlow, hdhigh⟩ := (h.decimal hne).valueAt_bounds (h.nonempty hmode) (a.decpt - 1)
  rw [← answerValue_eq, hvalue, lastAsked, if_pos hmode, sub_add_cancel] at hdhigh
  rw [← answerValue_eq, hvalue, lastAsked, if_pos hmode] at hdlow
  obtain ⟨hrlow, hrhigh⟩ := roundedTo_bounds hlow hhigh (le_max_left 1 ndigits)
  have h1 := (zpow_lt_zpow_iff_right₀ (by norm_num : (1 : ℚ) < 10)).mp (hrlow.trans_lt hdhigh)
  have h2 := (zpow_le_zpow_iff_right₀ (by norm_num : (1 : ℚ) < 10)).mp (hdlow.trans hrhigh)
  omega

/-! ## With and without doubles only -/

/-- INTERNAL: the zeros at the end do not matter. -/
theorem Answered.stripped {u : BitVec 64} {mode ndigits : ℤ} {a : Answer} (h : Answered u mode ndigits a) (hne : ¬ IsZero u)
    (hnil : a.digits ≠ []) : a.digits.rdropWhile (· = 0x30) ≠ [] ∧ Decimal (a.digits.rdropWhile (· = 0x30)) ∧
      Suppressed (a.digits.rdropWhile (· = 0x30)) ∧ valueAt (a.digits.rdropWhile (· = 0x30)) (a.decpt - 1) =
        roundedTo |doubleValue u| (lastAsked mode ndigits |doubleValue u|) := by
  obtain ⟨s', htrim, hnil', hdec, hlast, -, hvalue⟩ := trimzeros_spec (h.decimal hne) hnil
  unfold trimzeros at htrim
  split_ifs at htrim
  rw [Option.some.inj htrim]
  exact ⟨hnil', hdec, hlast, by rw [hvalue, ← answerValue_eq, h.value]⟩

/-- INTERNAL: an answer is determined, but for zeros at its end. -/
theorem Answered.same {u : BitVec 64} {mode mode' ndigits : ℤ} {a a' : Answer} (h : Answered u mode ndigits a)
    (h' : Answered u mode' ndigits a') (hmode : reduced mode = reduced mode') :
    a'.sign = a.sign ∧ a'.decpt = a.decpt ∧ a'.digits.rdropWhile (· = 0x30) = a.digits.rdropWhile (· = 0x30) := by
  have hlast : lastAsked mode' ndigits |doubleValue u| = lastAsked mode ndigits |doubleValue u| := by
    rw [lastAsked, lastAsked, hmode]
  refine ⟨h'.sign.trans h.sign.symm, ?_⟩
  by_cases hzero : IsZero u
  · obtain ⟨hdigits, hdecpt⟩ := h.zero hzero
    obtain ⟨hdigits', hdecpt'⟩ := h'.zero hzero
    exact ⟨hdecpt'.trans hdecpt.symm, by rw [hdigits', hdigits]⟩
  have hsum : ∀ {m : ℤ} {b : Answer}, Answered u m ndigits b → b.digits = [] →
      roundedTo |doubleValue u| (lastAsked m ndigits |doubleValue u|) = 0 := fun hb hnil => by
    rw [← hb.value, answerValue_eq, hnil, valueAt, digitsValue_nil, Nat.cast_zero, zero_mul]
  have hpos : ∀ {m : ℤ} {b : Answer}, Answered u m ndigits b → b.digits ≠ [] →
      0 < roundedTo |doubleValue u| (lastAsked m ndigits |doubleValue u|) := fun hb hnil => by
    rw [← hb.value, answerValue_eq]
    exact (zpow_pos (by norm_num) _).trans_le ((hb.decimal hzero).valueAt_bounds hnil _).1
  by_cases hnil : a.digits = []
  · have hnil' : a'.digits = [] := by
      by_contra hnil'
      have hlt := hpos h' hnil'
      rw [hlast, hsum h hnil] at hlt
      exact lt_irrefl _ hlt
    exact ⟨by rw [h.empty hnil, h'.empty hnil', hlast], by rw [hnil, hnil']⟩
  · have hnil' : a'.digits ≠ [] := fun hnil' => by
      have hlt := hpos h hnil
      rw [← hlast, hsum h' hnil'] at hlt
      exact lt_irrefl _ hlt
    obtain ⟨hs, hdec, hsup, hvalue⟩ := h.stripped hzero hnil
    obtain ⟨hs', hdec', hsup', hvalue'⟩ := h'.stripped hzero hnil'
    obtain ⟨hdigits, hplace⟩ := hdec'.eq_of_valueAt hdec hsup' hsup hs' hs (by rw [hvalue', hvalue, hlast])
    exact ⟨by omega, hdigits⟩

/-- INTERNAL: no zeros are kept by an integer all of whose digits are asked for. -/
theorem not_keepsZeros_of_lt {x : ℚ} {t m : ℤ} (h : t < m) : ¬ KeepsZeros x t m := by
  rintro ⟨⟨n, hn⟩, -, -, hdown, -⟩
  obtain ⟨e, he⟩ := Int.eq_ofNat_of_zero_le (show 0 ≤ m - 1 - t by omega)
  have hinteger : x * 10 ^ (m - 1 - t) = ((n * 10 ^ e : ℕ) : ℤ) := by
    rw [he, zpow_natCast, hn]
    push_cast
    rfl
  rw [hinteger, nearestEven_intCast] at hdown
  exact lt_irrefl _ hdown

/-- INTERNAL: no zeros are kept behind the point, nor by other numbers than small integers. -/
theorem not_keepsZeros (mode ndigits : ℤ) (x : ℚ)
    (h : reduced mode = 3 ∧ 0 ≤ ndigits ∨ ¬ ∃ n : ℕ, n < 10 ^ 15 ∧ x = n) :
    ¬ KeepsZeros x (Int.log 10 x) (wanted (reduced mode) ndigits (Int.log 10 x)) := by
  rcases h with ⟨h3, hpos⟩ | hsmall
  · apply not_keepsZeros_of_lt
    rw [wanted, if_neg (by omega)]
    omega
  · rintro ⟨⟨n, hn⟩, hplace, -, -⟩
    refine hsmall ⟨n, ?_, hn⟩
    have hlt := Int.lt_zpow_succ_log_self (b := 10) (by omega) x
    have hle : ((10 : ℕ) : ℚ) ^ (Int.log 10 x + 1) ≤ ((10 : ℕ) : ℚ) ^ (15 : ℤ) := zpow_le_zpow_right₀ (by norm_num) (by omega)
    have hfin := hlt.trans_le hle
    rw [hn, show (15 : ℤ) = ((15 : ℕ) : ℤ) from rfl, zpow_natCast] at hfin
    exact_mod_cast hfin

/-- INTERNAL: no zeros at the end of what is answered. -/
theorem Answered.suppressed {u : BitVec 64} {mode ndigits : ℤ} {a : Answer} (h : Answered u mode ndigits a) (hne : ¬ IsZero u)
    (hkeeps : reduced mode = 3 ∧ 0 ≤ ndigits ∨ ¬ ∃ n : ℕ, n < 10 ^ 15 ∧ |doubleValue u| = n) :
    a.digits.rdropWhile (· = 0x30) = a.digits := by
  rw [List.rdropWhile_eq_self_iff]
  intro hnil hlast
  apply (h.kept hne).resolve_right (not_keepsZeros mode ndigits _ hkeeps)
  rw [List.getLast?_eq_some_getLast hnil, of_decide_eq_true hlast]

/-- **The attempt with doubles only changes nothing.** Modes 6 and 7, which leave it out, return what modes 2 and 3 return,
apart from zeros at the end of small integers.
SOURCE: dietlibc-printf.patch:3219-3229, 3281-3387 -/
theorem attempt_agrees (p5s p5s' : List Bigint) (u : BitVec 64) (mode ndigits : ℤ) (hcache : Cache p5s) (hcache' : Cache p5s')
    (hfin : IsFinite u) (hmode : mode = 2 ∨ mode = 3) (r r' : Answer × List Bigint) (hr : dtoa p5s u mode ndigits = some r)
    (hr' : dtoa p5s' u (mode + 4) ndigits = some r') :
    r'.1.sign = r.1.sign ∧ r'.1.decpt = r.1.decpt ∧
      r'.1.digits.rdropWhile (· = 0x30) = r.1.digits.rdropWhile (· = 0x30) ∧
      (mode = 3 ∧ 0 ≤ ndigits ∨ (¬ ∃ n : ℕ, n < 10 ^ 15 ∧ |doubleValue u| = n) → r'.1 = r.1) := by
  have hsame : reduced mode = reduced (mode + 4) := by
    unfold reduced
    split_ifs <;> omega
  have hreduced : reduced mode = mode := by
    unfold reduced
    split_ifs <;> omega
  have hanswer : ∀ (p : List Bigint) (m : ℤ) (b : Answer × List Bigint), Cache p → (m = 2 ∨ m = 3 ∨ m = 6 ∨ m = 7) →
      dtoa p u m ndigits = some b → Answered u m ndigits b.1 := by
    intro p m b hp hm hb
    rcases dtoa_spec u m ndigits hfin hm with ⟨a, ha, hall⟩ | ⟨-, hnone⟩
    · obtain ⟨p', hp', -⟩ := hall p hp
      rw [hp'] at hb
      rw [← Option.some.inj hb]
      exact ha
    · rw [hnone] at hb
      cases hb
  have h := hanswer p5s mode r hcache (by omega) hr
  have h' := hanswer p5s' (mode + 4) r' hcache' (by omega) hr'
  obtain ⟨hsign, hdecpt, hdigits⟩ := h.same h' hsame
  refine ⟨hsign, hdecpt, hdigits, fun hkeeps => ?_⟩
  have hall : r'.1.digits = r.1.digits := by
    by_cases hzero : IsZero u
    · rw [(h.zero hzero).1, (h'.zero hzero).1]
    · rw [h.suppressed hzero (by rw [hreduced]; exact hkeeps), h'.suppressed hzero (by rw [← hsame, hreduced]; exact hkeeps)]
        at hdigits
      exact hdigits
  obtain ⟨⟨ds, decpt, sign⟩, p⟩ := r
  obtain ⟨⟨ds', decpt', sign'⟩, p'⟩ := r'
  simp only at hsign hdecpt hall
  rw [hsign, hdecpt, hall]

/-! ## Calls after one another -/

/-- The arguments of a call. -/
structure Call where
  d : BitVec 64
  mode : ℤ
  ndigits : ℤ

/-- Calls after one another: the powers of five that one has kept are those that the next one finds.
SOURCE: dietlibc-printf.patch:1267-1321 -/
def run (p5s : List Bigint) : List Call → Option (List Answer × List Bigint)
  | [] => some ([], p5s)
  | c :: cs => do
    let (a, p5s) ← dtoa p5s c.d c.mode c.ndigits
    let (answers, p5s) ← run p5s cs
    some (a :: answers, p5s)

/-- INTERNAL: what a call returns does not depend on the calls before it. -/
theorem dtoa_history (u : BitVec 64) (mode ndigits : ℤ) (hmode : mode = 2 ∨ mode = 3 ∨ mode = 6 ∨ mode = 7) :
    (∃ a, ∀ p5s, Cache p5s → ∃ p5s', dtoa p5s u mode ndigits = some (a, p5s') ∧ Cache p5s') ∨
      ∀ p5s, dtoa p5s u mode ndigits = none := by
  by_cases hfin : IsFinite u
  · rcases dtoa_spec u mode ndigits hfin hmode with ⟨a, -, hall⟩ | ⟨-, hnone⟩
    · exact .inl ⟨a, hall⟩
    · exact .inr hnone
  · unfold dtoa
    simp only [if_pos ((finite_spec u).mpr hfin)]
    exact .inl ⟨_, fun p5s hcache => ⟨p5s, rfl, hcache⟩⟩

/-- **No call leaves a trace in the answers after it.** Calls in any number and any order return what each of them returns
alone, and the powers of five that they leave are right.
SOURCE: dietlibc-printf.patch:1267-1321, 3030-3715 -/
theorem run_alone (p5s : List Bigint) (cs : List Call) (hcache : Cache p5s)
    (hmode : ∀ c ∈ cs, c.mode = 2 ∨ c.mode = 3 ∨ c.mode = 6 ∨ c.mode = 7) :
    (run p5s cs).map Prod.fst = cs.mapM (fun c => (dtoa [] c.d c.mode c.ndigits).map Prod.fst) ∧
      ∀ r, run p5s cs = some r → Cache r.2 := by
  induction cs generalizing p5s with
  | nil =>
    refine ⟨rfl, fun r hr => ?_⟩
    rw [← Option.some.inj hr]
    exact hcache
  | cons c cs ih =>
    rw [List.mapM_cons, run]
    rcases dtoa_history c.d c.mode c.ndigits (hmode c List.mem_cons_self) with ⟨a, hall⟩ | hnone
    · obtain ⟨p₀, hp₀, -⟩ := hall [] cache_nil
      obtain ⟨p₁, hp₁, hcache₁⟩ := hall p5s hcache
      obtain ⟨hanswers, hkept⟩ := ih p₁ hcache₁ fun c' hc' => hmode c' (List.mem_cons_of_mem c hc')
      rw [hp₀, hp₁]
      simp only [Option.map_some, Option.bind_eq_bind, Option.bind_some, ← hanswers]
      cases hrun : run p₁ cs with
      | none => exact ⟨rfl, nofun⟩
      | some r =>
        refine ⟨rfl, fun r' hr' => ?_⟩
        rw [← Option.some.inj hr']
        exact hkept r hrun
    · rw [hnone, hnone]
      exact ⟨rfl, nofun⟩

end TTLinux.Analysis.DtoaAnswer
