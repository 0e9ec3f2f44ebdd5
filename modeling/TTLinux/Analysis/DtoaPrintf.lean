import TTLinux.Analysis.DtoaAnswer
import TTLinux.Analysis.PrintfGeneral

/-!
# Printing with `dtoa`

`dtoa` keeps the contracts that the conversions of `__dtostr` rely on, for as many digits as there are blocks for: zeros
are left at the end of some small integers only. So the text of `%f` and of `%e` is a numeral for the double, rounded to
the digits that the precision asks for, and the text of `%g` is the prescribed one but for these zeros, after any calls of
`dtoa` before.
-/

set_option autoImplicit false

namespace TTLinux.Analysis.DtoaPrintf

open TTLinux.Lib
open TTLinux.Lib.FloatFormat
open TTLinux.Model.Printf
open TTLinux.Model.DtoaBigint (Bigint Kmax)
open TTLinux.Analysis.DtoaBigint (Cache cache_nil)
open TTLinux.Analysis.DtoaModes (reduced KeepsZeros)
open TTLinux.Analysis.DtoaAnswer
open TTLinux.Analysis.PrintfLayout
open TTLinux.Analysis.PrintfRetry
open TTLinux.Analysis.PrintfHex (isNegative)
open TTLinux.Analysis.PrintfHexValue (doubleValue)
open TTLinux.Analysis.PrintfDecimal
open TTLinux.Analysis.PrintfGeneral

/-- What `__dtostr` gets from `dtoa` when calls before it have kept these powers of five; nothing if `dtoa` does not return. -/
def dtoaAfter (p5s : List Bigint) : Dtoa := fun u mode ndigits =>
  match Model.Dtoa.dtoa p5s u mode ndigits with
  | some (a, _) => (a.digits, a.decpt)
  | none => ([], 0)

/-- As many digits as there is a block for in any case: a double has up to 309 digits before its point.
SOURCE: dietlibc-printf.patch:2941-2967 -/
def mostDigits : ℤ := 16 + 4 * 2 ^ Kmax - 311

/-- `dtoa` as far as it has blocks: no more than `mostDigits` are asked for. -/
def dtoaWithin (p5s : List Bigint) : Dtoa := fun u mode ndigits => dtoaAfter p5s u mode (min ndigits mostDigits)

/-- INTERNAL: up to its limit the bounded function is `dtoa` -/
theorem dtoaWithin_of_le (p5s : List Bigint) (u : BitVec 64) (mode : ℕ) (ndigits : ℤ) (h : ndigits ≤ mostDigits) :
    dtoaWithin p5s u mode ndigits = dtoaAfter p5s u mode ndigits := by
  rw [dtoaWithin, min_eq_left h]

/-! ## The contracts -/

section Contracts

variable (p5s : List Bigint) (u : BitVec 64) (mode : ℕ) (n : ℤ)

/-- INTERNAL: what `__dtostr` gets. -/
theorem dtoaWithin_spec (hcache : Cache p5s) (hfin : IsFinite u) (hmode : mode = 2 ∨ mode = 3) :
    ∃ a, dtoaWithin p5s u mode n = (a.digits, a.decpt) ∧ Answered u mode (min n mostDigits) a := by
  have hfew : min n mostDigits + 310 < 16 + 4 * 2 ^ Kmax := by
    have hle := min_le_right n mostDigits
    unfold mostDigits at hle ⊢
    omega
  obtain ⟨a, p5s', hr, ha⟩ := dtoa_returns p5s u mode (min n mostDigits) hcache hfin (by omega) hfew
  exact ⟨a, by rw [dtoaWithin, dtoaAfter, hr], ha⟩

/-- INTERNAL: where the point of a double is. -/
theorem decpt_range {a : Model.Dtoa.Answer} (ha : Answered u 2 n a) (hfin : IsFinite u) :
    -400 ≤ a.decpt ∧ a.decpt ≤ 400 := by
  by_cases hzero : IsZero u
  · rw [(ha.zero hzero).2]
    omega
  · have hplace := ha.place rfl hfin hzero
    have hlog := (log_spec u hfin hzero).2
    omega

/-- INTERNAL: digits through the last place. -/
theorem fixed_length {a : Model.Dtoa.Answer} (ha : Answered u 3 n a) (hn : 0 ≤ n) : (a.digits.length : ℤ) ≤ a.decpt + n := by
  by_cases hzero : IsZero u
  · rw [(ha.zero hzero).1, (ha.zero hzero).2, List.length_singleton]
    omega
  · exact ha.places hzero

end Contracts

/-- **`dtoa` returns what the branch relies on**: its digits and places, whatever powers of five have been kept.
SOURCE: dietlibc-printf.patch:3030-3715 -/
theorem dtoaWithin_dtoaSpec (p5s : List Bigint) (hcache : Cache p5s) : DtoaSpec (dtoaWithin p5s) where
  digits := by
    intro u n hfin
    obtain ⟨a, hr, ha⟩ := dtoaWithin_spec p5s u 2 n hcache hfin (.inl rfl)
    rw [hr]
    exact fun c hc => isDigit_of_isDecimal c (ha.isDecimal c hc)
  nonempty := by
    intro u n hfin
    obtain ⟨a, hr, ha⟩ := dtoaWithin_spec p5s u 2 n hcache hfin (.inl rfl)
    rw [hr]
    exact ha.nonempty rfl
  length := by
    intro u n hfin
    obtain ⟨a, hr, ha⟩ := dtoaWithin_spec p5s u 2 n hcache hfin (.inl rfl)
    rw [hr]
    exact (ha.few rfl).trans (max_le_max_left 1 (min_le_left n mostDigits))
  range := by
    intro u n hfin
    obtain ⟨a, hr, ha⟩ := dtoaWithin_spec p5s u 2 n hcache hfin (.inl rfl)
    rw [hr]
    exact decpt_range u _ ha hfin
  places := by
    intro u n hfin hn
    obtain ⟨a, hr, ha⟩ := dtoaWithin_spec p5s u 3 n hcache hfin (.inr rfl)
    have hlength := fixed_length u _ ha (le_min hn (by decide))
    have hle := min_le_left n mostDigits
    rw [hr]
    dsimp only
    omega

/-- **`dtoa` keeps the contract of a second call**: with more than 15 digits no small integer is cut.
SOURCE: dietlibc-printf.patch:3030-3715 -/
theorem dtoaWithin_retry (p5s : List Bigint) (hcache : Cache p5s) : RetryContract (dtoaWithin p5s) where
  toDtoaSpec := dtoaWithin_dtoaSpec p5s hcache
  suppressed := by
    intro u n hfin hn
    obtain ⟨a, hr, ha⟩ := dtoaWithin_spec p5s u 2 n hcache hfin (.inl rfl)
    rw [hr]
    by_cases hzero : IsZero u
    · exact .inl (ha.zero hzero).1
    · have hmany : 15 < min n mostDigits := lt_min hn (by decide)
      right
      refine (ha.kept hzero).resolve_right fun hkeeps => ?_
      -- the digits of an integer that keeps zeros are at most 15
      have hplace := hkeeps.2.1
      exact not_keepsZeros_of_lt (lt_of_lt_of_le (by omega) (le_max_right 1 (min n mostDigits))) hkeeps

/-- **`dtoa` keeps the contract of the decimal conversions.**
SOURCE: dietlibc-printf.patch:3030-3715 -/
theorem dtoaWithin_contract (p5s : List Bigint) (hcache : Cache p5s) : DtoaContract (dtoaWithin p5s) where
  toDtoaSpec := dtoaWithin_dtoaSpec p5s hcache
  fixedDigits := by
    intro u n hfin _
    obtain ⟨a, hr, ha⟩ := dtoaWithin_spec p5s u 3 n hcache hfin (.inr rfl)
    rw [hr]
    exact fun c hc => isDigit_of_isDecimal c (ha.isDecimal c hc)
  fixedLength := by
    intro u n hfin hn
    obtain ⟨a, hr, ha⟩ := dtoaWithin_spec p5s u 3 n hcache hfin (.inr rfl)
    have hlength := fixed_length u _ ha (le_min hn (by decide))
    have hle := min_le_left n mostDigits
    rw [hr]
    dsimp only
    omega
  leading := by
    intro u n hfin hzero
    obtain ⟨a, hr, ha⟩ := dtoaWithin_spec p5s u 2 n hcache hfin (.inl rfl)
    rw [hr]
    exact (ha.decimal hzero).head

/-- INTERNAL: no digits are as good as one. -/
theorem dtoa_zero_one (p5s : List Bigint) (u : BitVec 64) : Model.Dtoa.dtoa p5s u 2 0 = Model.Dtoa.dtoa p5s u 2 1 := rfl

/-- **`dtoa` keeps the contract of `%g`.**
SOURCE: dietlibc-printf.patch:3030-3715 -/
theorem dtoaWithin_general (p5s : List Bigint) (hcache : Cache p5s) : GeneralContract (dtoaWithin p5s) where
  toDtoaContract := dtoaWithin_contract p5s hcache
  zero := by
    intro u n hzero
    have hfin : IsFinite u := (isFinite_iff u).mpr (by rw [hzero.1]; decide)
    obtain ⟨a, hr, ha⟩ := dtoaWithin_spec p5s u 2 n hcache hfin (.inl rfl)
    rw [hr, (ha.zero hzero).1, (ha.zero hzero).2]
    rfl
  atLeastOne := by
    intro u _
    rw [dtoaWithin_of_le p5s u 2 0 (by decide), dtoaWithin_of_le p5s u 2 1 (by decide)]
    unfold dtoaAfter
    rw [Nat.cast_ofNat, dtoa_zero_one]

/-! ## The digits that a conversion asks for -/

/-- INTERNAL: a call of `__dtostr` asks for one answer of `dtoa`.
SOURCE: dietlibc-printf.patch:3873, 3988-4003 -/
theorem dtostr_congr (dtoa dtoa' : Dtoa) (u : BitVec 64) (buf : Bytes) (info : Info)
    (h : dtoa u (selectMode info.spec (precision info)).1 (selectMode info.spec (precision info)).2.1 =
      dtoa' u (selectMode info.spec (precision info)).1 (selectMode info.spec (precision info)).2.1) :
    dtostr dtoa u buf info = dtostr dtoa' u buf info := by
  unfold dtostr formatDecimal
  unfold precision at h
  simp only [h]

/-- INTERNAL: so does its text. -/
theorem prints_within (p5s : List Bigint) (u : BitVec 64) (info : Info) (t : Bytes)
    (h : (selectMode info.spec (precision info)).2.1 ≤ mostDigits) :
    Prints (dtoaWithin p5s) u info t ↔ Prints (dtoaAfter p5s) u info t := by
  unfold Prints
  simp only [dtostr_congr _ _ u _ info (dtoaWithin_of_le p5s u _ _ h)]

/-! ## The number that is printed -/

/-- INTERNAL: rounding the magnitude and putting the sign back is rounding the value. -/
theorem doubleValue_sign (u : BitVec 64) (q : ℤ) :
    (if isNegative u then -1 else 1) * roundedTo |doubleValue u| q = roundedTo (doubleValue u) q := by
  have hsign : doubleValue u = (if isNegative u then -1 else 1) * |doubleValue u| := by
    unfold doubleValue
    rw [abs_mul]
    have habs : ∀ x : ℚ, 0 ≤ x → (if isNegative u then -1 else 1) * x = (if isNegative u then -1 else 1) *
        (|(if isNegative u then -1 else 1 : ℚ)| * |x|) := fun x hx => by
      rw [abs_of_nonneg hx]
      split_ifs <;> simp
    exact habs _ (by split_ifs <;> positivity)
  conv_rhs => rw [hsign]
  split_ifs
  · rw [neg_one_mul, neg_one_mul, roundedTo_neg]
  · rw [one_mul, one_mul]

/-- **`%f` prints the double, rounded to the places of the precision**, to the nearest number and to the even one in the
middle: this is what is read from the text, whatever conversions there were before.
SOURCE: dietlibc-printf.patch:3030-3715, 3988-4080 -/
theorem fixed_rounds (p5s : List Bigint) (u : BitVec 64) (info : Info) (hcache : Cache p5s) (hfin : IsFinite u)
    (hspec : info.spec = .f ∨ info.spec = .F) (hfew : precision info ≤ mostDigits) :
    ∃ t n, Prints (dtoaAfter p5s) u info t ∧ (decimalStyle info.spec.upcase).read t = some n ∧
      (decimalStyle info.spec.upcase).value n = roundedTo (doubleValue u) (precision info) ∧ n.negative = isNegative u ∧
      n.whole ≠ [] ∧ n.fraction.length = precision info ∧ (n.point = true ↔ precision info ≠ 0 ∨ info.alt = true) ∧
      n.exponent = none := by
  obtain ⟨t, n, hprints, hread, hrep, hexponent⟩ := fixed_text _ (dtoaWithin_contract p5s hcache) u info hfin hspec
  obtain ⟨a, hr, ha⟩ := dtoaWithin_spec p5s u 3 (precision info) hcache hfin (.inr rfl)
  rw [prints_within p5s u info t (by rcases hspec with h | h <;> rw [h] <;> exact hfew)] at hprints
  refine ⟨t, n, hprints, hread, ?_, hrep.negative, hrep.whole, hrep.places, hrep.point, hexponent⟩
  rw [min_eq_left hfew] at ha
  have hlast : lastAsked 3 (precision info) |doubleValue u| = precision info := rfl
  rw [hrep.value, hr, ha.value]
  exact doubleValue_sign u _

/-- **`%e` prints the double, rounded to one digit more than the precision**: one digit before the point, which is zero for
zero only, and an exponent of two digits or more.
SOURCE: dietlibc-printf.patch:3030-3715, 3996-4080 -/
theorem scientific_rounds (p5s : List Bigint) (u : BitVec 64) (info : Info) (hcache : Cache p5s) (hfin : IsFinite u)
    (hspec : info.spec = .e ∨ info.spec = .E) (hfew : precision info + 1 ≤ mostDigits) :
    ∃ t n, Prints (dtoaAfter p5s) u info t ∧ (decimalStyle info.spec.upcase).read t = some n ∧
      (decimalStyle info.spec.upcase).value n = roundedTo (doubleValue u) (precision info - Int.log 10 |doubleValue u|) ∧
      n.negative = isNegative u ∧ n.whole.length = 1 ∧ (¬ IsZero u → n.whole ≠ [chr '0']) ∧
      n.fraction.length = precision info ∧ (n.point = true ↔ precision info ≠ 0 ∨ info.alt = true) ∧
      ∃ negative digits, n.exponent = some (negative, digits) ∧ 2 ≤ digits.length := by
  obtain ⟨t, n, hprints, hread, hrep, hwhole, hzero, hexponent⟩ :=
    scientific_text _ (dtoaWithin_contract p5s hcache) u info hfin hspec
  obtain ⟨a, hr, ha⟩ := dtoaWithin_spec p5s u 2 (precision info + 1) hcache hfin (.inl rfl)
  rw [prints_within p5s u info t (by rcases hspec with h | h <;> rw [h] <;> exact hfew)] at hprints
  refine ⟨t, n, hprints, hread, ?_, hrep.negative, hwhole, hzero, hrep.places, hrep.point, hexponent⟩
  rw [min_eq_left hfew] at ha
  have hlast : lastAsked 2 (precision info + 1) |doubleValue u| = precision info - Int.log 10 |doubleValue u| := by
    unfold lastAsked
    rw [if_pos (show reduced 2 = 2 from rfl)]
    omega
  have hvalue := ha.value
  rw [Nat.cast_ofNat, hlast] at hvalue
  rw [hrep.value, hr, hvalue]
  exact doubleValue_sign u _

/-- **`%g` prints what C99 prescribes for the double**: the significant digits are those of the rounded number, and the text
is the prescribed one exactly under this condition on the flag `#`, the precision and the place of the first digit, and if
no zero is left behind the point. A zero is left for an integer below `10^15` only, if rounding it down leaves a zero at its
end.
SOURCE: dietlibc-printf.patch:3030-3715, 3992-4080 -/
theorem general_rounds (p5s : List Bigint) (u : BitVec 64) (info : Info) (hcache : Cache p5s) (hfin : IsFinite u)
    (hspec : info.spec = .g ∨ info.spec = .G) (hfew : precision info ≤ mostDigits) :
    ∃ ds decpt, Returned (max (precision info) 1) ds decpt ∧ (¬ IsZero u → ds.head? ≠ some (chr '0')) ∧
      answerValue (ds, decpt) =
        roundedTo |doubleValue u| (max 1 (precision info : ℤ) - 1 - Int.log 10 |doubleValue u|) ∧
      (Prints (dtoaAfter p5s) u info
          ((decimalStyle info.spec.upcase).text (prescribed u info.alt (max (precision info) 1) ds decpt)) ↔
        AsPrescribed info.alt (precision info) decpt ∧ (info.alt = true ∨ ¬ ZeroLeft (precision info) ds decpt)) ∧
      (ZeroLeft (precision info) ds decpt →
        KeepsZeros |doubleValue u| (Int.log 10 |doubleValue u|) (max 1 (precision info : ℤ))) := by
  have hcontract := dtoaWithin_general p5s hcache
  have hreturned := returned_of_contract _ hcontract u (precision info) hfin
  obtain ⟨a, hr, ha⟩ := dtoaWithin_spec p5s u 2 (precision info) hcache hfin (.inl rfl)
  rw [min_eq_left hfew] at ha
  rw [hr] at hreturned
  refine ⟨a.digits, a.decpt, hreturned, fun hzero => (ha.decimal hzero).head, ha.value, ?_, ?_⟩
  · rw [← prints_within p5s u info _ (by rcases hspec with h | h <;> rw [h] <;> exact hfew)]
    exact prints_prescribed_iff _ hcontract.toDtoaSpec u info hfin hspec a.digits a.decpt hr hreturned
  · intro hleft
    by_cases hzero : IsZero u
    · rw [(ha.zero hzero).1, (ha.zero hzero).2] at hleft
      unfold ZeroLeft at hleft
      rw [List.drop_eq_nil_of_le (by rw [List.length_singleton]; split_ifs <;> decide)] at hleft
      cases hleft
    · exact (ha.kept hzero).resolve_left fun hsuppressed => not_zeroLeft _ _ _ hsuppressed hleft

/-- `%.2g` of 105 leaves a zero: the answer is `10`, as it is printed. -/
example : (dtoaAfter [] 0x405a400000000000#64 2 2) = ([0x31, 0x30], 3) ∧ ZeroLeft 2 [0x31, 0x30] 3 := by decide +kernel

end TTLinux.Analysis.DtoaPrintf
