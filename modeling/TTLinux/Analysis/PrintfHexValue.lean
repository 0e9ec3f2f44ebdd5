import Mathlib.Algebra.Order.Field.Basic
import Mathlib.Algebra.Order.Field.Power
import Mathlib.Tactic.FieldSimp
import Mathlib.Tactic.Linarith
import TTLinux.Analysis.PrintfHex

/-!
# The numbers that `%a` prints

The text of `%a` is read again as a numeral. Without a precision it stands for the double itself. With one it stands for
a nearest number with that many digits, unless the fraction begins with more zeros than the precision has places: then
the digit that decides about rounding is not the one behind the last printed digit, but the first that is not zero.
-/

set_option autoImplicit false

namespace TTLinux.Analysis.PrintfHexValue

open TTLinux.Lib
open TTLinux.Model.Printf
open TTLinux.Analysis.PrintfLayout
open TTLinux.Analysis.PrintfHex

/-! ## Numerals -/

/-- The style of `%a` and `%A`: hexadecimal digits behind `0x`, and a power of two behind `p`. -/
def hexStyle (upcase : Bool) : NumberStyle where
  lead := [chr '0', cased upcase 'x']
  digit := fun c => decide (IsHex c)
  base := 16
  mark := cased upcase 'p'
  scale := 2
  minus_lead := by cases upcase <;> decide
  minus_digit := by decide
  minus_mark := by cases upcase <;> decide
  point_digit := by decide
  point_mark := by cases upcase <;> decide
  mark_digit := by cases upcase <;> decide

/-- **The number that a double is.** -/
def doubleValue (u : BitVec 64) : ℚ :=
  (if isNegative u then -1 else 1) *
    if biased u = 0 then (mantissa u : ℚ) / 2 ^ 52 * 2 ^ (-1022 : ℤ)
    else (1 + (mantissa u : ℚ) / 2 ^ 52) * 2 ^ ((biased u : ℤ) - 1023)

/-- The numeral that is printed. -/
def hexNumeral (u : BitVec 64) (upcase : Bool) (prec : Option ℕ) : Numeral :=
  ⟨isNegative u, [leadDigit (isNormal u) (hexRow upcase (mantissa u) prec).1],
    !(hexRow upcase (mantissa u) prec).2.isEmpty, (hexRow upcase (mantissa u) prec).2,
    some (decide (hexScale u < 0), hexExponent (hexScale u).natAbs)⟩

/-! ## Exponents -/

/-- INTERNAL: the last digits of a number, by their places. -/
theorem places_spec (e : ℕ) (l : List ℕ) :
    (l.map fun i => digitChar (e / i % 10)).map nibble = l.map (fun i => e / i % 10) ∧
      ∀ c ∈ l.map fun i => digitChar (e / i % 10), isDecimal c = true := by
  have hdigit : ∀ n, nibble (digitChar (n % 10)) = n % 10 ∧ isDecimal (digitChar (n % 10)) = true :=
    fun n => digitChar_spec (n % 10) (Nat.mod_lt _ (by omega))
  refine ⟨?_, ?_⟩
  · rw [List.map_map]
    exact List.map_congr_left fun i _ => (hdigit (e / i)).1
  · intro c hc
    obtain ⟨i, -, rfl⟩ := List.mem_map.mp hc
    exact (hdigit (e / i)).2

/-- INTERNAL: the places that are printed.
SOURCE: dietlibc-printf.patch:3973-3974 -/
theorem places_of (e : ℕ) (h0 : 0 < e) (he : e < 10000) :
    ∃ l, ([1000, 100, 10, 1].dropWhile fun i => e < i) = l ∧
      (l = [1] ∧ e < 10 ∨ l = [10, 1] ∧ e < 100 ∨ l = [100, 10, 1] ∧ e < 1000 ∨ l = [1000, 100, 10, 1]) := by
  refine ⟨_, rfl, ?_⟩
  rcases (by omega : e < 10 ∨ (10 ≤ e ∧ e < 100) ∨ (100 ≤ e ∧ e < 1000) ∨ 1000 ≤ e) with h | ⟨h, h'⟩ | ⟨h, h'⟩ | h
  · left
    refine ⟨?_, h⟩
    simp [List.dropWhile, show e < 1000 by omega, show e < 100 by omega, h, show e ≠ 0 by omega]
  · right; left
    refine ⟨?_, h'⟩
    simp [List.dropWhile, show e < 1000 by omega, h', show ¬ e < 10 by omega]
  · right; right; left
    refine ⟨?_, h'⟩
    simp [List.dropWhile, h', show ¬ e < 100 by omega]
  · right; right; right
    simp [List.dropWhile, show ¬ e < 1000 by omega]

/-- INTERNAL: **the digits of an exponent.**
SOURCE: dietlibc-printf.patch:3971-3981 -/
theorem hexExponent_spec (e : ℕ) (he : e < 10000) :
    digitsValue 10 (hexExponent e) = e ∧ hexExponent e ≠ [] ∧ ∀ c ∈ hexExponent e, isDecimal c = true := by
  unfold hexExponent
  by_cases hzero : e = 0
  · rw [if_pos hzero, hzero]
    refine ⟨rfl, List.cons_ne_nil _ _, ?_⟩
    intro c hc
    rw [List.mem_singleton.mp hc]
    rfl
  · rw [if_neg hzero]
    obtain ⟨l, hl, hplaces⟩ := places_of e (by omega) he
    obtain ⟨hvalues, hdecimal⟩ := places_spec e l
    rw [hl]
    rcases hplaces with ⟨rfl, h⟩ | ⟨rfl, h⟩ | ⟨rfl, h⟩ | rfl
    all_goals
      refine ⟨?_, by simp, hdecimal⟩
      simp only [List.map_cons, List.map_nil, List.cons.injEq, and_true] at hvalues
      simp only [List.map_cons, List.map_nil, digitsValue, List.length_cons, List.length_nil, hvalues]
      omega

/-- INTERNAL: the biased exponent has eleven bits. -/
theorem biased_lt (u : BitVec 64) : biased u < 2048 := by
  unfold biased
  have hle : (u &&& EXPOMASK).toNat ≤ EXPOMASK.toNat := by
    rw [BitVec.toNat_and]
    exact Nat.and_le_right
  have hmask : EXPOMASK.toNat < 2048 * 2 ^ 52 := by decide
  rw [BitVec.toNat_ushiftRight, Nat.shiftRight_eq_div_pow]
  omega

/-- INTERNAL: the exponent has at most four digits. -/
theorem hexScale_natAbs_lt (u : BitVec 64) : (hexScale u).natAbs < 10000 := by
  have hlt := biased_lt u
  unfold hexScale
  split_ifs <;> omega

/-! ## The text is a numeral -/

/-- INTERNAL: the digit in front of the point. -/
theorem leadDigit_spec (normal carry : Bool) :
    nibble (leadDigit normal carry) = normal.toNat + carry.toNat ∧ IsHex (leadDigit normal carry) := by
  cases normal <;> cases carry <;> decide

/-- INTERNAL: a hexadecimal text is well formed. -/
theorem hexNumeral_wellFormed (u : BitVec 64) (upcase : Bool) (prec : Option ℕ) :
    (hexStyle upcase).WellFormed (hexNumeral u upcase prec) where
  whole := by
    intro c hc
    rw [List.mem_singleton.mp hc]
    exact decide_eq_true (leadDigit_spec _ _).2
  fraction := fun c hc => decide_eq_true (hexRow_hex upcase (mantissa u) prec c hc)
  point := by
    intro hpoint
    simpa [hexNumeral] using hpoint
  exponent := by
    intro negative ds h
    cases h
    exact (hexExponent_spec _ (hexScale_natAbs_lt u)).2

/-- INTERNAL: the text of a conversion is its numeral.
SOURCE: dietlibc-printf.patch:3876-3986 -/
theorem hexNumeral_text (u : BitVec 64) (upcase : Bool) (prec : Option ℕ) :
    (hexStyle upcase).text (hexNumeral u upcase prec) =
      cutDot false (hexMantissa u upcase prec).length (hexMantissa u upcase prec) ++ hexTail u upcase := by
  have hdot : chr '.' ∉ (hexRow upcase (mantissa u) prec).2 := by
    intro hmem
    exact absurd (hexRow_hex upcase (mantissa u) prec _ hmem) (by decide)
  have hcut : cutDot false (hexMantissa u upcase prec).length (hexMantissa u upcase prec) =
      hexFront u upcase ++ [leadDigit (isNormal u) (hexRow upcase (mantissa u) prec).1] ++
        if (hexRow upcase (mantissa u) prec).2 = [] then [] else chr '.' :: (hexRow upcase (mantissa u) prec).2 := by
    rw [cutDot, if_neg (by simp), ← withoutDot_point _ _ hdot, hexMantissa, List.append_assoc,
      List.singleton_append]
  have hpoint : (if (!(hexRow upcase (mantissa u) prec).2.isEmpty) = true then
      0x2e :: (hexRow upcase (mantissa u) prec).2 else []) =
      if (hexRow upcase (mantissa u) prec).2 = [] then [] else chr '.' :: (hexRow upcase (mantissa u) prec).2 := by
    cases (hexRow upcase (mantissa u) prec).2 with
    | nil => rfl
    | cons c cs => rfl
  have htail : hexTail u upcase = exponentText (hexStyle upcase).mark (hexNumeral u upcase prec).exponent := by
    unfold hexTail exponentText hexNumeral
    by_cases hneg : hexScale u < 0
    · simp only [if_pos hneg, decide_eq_true hneg, if_true]
      rfl
    · simp only [if_neg hneg, decide_eq_false hneg]
      rfl
  rw [hcut, htail, hexFront, signText_eq, ← hpoint]
  simp only [NumberStyle.text, List.append_assoc]
  rfl

/-- INTERNAL: **what `%a` prints is its numeral.**
SOURCE: dietlibc-printf.patch:3761-3986 -/
theorem prints_hex (dtoa : Dtoa) (u : BitVec 64) (info : Info) (hfin : IsFinite u)
    (hspec : info.spec = .a ∨ info.spec = .A) :
    Prints dtoa u info ((hexStyle info.spec.upcase).text (hexNumeral u info.spec.upcase info.prec)) := by
  rw [hexNumeral_text]
  exact prints_hexText dtoa u info hfin hspec

/-- INTERNAL: the exponent that is read. -/
theorem hexNumeral_exponent (u : BitVec 64) (upcase : Bool) (prec : Option ℕ) :
    exponentValue (hexNumeral u upcase prec).exponent = hexScale u := by
  unfold hexNumeral exponentValue
  dsimp only
  rw [(hexExponent_spec _ (hexScale_natAbs_lt u)).1]
  by_cases hneg : hexScale u < 0
  · rw [decide_eq_true hneg, if_pos rfl]
    omega
  · rw [decide_eq_false hneg, if_neg Bool.false_ne_true]
    omega

/-- INTERNAL: the number that is printed. -/
theorem hexNumeral_value (u : BitVec 64) (upcase : Bool) (prec : Option ℕ) :
    (hexStyle upcase).value (hexNumeral u upcase prec) =
      (if isNegative u then -1 else 1) *
        (((isNormal u).toNat + (hexRow upcase (mantissa u) prec).1.toNat : ℕ) * 16 ^ (hexRow upcase (mantissa u) prec).2.length +
          digitsValue 16 (hexRow upcase (mantissa u) prec).2 : ℚ) / 16 ^ (hexRow upcase (mantissa u) prec).2.length *
        2 ^ hexScale u := by
  unfold NumberStyle.value
  rw [hexNumeral_exponent]
  unfold hexNumeral hexStyle
  dsimp only
  rw [List.singleton_append, digitsValue, (leadDigit_spec _ _).1]
  push_cast
  ring

/-- INTERNAL: the double as its digit before the point, its fraction and its exponent.
SOURCE: dietlibc-printf.patch:3880-3890 -/
theorem doubleValue_eq (u : BitVec 64) :
    doubleValue u = (if isNegative u then -1 else 1) *
      ((isNormal u).toNat * 16 ^ 13 + mantissa u : ℚ) / 16 ^ 13 * 2 ^ hexScale u := by
  have hpow : (16 : ℚ) ^ 13 = 2 ^ 52 := by norm_num
  have hne : (2 : ℚ) ^ 52 ≠ 0 := by positivity
  unfold doubleValue hexScale isNormal
  rw [hpow]
  generalize (if isNegative u = true then (-1 : ℚ) else 1) = sign
  by_cases hnormal : biased u = 0
  · rw [if_pos hnormal, if_neg (not_not.mpr hnormal), decide_eq_false (not_not.mpr hnormal)]
    by_cases hmant : mantissa u = 0
    · simp [hmant]
    · rw [if_pos hmant]
      generalize (2 : ℚ) ^ (-1022 : ℤ) = scale
      simp only [Bool.toNat_false, Nat.cast_zero]
      ring
  · rw [if_neg hnormal, if_pos hnormal, decide_eq_true hnormal]
    generalize (2 : ℚ) ^ ((biased u : ℤ) - 1023) = scale
    simp only [Bool.toNat_true, Nat.cast_one]
    field_simp

/-! ## Without a precision -/

/-- INTERNAL: zeros at the end do not change the number. -/
theorem scaled_zeros (whole value len k : ℕ) :
    ((whole : ℚ) * 16 ^ len + value) / 16 ^ len = (whole * 16 ^ (len + k) + (16 ^ k * value : ℕ)) / 16 ^ (len + k) := by
  have hlen : (16 : ℚ) ^ len ≠ 0 := by positivity
  have hk : (16 : ℚ) ^ k ≠ 0 := by positivity
  rw [pow_add]
  push_cast
  field_simp

/-- INTERNAL: the digits without their zeros.
SOURCE: dietlibc-printf.patch:3907 -/
theorem hexRow_none (upcase : Bool) (m : ℕ) (hm : m < 16 ^ 13) :
    ∃ k, (hexRow upcase m none).2.length + k = 13 ∧ 16 ^ k * digitsValue 16 (hexRow upcase m none).2 = m := by
  have hsplit := List.rdropWhile_append_rtakeWhile (p := isZero) (l := fractionHex upcase m)
  have hzeros : (fractionHex upcase m).rtakeWhile isZero =
      List.replicate ((fractionHex upcase m).rtakeWhile isZero).length 0x30 := by
    apply List.eq_replicate_of_mem
    intro c hc
    have hzero : isZero c = true := List.mem_rtakeWhile_imp hc
    exact of_decide_eq_true hzero
  refine ⟨((fractionHex upcase m).rtakeWhile isZero).length, ?_, ?_⟩
  · have hlen := congrArg List.length hsplit
    rw [List.length_append, fractionHex_length upcase m hm] at hlen
    exact hlen
  · have hvalue := congrArg (digitsValue 16) hsplit
    rw [digitsValue_append, fractionHex_value, hzeros, digitsValue_zeros, List.length_replicate] at hvalue
    exact hvalue

/-- **`%a` is exact**: what is printed for a finite double stands for the double. There is one digit before the point,
and there is no zero at the end of those behind it, nor a point without them.
SOURCE: dietlibc-printf.patch:3868-3987 -/
theorem hex_exact (dtoa : Dtoa) (u : BitVec 64) (info : Info) (hfin : IsFinite u)
    (hspec : info.spec = .a ∨ info.spec = .A) (hprec : info.prec = none) :
    ∃ t n, Prints dtoa u info t ∧ (hexStyle info.spec.upcase).read t = some n ∧
      (hexStyle info.spec.upcase).value n = doubleValue u ∧ n.negative = isNegative u ∧ n.whole.length = 1 ∧
      n.exponent.isSome = true ∧ n.fraction.getLast? ≠ some (chr '0') ∧ (n.point = true → n.fraction ≠ []) := by
  have hprints := prints_hex dtoa u info hfin hspec
  rw [hprec] at hprints
  refine ⟨_, hexNumeral u info.spec.upcase none, hprints,
    NumberStyle.read_text _ _ (hexNumeral_wellFormed u info.spec.upcase none), ?_, rfl, rfl, rfl, ?_, ?_⟩
  · obtain ⟨k, hlen, hvalue⟩ := hexRow_none info.spec.upcase (mantissa u) (mantissa_lt u)
    have hcarry : (hexRow info.spec.upcase (mantissa u) none).1.toNat = 0 := rfl
    have hsame := scaled_zeros (isNormal u).toNat (digitsValue 16 (hexRow info.spec.upcase (mantissa u) none).2)
      (hexRow info.spec.upcase (mantissa u) none).2.length k
    rw [hlen, hvalue] at hsame
    rw [hexNumeral_value, doubleValue_eq, mul_div_assoc, mul_div_assoc, ← hsame, hcarry, Nat.add_zero]
  · intro hlast
    have hne : (hexRow info.spec.upcase (mantissa u) none).2 ≠ [] := by
      intro hnil
      rw [hexNumeral, hnil] at hlast
      cases hlast
    have hget : (hexRow info.spec.upcase (mantissa u) none).2.getLast hne = chr '0' :=
      Option.some.inj ((List.getLast?_eq_some_getLast hne).symm.trans hlast)
    have hnot := List.rdropWhile_last_not isZero (fractionHex info.spec.upcase (mantissa u)) hne
    exact hnot (decide_eq_true hget)
  · intro hpoint hnil
    simp only [hexNumeral] at hpoint hnil
    rw [hnil] at hpoint
    cases hpoint

/-- `dtoa` is not called for `%a`. -/
def noDtoa : Dtoa := fun _ _ _ => ([], 0)

/-- `%a` of 1.5 is `0x1.8p+0`. -/
theorem hex_exact_half :
    ∃ t n, Prints noDtoa 0x3ff8000000000000#64 ⟨none, .a, false, false, false⟩ t ∧
      (hexStyle false).read t = some n ∧ (hexStyle false).value n = doubleValue 0x3ff8000000000000#64 ∧
      n.negative = isNegative 0x3ff8000000000000#64 ∧ n.whole.length = 1 ∧
      n.exponent.isSome = true ∧ n.fraction.getLast? ≠ some (chr '0') ∧ (n.point = true → n.fraction ≠ []) :=
  hex_exact noDtoa 0x3ff8000000000000#64 ⟨none, .a, false, false, false⟩ (by decide) (Or.inl rfl) rfl

/-! ## With a precision -/

/-- INTERNAL: the digits of the upper half.
SOURCE: dietlibc-printf.patch:3937 -/
theorem upper_half_iff (c : UInt8) (hc : IsHex c) : ¬ (chr '0' ≤ c ∧ c ≤ chr '7') ↔ 8 ≤ nibble c := by
  have hzero : (chr '0').toNat = 48 := rfl
  have hseven : (chr '7').toNat = 55 := rfl
  simp only [IsHex, IsLowerHex, nibble, UInt8.le_iff_toNat_le, UInt8.reduceToNat, hzero, hseven] at hc ⊢
  split_ifs <;> omega

/-- INTERNAL: what the digit that decides about rounding says about the fraction: it is the first of the last `k + 1`
digits.
SOURCE: dietlibc-printf.patch:3913-3937 -/
theorem roundsUp_iff (upcase : Bool) (m p k : ℕ)
    (hk : min (lltostr upcase m).length (p - min (13 - (lltostr upcase m).length) p) + k + 1 = (lltostr upcase m).length) :
    roundsUp upcase m p = true ↔ 8 * 16 ^ k ≤ m % 16 ^ (k + 1) := by
  obtain ⟨hvalue, hhex⟩ := lltostr_spec upcase m
  have hnibble : ∀ c ∈ lltostr upcase m, nibble c < 16 := fun c hc => nibble_lt c (hhex c hc)
  unfold roundsUp
  dsimp only
  generalize min (lltostr upcase m).length (p - min (13 - (lltostr upcase m).length) p) = i at hk ⊢
  have hi : i < (lltostr upcase m).length := by omega
  obtain ⟨hmem, hdrop⟩ : (lltostr upcase m)[i] ∈ lltostr upcase m ∧
      (lltostr upcase m).drop i = (lltostr upcase m)[i] :: (lltostr upcase m).drop (i + 1) :=
    ⟨List.getElem_mem hi, List.drop_eq_getElem_cons hi⟩
  have hfirst := le_first_digit_iff 16 (lltostr upcase m)[i] ((lltostr upcase m).drop (i + 1)) 8
    fun c hc => hnibble c (List.mem_of_mem_drop hc)
  rw [← hdrop, (digitsValue_take_drop 16 _ i hnibble).2, hvalue, List.length_drop,
    show (lltostr upcase m).length - (i + 1) = k by omega, show (lltostr upcase m).length - i = k + 1 by omega] at hfirst
  rw [List.getElem?_eq_getElem hi, Option.map_some, Option.getD_some, Bool.not_eq_true', decide_eq_false_iff_not,
    upper_half_iff _ (hhex _ hmem), hfirst]

/-- INTERNAL: a precision that is enough for all digits.
SOURCE: dietlibc-printf.patch:3937 -/
theorem roundsUp_of_le (upcase : Bool) (m p : ℕ) (hm : m < 16 ^ 13) (hp : 13 ≤ p) : roundsUp upcase m p = false := by
  have hle := (lltostr_length_le_iff upcase m 13 (by omega)).mpr hm
  unfold roundsUp
  dsimp only
  rw [List.getElem?_eq_none (by omega)]
  rfl

/-- INTERNAL: the number in front of the exponent, in units of its last digit.
SOURCE: dietlibc-printf.patch:3910-3961 -/
theorem hexRow_some (upcase : Bool) (whole m p k : ℕ) (hp : p + k = 13) (hm : m < 16 ^ 13) :
    (whole + (hexRow upcase m (some p)).1.toNat) * 16 ^ p + digitsValue 16 (hexRow upcase m (some p)).2 =
      whole * 16 ^ p + m / 16 ^ k + (roundsUp upcase m p).toNat := by
  have hhex : ∀ c ∈ (fractionHex upcase m).take p, IsHex c :=
    fun c hc => fractionHex_hex upcase m c (List.mem_of_mem_take hc)
  have hlen : ((fractionHex upcase m).take p).length = p := by
    rw [List.length_take, fractionHex_length upcase m hm]
    omega
  have hzeros : List.replicate (p - 13) (chr '0') = [] := by rw [show p - 13 = 0 by omega, List.replicate_zero]
  have hvalue : digitsValue 16 ((fractionHex upcase m).take p) = m / 16 ^ k := by
    rw [(digitsValue_take_drop 16 _ p fun c hc => nibble_lt c (fractionHex_hex upcase m c hc)).1, fractionHex_value,
      fractionHex_length upcase m hm, show 13 - p = k by omega]
  cases hup : roundsUp upcase m p with
  | false =>
    rw [hexRow_down upcase m p hup, hzeros, List.append_nil, hvalue]
    simp
  | true =>
    obtain ⟨hone, -, -⟩ := addOne_value upcase _ hhex
    rw [hvalue, hlen] at hone
    rw [hexRow_up upcase m p hup, hzeros, List.append_nil, Nat.add_mul]
    cases hcarry : (addOne upcase ((fractionHex upcase m).take p)).1 with
    | false =>
      rw [hcarry, if_neg Bool.false_ne_true] at hone
      rw [Bool.toNat_false, Bool.toNat_true]
      dsimp only
      omega
    | true =>
      rw [hcarry, if_pos rfl] at hone
      rw [Bool.toNat_true]
      dsimp only
      omega

/-- **The fraction begins with more zeros than the precision has places, and its first other digit is one of the upper
half.** It has `k + 1` digits behind the zeros. -/
def Misjudged (m p : ℕ) : Prop := ∃ k, k + 1 + p < 13 ∧ 8 * 16 ^ k ≤ m ∧ m < 16 ^ (k + 1)

/-- INTERNAL: **rounding up is right** unless the digit that decides is not the one behind the last printed digit.
SOURCE: dietlibc-printf.patch:3913-3937 -/
theorem rounding_iff (upcase : Bool) (m p k : ℕ) (hp : p + k + 1 = 13) (hm : m < 16 ^ 13) :
    ((roundsUp upcase m p = true → 8 * 16 ^ k ≤ m % 16 ^ (k + 1)) ∧
      (roundsUp upcase m p = false → m % 16 ^ (k + 1) ≤ 8 * 16 ^ k)) ↔ ¬ Misjudged m p := by
  have hpos := lltostr_length_pos upcase m
  have hle := (lltostr_length_le_iff upcase m 13 (by omega)).mpr hm
  have hrange : ∀ k', 8 * 16 ^ k' ≤ m → m < 16 ^ (k' + 1) → (lltostr upcase m).length = k' + 1 := by
    intro k' hlow hhigh
    have hupper := (lltostr_length_le_iff upcase m (k' + 1) (by omega)).mpr hhigh
    rcases Nat.eq_zero_or_pos k' with rfl | hk'
    · omega
    · have hlower := (lltostr_length_le_iff upcase m k' hk').not.mpr (by omega)
      omega
  by_cases hzeros : 13 - (lltostr upcase m).length ≤ p
  · -- the digit behind the last printed one decides
    have hiff := roundsUp_iff upcase m p k (by omega)
    refine iff_of_true ⟨hiff.mp, ?_⟩ ?_
    · intro hdown
      have hnot := hiff.not.mp (by rw [hdown]; exact Bool.false_ne_true)
      omega
    · rintro ⟨k', hk', hlow, hhigh⟩
      have hlen := hrange k' hlow hhigh
      omega
  · -- zeros are left: the first digit behind them decides
    obtain ⟨j, hj⟩ : ∃ j, j + 1 = (lltostr upcase m).length := ⟨(lltostr upcase m).length - 1, by omega⟩
    have hiff := roundsUp_iff upcase m p j (by omega)
    have hlt : m < 16 ^ (j + 1) := (lltostr_length_le_iff upcase m (j + 1) (by omega)).mp (by omega)
    have hpow : 16 ^ (j + 1) ≤ 16 ^ k := Nat.pow_le_pow_right (by omega) (by omega)
    have hpow' : 16 ^ (k + 1) = 16 * 16 ^ k := by rw [pow_succ, Nat.mul_comm]
    rw [Nat.mod_eq_of_lt hlt] at hiff
    rw [Nat.mod_eq_of_lt (by omega : m < 16 ^ (k + 1))]
    constructor
    · rintro ⟨hup, -⟩ ⟨k', hk', hlow, hhigh⟩
      have hlen := hrange k' hlow hhigh
      obtain rfl : k' = j := by omega
      have hfalse := hup (hiff.mpr hlow)
      omega
    · intro hjudged
      refine ⟨?_, fun _ => by omega⟩
      intro hup
      exact absurd ⟨j, by omega, hiff.mp hup, hlt⟩ hjudged

/-- The number in front of the exponent that is printed. -/
def printedRow (upcase : Bool) (whole m p : ℕ) : ℚ :=
  ((whole + (hexRow upcase m (some p)).1.toNat : ℕ) * 16 ^ p + digitsValue 16 (hexRow upcase m (some p)).2) / 16 ^ p

/-- INTERNAL: how far the printed number is from the exact one, for fewer digits than there are.
SOURCE: dietlibc-printf.patch:3910-3961 -/
theorem printedRow_sub (upcase : Bool) (whole m p k : ℕ) (hp : p + k + 1 = 13) (hm : m < 16 ^ 13) :
    printedRow upcase whole m p - ((whole : ℚ) * 16 ^ 13 + m) / 16 ^ 13 =
      ((16 ^ (k + 1) * (roundsUp upcase m p).toNat : ℚ) - (m % 16 ^ (k + 1) : ℕ)) / 16 ^ 13 := by
  have hrow := hexRow_some upcase whole m p (k + 1) hp hm
  have hrow' := congrArg (fun n : ℕ => (n : ℚ)) hrow
  have hdiv := congrArg (fun n : ℕ => (n : ℚ)) (Nat.div_add_mod m (16 ^ (k + 1)))
  have hpow : (16 : ℚ) ^ 13 = 16 ^ p * 16 ^ (k + 1) := by rw [← pow_add, ← hp, Nat.add_assoc]
  have hne : (16 : ℚ) ^ p ≠ 0 := by positivity
  have hne' : (16 : ℚ) ^ (k + 1) ≠ 0 := by positivity
  unfold printedRow
  push_cast at hrow' hdiv ⊢
  rw [hrow', hpow]
  field_simp
  linarith

/-- INTERNAL: **the distance is at most half a unit exactly if the rounding is right.** -/
theorem printedRow_nearest_iff (upcase : Bool) (whole m p : ℕ) (hm : m < 16 ^ 13) :
    |printedRow upcase whole m p - ((whole : ℚ) * 16 ^ 13 + m) / 16 ^ 13| ≤ 1 / 2 / 16 ^ p ↔ ¬ Misjudged m p := by
  by_cases hp : 13 ≤ p
  · have hdown := roundsUp_of_le upcase m p hm hp
    have hexact : printedRow upcase whole m p = ((whole : ℚ) * 16 ^ 13 + m) / 16 ^ 13 := by
      have hzeros : digitsValue 16 (List.replicate (p - 13) (chr '0')) = 0 := digitsValue_zeros 16 (p - 13)
      have hsame := scaled_zeros whole m 13 (p - 13)
      rw [show 13 + (p - 13) = p by omega] at hsame
      unfold printedRow
      rw [hexRow_down upcase m p hdown, List.take_of_length_le (by rw [fractionHex_length upcase m hm]; exact hp),
        digitsValue_append, fractionHex_value, List.length_replicate, hzeros, Bool.toNat_false, Nat.add_zero,
        Nat.add_zero, hsame]
    rw [hexact, sub_self, abs_zero]
    refine iff_of_true ?_ ?_
    · positivity
    · rintro ⟨k, hk, -, -⟩
      omega
  · obtain ⟨k, hk⟩ : ∃ k, p + k + 1 = 13 := ⟨12 - p, by omega⟩
    have hhalf : (1 : ℚ) / 2 / 16 ^ p = (8 * 16 ^ k) / 16 ^ 13 := by
      have hpow : (16 : ℚ) ^ 13 = 16 ^ p * 16 ^ k * 16 := by rw [← pow_add, ← pow_succ, hk]
      rw [hpow]
      field_simp
      norm_num
    have hlt : m % 16 ^ (k + 1) < 16 ^ (k + 1) := Nat.mod_lt _ (by positivity)
    have hpow' : 16 ^ (k + 1) = 16 * 16 ^ k := by rw [pow_succ, Nat.mul_comm]
    rw [printedRow_sub upcase whole m p k hk hm, abs_div, abs_of_pos (by positivity : (0 : ℚ) < 16 ^ 13), hhalf,
      div_le_div_iff_of_pos_right (by positivity), ← rounding_iff upcase m p k hk hm]
    generalize m % 16 ^ (k + 1) = r at hlt ⊢
    cases hup : roundsUp upcase m p with
    | false =>
      simp only [Bool.toNat_false, Nat.cast_zero, mul_zero, zero_sub, abs_neg, Nat.abs_cast, Bool.false_eq_true,
        false_implies, true_implies, true_and]
      exact_mod_cast Iff.rfl
    | true =>
      have hcast : ((16 : ℚ) ^ (k + 1) * ((true.toNat : ℕ) : ℚ) - (r : ℕ)) = ((16 ^ (k + 1) - r : ℕ) : ℚ) := by
        rw [Nat.cast_sub (by omega)]
        simp
      rw [hcast, Nat.abs_cast]
      simp only [true_implies, Bool.true_eq_false, false_implies, and_true]
      rw [show ((8 : ℚ) * 16 ^ k) = ((8 * 16 ^ k : ℕ) : ℚ) by push_cast; rfl, Nat.cast_le]
      omega

/-- **The text of `%.Na` stands for a nearest number**: it has that many digits behind the point, and its distance from
the double is at most half a unit of the last of them. -/
def Nearest (dtoa : Dtoa) (u : BitVec 64) (info : Info) (p : ℕ) : Prop :=
  ∃ t n, Prints dtoa u info t ∧ (hexStyle info.spec.upcase).read t = some n ∧ n.fraction.length = p ∧
    exponentValue n.exponent = hexScale u ∧
    |(hexStyle info.spec.upcase).value n - doubleValue u| ≤ 1 / 2 / 16 ^ p * 2 ^ exponentValue n.exponent

/-- INTERNAL: the distance is that of the numbers in front of the exponent.
SOURCE: dietlibc-printf.patch:3897-3983 -/
theorem nearest_iff_row (dtoa : Dtoa) (u : BitVec 64) (info : Info) (p : ℕ) (hfin : IsFinite u)
    (hspec : info.spec = .a ∨ info.spec = .A) (hprec : info.prec = some p) :
    Nearest dtoa u info p ↔
      |printedRow info.spec.upcase (isNormal u).toNat (mantissa u) p -
        ((isNormal u).toNat * 16 ^ 13 + mantissa u) / 16 ^ 13| ≤ 1 / 2 / 16 ^ p := by
  have hprints := prints_hex dtoa u info hfin hspec
  have hread := NumberStyle.read_text _ _ (hexNumeral_wellFormed u info.spec.upcase info.prec)
  have hrow : (hexRow info.spec.upcase (mantissa u) (some p)).2.length = p :=
    hexRow_length info.spec.upcase (mantissa u) p (mantissa_lt u)
  have hexponent := hexNumeral_exponent u info.spec.upcase info.prec
  have hscale : (0 : ℚ) < 2 ^ hexScale u := by positivity
  have hdistance : |(hexStyle info.spec.upcase).value (hexNumeral u info.spec.upcase info.prec) - doubleValue u| =
      |printedRow info.spec.upcase (isNormal u).toNat (mantissa u) p -
        ((isNormal u).toNat * 16 ^ 13 + mantissa u) / 16 ^ 13| * 2 ^ hexScale u := by
    have hsign : |(if isNegative u = true then -1 else 1 : ℚ)| = 1 := by split_ifs <;> simp
    rw [hexNumeral_value, doubleValue_eq, hprec, hrow, mul_div_assoc, mul_div_assoc, mul_assoc, mul_assoc, ← mul_sub,
      ← sub_mul, abs_mul, abs_mul, hsign, one_mul, abs_of_pos hscale]
    rfl
  constructor
  · rintro ⟨t, n, ht, hn, -, -, hle⟩
    obtain rfl := prints_unique dtoa u info _ _ hprints ht
    obtain rfl := Option.some.inj (hread.symm.trans hn)
    rw [hdistance, hexponent, mul_le_mul_iff_of_pos_right hscale] at hle
    exact hle
  · intro hle
    refine ⟨_, _, hprints, hread, ?_, hexponent, ?_⟩
    · rw [hprec]
      exact hrow
    · rw [hdistance, hexponent, mul_le_mul_iff_of_pos_right hscale]
      exact hle

/-- **`%.Na` prints a nearest number exactly if the digit that decides about rounding is the right one**: the fraction
does not begin with more zeros than there are places, or the first digit behind them is one of the lower half.
SOURCE: dietlibc-printf.patch:3897-3983 -/
theorem nearest_iff_judged (dtoa : Dtoa) (u : BitVec 64) (info : Info) (p : ℕ) (hfin : IsFinite u)
    (hspec : info.spec = .a ∨ info.spec = .A) (hprec : info.prec = some p) :
    Nearest dtoa u info p ↔ ¬ Misjudged (mantissa u) p := by
  rw [nearest_iff_row dtoa u info p hfin hspec hprec]
  exact printedRow_nearest_iff info.spec.upcase _ _ p (mantissa_lt u)

/-- `%.1a` of 1.5 prints a nearest number. -/
theorem nearest_iff_judged_half : Nearest noDtoa 0x3ff8000000000000#64 ⟨some 1, .a, false, false, false⟩ 1 := by
  apply (nearest_iff_judged noDtoa 0x3ff8000000000000#64 ⟨some 1, .a, false, false, false⟩ 1 (by decide) (Or.inl rfl)
    rfl).mpr
  rintro ⟨k, hk, hlow, hhigh⟩
  have hm : mantissa 0x3ff8000000000000#64 = 8 * 16 ^ 12 := by decide
  rw [hm] at hhigh
  have hpow : 16 ^ (k + 1) ≤ 16 ^ 12 := Nat.pow_le_pow_right (by omega) (by omega)
  omega

/-- **`%.0a` of 1.03125 prints 2**: the fraction is `08`, and the `8` decides.
SOURCE: dietlibc-printf.patch:3913-3937 -/
theorem zero_not_judged :
    Prints noDtoa 0x3ff0800000000000#64 ⟨some 0, .a, false, false, false⟩ (ascii "0x2p+0".toList) ∧
      ¬ Nearest noDtoa 0x3ff0800000000000#64 ⟨some 0, .a, false, false, false⟩ 0 := by
  refine ⟨?_, ?_⟩
  · exact prints_hex noDtoa 0x3ff0800000000000#64 ⟨some 0, .a, false, false, false⟩ (by decide) (Or.inl rfl)
  · rw [nearest_iff_row noDtoa _ ⟨some 0, .a, false, false, false⟩ 0 (by decide) (Or.inl rfl) rfl,
      printedRow_nearest_iff _ _ _ 0 (mantissa_lt _), not_not]
    exact ⟨11, by decide, by decide, by decide⟩

end TTLinux.Analysis.PrintfHexValue
