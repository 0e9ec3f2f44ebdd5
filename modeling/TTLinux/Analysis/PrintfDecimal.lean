import Mathlib.Algebra.Order.Field.Basic
import Mathlib.Algebra.Order.Field.Power
import Mathlib.Tactic.FieldSimp
import TTLinux.Lib.Numeral
import TTLinux.Analysis.PrintfHex
import TTLinux.Analysis.PrintfRetry

/-!
# The numbers that `%f` and `%e` print

The digits of `dtoa` are printed with zeros on either side of them, and the point stands where it belongs: the text is
read again as the number that `dtoa` has returned. How many digits follow the point depends on the precision alone.
-/

set_option autoImplicit false

namespace TTLinux.Analysis.PrintfDecimal

open TTLinux.Lib
open TTLinux.Model.Printf
open TTLinux.Analysis.PrintfLayout
open TTLinux.Analysis.PrintfRetry
open TTLinux.Analysis.PrintfHex (isNegative biased mantissa signText_eq digitChar_spec)

/-! ## What `dtoa` returns -/

/-- A double that is zero. -/
def IsZero (u : BitVec 64) : Prop := biased u = 0 ∧ mantissa u = 0

/-- What else the conversions rely on: mode 3 returns digits through `ndigits` past the point, and none if the number is
rounded to zero there; the first digit of mode 2 is not zero unless the number is.
SOURCE: dietlibc-printf.patch:3049-3081 -/
structure DtoaContract (dtoa : Dtoa) : Prop extends DtoaSpec dtoa where
  fixedDigits : ∀ u n, IsFinite u → 0 ≤ n → ∀ c ∈ (dtoa u 3 n).1, IsDigit c
  fixedLength : ∀ u n, IsFinite u → 0 ≤ n → ((dtoa u 3 n).1.length : ℤ) ≤ (dtoa u 3 n).2 + n
  leading : ∀ u n, IsFinite u → ¬ IsZero u → (dtoa u 2 n).1.head? ≠ some (chr '0')

/-- The style of the decimal conversions. -/
def decimalStyle (upcase : Bool) : NumberStyle where
  lead := []
  digit := isDecimal
  base := 10
  mark := cased upcase 'e'
  scale := 10
  minus_lead := List.not_mem_nil
  minus_digit := by decide
  minus_mark := by cases upcase <;> decide
  point_digit := by decide
  point_mark := by cases upcase <;> decide
  mark_digit := by cases upcase <;> decide

/-- INTERNAL: a digit of `dtoa` is a decimal character. -/
theorem isDecimal_of_isDigit (c : UInt8) (hc : IsDigit c) : isDecimal c = true := by
  unfold isDecimal
  rw [Bool.and_eq_true, decide_eq_true_eq, decide_eq_true_eq]
  exact hc

/-- INTERNAL: so are zeros. -/
theorem isDecimal_zeros (n : ℕ) : ∀ c ∈ List.replicate n (chr '0'), isDecimal c = true := by
  intro c hc
  rw [List.eq_of_mem_replicate hc]
  rfl

/-! ## The parts of a mantissa -/

/-- The digits before the point.
SOURCE: dietlibc-printf.patch:4020-4031 -/
def wholePart (ds : Bytes) (point : ℤ) : Bytes :=
  if point ≤ 0 then [chr '0'] else ds.take point.toNat ++ List.replicate (point.toNat - ds.length) (chr '0')

/-- The digits behind the point, of which `left` are not zeros in front of the digits.
SOURCE: dietlibc-printf.patch:4023-4055 -/
def fractionPart (ds : Bytes) (point : ℤ) (left : ℕ) (keep : Bool) : Bytes :=
  List.replicate (-point).toNat (chr '0') ++ ((ds.drop point.toNat).take left ++
    if keep then List.replicate (left - (ds.length - point.toNat)) (chr '0') else [])

/-- INTERNAL: **a mantissa is its parts and the point**, if the precision is enough for the zeros behind the point.
SOURCE: dietlibc-printf.patch:4019-4055 -/
theorem mantissaText_parts (ds : Bytes) (point preci : ℤ) (left : ℕ) (keep : Bool)
    (hleft : (if point ≤ 0 then preci + point else preci) = left) :
    mantissaText ds point preci keep = wholePart ds point ++ chr '.' :: fractionPart ds point left keep := by
  unfold mantissaText restAfter integerPart wholePart fractionPart fractionDigits
  by_cases hpoint : point ≤ 0
  · rw [if_pos hpoint] at hleft
    have hzero : point.toNat = 0 := by omega
    have hrest : ((left : ℤ) - (min left ds.length : ℕ)).toNat = left - ds.length := by omega
    simp only [if_pos hpoint, hleft, show ¬ (left : ℤ) < 0 by omega, if_false, Int.toNat_natCast, hzero, List.drop_zero,
      List.length_take, Nat.sub_zero, hrest]
    simp
  · rw [if_neg hpoint] at hleft
    have hzero : (-point).toNat = 0 := by omega
    have hrest : ((left : ℤ) - (min left (ds.length - point.toNat) : ℕ)).toNat =
        left - (ds.length - point.toNat) := by omega
    simp only [if_neg hpoint, hleft, show ¬ (left : ℤ) < 0 by omega, if_false, Int.toNat_natCast, hzero,
      List.replicate_zero, List.nil_append, List.length_take, List.length_drop, hrest]
    simp

/-- INTERNAL: the number of digits in front of the point. -/
theorem wholePart_length (ds : Bytes) (point : ℤ) : (wholePart ds point).length = max 1 point.toNat := by
  unfold wholePart
  by_cases hpoint : point ≤ 0
  · rw [if_pos hpoint, List.length_singleton]
    omega
  · rw [if_neg hpoint, List.length_append, List.length_take, List.length_replicate]
    omega

/-- INTERNAL: the number of digits behind it. -/
theorem fractionPart_length (ds : Bytes) (point : ℤ) (left : ℕ) :
    (fractionPart ds point left true).length = (-point).toNat + left := by
  unfold fractionPart
  simp only [if_true, List.length_append, List.length_replicate, List.length_take, List.length_drop]
  omega

/-- INTERNAL: the whole part consists of digits. -/
theorem wholePart_decimal (ds : Bytes) (point : ℤ) (hds : ∀ c ∈ ds, IsDigit c) :
    ∀ c ∈ wholePart ds point, isDecimal c = true := by
  intro c hc
  unfold wholePart at hc
  split_ifs at hc
  · rw [List.mem_singleton.mp hc]
    rfl
  · rcases List.mem_append.mp hc with hc | hc
    · exact isDecimal_of_isDigit c (hds c (List.mem_of_mem_take hc))
    · exact isDecimal_zeros _ c hc

/-- INTERNAL: and so does the fraction. -/
theorem fractionPart_decimal (ds : Bytes) (point : ℤ) (left : ℕ) (keep : Bool) (hds : ∀ c ∈ ds, IsDigit c) :
    ∀ c ∈ fractionPart ds point left keep, isDecimal c = true := by
  intro c hc
  unfold fractionPart at hc
  rcases List.mem_append.mp hc with hc | hc
  · exact isDecimal_zeros _ c hc
  rcases List.mem_append.mp hc with hc | hc
  · exact isDecimal_of_isDigit c (hds c (List.mem_of_mem_drop (List.mem_of_mem_take hc)))
  · cases keep with
    | false => cases hc
    | true => exact isDecimal_zeros _ c hc

/-- INTERNAL: the parts of `%e`.
SOURCE: dietlibc-printf.patch:3996-4055 -/
theorem mantissa_e (dtoa : Dtoa) (u : BitVec 64) (info : Info) (hspec : info.spec = .e ∨ info.spec = .E) :
    (layout dtoa u info).mantissa = wholePart (dtoa u 2 (precision info + 1)).1 1 ++
      chr '.' :: fractionPart (dtoa u 2 (precision info + 1)).1 1 (precision info) true := by
  rw [layout_e dtoa u info hspec]
  exact mantissaText_parts _ 1 (precision info) (precision info) true (if_neg (by omega))

/-- INTERNAL: the parts of `%f`.
SOURCE: dietlibc-printf.patch:3988-4055 -/
theorem mantissa_f (dtoa : Dtoa) (hd : DtoaSpec dtoa) (u : BitVec 64) (info : Info) (hfin : IsFinite u)
    (hspec : info.spec = .f ∨ info.spec = .F) :
    (layout dtoa u info).mantissa = wholePart (dtoa u 3 (precision info)).1 (dtoa u 3 (precision info)).2 ++
      chr '.' :: fractionPart (dtoa u 3 (precision info)).1 (dtoa u 3 (precision info)).2
        (precision info + min (dtoa u 3 (precision info)).2 0).toNat true := by
  have hplaces := hd.places u (precision info) hfin (by omega)
  rw [layout_f dtoa u info hspec]
  apply mantissaText_parts
  split_ifs <;> omega

/-- INTERNAL: the parts of `%g` in the style of `%e`.
SOURCE: dietlibc-printf.patch:3992-4055 -/
theorem mantissa_g_scientific (dtoa : Dtoa) (u : BitVec 64) (info : Info) (hspec : info.spec = .g ∨ info.spec = .G)
    (hs : Scientific dtoa u info) :
    (layout dtoa u info).mantissa = wholePart (dtoa u 2 (precision info)).1 1 ++
      chr '.' :: fractionPart (dtoa u 2 (precision info)).1 1
        (afterPoint (precision info) (dtoa u 2 (precision info)).2).toNat info.alt := by
  have hafter := afterPoint_nonneg (precision info) (dtoa u 2 (precision info)).2 (by omega)
  rw [layout_g_scientific dtoa u info hspec hs]
  exact mantissaText_parts _ 1 _ _ info.alt (by rw [if_neg (by omega), Int.toNat_of_nonneg hafter])

/-- INTERNAL: the parts of `%g` in the style of `%f`.
SOURCE: dietlibc-printf.patch:3992-4055 -/
theorem mantissa_g_fixed (dtoa : Dtoa) (u : BitVec 64) (info : Info) (hspec : info.spec = .g ∨ info.spec = .G)
    (hs : ¬ Scientific dtoa u info) :
    (layout dtoa u info).mantissa = wholePart (dtoa u 2 (precision info)).1 (dtoa u 2 (precision info)).2 ++
      chr '.' :: fractionPart (dtoa u 2 (precision info)).1 (dtoa u 2 (precision info)).2
        (if (dtoa u 2 (precision info)).2 ≤ 0 then precision info
          else precision info - (dtoa u 2 (precision info)).2.toNat) info.alt := by
  rw [layout_g_fixed dtoa u info hspec hs]
  unfold Scientific at hs
  apply mantissaText_parts
  split_ifs <;> omega

/-- INTERNAL: **the digits of the parts are the digits of the number**, and zeros. -/
theorem parts_value (ds : Bytes) (point : ℤ) (left : ℕ) (hfit : ds.length ≤ point.toNat + left) :
    digitsValue 10 (wholePart ds point ++ fractionPart ds point left true) =
      10 ^ (point.toNat + left - ds.length) * digitsValue 10 ds := by
  have hzeros : ∀ n, digitsValue 10 (List.replicate n (chr '0')) = 0 := fun n => digitsValue_zeros 10 n
  unfold wholePart fractionPart
  by_cases hpoint : point ≤ 0
  · have hzero : point.toNat = 0 := by omega
    rw [if_pos hpoint, hzero, List.drop_zero, List.take_of_length_le (by omega), if_pos rfl, Nat.sub_zero, Nat.zero_add]
    simp only [digitsValue_append, hzeros, List.length_replicate, digitsValue_singleton, show nibble (chr '0') = 0 from rfl,
      Nat.mul_zero, Nat.add_zero, Nat.zero_add]
  · have hneg : (-point).toNat = 0 := by omega
    rw [if_neg hpoint, hneg, List.replicate_zero, List.nil_append, if_pos rfl,
      List.take_of_length_le (l := ds.drop point.toNat) (by rw [List.length_drop]; omega)]
    by_cases hlong : ds.length ≤ point.toNat
    · rw [List.take_of_length_le hlong, List.drop_eq_nil_of_le hlong, List.nil_append]
      simp only [digitsValue_append, hzeros, List.length_replicate, Nat.add_zero]
      rw [← Nat.mul_assoc, ← pow_add]
      congr 2
      omega
    · rw [show point.toNat - ds.length = 0 by omega, List.replicate_zero, List.append_nil, ← List.append_assoc,
        List.take_append_drop, digitsValue_append, hzeros, List.length_replicate, Nat.add_zero]
      congr 2
      omega

/-- INTERNAL: the number that the parts stand for. -/
theorem parts_number (ds : Bytes) (point e : ℤ) (left : ℕ) (hfit : ds.length ≤ point.toNat + left) :
    (digitsValue 10 (wholePart ds point ++ fractionPart ds point left true) : ℚ) /
        10 ^ (fractionPart ds point left true).length * 10 ^ e =
      (digitsValue 10 ds : ℚ) / 10 ^ ds.length * 10 ^ (point + e) := by
  have hten : (10 : ℚ) ≠ 0 := by norm_num
  have hpow : (10 : ℚ) ^ (point.toNat + left - ds.length) / 10 ^ ((-point).toNat + left) * 10 ^ e * 10 ^ ds.length =
      10 ^ (point + e) := by
    rw [← zpow_natCast, ← zpow_natCast, ← zpow_natCast, ← zpow_sub₀ hten, ← zpow_add₀ hten, ← zpow_add₀ hten]
    congr 1
    omega
  have hne : (10 : ℚ) ^ ds.length ≠ 0 := pow_ne_zero _ hten
  rw [parts_value ds point left hfit, fractionPart_length, ← hpow]
  push_cast
  field_simp

/-! ## Exponents -/

/-- INTERNAL: **the digits of an exponent.**
SOURCE: dietlibc-printf.patch:4068-4073 -/
theorem exponentDigits_spec (n : ℕ) (hn : n < 1000) :
    digitsValue 10 (exponentDigits n) = n ∧ 2 ≤ (exponentDigits n).length ∧
      ∀ c ∈ exponentDigits n, isDecimal c = true := by
  have hhundreds := digitChar_spec (n / 100) (by omega)
  have htens := digitChar_spec (n % 100 / 10) (by omega)
  have hones := digitChar_spec (n % 10) (by omega)
  unfold exponentDigits
  by_cases hlong : 99 < n
  · rw [if_pos hlong]
    refine ⟨?_, by simp, ?_⟩
    · simp only [List.cons_append, List.nil_append, digitsValue, hhundreds.1, htens.1, hones.1, List.length_cons,
        List.length_nil]
      omega
    · intro c hc
      simp only [List.cons_append, List.nil_append, List.mem_cons, List.not_mem_nil, or_false] at hc
      rcases hc with rfl | rfl | rfl
      · exact hhundreds.2
      · exact htens.2
      · exact hones.2
  · rw [if_neg hlong]
    refine ⟨?_, by simp, ?_⟩
    · simp only [List.nil_append, digitsValue, htens.1, hones.1, List.length_cons, List.length_nil]
      omega
    · intro c hc
      simp only [List.nil_append, List.mem_cons, List.not_mem_nil, or_false] at hc
      rcases hc with rfl | rfl
      · exact htens.2
      · exact hones.2

/-- The exponent of style `e`, with the point behind the first digit. -/
def exponentOf (decpt : ℤ) : Bool × Bytes := (decide (decpt ≤ 0), exponentDigits (decpt - 1).natAbs)

/-- INTERNAL: the value of the exponent that is printed. -/
theorem exponentOf_value (decpt : ℤ) (h : -400 ≤ decpt ∧ decpt ≤ 400) :
    exponentValue (some (exponentOf decpt)) = decpt - 1 := by
  unfold exponentOf exponentValue
  dsimp only
  rw [(exponentDigits_spec _ (by omega)).1]
  by_cases hneg : decpt ≤ 0
  · rw [decide_eq_true hneg, if_pos rfl]
    omega
  · rw [decide_eq_false hneg, if_neg Bool.false_ne_true]
    omega

/-- INTERNAL: its digits. -/
theorem exponentOf_decimal (decpt : ℤ) (hrange : -400 ≤ decpt ∧ decpt ≤ 400) (negative : Bool) (ds : Bytes)
    (h : some (exponentOf decpt) = some (negative, ds)) : ds ≠ [] ∧ ∀ c ∈ ds, isDecimal c = true := by
  obtain ⟨-, hlong, hdecimal⟩ := exponentDigits_spec (decpt - 1).natAbs (by omega)
  cases h
  refine ⟨?_, hdecimal⟩
  intro hnil
  rw [hnil] at hlong
  exact absurd hlong (by simp)

/-- INTERNAL: its text. -/
theorem exponentPart_text (upcase keep : Bool) (decpt : ℤ) (h : keep = true ∨ decpt ≠ 1) :
    exponentPart upcase keep decpt = exponentText (decimalStyle upcase).mark (some (exponentOf decpt)) := by
  rw [exponentPart_eq upcase keep decpt h]
  unfold exponentText exponentOf
  by_cases hneg : decpt ≤ 0
  · simp only [if_pos hneg, decide_eq_true hneg, if_true]
    rfl
  · simp only [if_neg hneg, decide_eq_false hneg]
    rfl

/-! ## The text is a numeral -/

/-- A numeral of a decimal conversion. -/
def decimalNumeral (u : BitVec 64) (alt : Bool) (whole fraction : Bytes) (exponent : Option (Bool × Bytes)) : Numeral :=
  ⟨isNegative u, whole, alt || !fraction.isEmpty, fraction, exponent⟩

/-- INTERNAL: the text of a decimal numeral. -/
theorem decimalNumeral_text (u : BitVec 64) (alt upcase : Bool) (whole fraction : Bytes)
    (exponent : Option (Bool × Bytes)) :
    (decimalStyle upcase).text (decimalNumeral u alt whole fraction exponent) =
      signText u ++ (whole ++ (pointed alt fraction ++ exponentText (decimalStyle upcase).mark exponent)) := by
  have hpoint : (if (alt || !fraction.isEmpty) = true then 0x2e :: fraction else []) = pointed alt fraction := by
    unfold pointed
    cases alt <;> cases fraction <;> rfl
  rw [signText_eq, ← hpoint]
  rfl

/-- INTERNAL: **what a decimal conversion prints.**
SOURCE: dietlibc-printf.patch:3988-4080 -/
theorem prints_fullText (dtoa : Dtoa) (hd : DtoaSpec dtoa) (u : BitVec 64) (info : Info) (hfin : IsFinite u)
    (ha : info.spec ≠ .a) (hA : info.spec ≠ .A) : Prints dtoa u info (fullText dtoa u info) := by
  apply prints_of_holds dtoa u info { info with spec := (layout dtoa u info).spec } _
    ((signText u ++ (layout dtoa u info).mantissa).length + 1)
  intro buf hbuf
  have hsign := signText_length u
  obtain ⟨o, ho, h⟩ := dtostr_text dtoa u info buf hfin ha hA (layout_sound dtoa hd u info hfin ha hA) (by omega)
  refine ⟨o, ho, ?_⟩
  unfold textFor at h
  rw [cutDot_of_le _ _ _ (by omega)] at h
  exact h

/-- INTERNAL: a decimal character is a digit of `dtoa`. -/
theorem isDigit_of_isDecimal (c : UInt8) (hc : isDecimal c = true) : IsDigit c := by
  unfold isDecimal at hc
  rw [Bool.and_eq_true, decide_eq_true_eq, decide_eq_true_eq] at hc
  exact hc

/-- INTERNAL: the text is a numeral if its mantissa is made of digits.
SOURCE: dietlibc-printf.patch:3988-4080 -/
theorem prints_decimal (dtoa : Dtoa) (hd : DtoaSpec dtoa) (u : BitVec 64) (info : Info) (whole fraction : Bytes)
    (exponent : Option (Bool × Bytes)) (hfin : IsFinite u) (ha : info.spec ≠ .a) (hA : info.spec ≠ .A)
    (hmantissa : (layout dtoa u info).mantissa = whole ++ chr '.' :: fraction)
    (hexponent : (layout dtoa u info).exponent = exponentText (decimalStyle info.spec.upcase).mark exponent)
    (hfraction : ∀ c ∈ fraction, isDecimal c = true) :
    Prints dtoa u info ((decimalStyle info.spec.upcase).text (decimalNumeral u info.alt whole fraction exponent)) := by
  have hdigits : ∀ c ∈ fraction, IsDigit c := fun c hc => isDigit_of_isDecimal c (hfraction c hc)
  have htext : fullText dtoa u info =
      (decimalStyle info.spec.upcase).text (decimalNumeral u info.alt whole fraction exponent) := by
    unfold fullText
    rw [hmantissa, ← List.append_assoc, cutDot_pointed info.alt (signText u ++ whole) fraction hdigits, hexponent,
      decimalNumeral_text]
    simp only [List.append_assoc]
  rw [← htext]
  exact prints_fullText dtoa hd u info hfin ha hA

/-- INTERNAL: a numeral of digits is well formed. -/
theorem decimalNumeral_wellFormed (u : BitVec 64) (alt upcase : Bool) (whole fraction : Bytes)
    (exponent : Option (Bool × Bytes)) (hwhole : ∀ c ∈ whole, isDecimal c = true)
    (hfraction : ∀ c ∈ fraction, isDecimal c = true)
    (hexponent : ∀ negative ds, exponent = some (negative, ds) → ds ≠ [] ∧ ∀ c ∈ ds, isDecimal c = true) :
    (decimalStyle upcase).WellFormed (decimalNumeral u alt whole fraction exponent) where
  whole := hwhole
  fraction := hfraction
  point := by
    intro hpoint
    unfold decimalNumeral at hpoint
    rw [Bool.or_eq_false_iff] at hpoint
    simpa [decimalNumeral] using hpoint.2
  exponent := hexponent

/-! ## `%f` and `%e` -/

/-- The digits and the position of the point that the conversion asks for.
SOURCE: dietlibc-printf.patch:3988-4003 -/
def answer (dtoa : Dtoa) (u : BitVec 64) (info : Info) : Bytes × ℤ :=
  if info.spec = .f ∨ info.spec = .F then dtoa u 3 (precision info) else dtoa u 2 (precision info + 1)

/-- The number that `dtoa` returns. -/
def answerValue (r : Bytes × ℤ) : ℚ := (digitsValue 10 r.1 : ℚ) / 10 ^ r.1.length * 10 ^ r.2

/-- **A numeral for a double**, with a number of digits behind the point. -/
structure Represents (alt : Bool) (u : BitVec 64) (r : Bytes × ℤ) (p : ℕ) (s : NumberStyle) (n : Numeral) : Prop where
  negative : n.negative = isNegative u
  value : s.value n = (if isNegative u then -1 else 1) * answerValue r
  places : n.fraction.length = p
  point : n.point = true ↔ p ≠ 0 ∨ alt = true
  whole : n.whole ≠ []

/-- INTERNAL: the parts of a mantissa with enough places are a numeral for the number. -/
theorem parts_represent (u : BitVec 64) (alt upcase : Bool) (ds : Bytes) (decpt point : ℤ) (left p : ℕ)
    (exponent : Option (Bool × Bytes)) (hfit : ds.length ≤ point.toNat + left) (hp : (-point).toNat + left = p)
    (hexponent : exponentValue exponent = decpt - point) :
    Represents alt u (ds, decpt) p (decimalStyle upcase)
      (decimalNumeral u alt (wholePart ds point) (fractionPart ds point left true) exponent) where
  negative := rfl
  value := by
    have hnumber := parts_number ds point (decpt - point) left hfit
    rw [show point + (decpt - point) = decpt by omega] at hnumber
    rw [← hexponent] at hnumber
    unfold NumberStyle.value answerValue
    rw [← hnumber, mul_div_assoc, mul_assoc]
    rfl
  places := by
    rw [← hp]
    exact fractionPart_length ds point left
  point := by
    have hlen := fractionPart_length ds point left
    unfold decimalNumeral
    dsimp only
    rw [Bool.or_eq_true, Bool.not_eq_true', List.isEmpty_eq_false_iff, ne_eq, ← List.length_eq_zero_iff, hlen, hp]
    exact or_comm
  whole := by
    intro hnil
    have hlen := wholePart_length ds point
    rw [show wholePart ds point = [] from hnil, List.length_nil] at hlen
    omega

/-- INTERNAL: `%f`.
SOURCE: dietlibc-printf.patch:3988-4080 -/
theorem fixed_text (dtoa : Dtoa) (hd : DtoaContract dtoa) (u : BitVec 64) (info : Info) (hfin : IsFinite u)
    (hspec : info.spec = .f ∨ info.spec = .F) :
    ∃ t n, Prints dtoa u info t ∧ (decimalStyle info.spec.upcase).read t = some n ∧
      Represents info.alt u (dtoa u 3 (precision info)) (precision info) (decimalStyle info.spec.upcase) n ∧
      n.exponent = none := by
  have hdigits := hd.fixedDigits u (precision info) hfin (by omega)
  have hlength := hd.fixedLength u (precision info) hfin (by omega)
  have hmantissa := mantissa_f dtoa hd.toDtoaSpec u info hfin hspec
  have hexponent : (layout dtoa u info).exponent = [] := by rw [layout_f dtoa u info hspec]
  generalize hr : dtoa u 3 (precision info) = r at hdigits hlength hmantissa ⊢
  obtain ⟨ds, decpt⟩ := r
  dsimp only at hdigits hlength hmantissa
  have hfraction := fractionPart_decimal ds decpt (precision info + min decpt 0).toNat true hdigits
  have hprints := prints_decimal dtoa hd.toDtoaSpec u info _ _ none hfin
    (by rcases hspec with h | h <;> rw [h] <;> decide) (by rcases hspec with h | h <;> rw [h] <;> decide)
    hmantissa hexponent hfraction
  have hwell := decimalNumeral_wellFormed u info.alt info.spec.upcase _ _ none (wholePart_decimal ds decpt hdigits)
    hfraction (by intro negative ds h; cases h)
  refine ⟨_, _, hprints, NumberStyle.read_text _ _ hwell, ?_, rfl⟩
  exact parts_represent u info.alt info.spec.upcase ds decpt decpt _ (precision info) none (by omega) (by omega)
    (by rw [exponentValue]; omega)

/-- INTERNAL: `%e`.
SOURCE: dietlibc-printf.patch:3996-4080 -/
theorem scientific_text (dtoa : Dtoa) (hd : DtoaContract dtoa) (u : BitVec 64) (info : Info) (hfin : IsFinite u)
    (hspec : info.spec = .e ∨ info.spec = .E) :
    ∃ t n, Prints dtoa u info t ∧ (decimalStyle info.spec.upcase).read t = some n ∧
      Represents info.alt u (dtoa u 2 (precision info + 1)) (precision info) (decimalStyle info.spec.upcase) n ∧
      n.whole.length = 1 ∧ (¬ IsZero u → n.whole ≠ [chr '0']) ∧
      ∃ negative digits, n.exponent = some (negative, digits) ∧ 2 ≤ digits.length := by
  have hdigits := hd.digits u (precision info + 1) hfin
  have hlength := hd.length u (precision info + 1) hfin
  have hnonempty := hd.nonempty u (precision info + 1) hfin
  have hrange := hd.range u (precision info + 1) hfin
  have hleading := hd.leading u (precision info + 1) hfin
  have hmantissa := mantissa_e dtoa u info hspec
  have hexponent : (layout dtoa u info).exponent =
      exponentPart info.spec.upcase true (dtoa u 2 (precision info + 1)).2 := by rw [layout_e dtoa u info hspec]
  generalize hr : dtoa u 2 (precision info + 1) = r at hdigits hlength hnonempty hrange hleading hmantissa hexponent ⊢
  obtain ⟨ds, decpt⟩ := r
  dsimp only at hdigits hlength hnonempty hrange hleading hmantissa hexponent
  have hexp := exponentDigits_spec (decpt - 1).natAbs (by omega)
  have hfraction := fractionPart_decimal ds 1 (precision info) true hdigits
  have hprints := prints_decimal dtoa hd.toDtoaSpec u info _ _ (some (exponentOf decpt)) hfin
    (by rcases hspec with h | h <;> rw [h] <;> decide) (by rcases hspec with h | h <;> rw [h] <;> decide)
    hmantissa (hexponent.trans (exponentPart_text _ true decpt (Or.inl rfl))) hfraction
  have hwell := decimalNumeral_wellFormed u info.alt info.spec.upcase _ _ (some (exponentOf decpt))
    (wholePart_decimal ds 1 hdigits) hfraction (exponentOf_decimal decpt hrange)
  refine ⟨_, _, hprints, NumberStyle.read_text _ _ hwell, ?_, ?_, ?_, _, _, rfl, hexp.2.1⟩
  · exact parts_represent u info.alt info.spec.upcase ds decpt 1 (precision info) (precision info) _ (by omega) (by omega)
      (exponentOf_value decpt hrange)
  · exact wholePart_length ds 1
  · intro hzero hwhole
    have hpos : 0 < ds.length := List.length_pos_iff.mpr hnonempty
    apply hleading hzero
    cases ds with
    | nil => cases hpos
    | cons c cs =>
      have hfirst : wholePart (c :: cs) 1 = [c] := by
        unfold wholePart
        simp
      rw [decimalNumeral, hfirst] at hwhole
      exact congrArg List.head? hwhole

/-- **`%f` and `%e` print the number that `dtoa` returns**, with the sign of the double and as many digits behind the
point as the precision says; the point is there if digits follow or with the flag `#`, and a digit stands before it. For
`%e` it is one digit, which is zero for zero only, and the exponent has at least two.
SOURCE: dietlibc-printf.patch:3988-4080 -/
theorem decimal_represents (dtoa : Dtoa) (hd : DtoaContract dtoa) (u : BitVec 64) (info : Info) (hfin : IsFinite u)
    (hspec : (info.spec = .f ∨ info.spec = .F) ∨ info.spec = .e ∨ info.spec = .E) :
    ∃ t n, Prints dtoa u info t ∧ (decimalStyle info.spec.upcase).read t = some n ∧
      Represents info.alt u (answer dtoa u info) (precision info) (decimalStyle info.spec.upcase) n ∧
      (info.spec = .f ∨ info.spec = .F → n.exponent = none) ∧
      (info.spec = .e ∨ info.spec = .E → n.whole.length = 1 ∧ (¬ IsZero u → n.whole ≠ [chr '0']) ∧
        ∃ negative digits, n.exponent = some (negative, digits) ∧ 2 ≤ digits.length) := by
  rcases hspec with hfixed | hscientific
  · obtain ⟨t, n, hprints, hread, hrep, hexp⟩ := fixed_text dtoa hd u info hfin hfixed
    refine ⟨t, n, hprints, hread, ?_, fun _ => hexp, ?_⟩
    · rw [answer, if_pos hfixed]
      exact hrep
    · intro hother
      rcases hfixed with h | h <;> rcases hother with h' | h' <;> rw [h] at h' <;> cases h'
  · obtain ⟨t, n, hprints, hread, hrep, hshape⟩ := scientific_text dtoa hd u info hfin hscientific
    have hnot : ¬ (info.spec = .f ∨ info.spec = .F) := by
      rcases hscientific with h | h <;> rw [h] <;> decide
    refine ⟨t, n, hprints, hread, ?_, fun h => absurd h hnot, fun _ => hshape⟩
    rw [answer, if_neg hnot]
    exact hrep

/-- INTERNAL: the function of the example keeps the contract. -/
theorem dtoaOne_contract : DtoaContract dtoaOne where
  toDtoaSpec := dtoaOne_spec
  fixedDigits := by
    intro u n _ _ c hc
    obtain rfl : c = chr '1' := by simpa [dtoaOne] using hc
    unfold IsDigit
    decide
  fixedLength := by
    intro u n _ hn
    show (1 : ℤ) ≤ 1 + n
    omega
  leading := by
    intro u n _ _
    show some (chr '1') ≠ some (chr '0')
    decide

/-- `%.2f` of the number 1. -/
theorem decimal_represents_one :
    ∃ t n, Prints dtoaOne one ⟨some 2, .f, false, false, false⟩ t ∧ (decimalStyle false).read t = some n ∧
      Represents false one (answer dtoaOne one ⟨some 2, .f, false, false, false⟩) 2 (decimalStyle false) n ∧
      (Spec.f = .f ∨ Spec.f = .F → n.exponent = none) ∧
      (Spec.f = .e ∨ Spec.f = .E → n.whole.length = 1 ∧ (¬ IsZero one → n.whole ≠ [chr '0']) ∧
        ∃ negative digits, n.exponent = some (negative, digits) ∧ 2 ≤ digits.length) :=
  decimal_represents dtoaOne dtoaOne_contract one ⟨some 2, .f, false, false, false⟩ (by decide) (Or.inl (Or.inl rfl))

end TTLinux.Analysis.PrintfDecimal
