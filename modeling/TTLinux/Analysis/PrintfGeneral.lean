import TTLinux.Analysis.PrintfDecimal

/-!
# The text of `%g`

`%g` is to print the significant digits in the style of `%e` or of `%f`, whichever the exponent asks for, without the
zeros at the end unless the flag `#` is given. The code shares the precision that is left behind the first digit between
the two styles: with the flag `#` the style of `%e` prints too many zeros, and the precision 0 leaves no place for the
digit of a number below 1. Without the flag it prints all digits that `dtoa` returns, and leaves it to `dtoa` that there
are no zeros at their end.
-/

set_option autoImplicit false

namespace TTLinux.Analysis.PrintfGeneral

open TTLinux.Lib
open TTLinux.Model.Printf
open TTLinux.Analysis.PrintfLayout
open TTLinux.Analysis.PrintfRetry
open TTLinux.Analysis.PrintfHex (isZero)
open TTLinux.Analysis.PrintfDecimal

/-! ## What the standard says -/

/-- What `%g` relies on besides: zero is the digit `0` before the point, and no digits are as good as one.
SOURCE: dietlibc-printf.patch:3049-3081 -/
structure GeneralContract (dtoa : Dtoa) : Prop extends DtoaContract dtoa where
  zero : ∀ u n, IsZero u → dtoa u 2 n = ([chr '0'], 1)
  atLeastOne : ∀ u, IsFinite u → dtoa u 2 0 = dtoa u 2 1

/-- `P` significant digits: those that are returned, and the zeros that are suppressed. -/
def significant (ds : Bytes) (P : ℕ) : Bytes := ds ++ List.replicate (P - ds.length) (chr '0')

/-- The digits before and behind the point and the exponent in the style of `%e`, for the decimal exponent `X`. -/
def styleE (digits : Bytes) (X : ℤ) : Bytes × Bytes × Option (Bool × Bytes) :=
  (digits.take 1, digits.drop 1, some (decide (X < 0), exponentDigits X.natAbs))

/-- The digits before and behind the point in the style of `%f`. -/
def styleF (digits : Bytes) (X : ℤ) : Bytes × Bytes × Option (Bool × Bytes) :=
  if X < 0 then ([chr '0'], List.replicate (-X - 1).toNat (chr '0') ++ digits, none)
  else (digits.take (X + 1).toNat, digits.drop (X + 1).toNat, none)

/-- **The numeral that C99 prescribes for `%.Pg`**, from the digits and the position of the decimal point. -/
def prescribed (u : BitVec 64) (alt : Bool) (P : ℕ) (ds : Bytes) (decpt : ℤ) : Numeral :=
  let X := decpt - 1
  let (whole, fraction, exponent) :=
    if X < -4 ∨ P ≤ X then styleE (significant ds P) X else styleF (significant ds P) X
  decimalNumeral u alt whole (if alt then fraction else fraction.rdropWhile isZero) exponent

/-- The text that C99 prescribes: the precision 0 is taken as 1. -/
def prescribedText (dtoa : Dtoa) (u : BitVec 64) (info : Info) : Bytes :=
  let P := max (precision info) 1
  (decimalStyle info.spec.upcase).text (prescribed u info.alt P (dtoa u 2 P).1 (dtoa u 2 P).2)

/-! ## What the code prints -/

/-- The numeral that the code prints.
SOURCE: dietlibc-printf.patch:3992-4075 -/
def printed (u : BitVec 64) (alt : Bool) (p : ℕ) (ds : Bytes) (decpt : ℤ) : Numeral :=
  if decpt ≤ -4 ∨ p < decpt then
    decimalNumeral u alt (wholePart ds 1) (fractionPart ds 1 (afterPoint p decpt).toNat alt)
      (if decpt = 1 then none else some (exponentOf decpt))
  else decimalNumeral u alt (wholePart ds decpt) (fractionPart ds decpt (if decpt ≤ 0 then p else p - decpt.toNat) alt) none

/-- INTERNAL: what `dtoa` returns for `%g`: at least one digit, at most as many as were asked for, and no zero in front
unless the number is zero. -/
structure Returned (P : ℕ) (ds : Bytes) (decpt : ℤ) : Prop where
  digits : ∀ c ∈ ds, IsDigit c
  nonempty : 0 < ds.length
  length : ds.length ≤ P
  range : -400 ≤ decpt ∧ decpt ≤ 400
  leading : ds = [chr '0'] ∧ decpt = 1 ∨ ds.head? ≠ some (chr '0')

/-- INTERNAL: what the contract says of the digits for `%g`. -/
theorem returned_of_contract (dtoa : Dtoa) (hd : GeneralContract dtoa) (u : BitVec 64) (n : ℕ) (hfin : IsFinite u) :
    Returned (max n 1) (dtoa u 2 n).1 (dtoa u 2 n).2 where
  digits := hd.digits u n hfin
  nonempty := List.length_pos_iff.mpr (hd.nonempty u n hfin)
  length := by
    have hlength := hd.length u n hfin
    omega
  range := hd.range u n hfin
  leading := by
    by_cases hzero : IsZero u
    · rw [hd.zero u n hzero]
      exact Or.inl ⟨rfl, rfl⟩
    · exact Or.inr (hd.leading u n hfin hzero)

/-! ## Zeros at the end -/

/-- Digits behind the point as they are to be printed: filled up with zeros, or without those at their end. -/
def ending (alt : Bool) (s : Bytes) (n : ℕ) : Bytes :=
  if alt then s ++ List.replicate n (chr '0') else s.rdropWhile isZero

/-- INTERNAL: zeros that are filled up do not stay. -/
theorem rdropWhile_zeros (s : Bytes) (n : ℕ) :
    (s ++ List.replicate n (chr '0')).rdropWhile isZero = s.rdropWhile isZero := by
  induction n with
  | zero => rw [List.replicate_zero, List.append_nil]
  | succ n ih => rw [List.replicate_succ', ← List.append_assoc, List.rdropWhile_concat_pos isZero _ _ rfl, ih]

/-- INTERNAL: the end of digits that are filled up first. -/
theorem ending_eq (alt : Bool) (s : Bytes) (n : ℕ) :
    (if alt then s ++ List.replicate n (chr '0') else (s ++ List.replicate n (chr '0')).rdropWhile isZero) =
      ending alt s n := by
  cases alt with
  | true => rfl
  | false => exact rdropWhile_zeros s n

/-- INTERNAL: digits are printed as they are if no zero is at their end. -/
theorem eq_ending_iff (s : Bytes) (n : ℕ) : s = ending false s n ↔ s.getLast? ≠ some (chr '0') := by
  refine eq_comm.trans (List.rdropWhile_eq_self_iff.trans ⟨fun h hlast => ?_, fun h hne hlast => h ?_⟩)
  · have hne : s ≠ [] := by
      rintro rfl
      cases hlast
    rw [List.getLast?_eq_some_getLast hne] at hlast
    exact h hne (decide_eq_true (Option.some.inj hlast))
  · rw [List.getLast?_eq_some_getLast hne]
    exact congrArg some (of_decide_eq_true hlast)

/-! ## Three shapes of the prescribed numeral -/

/-- INTERNAL: the exponent, in the words of the code. -/
theorem exponentOf_eq (decpt : ℤ) :
    (decide (decpt - 1 < 0), exponentDigits (decpt - 1).natAbs) = exponentOf decpt := by
  unfold exponentOf
  rw [show decide (decpt - 1 < 0) = decide (decpt ≤ 0) from decide_eq_decide.mpr (by omega)]

section Shapes

variable (u : BitVec 64) (alt : Bool) (P : ℕ) (ds : Bytes) (decpt : ℤ) (h : Returned P ds decpt)

include h in
/-- INTERNAL: the prescribed numeral in scientific style. -/
theorem prescribed_scientific (hs : decpt ≤ -4 ∨ P < decpt) :
    prescribed u alt P ds decpt =
      decimalNumeral u alt (ds.take 1) (ending alt (ds.drop 1) (P - ds.length)) (some (exponentOf decpt)) := by
  have hpos := h.nonempty
  have hcond : decpt - 1 < -4 ∨ (P : ℤ) ≤ decpt - 1 := by omega
  have hdrop : (significant ds P).drop 1 = ds.drop 1 ++ List.replicate (P - ds.length) (chr '0') :=
    List.drop_append_of_le_length hpos
  unfold prescribed
  simp only [if_pos hcond, styleE, exponentOf_eq, hdrop]
  rw [show (significant ds P).take 1 = ds.take 1 from List.take_append_of_le_length hpos, ending_eq]

/-- INTERNAL: and without exponent for a number below one. -/
theorem prescribed_small (hs : ¬ (decpt ≤ -4 ∨ P < decpt)) (hpoint : decpt ≤ 0) :
    prescribed u alt P ds decpt = decimalNumeral u alt [chr '0']
      (ending alt (List.replicate (-decpt).toNat (chr '0') ++ ds) (P - ds.length)) none := by
  have hcond : ¬ (decpt - 1 < -4 ∨ (P : ℤ) ≤ decpt - 1) := by omega
  unfold prescribed
  simp only [if_neg hcond, styleF, if_pos (show decpt - 1 < 0 by omega), show (-(decpt - 1) - 1) = -decpt by omega]
  rw [significant, ← List.append_assoc, ending_eq]

include h in
/-- INTERNAL: and for another one. -/
theorem prescribed_large (hs : ¬ (decpt ≤ -4 ∨ P < decpt)) (hpoint : ¬ decpt ≤ 0) :
    prescribed u alt P ds decpt = decimalNumeral u alt (wholePart ds decpt)
      (ending alt (ds.drop decpt.toNat) (P - max ds.length decpt.toNat)) none := by
  have hcond : ¬ (decpt - 1 < -4 ∨ (P : ℤ) ≤ decpt - 1) := by omega
  have hwhole : (significant ds P).take decpt.toNat = wholePart ds decpt := by
    unfold significant wholePart
    rw [if_neg hpoint, List.take_append, List.take_replicate]
    congr 2
    have hlength := h.length
    omega
  have hdrop : (significant ds P).drop decpt.toNat =
      ds.drop decpt.toNat ++ List.replicate (P - max ds.length decpt.toNat) (chr '0') := by
    unfold significant
    rw [List.drop_append, List.drop_replicate]
    congr 2
    omega
  unfold prescribed
  simp only [if_neg hcond, styleF, if_neg (show ¬ decpt - 1 < 0 by omega), show decpt - 1 + 1 = decpt by omega, hwhole,
    hdrop]
  rw [ending_eq]

/-! ## Three shapes of the printed numeral -/

/-- INTERNAL: the style of `%e`.
SOURCE: dietlibc-printf.patch:4009-4075 -/
theorem printed_scientific (p : ℕ) (hpos : 0 < ds.length) (hlength : ds.length ≤ max p 1)
    (hs : decpt ≤ -4 ∨ p < decpt) :
    printed u alt p ds decpt = decimalNumeral u alt (ds.take 1)
      (ds.drop 1 ++ if alt then List.replicate ((afterPoint p decpt).toNat + 1 - ds.length) (chr '0') else [])
      (if decpt = 1 then none else some (exponentOf decpt)) := by
  have hleft : ds.length - 1 ≤ (afterPoint p decpt).toNat := by
    unfold afterPoint
    split_ifs <;> omega
  have hwhole : wholePart ds 1 = ds.take 1 := by
    unfold wholePart
    rw [if_neg (by omega), Int.toNat_one, show 1 - ds.length = 0 by omega, List.replicate_zero, List.append_nil]
  unfold printed fractionPart
  rw [if_pos hs, hwhole, Int.toNat_one, List.take_of_length_le (l := ds.drop 1) (by rw [List.length_drop]; exact hleft),
    show (-1 : ℤ).toNat = 0 from rfl, List.replicate_zero, List.nil_append,
    show (afterPoint p decpt).toNat - (ds.length - 1) = (afterPoint p decpt).toNat + 1 - ds.length by omega]

/-- INTERNAL: what is printed for a number below one. -/
theorem printed_small (p : ℕ) (hs : ¬ (decpt ≤ -4 ∨ p < decpt)) (hpoint : decpt ≤ 0) :
    printed u alt p ds decpt = decimalNumeral u alt [chr '0']
      (List.replicate (-decpt).toNat (chr '0') ++
        (ds.take p ++ if alt then List.replicate (p - ds.length) (chr '0') else [])) none := by
  unfold printed fractionPart wholePart
  rw [if_neg hs, if_pos hpoint, if_pos hpoint, show decpt.toNat = 0 by omega, List.drop_zero, Nat.sub_zero]

/-- INTERNAL: and for another one. -/
theorem printed_large (p : ℕ) (hlength : ds.length ≤ p) (hs : ¬ (decpt ≤ -4 ∨ p < decpt)) (hpoint : ¬ decpt ≤ 0) :
    printed u alt p ds decpt = decimalNumeral u alt (wholePart ds decpt)
      (ds.drop decpt.toNat ++ if alt then List.replicate (p - max ds.length decpt.toNat) (chr '0') else []) none := by
  unfold printed fractionPart
  rw [if_neg hs, if_neg hpoint, show (-decpt).toNat = 0 by omega, List.replicate_zero, List.nil_append,
    List.take_of_length_le (by rw [List.length_drop]; omega),
    show p - decpt.toNat - (ds.length - decpt.toNat) = p - max ds.length decpt.toNat by omega]

end Shapes

/-! ## When they are the same -/

/-- **When `%g` prints what is prescribed**, by the flag `#`, the precision and the position of the decimal point: with a
precision, always without the flag and in the style of `%f` with it; with the precision 0, for numbers from 1 on, and
without the flag also in the style of `%e`. -/
def AsPrescribed (alt : Bool) (p : ℕ) (decpt : ℤ) : Prop :=
  if p = 0 then 1 ≤ decpt ∨ decpt ≤ -4 ∧ alt = false else alt = false ∨ -4 < decpt ∧ decpt ≤ p

/-- **A zero is left at the end**, behind the point of the style that is printed. -/
def ZeroLeft (p : ℕ) (ds : Bytes) (decpt : ℤ) : Prop :=
  (ds.drop (if decpt ≤ -4 ∨ p < decpt then 1 else decpt.toNat)).getLast? = some (chr '0')

instance (p : ℕ) (ds : Bytes) (decpt : ℤ) : Decidable (ZeroLeft p ds decpt) := inferInstanceAs (Decidable (_ = _))

/-- INTERNAL: digits without a zero at their end have none behind the point. -/
theorem not_zeroLeft (p : ℕ) (ds : Bytes) (decpt : ℤ) (h : ds.getLast? ≠ some (chr '0')) : ¬ ZeroLeft p ds decpt := by
  unfold ZeroLeft
  rw [List.getLast?_drop]
  split_ifs
  · exact fun hnone => nomatch hnone
  · exact h
  · exact fun hnone => nomatch hnone
  · exact h

/-- INTERNAL: equal numerals have equal fractions. -/
theorem fraction_of_eq {u : BitVec 64} {alt : Bool} {w w' f f' : Bytes} {e e' : Option (Bool × Bytes)}
    (h : decimalNumeral u alt w f e = decimalNumeral u alt w' f' e') : f = f' :=
  congrArg (fun n => n.fraction) h

/-- INTERNAL: numerals that differ in their fractions at most. -/
theorem decimalNumeral_inj (u : BitVec 64) (alt : Bool) (w f f' : Bytes) (e : Option (Bool × Bytes)) :
    decimalNumeral u alt w f e = decimalNumeral u alt w f' e ↔ f = f' :=
  ⟨fraction_of_eq, fun h => by rw [h]⟩

/-- INTERNAL: with a precision and the flag `#`. -/
theorem printed_alt_eq_iff (u : BitVec 64) (p : ℕ) (ds : Bytes) (decpt : ℤ) (h : Returned p ds decpt) :
    printed u true p ds decpt = prescribed u true p ds decpt ↔ -4 < decpt ∧ decpt ≤ p := by
  have hpos := h.nonempty
  have hlength := h.length
  by_cases hs : decpt ≤ -4 ∨ p < decpt
  · rw [printed_scientific u true ds decpt p hpos (by omega) hs, prescribed_scientific u true p ds decpt h hs,
      if_neg (show decpt ≠ 1 by omega)]
    apply iff_of_false _ (by omega)
    intro heq
    have hfraction := congrArg List.length (fraction_of_eq heq)
    simp only [ending, if_true, List.length_append, List.length_replicate, List.length_drop] at hfraction
    unfold afterPoint at hfraction
    split_ifs at hfraction <;> omega
  · apply iff_of_true _ (by omega)
    by_cases hpoint : decpt ≤ 0
    · rw [printed_small u true ds decpt p hs hpoint, prescribed_small u true p ds decpt hs hpoint,
        List.take_of_length_le hlength, ending, if_pos rfl, if_pos rfl, List.append_assoc]
    · rw [printed_large u true ds decpt p hlength hs hpoint, prescribed_large u true p ds decpt h hs hpoint]
      rfl

/-- INTERNAL: with a precision and without the flag. -/
theorem printed_plain_eq_iff (u : BitVec 64) (p : ℕ) (ds : Bytes) (decpt : ℤ) (h : Returned p ds decpt) :
    printed u false p ds decpt = prescribed u false p ds decpt ↔ ¬ ZeroLeft p ds decpt := by
  have hpos := h.nonempty
  have hlength := h.length
  unfold ZeroLeft
  by_cases hs : decpt ≤ -4 ∨ p < decpt
  · rw [printed_scientific u false ds decpt p hpos (by omega) hs, prescribed_scientific u false p ds decpt h hs,
      if_neg (show decpt ≠ 1 by omega), if_pos hs, decimalNumeral_inj, if_neg Bool.false_ne_true, List.append_nil]
    exact eq_ending_iff _ _
  · rw [if_neg hs]
    by_cases hpoint : decpt ≤ 0
    · have hne : ds ≠ [] := List.length_pos_iff.mp hpos
      rw [printed_small u false ds decpt p hs hpoint, prescribed_small u false p ds decpt hs hpoint, decimalNumeral_inj,
        if_neg Bool.false_ne_true, List.append_nil, List.take_of_length_le hlength, eq_ending_iff,
        List.getLast?_append_of_ne_nil _ hne, show decpt.toNat = 0 by omega, List.drop_zero]
    · rw [printed_large u false ds decpt p hlength hs hpoint, prescribed_large u false p ds decpt h hs hpoint,
        decimalNumeral_inj, if_neg Bool.false_ne_true, List.append_nil]
      exact eq_ending_iff _ _

/-- INTERNAL: with a precision. -/
theorem printed_eq_iff_pos (u : BitVec 64) (alt : Bool) (p : ℕ) (ds : Bytes) (decpt : ℤ)
    (h : Returned p ds decpt) :
    printed u alt p ds decpt = prescribed u alt p ds decpt ↔
      (alt = false ∨ -4 < decpt ∧ decpt ≤ p) ∧ (alt = true ∨ ¬ ZeroLeft p ds decpt) := by
  cases alt with
  | true => simpa using printed_alt_eq_iff u p ds decpt h
  | false => simpa using printed_plain_eq_iff u p ds decpt h

/-- INTERNAL: with the precision 0, which is to be taken as 1. -/
theorem printed_eq_iff_zero (u : BitVec 64) (alt : Bool) (ds : Bytes) (decpt : ℤ) (h : Returned 1 ds decpt) :
    printed u alt 0 ds decpt = prescribed u alt 1 ds decpt ↔ 1 ≤ decpt ∨ decpt ≤ -4 ∧ alt = false := by
  have hone : ds.length = 1 := by
    have hpos := h.nonempty
    have hlength := h.length
    omega
  have hdrop : ds.drop 1 = [] := List.drop_eq_nil_of_le (by omega)
  have hending : ending alt (ds.drop 1) (1 - ds.length) = [] := by
    rw [hdrop, hone]
    cases alt <;> rfl
  by_cases hpoint : decpt ≤ 0
  · by_cases hs : decpt ≤ -4
    · rw [printed_scientific u alt ds decpt 0 (by omega) (by omega) (Or.inl hs),
        prescribed_scientific u alt 1 ds decpt h (Or.inl hs), if_neg (show decpt ≠ 1 by omega), hending,
        decimalNumeral_inj, hdrop, List.nil_append]
      cases alt with
      | false => simp [hs]
      | true =>
        apply iff_of_false
        · intro heq
          have hlength := congrArg List.length heq
          simp only [if_true, List.length_replicate, List.length_nil, hone] at hlength
          unfold afterPoint at hlength
          split_ifs at hlength <;> omega
        · rintro (hlarge | ⟨-, hfalse⟩)
          · omega
          · cases hfalse
    · rw [printed_small u alt ds decpt 0 (by omega) hpoint, prescribed_small u alt 1 ds decpt (by omega) hpoint,
        decimalNumeral_inj]
      apply iff_of_false _ (by omega)
      intro heq
      -- the digit is no zero, so that it is prescribed in any case
      obtain ⟨c, rfl⟩ := List.length_eq_one_iff.mp hone
      have hc : c ≠ chr '0' := by
        rcases h.leading with ⟨-, hdecpt⟩ | hhead
        · omega
        · exact fun hc => hhead (congrArg some hc)
      have hkept : ending alt (List.replicate (-decpt).toNat (chr '0') ++ [c]) (1 - [c].length) =
          List.replicate (-decpt).toNat (chr '0') ++ [c] := by
        cases alt with
        | true => exact List.append_nil _
        | false => exact ((eq_ending_iff _ _).mpr (by simpa using hc)).symm
      rw [hkept, List.take_zero, List.length_singleton, Nat.zero_sub, List.replicate_zero, ite_self] at heq
      have hlength := congrArg List.length heq
      simp only [List.length_append, List.length_replicate, List.length_singleton, List.length_nil] at hlength
      omega
  · apply iff_of_true _ (Or.inl (by omega))
    rw [printed_scientific u alt ds decpt 0 (by omega) (by omega) (Or.inr (by omega))]
    have hafter : (afterPoint (0 : ℕ) decpt).toNat + 1 - ds.length = 0 := by
      unfold afterPoint
      rw [if_neg (by omega)]
      omega
    rw [hafter, hdrop, List.replicate_zero, ite_self]
    by_cases hfirst : decpt = 1
    · have hwhole : wholePart ds 1 = ds.take 1 := by
        unfold wholePart
        rw [if_neg (by omega), Int.toNat_one, hone, Nat.sub_self, List.replicate_zero, List.append_nil]
      subst hfirst
      rw [prescribed_large u alt 1 ds 1 h (by omega) (by omega), hwhole, if_pos rfl, hone, Int.toNat_one, hdrop]
      cases alt <;> rfl
    · rw [prescribed_scientific u alt 1 ds decpt h (Or.inr (by omega)), if_neg hfirst, hending]
      rfl

/-- INTERNAL: with any precision. -/
theorem printed_eq_iff (u : BitVec 64) (alt : Bool) (p : ℕ) (ds : Bytes) (decpt : ℤ) (h : Returned (max p 1) ds decpt) :
    printed u alt p ds decpt = prescribed u alt (max p 1) ds decpt ↔
      AsPrescribed alt p decpt ∧ (alt = true ∨ ¬ ZeroLeft p ds decpt) := by
  unfold AsPrescribed
  by_cases hp : p = 0
  · subst hp
    rw [if_pos rfl]
    refine (printed_eq_iff_zero u alt ds decpt h).trans (and_iff_left_of_imp fun hcond => Or.inr ?_).symm
    have hlength := h.length
    unfold ZeroLeft
    rw [List.drop_eq_nil_of_le (by split_ifs <;> omega)]
    exact fun hnone => nomatch hnone
  · rw [if_neg hp]
    rw [Nat.max_eq_left (by omega)] at h ⊢
    exact printed_eq_iff_pos u alt p ds decpt h

/-! ## The texts -/

/-- INTERNAL: what is printed is well formed. -/
theorem printed_wellFormed (u : BitVec 64) (alt upcase : Bool) (p P : ℕ) (ds : Bytes) (decpt : ℤ)
    (h : Returned P ds decpt) : (decimalStyle upcase).WellFormed (printed u alt p ds decpt) := by
  unfold printed
  split_ifs
  · exact decimalNumeral_wellFormed u alt upcase _ _ _ (wholePart_decimal ds _ h.digits)
      (fractionPart_decimal ds _ _ alt h.digits) (by intro negative ds hnone; cases hnone)
  · exact decimalNumeral_wellFormed u alt upcase _ _ _ (wholePart_decimal ds _ h.digits)
      (fractionPart_decimal ds _ _ alt h.digits) (exponentOf_decimal decpt h.range)
  · exact decimalNumeral_wellFormed u alt upcase _ _ _ (wholePart_decimal ds _ h.digits)
      (fractionPart_decimal ds _ _ alt h.digits) (by intro negative ds hnone; cases hnone)
  · exact decimalNumeral_wellFormed u alt upcase _ _ _ (wholePart_decimal ds _ h.digits)
      (fractionPart_decimal ds _ _ alt h.digits) (by intro negative ds hnone; cases hnone)

/-- INTERNAL: and so is what is prescribed. -/
theorem prescribed_wellFormed (u : BitVec 64) (alt upcase : Bool) (P : ℕ) (ds : Bytes) (decpt : ℤ)
    (h : Returned P ds decpt) : (decimalStyle upcase).WellFormed (prescribed u alt P ds decpt) := by
  have hds : ∀ c ∈ ds, isDecimal c = true := fun c hc => isDecimal_of_isDigit c (h.digits c hc)
  have hending : ∀ (s : Bytes) (n : ℕ), (∀ c ∈ s, isDecimal c = true) → ∀ c ∈ ending alt s n, isDecimal c = true := by
    intro s n hs c hc
    unfold ending at hc
    split_ifs at hc
    · rcases List.mem_append.mp hc with hc | hc
      · exact hs c hc
      · exact isDecimal_zeros n c hc
    · exact hs c ((List.rdropWhile_prefix isZero s).mem hc)
  have hdrop : ∀ k, ∀ c ∈ ds.drop k, isDecimal c = true := fun k c hc => hds c (List.mem_of_mem_drop hc)
  by_cases hs : decpt ≤ -4 ∨ P < decpt
  · rw [prescribed_scientific u alt P ds decpt h hs]
    exact decimalNumeral_wellFormed u alt upcase _ _ _ (fun c hc => hds c (List.mem_of_mem_take hc))
      (hending _ _ (hdrop 1)) (exponentOf_decimal decpt h.range)
  · by_cases hpoint : decpt ≤ 0
    · rw [prescribed_small u alt P ds decpt hs hpoint]
      exact decimalNumeral_wellFormed u alt upcase _ _ _ (isDecimal_zeros 1)
        (hending _ _ (List.forall_mem_append.mpr ⟨isDecimal_zeros _, hds⟩)) (by intro negative ds hnone; cases hnone)
    · rw [prescribed_large u alt P ds decpt h hs hpoint]
      exact decimalNumeral_wellFormed u alt upcase _ _ _ (wholePart_decimal ds _ h.digits) (hending _ _ (hdrop _))
        (by intro negative ds hnone; cases hnone)

/-- INTERNAL: **what `%g` prints.**
SOURCE: dietlibc-printf.patch:3992-4080 -/
theorem prints_general (dtoa : Dtoa) (hd : DtoaSpec dtoa) (u : BitVec 64) (info : Info) (hfin : IsFinite u)
    (hspec : info.spec = .g ∨ info.spec = .G) :
    Prints dtoa u info ((decimalStyle info.spec.upcase).text (printed u info.alt (precision info)
      (dtoa u 2 (precision info)).1 (dtoa u 2 (precision info)).2)) := by
  have hdigits := hd.digits u (precision info) hfin
  have ha : info.spec ≠ .a := by rcases hspec with h | h <;> rw [h] <;> decide
  have hA : info.spec ≠ .A := by rcases hspec with h | h <;> rw [h] <;> decide
  by_cases hs : Scientific dtoa u info
  · have hmantissa := mantissa_g_scientific dtoa u info hspec hs
    have hexponent : (layout dtoa u info).exponent =
        exponentPart info.spec.upcase false (dtoa u 2 (precision info)).2 := by
      rw [layout_g_scientific dtoa u info hspec hs]
    unfold Scientific at hs
    unfold printed
    rw [if_pos hs]
    apply prints_decimal dtoa hd u info _ _ _ hfin ha hA hmantissa
    · rw [hexponent]
      by_cases hone : (dtoa u 2 (precision info)).2 = 1
      · rw [if_pos hone, hone]
        cases info.spec.upcase <;> rfl
      · rw [if_neg hone]
        exact exponentPart_text _ false _ (Or.inr hone)
    · exact fractionPart_decimal _ 1 _ info.alt hdigits
  · have hmantissa := mantissa_g_fixed dtoa u info hspec hs
    have hexponent : (layout dtoa u info).exponent = [] := by rw [layout_g_fixed dtoa u info hspec hs]
    unfold Scientific at hs
    unfold printed
    rw [if_neg hs]
    apply prints_decimal dtoa hd u info _ _ none hfin ha hA hmantissa hexponent
    exact fractionPart_decimal _ _ _ info.alt hdigits

/-- INTERNAL: what is prescribed for the digits that are returned.
SOURCE: dietlibc-printf.patch:3992-4080 -/
theorem prints_prescribed_iff (dtoa : Dtoa) (hd : DtoaSpec dtoa) (u : BitVec 64) (info : Info) (hfin : IsFinite u)
    (hspec : info.spec = .g ∨ info.spec = .G) (ds : Bytes) (decpt : ℤ) (hr : dtoa u 2 (precision info) = (ds, decpt))
    (hreturned : Returned (max (precision info) 1) ds decpt) :
    Prints dtoa u info ((decimalStyle info.spec.upcase).text (prescribed u info.alt (max (precision info) 1) ds decpt)) ↔
      AsPrescribed info.alt (precision info) decpt ∧ (info.alt = true ∨ ¬ ZeroLeft (precision info) ds decpt) := by
  have hprints := prints_general dtoa hd u info hfin hspec
  rw [hr] at hprints
  rw [← printed_eq_iff u info.alt _ _ _ hreturned]
  constructor
  · intro hprescribed
    have htext := prints_unique dtoa u info _ _ hprints hprescribed
    have hread := congrArg (decimalStyle info.spec.upcase).read htext
    rw [NumberStyle.read_text _ _ (printed_wellFormed u info.alt _ (precision info) _ _ _ hreturned),
      NumberStyle.read_text _ _ (prescribed_wellFormed u info.alt _ _ _ _ hreturned)] at hread
    exact Option.some.inj hread
  · intro heq
    rw [← heq]
    exact hprints

/-- **`%g` prints the text that C99 prescribes exactly under this condition** on the flag `#`, the precision and the
decimal exponent, if the digits have no zero left at their end or the flag asks for it.
SOURCE: dietlibc-printf.patch:3992-4080 -/
theorem general_as_prescribed (dtoa : Dtoa) (hd : GeneralContract dtoa) (u : BitVec 64) (info : Info) (hfin : IsFinite u)
    (hspec : info.spec = .g ∨ info.spec = .G) :
    Prints dtoa u info (prescribedText dtoa u info) ↔
      AsPrescribed info.alt (precision info) (dtoa u 2 (precision info)).2 ∧
        (info.alt = true ∨ ¬ ZeroLeft (precision info) (dtoa u 2 (precision info)).1 (dtoa u 2 (precision info)).2) := by
  have hsame : dtoa u 2 ((max (precision info) 1 : ℕ) : ℤ) = dtoa u 2 (precision info) := by
    by_cases hp : precision info = 0
    · rw [hp]
      exact (hd.atLeastOne u hfin).symm
    · rw [Nat.max_eq_left (by omega)]
  unfold prescribedText
  dsimp only
  rw [hsame]
  exact prints_prescribed_iff dtoa hd.toDtoaSpec u info hfin hspec _ _ rfl
    (returned_of_contract dtoa hd u (precision info) hfin)

instance (u : BitVec 64) : Decidable (IsZero u) := inferInstanceAs (Decidable (_ ∧ _))

/-- `dtoa` on a number with one digit, and on zero. -/
def dtoaDigit (c : UInt8) (decpt : ℤ) : Dtoa := fun u mode n =>
  if IsZero u then ([chr '0'], 1) else if mode = 3 ∧ n < 1 - decpt then ([], -n) else ([c], decpt)

/-- INTERNAL: the function of the example for `%g`. -/
theorem dtoaDigit_mode2 (c : UInt8) (decpt : ℤ) (u : BitVec 64) (n : ℤ) :
    dtoaDigit c decpt u 2 n = if IsZero u then ([chr '0'], 1) else ([c], decpt) := by
  unfold dtoaDigit
  rw [if_neg (show ¬ (2 = 3 ∧ n < 1 - decpt) by omega)]

/-- INTERNAL: one digit that is not zero is as described.
SOURCE: dietlibc-printf.patch:3049-3081 -/
theorem dtoaDigit_contract (c : UInt8) (decpt : ℤ) (hc : IsDigit c) (hne : c ≠ chr '0')
    (hrange : -400 ≤ decpt ∧ decpt ≤ 400) : GeneralContract (dtoaDigit c decpt) where
  digits := by
    intro u n _ d hd
    rw [dtoaDigit_mode2] at hd
    split_ifs at hd
    · rw [List.mem_singleton.mp hd]
      unfold IsDigit
      decide
    · rw [List.mem_singleton.mp hd]
      exact hc
  nonempty := by
    intro u n _
    rw [dtoaDigit_mode2]
    split_ifs <;> exact List.cons_ne_nil _ _
  length := by
    intro u n _
    rw [dtoaDigit_mode2]
    split_ifs <;> exact le_max_left _ _
  range := by
    intro u n _
    rw [dtoaDigit_mode2]
    split_ifs
    · exact ⟨by decide, by decide⟩
    · exact hrange
  places := by
    intro u n _ hn
    unfold dtoaDigit
    split_ifs <;> dsimp only <;> omega
  fixedDigits := by
    intro u n _ _ d hd
    unfold dtoaDigit at hd
    split_ifs at hd
    · rw [List.mem_singleton.mp hd]
      unfold IsDigit
      decide
    · cases hd
    · rw [List.mem_singleton.mp hd]
      exact hc
  fixedLength := by
    intro u n _ hn
    unfold dtoaDigit
    split_ifs <;> simp only [List.length_singleton, List.length_nil] <;> omega
  leading := by
    intro u n _ hzero
    rw [dtoaDigit_mode2, if_neg hzero]
    exact fun hhead => hne (Option.some.inj hhead)
  zero := by
    intro u n hzero
    rw [dtoaDigit_mode2, if_pos hzero]
  atLeastOne := by
    intro u _
    rw [dtoaDigit_mode2, dtoaDigit_mode2]

/-- The number 0.5. -/
def half : BitVec 64 := 0x3fe0000000000000#64

/-- `%.3g` of 0.5. -/
theorem general_as_prescribed_half :
    Prints (dtoaDigit (chr '5') 0) half ⟨some 3, .g, false, false, false⟩
      (prescribedText (dtoaDigit (chr '5') 0) half ⟨some 3, .g, false, false, false⟩) :=
  (general_as_prescribed (dtoaDigit (chr '5') 0)
    (dtoaDigit_contract (chr '5') 0 (by unfold IsDigit; decide) (by decide) (by decide)) half
    ⟨some 3, .g, false, false, false⟩ (by decide) (Or.inl rfl)).mpr ⟨Or.inl rfl, Or.inr (by decide)⟩

/-- **`%.0g` of 0.5 prints `0`.**
SOURCE: dietlibc-printf.patch:4009-4037 -/
theorem half_without_digit :
    GeneralContract (dtoaDigit (chr '5') 0) ∧
      Prints (dtoaDigit (chr '5') 0) half ⟨some 0, .g, false, false, false⟩ (ascii "0".toList) ∧
      prescribedText (dtoaDigit (chr '5') 0) half ⟨some 0, .g, false, false, false⟩ = ascii "0.5".toList ∧
      ¬ Prints (dtoaDigit (chr '5') 0) half ⟨some 0, .g, false, false, false⟩
        (prescribedText (dtoaDigit (chr '5') 0) half ⟨some 0, .g, false, false, false⟩) := by
  have hcontract : GeneralContract (dtoaDigit (chr '5') 0) :=
    dtoaDigit_contract (chr '5') 0 (by unfold IsDigit; decide) (by decide) (by decide)
  have hprints : Prints (dtoaDigit (chr '5') 0) half ⟨some 0, .g, false, false, false⟩ (ascii "0".toList) :=
    prints_general (dtoaDigit (chr '5') 0) hcontract.toDtoaSpec half ⟨some 0, .g, false, false, false⟩ (by decide)
      (Or.inl rfl)
  refine ⟨hcontract, hprints, by decide, ?_⟩
  intro hprescribed
  exact absurd (prints_unique _ _ _ _ _ hprints hprescribed) (by decide)

end TTLinux.Analysis.PrintfGeneral
