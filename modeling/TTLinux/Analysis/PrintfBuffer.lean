import TTLinux.Analysis.PrintfDecimal

/-!
# Buffers that are too small

`__dtostr` is to count its complete output whatever the size of the buffer, to store as much of it as fits, and not to
touch anything behind the buffer. `conforms_iff_roomy` says for which sizes it does: the sign and the names of infinity
and NaN are written without a check, the digits of `%a` are read again, and the dot at the end of a mantissa is removed
only if it was stored.
-/

set_option autoImplicit false

namespace TTLinux.Analysis.PrintfBuffer

open TTLinux.Lib
open TTLinux.Model.Printf
open TTLinux.Analysis.PrintfLayout
open TTLinux.Analysis.PrintfRetry
open TTLinux.Analysis.PrintfHex
open TTLinux.Analysis.PrintfDecimal (DtoaContract fractionPart wholePart_length fractionPart_length fractionPart_decimal
  mantissa_e mantissa_f mantissa_g_scientific mantissa_g_fixed dtoaOne_contract)

/-! ## Sizes -/

/-- The number of characters before the dot of a mantissa, with the sign.
SOURCE: dietlibc-printf.patch:3891-3898, 4019-4032 -/
def dotPlace (dtoa : Dtoa) (u : BitVec 64) (info : Info) : ℕ :=
  (signText u).length +
    match info.spec with
    | .a | .A => 3
    | .e | .E => 1
    | .f | .F => max 1 (dtoa u 3 (precision info)).2.toNat
    | .g | .G => if Scientific dtoa u info then 1 else max 1 (dtoa u 2 (precision info)).2.toNat

/-- No digit is printed behind the dot; for `%g` this is without the flag `#`.
SOURCE: dietlibc-printf.patch:3910-3961, 4034-4055 -/
def DotLast (dtoa : Dtoa) (u : BitVec 64) (info : Info) : Prop :=
  match info.spec with
  | .a | .A => info.prec = some 0
  | .e | .E | .f | .F => precision info = 0
  | .g | .G =>
    if Scientific dtoa u info then (dtoa u 2 (precision info)).1.length = 1
    else ((dtoa u 2 (precision info)).1.length : ℤ) ≤ (dtoa u 2 (precision info)).2 ∨
      precision info = 0 ∧ (dtoa u 2 (precision info)).2 = 0

/-- The conversion removes a dot without digits behind it: `%a` does so even with the flag `#`.
SOURCE: dietlibc-printf.patch:3965-3966, 4057-4058 -/
def RemovesDot (info : Info) : Prop := info.spec = .a ∨ info.spec = .A ∨ info.alt = false

/-- **The buffer is large enough to conform**: for the sign; for the dot, if it is at the end of the mantissa and is to be
removed; for the digits of `%a`, if zeros are removed from them or they are rounded up; for the whole text of infinity
and NaN. -/
def Roomy (dtoa : Dtoa) (u : BitVec 64) (info : Info) (size : ℕ) : Prop :=
  if IsFinite u then
    (signText u).length ≤ size ∧
    (RemovesDot info → DotLast dtoa u info → dotPlace dtoa u info < size) ∧
    (info.spec = .a ∨ info.spec = .A → hexRoom info.spec.upcase (mantissa u) info.prec ≠ 0 →
      (hexFront u info.spec.upcase).length + hexRoom info.spec.upcase (mantissa u) info.prec ≤ size)
  else (specialText u info.spec.upcase).length ≤ size

/-- **A call conforms**: it touches nothing outside of the buffer, returns the length of the complete output and stores
as much of it as the buffer takes.
SOURCE: dietlibc-printf.patch:335-339, 3754-4080 -/
def Conforms (dtoa : Dtoa) (u : BitVec 64) (info : Info) (buf : Bytes) : Prop :=
  ∃ t o info', Prints dtoa u info t ∧ dtostr dtoa u buf info = some (o, info') ∧ Holds o buf.length t

/-- INTERNAL: a call conforms if its buffer holds the text. -/
theorem conforms_iff_holds (dtoa : Dtoa) (u : BitVec 64) (info info' : Info) (buf t : Bytes) (o : Out)
    (hprints : Prints dtoa u info t) (hcall : dtostr dtoa u buf info = some (o, info')) :
    Conforms dtoa u info buf ↔ Holds o buf.length t := by
  constructor
  · rintro ⟨t', o', i', hprints', hcall', hholds⟩
    obtain rfl := prints_unique dtoa u info t t' hprints hprints'
    obtain ⟨rfl, -⟩ : o = o' ∧ info' = i' := by simpa [hcall] using hcall'
    exact hholds
  · intro hholds
    exact ⟨t, o, info', hprints, hcall, hholds⟩

/-- INTERNAL: no call conforms that leaves the buffer. -/
theorem not_conforms_of_none (dtoa : Dtoa) (u : BitVec 64) (info : Info) (buf : Bytes)
    (hcall : dtostr dtoa u buf info = none) : ¬ Conforms dtoa u info buf := by
  rintro ⟨t, o, info', -, hsome, -⟩
  rw [hcall] at hsome
  cases hsome

/-! ## The sign -/

/-- INTERNAL: the sign does not fit.
SOURCE: dietlibc-printf.patch:3816-3817 -/
theorem signCheck_none (u : BitVec 64) (buf : Bytes) (h : buf.length < (signText u).length) : signCheck u buf = none := by
  unfold signText at h
  unfold signCheck
  by_cases hneg : u &&& SIGNMASK ≠ 0#64
  · rw [if_pos hneg, List.length_singleton] at h
    rw [if_pos hneg]
    unfold Out.push Out.poke
    dsimp only
    rw [if_neg (by omega)]
    rfl
  · rw [if_neg hneg] at h
    exact absurd h (Nat.not_lt_zero _)

/-- INTERNAL: a buffer without room for the sign is left. -/
theorem dtostr_none_of_sign (dtoa : Dtoa) (u : BitVec 64) (info : Info) (buf : Bytes)
    (h : buf.length < (signText u).length) : dtostr dtoa u buf info = none := by
  unfold dtostr
  simp only [signCheck_none u buf h, Option.bind_eq_bind, Option.bind_none]

/-! ## Infinity and NaN -/

/-- INTERNAL: so is one without room for the characters. -/
theorem pushes_none (cs : Bytes) (o : Out) (hne : cs ≠ []) (h : o.buf.length < o.retval + cs.length) :
    o.pushes cs = none := by
  induction cs generalizing o with
  | nil => exact absurd rfl hne
  | cons c cs ih =>
    rw [List.length_cons] at h
    unfold Out.pushes Out.push Out.poke
    by_cases hroom : o.retval < o.buf.length
    · rw [if_pos hroom, Option.map_some, Option.bind_some]
      apply ih
      · rintro rfl
        rw [List.length_nil] at h
        omega
      · show (o.buf.set o.retval c).length < o.retval + 1 + cs.length
        rw [List.length_set]
        omega
    · rw [if_neg hroom]
      rfl

/-- INTERNAL: **numbers that are not finite need room for all of their letters.**
SOURCE: dietlibc-printf.patch:3819-3830 -/
theorem conforms_special (dtoa : Dtoa) (u : BitVec 64) (info : Info) (buf : Bytes) (hfin : ¬ IsFinite u) :
    Conforms dtoa u info buf ↔ (specialText u info.spec.upcase).length ≤ buf.length := by
  have hprints : Prints dtoa u info (specialText u info.spec.upcase) :=
    prints_of_holds dtoa u info info _ (specialText u info.spec.upcase).length
      fun buf hbuf => dtostr_special dtoa u info buf hfin hbuf
  by_cases hroom : (specialText u info.spec.upcase).length ≤ buf.length
  · obtain ⟨o, hcall, hholds⟩ := dtostr_special dtoa u info buf hfin hroom
    exact iff_of_true ((conforms_iff_holds dtoa u info info buf _ o hprints hcall).mpr hholds) hroom
  · refine iff_of_false (not_conforms_of_none dtoa u info buf ?_) hroom
    by_cases hsign : (signText u).length ≤ buf.length
    · have hfin' : u &&& EXPOMASK = EXPOMASK := not_not.mp hfin
      obtain ⟨o, ho, hlen, hret, -⟩ := signCheck_holds u buf hsign
      have hnone : infNan u info.spec.upcase o = none := by
        unfold specialText at hroom
        unfold infNan
        by_cases hnan : u &&& MANTMASK ≠ 0#64
        · rw [if_pos hnan] at hroom ⊢
          exact pushes_none _ _ (List.cons_ne_nil _ _) (by dsimp only; omega)
        · rw [if_neg hnan, List.length_append] at hroom
          rw [if_neg hnan]
          exact pushes_none _ _ (List.cons_ne_nil _ _) (by omega)
      unfold dtostr
      simp only [ho, if_pos hfin', hnone, Option.bind_eq_bind, Option.bind_some, Option.bind_none]
    · exact dtostr_none_of_sign dtoa u info buf (by omega)

/-! ## The dot at the end of a mantissa -/

/-- INTERNAL: **a text is counted right exactly if its dot is not at the end, or was stored.**
SOURCE: dietlibc-printf.patch:3965-3966, 4057-4058 -/
theorem holds_cutDot_iff (alt : Bool) (o : Out) (size : ℕ) (m x : Bytes) (h : Holds o size (cutDot alt size m ++ x)) :
    Holds o size (cutDot alt m.length m ++ x) ↔ (alt = false → m.getLast? = some (chr '.') → m.length ≤ size) := by
  by_cases hfit : m.length ≤ size
  · rw [cutDot_of_le alt size m hfit] at h
    exact iff_of_true h fun _ _ => hfit
  · rw [cutDot_of_lt alt size m (by omega)] at h
    have hcut : cutDot alt m.length m = if alt = false ∧ m.getLast? = some (chr '.') then m.dropLast else m := by
      unfold cutDot withoutDot
      cases alt <;> simp
    rw [hcut]
    by_cases hdot : alt = false ∧ m.getLast? = some (chr '.')
    · rw [if_pos hdot]
      refine iff_of_false ?_ fun himp => hfit (himp hdot.1 hdot.2)
      rintro ⟨-, hret, -⟩
      have hne : 0 < m.length := by
        cases m with
        | nil => exact absurd hdot.2 (by simp)
        | cons c m => exact Nat.succ_pos _
      rw [h.2.1, List.length_append, List.length_append, List.length_dropLast] at hret
      omega
    · rw [if_neg hdot]
      exact iff_of_true h fun halt hlast => absurd ⟨halt, hlast⟩ hdot

/-- INTERNAL: a text ends with its point if no digits follow it. -/
theorem getLast?_dot_iff (front digits : Bytes) (h : chr '.' ∉ digits) :
    (front ++ chr '.' :: digits).getLast? = some (chr '.') ↔ digits = [] := by
  rcases List.eq_nil_or_concat' digits with rfl | ⟨init, last, rfl⟩
  · simp
  · have hend : (front ++ chr '.' :: (init ++ [last])).getLast? = some last := by
      rw [← List.cons_append, ← List.append_assoc, List.getLast?_concat]
    rw [hend]
    refine iff_of_false ?_ (by simp)
    intro heq
    exact h (Option.some.inj heq ▸ List.mem_append_right _ List.mem_cons_self)

/-! ## Hexadecimal conversions -/

/-- INTERNAL: the characters in front of the hexadecimal digits. -/
theorem hexFront_length (u : BitVec 64) (upcase : Bool) : (hexFront u upcase).length = (signText u).length + 2 := by
  unfold hexFront
  rw [List.length_append]
  rfl

/-- INTERNAL: `%a` with too little room for its digits.
SOURCE: dietlibc-printf.patch:3899-3961 -/
theorem dtostr_hex_outside (dtoa : Dtoa) (u : BitVec 64) (info : Info) (buf : Bytes) (hfin : IsFinite u)
    (hspec : info.spec = .a ∨ info.spec = .A) (hsign : (signText u).length ≤ buf.length)
    (hne : hexRoom info.spec.upcase (mantissa u) info.prec ≠ 0)
    (hroom : buf.length < (hexFront u info.spec.upcase).length + hexRoom info.spec.upcase (mantissa u) info.prec) :
    dtostr dtoa u buf info = none := by
  have hfin' : ¬ u &&& EXPOMASK = EXPOMASK := hfin
  obtain ⟨o, ho, hholds⟩ := signCheck_holds u buf hsign
  have hputs := puts_holds [chr '0', cased info.spec.upcase 'x', leadDigit (isNormal u) false, chr '.'] o buf.length _ hholds
  have hstart : signText u ++ [chr '0', cased info.spec.upcase 'x', leadDigit (isNormal u) false, chr '.'] =
      hexFront u info.spec.upcase ++ [leadDigit (isNormal u) false, chr '.'] := by simp [hexFront]
  rw [hstart] at hputs
  have hnone := hexDigits_outside info.spec.upcase (isNormal u) (mantissa u) info.prec _ buf.length
    (hexFront u info.spec.upcase) (mantissa_lt u) (by simp [hexFront]) hputs hne hroom
  have hformat : formatHex u info.spec.upcase info.prec o = none := by
    rw [formatHex_eq, hnone, Option.bind_none]
  unfold dtostr
  simp only [ho, if_neg hfin', if_pos hspec, hformat, Option.bind_eq_bind, Option.bind_some, Option.bind_none]

/-- INTERNAL: the dot of `%a` is the last character of a mantissa that does not fit.
SOURCE: dietlibc-printf.patch:3899-3966 -/
theorem hexMantissa_dot (u : BitVec 64) (upcase : Bool) (prec : Option ℕ) (size : ℕ)
    (hroom : hexRoom upcase (mantissa u) prec ≠ 0 → (hexFront u upcase).length + hexRoom upcase (mantissa u) prec ≤ size) :
    ((hexMantissa u upcase prec).getLast? = some (chr '.') → (hexMantissa u upcase prec).length ≤ size) ↔
      (prec = some 0 → (signText u).length + 3 < size) := by
  have hfront := hexFront_length u upcase
  have hlen : (hexMantissa u upcase prec).length =
      (signText u).length + 4 + (hexRow upcase (mantissa u) prec).2.length := by
    unfold hexMantissa
    rw [List.length_append, List.length_cons, List.length_cons, hfront]
    omega
  have hdot : chr '.' ∉ (hexRow upcase (mantissa u) prec).2 := by
    intro hmem
    exact absurd (hexRow_hex upcase (mantissa u) prec _ hmem) (by decide)
  have hlast : (hexMantissa u upcase prec).getLast? = some (chr '.') ↔ (hexRow upcase (mantissa u) prec).2 = [] := by
    have hiff := getLast?_dot_iff (hexFront u upcase ++ [leadDigit (isNormal u) (hexRow upcase (mantissa u) prec).1])
      (hexRow upcase (mantissa u) prec).2 hdot
    rw [List.append_assoc, List.singleton_append] at hiff
    exact hiff
  cases prec with
  | none =>
    have hfit := hroom (Nat.succ_ne_zero 14)
    have hfifteen : hexRoom upcase (mantissa u) none = 15 := rfl
    refine iff_of_true ?_ fun hnone => nomatch hnone
    intro hend
    rw [hlen, hlast.mp hend, List.length_nil]
    omega
  | some p =>
    have hrow := hexRow_length upcase (mantissa u) p (mantissa_lt u)
    rw [hlast, hlen, ← List.length_eq_zero_iff, hrow, Option.some.injEq]
    constructor
    · intro h hp
      have hle := h hp
      omega
    · intro h hp
      have hlt := h hp
      omega

/-- INTERNAL: **hexadecimal conversions.**
SOURCE: dietlibc-printf.patch:3876-3986 -/
theorem conforms_hex (dtoa : Dtoa) (u : BitVec 64) (info : Info) (buf : Bytes) (hfin : IsFinite u)
    (hspec : info.spec = .a ∨ info.spec = .A) (hsign : (signText u).length ≤ buf.length) :
    Conforms dtoa u info buf ↔
      (info.prec = some 0 → (signText u).length + 3 < buf.length) ∧
      (hexRoom info.spec.upcase (mantissa u) info.prec ≠ 0 →
        (hexFront u info.spec.upcase).length + hexRoom info.spec.upcase (mantissa u) info.prec ≤ buf.length) := by
  by_cases hroom : hexRoom info.spec.upcase (mantissa u) info.prec ≠ 0 →
      (hexFront u info.spec.upcase).length + hexRoom info.spec.upcase (mantissa u) info.prec ≤ buf.length
  · obtain ⟨o, hcall, hholds⟩ := dtostr_hex dtoa u info buf hfin hspec hsign hroom
    rw [conforms_iff_holds dtoa u info info buf _ o (prints_hexText dtoa u info hfin hspec) hcall,
      holds_cutDot_iff false o buf.length _ _ hholds, and_iff_left hroom,
      ← hexMantissa_dot u info.spec.upcase info.prec buf.length hroom]
    simp only [true_implies]
  · refine iff_of_false ?_ fun h => hroom h.2
    obtain ⟨hne, hsmall⟩ : hexRoom info.spec.upcase (mantissa u) info.prec ≠ 0 ∧
        ¬ (hexFront u info.spec.upcase).length + hexRoom info.spec.upcase (mantissa u) info.prec ≤ buf.length := by
      by_contra h
      exact hroom fun hne => not_not.mp fun hsmall => h ⟨hne, hsmall⟩
    exact not_conforms_of_none dtoa u info buf
      (dtostr_hex_outside dtoa u info buf hfin hspec hsign hne (Nat.lt_of_not_le hsmall))

/-! ## Decimal conversions -/

/-- A mantissa whose dot is at the place, with digits behind it or not. -/
def DotAt (dtoa : Dtoa) (u : BitVec 64) (info : Info) : Prop :=
  ∃ whole fraction, (layout dtoa u info).mantissa = whole ++ chr '.' :: fraction ∧ chr '.' ∉ fraction ∧
    (signText u).length + whole.length = dotPlace dtoa u info ∧
    (info.alt = false → (fraction = [] ↔ DotLast dtoa u info))

/-- INTERNAL: digits hold no point. -/
theorem dot_notMem (digits : Bytes) (h : ∀ c ∈ digits, isDecimal c = true) : chr '.' ∉ digits := by
  intro hmem
  exact absurd (h _ hmem) (by decide)

/-- INTERNAL: `%e`.
SOURCE: dietlibc-printf.patch:3996-4055 -/
theorem dotAt_e (dtoa : Dtoa) (hd : DtoaContract dtoa) (u : BitVec 64) (info : Info) (hfin : IsFinite u)
    (hspec : info.spec = .e ∨ info.spec = .E) : DotAt dtoa u info := by
  have hdigits := hd.digits u (precision info + 1) hfin
  refine ⟨_, _, mantissa_e dtoa u info hspec, dot_notMem _ (fractionPart_decimal _ 1 _ true hdigits), ?_, ?_⟩
  · rw [wholePart_length]
    unfold dotPlace
    rcases hspec with h | h <;> rw [h] <;> rfl
  · intro _
    have hlast : DotLast dtoa u info ↔ precision info = 0 := by
      unfold DotLast
      rcases hspec with h | h <;> rw [h]
    rw [hlast, ← List.length_eq_zero_iff, fractionPart_length]
    omega

/-- INTERNAL: `%f`.
SOURCE: dietlibc-printf.patch:3988-4055 -/
theorem dotAt_f (dtoa : Dtoa) (hd : DtoaContract dtoa) (u : BitVec 64) (info : Info) (hfin : IsFinite u)
    (hspec : info.spec = .f ∨ info.spec = .F) : DotAt dtoa u info := by
  have hplaces := hd.places u (precision info) hfin (by omega)
  have hdigits := hd.fixedDigits u (precision info) hfin (by omega)
  refine ⟨_, _, mantissa_f dtoa hd.toDtoaSpec u info hfin hspec, dot_notMem _ (fractionPart_decimal _ _ _ true hdigits),
    ?_, ?_⟩
  · rw [wholePart_length]
    unfold dotPlace
    rcases hspec with h | h <;> rw [h]
  · intro _
    have hlast : DotLast dtoa u info ↔ precision info = 0 := by
      unfold DotLast
      rcases hspec with h | h <;> rw [h]
    rw [hlast, ← List.length_eq_zero_iff, fractionPart_length]
    omega

/-- INTERNAL: the length of a fraction that is not filled up. -/
theorem fractionPart_bare_length (ds : Bytes) (point : ℤ) (left : ℕ) :
    (fractionPart ds point left false).length = (-point).toNat + min left (ds.length - point.toNat) := by
  unfold fractionPart
  simp

/-- INTERNAL: `%g`, in either style.
SOURCE: dietlibc-printf.patch:3992-4055 -/
theorem dotAt_g (dtoa : Dtoa) (hd : DtoaContract dtoa) (u : BitVec 64) (info : Info) (hfin : IsFinite u)
    (hspec : info.spec = .g ∨ info.spec = .G) : DotAt dtoa u info := by
  have hdigits := hd.digits u (precision info) hfin
  have hlength := hd.length u (precision info) hfin
  have hpos : 0 < (dtoa u 2 (precision info)).1.length := List.length_pos_iff.mpr (hd.nonempty u (precision info) hfin)
  by_cases hs : Scientific dtoa u info
  · refine ⟨_, _, mantissa_g_scientific dtoa u info hspec hs, dot_notMem _ (fractionPart_decimal _ 1 _ info.alt hdigits),
      ?_, ?_⟩
    · rw [wholePart_length]
      unfold dotPlace
      rcases hspec with h | h <;> simp only [h, if_pos hs] <;> rfl
    · intro halt
      have hlast : DotLast dtoa u info ↔ (dtoa u 2 (precision info)).1.length = 1 := by
        unfold DotLast
        rcases hspec with h | h <;> simp only [h, if_pos hs]
      have hroom : (dtoa u 2 (precision info)).1.length - 1 ≤
          (afterPoint (precision info) (dtoa u 2 (precision info)).2).toNat := by
        unfold Scientific at hs
        unfold afterPoint
        split_ifs <;> omega
      rw [hlast, halt, ← List.length_eq_zero_iff, fractionPart_bare_length, Int.toNat_one]
      omega
  · refine ⟨_, _, mantissa_g_fixed dtoa u info hspec hs, dot_notMem _ (fractionPart_decimal _ _ _ info.alt hdigits),
      ?_, ?_⟩
    · rw [wholePart_length]
      unfold dotPlace
      rcases hspec with h | h <;> simp only [h, if_neg hs]
    · intro halt
      have hlast : DotLast dtoa u info ↔
          ((dtoa u 2 (precision info)).1.length : ℤ) ≤ (dtoa u 2 (precision info)).2 ∨
            precision info = 0 ∧ (dtoa u 2 (precision info)).2 = 0 := by
        unfold DotLast
        rcases hspec with h | h <;> simp only [h, if_neg hs]
      unfold Scientific at hs
      rw [hlast, halt, ← List.length_eq_zero_iff, fractionPart_bare_length]
      split_ifs <;> omega

/-- INTERNAL: **decimal conversions.**
SOURCE: dietlibc-printf.patch:3988-4080 -/
theorem conforms_decimal (dtoa : Dtoa) (hd : DtoaContract dtoa) (u : BitVec 64) (info : Info) (buf : Bytes)
    (hfin : IsFinite u) (ha : info.spec ≠ .a) (hA : info.spec ≠ .A) (hsign : (signText u).length ≤ buf.length) :
    Conforms dtoa u info buf ↔ (info.alt = false → DotLast dtoa u info → dotPlace dtoa u info < buf.length) := by
  have hshape : DotAt dtoa u info := by
    cases hspec : info.spec with
    | a => exact absurd hspec ha
    | A => exact absurd hspec hA
    | e | E => exact dotAt_e dtoa hd u info hfin (by simp [hspec])
    | f | F => exact dotAt_f dtoa hd u info hfin (by simp [hspec])
    | g | G => exact dotAt_g dtoa hd u info hfin (by simp [hspec])
  obtain ⟨whole, fraction, hmantissa, hdot, hplace, hlast⟩ := hshape
  obtain ⟨o, hcall, hholds⟩ := dtostr_text dtoa u info buf hfin ha hA
    (layout_sound dtoa hd.toDtoaSpec u info hfin ha hA) hsign
  have hend := getLast?_dot_iff (signText u ++ whole) fraction hdot
  rw [conforms_iff_holds dtoa u info _ buf _ o
      (PrintfDecimal.prints_fullText dtoa hd.toDtoaSpec u info hfin ha hA) hcall]
  unfold fullText
  rw [holds_cutDot_iff info.alt o buf.length _ _ hholds, hmantissa, ← List.append_assoc, hend]
  apply forall_congr'
  intro halt
  rw [← hlast halt]
  apply forall_congr'
  intro hnil
  rw [hnil, List.length_append, List.length_append, List.length_singleton, hplace]
  exact Nat.lt_iff_add_one_le.symm

/-- **`__dtostr` conforms exactly if the buffer is large enough** for what is written, read or removed without regard to
its size.
SOURCE: dietlibc-printf.patch:3754-4080 -/
theorem conforms_iff_roomy (dtoa : Dtoa) (hd : DtoaContract dtoa) (u : BitVec 64) (info : Info) (buf : Bytes) :
    Conforms dtoa u info buf ↔ Roomy dtoa u info buf.length := by
  unfold Roomy
  by_cases hfin : IsFinite u
  · rw [if_pos hfin]
    by_cases hsign : (signText u).length ≤ buf.length
    · by_cases hspec : info.spec = .a ∨ info.spec = .A
      · have hremoves : RemovesDot info := by
          rcases hspec with h | h
          · exact Or.inl h
          · exact Or.inr (Or.inl h)
        have hlast : DotLast dtoa u info ↔ info.prec = some 0 := by
          unfold DotLast
          rcases hspec with h | h <;> rw [h]
        have hplace : dotPlace dtoa u info = (signText u).length + 3 := by
          unfold dotPlace
          rcases hspec with h | h <;> rw [h]
        rw [conforms_hex dtoa u info buf hfin hspec hsign, hlast, hplace, and_iff_right hsign]
        simp only [hremoves, hspec, true_implies]
      · have hremoves : RemovesDot info ↔ info.alt = false := by
          unfold RemovesDot
          rw [← or_assoc, or_iff_right hspec]
        rw [conforms_decimal dtoa hd u info buf hfin (fun h => hspec (Or.inl h)) (fun h => hspec (Or.inr h)) hsign,
          hremoves, and_iff_right hsign, and_iff_left (fun h => absurd h hspec)]
    · refine iff_of_false ?_ fun h => hsign h.1
      exact not_conforms_of_none dtoa u info buf (dtostr_none_of_sign dtoa u info buf (Nat.lt_of_not_le hsign))
  · rw [if_neg hfin]
    exact conforms_special dtoa u info buf hfin

/-- `%.2f` of the number 1, cut off after three of its four characters. -/
theorem conforms_iff_roomy_one :
    DtoaContract dtoaOne ∧ Conforms dtoaOne one ⟨some 2, .f, false, false, false⟩ (List.replicate 3 0) := by
  refine ⟨dtoaOne_contract, ?_⟩
  apply (conforms_iff_roomy dtoaOne dtoaOne_contract one ⟨some 2, .f, false, false, false⟩ (List.replicate 3 0)).mpr
  have hfin : IsFinite one := by decide
  rw [Roomy, if_pos hfin]
  refine ⟨by decide, ?_, ?_⟩
  · intro _ hlast
    exact absurd hlast (by show ¬ (2 = 0); decide)
  · intro hhex
    exact absurd hhex (by decide)

/-- **`%.0f` of the number 1 is counted as two characters in a buffer of one**, although its text is `1`; and `%a` of it
reads behind a buffer of eight.
SOURCE: dietlibc-printf.patch:3907, 4057-4058 -/
theorem dot_counted :
    DtoaContract dtoaOne ∧
      Prints dtoaOne one ⟨some 0, .f, false, false, false⟩ [chr '1'] ∧
      dtostr dtoaOne one [0] ⟨some 0, .f, false, false, false⟩ =
        some (⟨[chr '1'], 2⟩, ⟨some 0, .f, false, false, false⟩) ∧
      ¬ Conforms dtoaOne one ⟨some 0, .f, false, false, false⟩ [0] ∧
      dtostr dtoaOne one (List.replicate 8 0) ⟨none, .a, false, false, false⟩ = none := by
  have hprints : Prints dtoaOne one ⟨some 0, .f, false, false, false⟩ [chr '1'] :=
    PrintfDecimal.prints_fullText dtoaOne dtoaOne_spec one ⟨some 0, .f, false, false, false⟩ (by decide) (by decide)
      (by decide)
  have hcall : dtostr dtoaOne one [0] ⟨some 0, .f, false, false, false⟩ =
      some (⟨[chr '1'], 2⟩, ⟨some 0, .f, false, false, false⟩) := rfl
  refine ⟨dtoaOne_contract, hprints, hcall, ?_, ?_⟩
  · rw [conforms_iff_holds dtoaOne one _ _ [0] [chr '1'] _ hprints hcall]
    rintro ⟨-, hcount, -⟩
    exact absurd hcount (by decide)
  · exact dtostr_hex_outside dtoaOne one ⟨none, .a, false, false, false⟩ _ (by decide) (Or.inl rfl) (by decide) (by decide)
      (by decide)

end TTLinux.Analysis.PrintfBuffer
