import Mathlib.Tactic.Push
import TTLinux.Analysis.PrintfLayout

/-!
# Floating point conversions that do not fit at once

The floating point branch of `__v_printf` calls `__dtostr` again, with a larger buffer,
when its text was cut off. `__dtostr` has then already rewritten the conversion: `E`,
and `g` or `G` in the style of `e`, come back as `e`. `sameText_iff` says for which
numbers, precisions and flags the text is nevertheless the one of a single call.
-/

set_option autoImplicit false

namespace TTLinux.Analysis.PrintfRetry

open TTLinux.Lib
open TTLinux.Model.Printf
open TTLinux.Analysis.PrintfLayout

/-! ## What `dtoa` returns -/

/-- A decimal digit. -/
def IsDigit (c : UInt8) : Prop := chr '0' ≤ c ∧ c ≤ chr '9'

/-- The part of the description of `dtoa` that the branch relies on: mode 2 returns at least one
and at most `max(1,ndigits)` digits, mode 3 digits through `ndigits` past the point, and a double
has its decimal point within 400 places of its first digit.
SOURCE: dietlibc-printf.patch:3049-3081 -/
structure DtoaSpec (dtoa : Dtoa) : Prop where
  digits : ∀ u n, IsFinite u → ∀ c ∈ (dtoa u 2 n).1, IsDigit c
  nonempty : ∀ u n, IsFinite u → (dtoa u 2 n).1 ≠ []
  length : ∀ u n, IsFinite u → ((dtoa u 2 n).1.length : ℤ) ≤ max 1 n
  range : ∀ u n, IsFinite u → -400 ≤ (dtoa u 2 n).2 ∧ (dtoa u 2 n).2 ≤ 400
  places : ∀ u n, IsFinite u → 0 ≤ n → -n ≤ (dtoa u 3 n).2

/-- What a second call relies on besides: no zeros are left at the end where more digits are asked
for than the small integers have, whose digits are found by themselves.
SOURCE: dietlibc-printf.patch:3049-3066, 3388-3439 -/
structure RetryContract (dtoa : Dtoa) : Prop extends DtoaSpec dtoa where
  suppressed : ∀ u n, IsFinite u → 15 < n →
    (dtoa u 2 n).1 = [chr '0'] ∨ (dtoa u 2 n).1.getLast? ≠ some (chr '0')

/-! ## Layouts -/

/-- INTERNAL: a precision that reaches the first digit is enough for the digits.
SOURCE: dietlibc-printf.patch:4020-4037 -/
theorem restAfter_nonneg (ds : Bytes) (decpt preci : ℤ) (hneg : decpt ≤ 0 → 0 ≤ preci + decpt)
    (hpos : 0 < decpt → 0 ≤ preci) : 0 ≤ restAfter ds decpt preci := by
  unfold restAfter integerPart
  by_cases h : decpt ≤ 0
  · have hleft := hneg h
    simp only [if_pos h]
    unfold fractionDigits
    rw [if_neg (by omega), List.length_take]
    omega
  · have hleft := hpos (by omega)
    simp only [if_neg h]
    unfold fractionDigits
    rw [if_neg (by omega), List.length_take]
    omega

/-- `g` and `G` print in the style of `e`.
SOURCE: dietlibc-printf.patch:4010 -/
def Scientific (dtoa : Dtoa) (u : BitVec 64) (info : Info) : Prop :=
  (dtoa u 2 (precision info)).2 ≤ -4 ∨ precision info < (dtoa u 2 (precision info)).2

instance (dtoa : Dtoa) (u : BitVec 64) (info : Info) : Decidable (Scientific dtoa u info) :=
  inferInstanceAs (Decidable (_ ∨ _))

/-- The precision of `g` and `G` behind the first digit.
SOURCE: dietlibc-printf.patch:4011 -/
def afterPoint (preci decpt : ℤ) : ℤ := if decpt ≤ preci then preci - decpt else preci

/-- INTERNAL: the number of digits that are asked for is not negative. -/
theorem afterPoint_nonneg (preci decpt : ℤ) (h : 0 ≤ preci) : 0 ≤ afterPoint preci decpt := by
  unfold afterPoint
  split_ifs <;> omega

/-- INTERNAL: the conversions `e` and `E`.
SOURCE: dietlibc-printf.patch:3996-4075 -/
theorem layout_e (dtoa : Dtoa) (u : BitVec 64) (info : Info) (h : info.spec = .e ∨ info.spec = .E) :
    layout dtoa u info =
      ⟨mantissaText (dtoa u 2 (precision info + 1)).1 1 (precision info) true,
        exponentPart info.spec.upcase true (dtoa u 2 (precision info + 1)).2, .e, true,
        restAfter (dtoa u 2 (precision info + 1)).1 1 (precision info)⟩ := by
  unfold layout
  rcases h with h | h <;> rw [h] <;> simp [selectMode]

/-- INTERNAL: the conversions `f` and `F`.
SOURCE: dietlibc-printf.patch:3988-4075 -/
theorem layout_f (dtoa : Dtoa) (u : BitVec 64) (info : Info) (h : info.spec = .f ∨ info.spec = .F) :
    layout dtoa u info =
      ⟨mantissaText (dtoa u 3 (precision info)).1 (dtoa u 3 (precision info)).2 (precision info) true,
        [], info.spec, true,
        restAfter (dtoa u 3 (precision info)).1 (dtoa u 3 (precision info)).2 (precision info)⟩ := by
  unfold layout
  rcases h with h | h <;> rw [h] <;> simp [selectMode]

/-- INTERNAL: the conversions `g` and `G` in the style of `f`.
SOURCE: dietlibc-printf.patch:3992-4075 -/
theorem layout_g_fixed (dtoa : Dtoa) (u : BitVec 64) (info : Info) (h : info.spec = .g ∨ info.spec = .G)
    (hs : ¬ Scientific dtoa u info) :
    layout dtoa u info =
      ⟨mantissaText (dtoa u 2 (precision info)).1 (dtoa u 2 (precision info)).2
          (precision info - (dtoa u 2 (precision info)).2) info.alt,
        [], .g, info.alt,
        restAfter (dtoa u 2 (precision info)).1 (dtoa u 2 (precision info)).2
          (precision info - (dtoa u 2 (precision info)).2)⟩ := by
  unfold Scientific at hs
  have hle : (dtoa u 2 (precision info)).2 ≤ precision info := by omega
  unfold layout
  rcases h with h | h <;> rw [h] <;> simp [selectMode, hs, hle]

/-- INTERNAL: the conversions `g` and `G` in the style of `e`.
SOURCE: dietlibc-printf.patch:3992-4075 -/
theorem layout_g_scientific (dtoa : Dtoa) (u : BitVec 64) (info : Info)
    (h : info.spec = .g ∨ info.spec = .G) (hs : Scientific dtoa u info) :
    layout dtoa u info =
      ⟨mantissaText (dtoa u 2 (precision info)).1 1
          (afterPoint (precision info) (dtoa u 2 (precision info)).2) info.alt,
        exponentPart info.spec.upcase false (dtoa u 2 (precision info)).2, .e, info.alt,
        restAfter (dtoa u 2 (precision info)).1 1
          (afterPoint (precision info) (dtoa u 2 (precision info)).2)⟩ := by
  unfold Scientific at hs
  unfold layout afterPoint
  rcases h with h | h <;> rw [h] <;> simp [selectMode, hs]

/-- INTERNAL: the precision is enough for the digits of every conversion.
SOURCE: dietlibc-printf.patch:3988-4055 -/
theorem layout_sound (dtoa : Dtoa) (hd : DtoaSpec dtoa) (u : BitVec 64) (info : Info) (hfin : IsFinite u)
    (ha : info.spec ≠ .a) (hA : info.spec ≠ .A) : (layout dtoa u info).Sound := by
  intro _
  cases hspec : info.spec with
  | a => exact absurd hspec ha
  | A => exact absurd hspec hA
  | e | E =>
    rw [layout_e dtoa u info (by simp [hspec])]
    exact restAfter_nonneg _ 1 (precision info) (by omega) (by omega)
  | f | F =>
    have hplaces := hd.places u (precision info) hfin (by omega)
    rw [layout_f dtoa u info (by simp [hspec])]
    exact restAfter_nonneg _ _ _ (by omega) (by omega)
  | g | G =>
    by_cases hs : Scientific dtoa u info
    · rw [layout_g_scientific dtoa u info (by simp [hspec]) hs]
      have hafter := afterPoint_nonneg (precision info) (dtoa u 2 (precision info)).2 (by omega)
      exact restAfter_nonneg _ 1 (afterPoint _ _) (by omega) (by omega)
    · rw [layout_g_fixed dtoa u info (by simp [hspec]) hs]
      unfold Scientific at hs
      exact restAfter_nonneg _ _ _ (by omega) (by omega)

/-! ## Calls -/

/-- The sign that the flags ask for.
SOURCE: dietlibc-printf.patch:370-374 -/
def flagText (u : BitVec 64) (info : Info) : Bytes :=
  if (info.showsign || info.space) && nonneg u then [if info.showsign then chr '+' else chr ' '] else []

/-- INTERNAL: what is handed over of a text that fits.
SOURCE: dietlibc-printf.patch:370-374 -/
theorem handedText_holds (u : BitVec 64) (info : Info) (o : Out) (size : ℕ) (t : Bytes)
    (h : Holds o size t) (hfit : t.length ≤ size) : handedText u info o = flagText u info ++ t := by
  obtain ⟨-, hret, htake⟩ := h
  unfold handedText flagText
  rw [hret, htake, List.take_of_length_le hfit]

/-- INTERNAL: one round from `tryagain` on.
SOURCE: dietlibc-printf.patch:323-374 -/
theorem tryagain_succ (dtoa : Dtoa) (hd : DtoaSpec dtoa) (u : BitVec 64) (info : Info) (hfin : IsFinite u)
    (ha : info.spec ≠ .a) (hA : info.spec ≠ .A) (memory : ℕ → ℕ → UInt8) (calls k size : ℕ)
    (hsize : 0 < size) :
    tryagain dtoa u memory (calls + 1) k (size + 1) info =
      if size < (textFor dtoa u info size).length then
        tryagain dtoa u memory calls (k + 1) ((textFor dtoa u info size).length + 1)
          { info with spec := (layout dtoa u info).spec }
      else some (flagText u info ++ fullText dtoa u info) := by
  have hlen : ((List.range size).map (memory k)).length = size := by simp
  have hsign := signText_length u
  obtain ⟨o, ho, h⟩ := dtostr_text dtoa u info ((List.range size).map (memory k)) hfin ha hA
    (layout_sound dtoa hd u info hfin ha hA) (by omega)
  rw [hlen] at h
  rw [tryagain]
  simp only [Nat.add_sub_cancel, ho, Option.bind_eq_bind, Option.bind_some, h.2.1]
  by_cases hfit : size < (textFor dtoa u info size).length
  · rw [if_pos hfit, if_pos hfit]
  · rw [if_neg hfit, if_neg hfit, handedText_holds u _ o size _ h (by omega),
      textFor_of_fits dtoa u info size (by omega)]
    rfl

/-- INTERNAL: a conversion that is repeated as it is prints its text after two calls.
SOURCE: dietlibc-printf.patch:323-374 -/
theorem tryagain_stable (dtoa : Dtoa) (hd : DtoaSpec dtoa) (u : BitVec 64) (info : Info)
    (hfin : IsFinite u) (ha : info.spec ≠ .a) (hA : info.spec ≠ .A)
    (hspec : (layout dtoa u info).spec ≠ .a ∧ (layout dtoa u info).spec ≠ .A)
    (hstable : layout dtoa u { info with spec := (layout dtoa u info).spec } = layout dtoa u info)
    (memory : ℕ → ℕ → UInt8) (calls k size : ℕ) (hsize : 0 < size) (hcalls : 2 ≤ calls) :
    tryagain dtoa u memory calls k (size + 1) info =
      some (flagText u info ++ fullText dtoa u info) := by
  obtain ⟨c, rfl⟩ : ∃ c, calls = c + 1 + 1 := ⟨calls - 2, by omega⟩
  rw [tryagain_succ dtoa hd u info hfin ha hA memory (c + 1) k size hsize]
  by_cases hfit : size < (textFor dtoa u info size).length
  · obtain ⟨heq, hle⟩ := textFor_retry dtoa u info size hfit
    have htext : ∀ n, textFor dtoa u { info with spec := (layout dtoa u info).spec } n =
        textFor dtoa u info n := by
      intro n
      unfold textFor
      rw [hstable]
    have hfull : fullText dtoa u { info with spec := (layout dtoa u info).spec } =
        fullText dtoa u info := by
      unfold fullText
      rw [hstable]
    rw [if_pos hfit, tryagain_succ dtoa hd u _ hfin hspec.1 hspec.2 memory c (k + 1) _ (by omega),
      htext, heq, hfull, if_neg (by omega)]
    rfl
  · rw [if_neg hfit]

/-- INTERNAL: a conversion that comes back as `e` prints its own text only if it fits at once.
SOURCE: dietlibc-printf.patch:323-374 -/
theorem tryagain_rewritten (dtoa : Dtoa) (hd : DtoaSpec dtoa) (u : BitVec 64) (info : Info)
    (hfin : IsFinite u) (ha : info.spec ≠ .a) (hA : info.spec ≠ .A) (hspec : (layout dtoa u info).spec = .e)
    (memory : ℕ → ℕ → UInt8) (calls k size : ℕ) (hsize : 0 < size) (hcalls : 3 ≤ calls) :
    tryagain dtoa u memory calls k (size + 1) info =
      some (flagText u info ++ if size < (textFor dtoa u info size).length then
        fullText dtoa u { info with spec := .e } else fullText dtoa u info) := by
  obtain ⟨c, rfl⟩ : ∃ c, calls = c + 1 := ⟨calls - 1, by omega⟩
  rw [tryagain_succ dtoa hd u info hfin ha hA memory c k size hsize, hspec]
  by_cases hfit : size < (textFor dtoa u info size).length
  · have hlayout := layout_e dtoa u { info with spec := .e } (Or.inl rfl)
    have he : (layout dtoa u { info with spec := .e }).spec = .e := by rw [hlayout]
    rw [if_pos hfit, if_pos hfit]
    refine tryagain_stable dtoa hd u { info with spec := .e } hfin (by simp) (by simp) ?_ ?_ memory c
      (k + 1) _ (by omega) (by omega)
    · rw [he]
      simp
    · rw [he]
  · rw [if_neg hfit, if_neg hfit]

/-! ## One call and the branch -/

/-- One call of `__dtostr` with any buffer that is large enough gives this text.
SOURCE: dietlibc-printf.patch:323-374 -/
def OneCall (dtoa : Dtoa) (u : BitVec 64) (info : Info) (text : Bytes) : Prop :=
  ∃ n₀, ∀ buf : Bytes, n₀ ≤ buf.length →
    ∃ o info', dtostr dtoa u buf info = some (o, info') ∧ handedText u info' o = text

/-- The branch ends with this text, whatever its buffers held before.
SOURCE: dietlibc-printf.patch:323-374 -/
def Branch (dtoa : Dtoa) (u : BitVec 64) (bufsiz : ℕ) (info : Info) (text : Bytes) : Prop :=
  ∃ n₀, ∀ calls, n₀ ≤ calls → ∀ memory, tryagain dtoa u memory calls 0 bufsiz info = some text

/-- The branch ends with the text of one call. -/
def SameText (dtoa : Dtoa) (u : BitVec 64) (bufsiz : ℕ) (info : Info) : Prop :=
  ∃ text, OneCall dtoa u info text ∧ Branch dtoa u bufsiz info text

/-- INTERNAL: the text of one call.
SOURCE: dietlibc-printf.patch:3761-4080 -/
theorem oneCall_fullText (dtoa : Dtoa) (hd : DtoaSpec dtoa) (u : BitVec 64) (info : Info)
    (hfin : IsFinite u) (ha : info.spec ≠ .a) (hA : info.spec ≠ .A) :
    OneCall dtoa u info (flagText u info ++ fullText dtoa u info) := by
  refine ⟨(signText u ++ (layout dtoa u info).mantissa).length + (fullText dtoa u info).length + 1, ?_⟩
  intro buf hbuf
  have hsign := signText_length u
  obtain ⟨o, ho, h⟩ := dtostr_text dtoa u info buf hfin ha hA (layout_sound dtoa hd u info hfin ha hA)
    (by omega)
  have htext : textFor dtoa u info buf.length = fullText dtoa u info := by
    unfold textFor fullText
    rw [cutDot_of_le _ _ _ (by omega)]
  rw [htext] at h
  exact ⟨o, _, ho, handedText_holds u _ o buf.length _ h (by omega)⟩

/-- INTERNAL: one call has one text. -/
theorem oneCall_unique (dtoa : Dtoa) (u : BitVec 64) (info : Info) (t₁ t₂ : Bytes)
    (h₁ : OneCall dtoa u info t₁) (h₂ : OneCall dtoa u info t₂) : t₁ = t₂ := by
  obtain ⟨n₁, h₁⟩ := h₁
  obtain ⟨n₂, h₂⟩ := h₂
  obtain ⟨o₁, i₁, hd₁, ht₁⟩ := h₁ (List.replicate (n₁ + n₂) 0) (by simp)
  obtain ⟨o₂, i₂, hd₂, ht₂⟩ := h₂ (List.replicate (n₁ + n₂) 0) (by simp)
  obtain ⟨rfl, rfl⟩ : o₁ = o₂ ∧ i₁ = i₂ := by simpa [hd₁] using hd₂
  exact ht₁.symm.trans ht₂

/-- INTERNAL: the branch has one text. -/
theorem branch_unique (dtoa : Dtoa) (u : BitVec 64) (bufsiz : ℕ) (info : Info) (t₁ t₂ : Bytes)
    (h₁ : Branch dtoa u bufsiz info t₁) (h₂ : Branch dtoa u bufsiz info t₂) : t₁ = t₂ := by
  obtain ⟨n₁, h₁⟩ := h₁
  obtain ⟨n₂, h₂⟩ := h₂
  have hsome := (h₁ (n₁ + n₂) (by omega) fun _ _ => 0).symm.trans (h₂ (n₁ + n₂) (by omega) fun _ _ => 0)
  exact Option.some.inj hsome

/-- INTERNAL: the branch keeps the text exactly if what it ends with is the text of one call. -/
theorem sameText_iff_eq (dtoa : Dtoa) (u : BitVec 64) (bufsiz : ℕ) (info : Info) (t₁ t₂ : Bytes)
    (h₁ : OneCall dtoa u info t₁) (h₂ : Branch dtoa u bufsiz info t₂) :
    SameText dtoa u bufsiz info ↔ t₂ = t₁ := by
  constructor
  · intro ⟨t, ht₁, ht₂⟩
    rw [oneCall_unique dtoa u info t₁ t h₁ ht₁, branch_unique dtoa u bufsiz info t₂ t h₂ ht₂]
  · intro heq
    exact ⟨t₁, h₁, heq ▸ h₂⟩

/-- INTERNAL: numbers that are not finite always fit.
SOURCE: dietlibc-printf.patch:3819-3830 -/
theorem sameText_special (dtoa : Dtoa) (u : BitVec 64) (size : ℕ) (info : Info) (hfin : ¬ IsFinite u)
    (hsize : 4 ≤ size) : SameText dtoa u (size + 1) info := by
  have hlen := specialText_length u info.spec.upcase
  refine ⟨flagText u info ++ specialText u info.spec.upcase, ⟨4, ?_⟩, 1, ?_⟩
  · intro buf hbuf
    obtain ⟨o, ho, h⟩ := dtostr_special dtoa u info buf hfin (by omega)
    exact ⟨o, info, ho, handedText_holds u info o buf.length _ h (by omega)⟩
  · intro calls hcalls memory
    obtain ⟨c, rfl⟩ : ∃ c, calls = c + 1 := ⟨calls - 1, by omega⟩
    have hbuf : ((List.range size).map (memory 0)).length = size := by simp
    obtain ⟨o, ho, h⟩ := dtostr_special dtoa u info ((List.range size).map (memory 0)) hfin (by omega)
    rw [hbuf] at h
    rw [tryagain]
    simp only [Nat.add_sub_cancel, ho, Option.bind_eq_bind, Option.bind_some, h.2.1]
    rw [if_neg (by omega), handedText_holds u info o size _ h (by omega)]

/-! ## The style of `e` -/

/-- INTERNAL: different digits have different characters. -/
theorem digitChar_inj (m n : ℕ) (hm : m < 10) (hn : n < 10) (h : digitChar m = digitChar n) : m = n := by
  have hnat := congrArg UInt8.toNat h
  unfold digitChar at hnat
  simp at hnat
  omega

/-- The digits of an exponent.
SOURCE: dietlibc-printf.patch:4068-4073 -/
def exponentDigits (n : ℕ) : Bytes :=
  (if 99 < n then [digitChar (n / 100)] else []) ++ [digitChar (n % 100 / 10), digitChar (n % 10)]

/-- INTERNAL: exponents below 1000 are told apart. -/
theorem exponentDigits_inj (m n : ℕ) (hm : m < 1000) (hn : n < 1000)
    (h : exponentDigits m = exponentDigits n) : m = n := by
  unfold exponentDigits at h
  by_cases h₁ : 99 < m <;> by_cases h₂ : 99 < n
  · simp only [if_pos h₁, if_pos h₂, List.cons_append, List.nil_append, List.cons.injEq] at h
    have h100 := digitChar_inj (m / 100) (n / 100) (by omega) (by omega) h.1
    have h10 := digitChar_inj (m % 100 / 10) (n % 100 / 10) (by omega) (by omega) h.2.1
    have h1 := digitChar_inj (m % 10) (n % 10) (by omega) (by omega) h.2.2.1
    omega
  · simp [h₁, h₂] at h
  · simp [h₁, h₂] at h
  · simp only [if_neg h₁, if_neg h₂, List.nil_append, List.cons.injEq] at h
    have h10 := digitChar_inj (m % 100 / 10) (n % 100 / 10) (by omega) (by omega) h.1
    have h1 := digitChar_inj (m % 10) (n % 10) (by omega) (by omega) h.2.1
    omega

/-- INTERNAL: an exponent that is printed.
SOURCE: dietlibc-printf.patch:4060-4075 -/
theorem exponentPart_eq (upcase keep : Bool) (decpt : ℤ) (h : keep = true ∨ decpt ≠ 1) :
    exponentPart upcase keep decpt = cased upcase 'e' :: (if decpt ≤ 0 then chr '-' else chr '+') ::
      exponentDigits (decpt - 1).natAbs := by
  have hn : (if decpt ≤ 0 then (-decpt + 1).toNat else (decpt - 1).toNat) = (decpt - 1).natAbs := by
    split_ifs <;> omega
  unfold exponentPart exponentDigits
  simp only [hn]
  rw [if_pos]
  · simp
  · rcases h with h | h
    · exact Or.inl h
    · right
      omega

/-- INTERNAL: printed exponents are told apart, and so are their letters.
SOURCE: dietlibc-printf.patch:4060-4075 -/
theorem exponentPart_inj (up₁ up₂ keep₁ keep₂ : Bool) (d₁ d₂ : ℤ) (h₁ : keep₁ = true ∨ d₁ ≠ 1)
    (h₂ : keep₂ = true ∨ d₂ ≠ 1) (hr₁ : -400 ≤ d₁ ∧ d₁ ≤ 400) (hr₂ : -400 ≤ d₂ ∧ d₂ ≤ 400)
    (h : exponentPart up₁ keep₁ d₁ = exponentPart up₂ keep₂ d₂) : up₁ = up₂ ∧ d₁ = d₂ := by
  rw [exponentPart_eq up₁ keep₁ d₁ h₁, exponentPart_eq up₂ keep₂ d₂ h₂] at h
  simp only [List.cons.injEq] at h
  obtain ⟨he, hs, hdig⟩ := h
  have habs := exponentDigits_inj _ _ (by omega) (by omega) hdig
  have hup : up₁ = up₂ := by
    revert he
    cases up₁ <;> cases up₂ <;> decide
  refine ⟨hup, ?_⟩
  have hmp : chr '-' ≠ chr '+' := by decide
  by_cases hd₁ : d₁ ≤ 0 <;> by_cases hd₂ : d₂ ≤ 0
  · omega
  · rw [if_pos hd₁, if_neg hd₂] at hs
    exact absurd hs hmp
  · rw [if_neg hd₁, if_pos hd₂] at hs
    exact absurd hs.symm hmp
  · omega

/-- INTERNAL: the length of an exponent.
SOURCE: dietlibc-printf.patch:4060-4075 -/
theorem exponentPart_length (upcase keep : Bool) (decpt : ℤ) :
    (exponentPart upcase keep decpt).length =
      if keep = true ∨ decpt ≠ 1 then if 99 < (decpt - 1).natAbs then 5 else 4 else 0 := by
  by_cases h : keep = true ∨ decpt ≠ 1
  · rw [exponentPart_eq upcase keep decpt h, if_pos h]
    unfold exponentDigits
    split_ifs <;> simp
  · push Not at h
    obtain ⟨hkeep, rfl⟩ := h
    unfold exponentPart
    simp [hkeep]

/-- The digits behind the point. -/
def fraction (ds : Bytes) (preci : ℕ) (keep : Bool) : Bytes :=
  (ds.drop 1).take preci ++
    if keep then List.replicate (preci - (ds.length - 1)) (chr '0') else []

/-- The point and what follows, or nothing. -/
def pointed (alt : Bool) (digits : Bytes) : Bytes :=
  if alt = true ∨ digits ≠ [] then chr '.' :: digits else []

/-- INTERNAL: the mantissa of style `e`.
SOURCE: dietlibc-printf.patch:4019-4055 -/
theorem mantissaText_one (ds : Bytes) (preci : ℕ) (keep : Bool) (hds : ds ≠ []) :
    mantissaText ds 1 preci keep = ds.take 1 ++ chr '.' :: fraction ds preci keep := by
  have hlen : 0 < ds.length := List.length_pos_iff.mpr hds
  have hpad : 1 - ds.length = 0 := by omega
  unfold mantissaText restAfter integerPart fractionDigits fraction
  simp only [show ¬ (1 : ℤ) ≤ 0 by omega, show ¬ (preci : ℤ) < 0 by omega, if_false, hpad,
    Int.toNat_natCast, List.replicate_zero, List.append_nil, List.length_take, List.length_drop,
    Int.toNat_one, List.append_assoc, List.singleton_append]
  have hrest : ((preci : ℤ) - (min preci (ds.length - 1) : ℕ)).toNat = preci - (ds.length - 1) := by omega
  rw [hrest]
  rfl

/-- INTERNAL: only digits follow the point.
SOURCE: dietlibc-printf.patch:4034-4055 -/
theorem fraction_digits (ds : Bytes) (preci : ℕ) (keep : Bool) (hds : ∀ c ∈ ds, IsDigit c) :
    ∀ c ∈ fraction ds preci keep, IsDigit c := by
  intro c hc
  rcases List.mem_append.mp hc with hc | hc
  · exact hds c (List.mem_of_mem_drop (List.mem_of_mem_take hc))
  · cases keep with
    | false => simp at hc
    | true =>
      rw [List.eq_of_mem_replicate hc]
      unfold IsDigit
      decide

/-- INTERNAL: how many digits follow the point.
SOURCE: dietlibc-printf.patch:4034-4055 -/
theorem fraction_length (ds : Bytes) (preci : ℕ) (keep : Bool) :
    (fraction ds preci keep).length = if keep then preci else min preci (ds.length - 1) := by
  unfold fraction
  cases keep with
  | false => simp
  | true =>
    simp only [if_true, List.length_append, List.length_take, List.length_drop, List.length_replicate]
    omega

/-- INTERNAL: the point counts if it is printed.
SOURCE: dietlibc-printf.patch:4057-4058 -/
theorem pointed_length (alt : Bool) (digits : Bytes) :
    (pointed alt digits).length = if alt = true ∨ digits.length ≠ 0 then digits.length + 1 else 0 := by
  unfold pointed
  simp only [ne_eq, List.length_eq_zero_iff]
  split_ifs <;> simp

/-- INTERNAL: a dot at the end is removed unless the flag `#` is given.
SOURCE: dietlibc-printf.patch:4057-4058 -/
theorem cutDot_pointed (alt : Bool) (front digits : Bytes) (hdig : ∀ c ∈ digits, IsDigit c) :
    cutDot alt (front ++ chr '.' :: digits).length (front ++ chr '.' :: digits) =
      front ++ pointed alt digits := by
  have hdot : chr '.' ∉ digits := by
    intro hmem
    have hd := hdig _ hmem
    revert hd
    unfold IsDigit
    decide
  unfold cutDot pointed
  simp only [lt_irrefl, or_false]
  cases alt with
  | true => simp
  | false =>
    rw [if_neg Bool.false_ne_true, withoutDot_point front digits hdot]
    by_cases hnil : digits = []
    · simp [hnil]
    · simp [hnil]

/-- INTERNAL: the text of a conversion in the style of `e`.
SOURCE: dietlibc-printf.patch:4019-4075 -/
theorem fullText_of_mantissa (dtoa : Dtoa) (u : BitVec 64) (info : Info) (ds : Bytes) (preci : ℕ)
    (keep : Bool) (hds : ds ≠ []) (hdig : ∀ c ∈ ds, IsDigit c)
    (hmant : (layout dtoa u info).mantissa = mantissaText ds 1 preci keep) :
    fullText dtoa u info = signText u ++
      (ds.take 1 ++ pointed info.alt (fraction ds preci keep) ++ (layout dtoa u info).exponent) := by
  unfold fullText
  rw [hmant, mantissaText_one ds preci keep hds, ← List.append_assoc,
    cutDot_pointed info.alt (signText u ++ ds.take 1) _ (fraction_digits ds preci keep hdig)]
  simp only [List.append_assoc]

/-- The number of characters that the style of `e` takes: the sign, a digit, the point and the
digits behind it, and the exponent.
SOURCE: dietlibc-printf.patch:4019-4075 -/
def scientificLength (u : BitVec 64) (alt : Bool) (after : ℕ) (keep : Bool) (decpt : ℤ) : ℕ :=
  (signText u).length + 1 + (if alt = true ∨ after ≠ 0 then after + 1 else 0) +
    if keep = true ∨ decpt ≠ 1 then if 99 < (decpt - 1).natAbs then 5 else 4 else 0

/-- INTERNAL: the length of a text in the style of `e`.
SOURCE: dietlibc-printf.patch:4019-4075 -/
theorem scientific_length (u : BitVec 64) (alt upcase keep keep' : Bool) (ds : Bytes) (preci : ℕ)
    (decpt : ℤ) (hds : ds ≠ []) :
    (signText u ++ (ds.take 1 ++ pointed alt (fraction ds preci keep) ++
      exponentPart upcase keep' decpt)).length =
      scientificLength u alt (if keep then preci else min preci (ds.length - 1)) keep' decpt := by
  have hone : (ds.take 1).length = 1 := by
    have hlen : 0 < ds.length := List.length_pos_iff.mpr hds
    rw [List.length_take]
    omega
  unfold scientificLength
  simp only [List.length_append]
  rw [exponentPart_length, pointed_length, fraction_length, hone]
  omega

/-! ## Which conversions keep their text -/

/-- INTERNAL: with an exponent, or a mantissa that fits, the branch goes back exactly if the text
does not fit.
SOURCE: dietlibc-printf.patch:342-348 -/
theorem textFor_fits_iff (dtoa : Dtoa) (u : BitVec 64) (info : Info) (size : ℕ)
    (h : (layout dtoa u info).exponent ≠ [] ∨
      (signText u ++ (layout dtoa u info).mantissa).length ≤ size) :
    size < (textFor dtoa u info size).length ↔ size < (fullText dtoa u info).length := by
  unfold textFor fullText
  generalize signText u ++ (layout dtoa u info).mantissa = m at h ⊢
  generalize (layout dtoa u info).exponent = x at h ⊢
  by_cases hlt : size < m.length
  · have hexp : 0 < x.length := by
      rcases h with h | h
      · exact List.length_pos_iff.mpr h
      · omega
    have hcut := length_le_cutDot info.alt m.length m
    rw [cutDot_of_lt _ _ _ hlt, List.length_append, List.length_append]
    omega
  · rw [cutDot_of_le _ _ _ (by omega)]

/-- INTERNAL: a conversion that stays what it is.
SOURCE: dietlibc-printf.patch:323-374 -/
theorem sameText_stable (dtoa : Dtoa) (hd : DtoaSpec dtoa) (u : BitVec 64) (size : ℕ) (info : Info)
    (hfin : IsFinite u) (ha : info.spec ≠ .a) (hA : info.spec ≠ .A)
    (hspec : (layout dtoa u info).spec ≠ .a ∧ (layout dtoa u info).spec ≠ .A)
    (hstable : layout dtoa u { info with spec := (layout dtoa u info).spec } = layout dtoa u info)
    (hsize : 0 < size) : SameText dtoa u (size + 1) info := by
  refine ⟨_, oneCall_fullText dtoa hd u info hfin ha hA, 2, ?_⟩
  intro calls hcalls memory
  exact tryagain_stable dtoa hd u info hfin ha hA hspec hstable memory calls 0 size hsize hcalls

/-- INTERNAL: a conversion that comes back as `e`.
SOURCE: dietlibc-printf.patch:323-374 -/
theorem sameText_rewritten_iff (dtoa : Dtoa) (hd : DtoaSpec dtoa) (u : BitVec 64) (size : ℕ)
    (info : Info) (hfin : IsFinite u) (ha : info.spec ≠ .a) (hA : info.spec ≠ .A)
    (hspec : (layout dtoa u info).spec = .e) (hsize : 0 < size)
    (hfit : (layout dtoa u info).exponent ≠ [] ∨
      (signText u ++ (layout dtoa u info).mantissa).length ≤ size) :
    SameText dtoa u (size + 1) info ↔ (fullText dtoa u info).length ≤ size ∨
      size < (fullText dtoa u info).length ∧
        fullText dtoa u { info with spec := .e } = fullText dtoa u info := by
  have hbranch : Branch dtoa u (size + 1) info (flagText u info ++
      if size < (textFor dtoa u info size).length then fullText dtoa u { info with spec := .e }
      else fullText dtoa u info) := by
    refine ⟨3, ?_⟩
    intro calls hcalls memory
    exact tryagain_rewritten dtoa hd u info hfin ha hA hspec memory calls 0 size hsize hcalls
  rw [sameText_iff_eq dtoa u (size + 1) info _ _ (oneCall_fullText dtoa hd u info hfin ha hA) hbranch,
    List.append_cancel_left_eq]
  simp only [textFor_fits_iff dtoa u info size hfit]
  by_cases hlt : size < (fullText dtoa u info).length
  · simp [hlt]
  · simp [hlt, Nat.not_lt.mp hlt]

/-- INTERNAL: a digit is no letter. -/
theorem not_isDigit_cased (upcase : Bool) : ¬ (IsDigit (cased upcase 'e') ∨ cased upcase 'e' = chr '.') := by
  unfold IsDigit
  cases upcase <;> decide

/-- INTERNAL: two texts in the style of `e` agree only if their mantissas and exponents do.
SOURCE: dietlibc-printf.patch:4019-4075 -/
theorem scientific_inj (alt up₁ up₂ keep₁ keep₂ tz₁ tz₂ : Bool) (ds₁ ds₂ : Bytes) (p₁ p₂ : ℕ) (d₁ d₂ : ℤ)
    (hds₁ : ds₁ ≠ []) (hds₂ : ds₂ ≠ []) (hdig₁ : ∀ c ∈ ds₁, IsDigit c) (hdig₂ : ∀ c ∈ ds₂, IsDigit c)
    (hr₁ : -400 ≤ d₁ ∧ d₁ ≤ 400) (hr₂ : -400 ≤ d₂ ∧ d₂ ≤ 400)
    (hx₁ : tz₁ = true ∨ d₁ ≠ 1) (hx₂ : tz₂ = true ∨ d₂ ≠ 1)
    (h : ds₁.take 1 ++ pointed alt (fraction ds₁ p₁ keep₁) ++ exponentPart up₁ tz₁ d₁ =
      ds₂.take 1 ++ pointed alt (fraction ds₂ p₂ keep₂) ++ exponentPart up₂ tz₂ d₂) :
    (up₁ = up₂ ∧ d₁ = d₂) ∧ ds₁.take 1 = ds₂.take 1 ∧
      pointed alt (fraction ds₁ p₁ keep₁) = pointed alt (fraction ds₂ p₂ keep₂) := by
  classical
  have hmant : ∀ (ds : Bytes) (p : ℕ) (keep : Bool), (∀ c ∈ ds, IsDigit c) →
      ∀ c ∈ ds.take 1 ++ pointed alt (fraction ds p keep),
        decide (IsDigit c ∨ c = chr '.') = true := by
    intro ds p keep hdig c hc
    rw [decide_eq_true_eq]
    rcases List.mem_append.mp hc with hc | hc
    · exact Or.inl (hdig c (List.mem_of_mem_take hc))
    · unfold pointed at hc
      split_ifs at hc
      · rcases List.mem_cons.mp hc with rfl | hc
        · exact Or.inr rfl
        · exact Or.inl (fraction_digits ds p keep hdig c hc)
      · simp at hc
  have hexp : ∀ (up tz : Bool) (d : ℤ), tz = true ∨ d ≠ 1 →
      ∀ c ∈ (exponentPart up tz d).head?, decide (IsDigit c ∨ c = chr '.') = false := by
    intro up tz d hx c hc
    rw [exponentPart_eq up tz d hx] at hc
    obtain rfl : cased up 'e' = c := by simpa using hc
    exact decide_eq_false (not_isDigit_cased up)
  obtain ⟨hm, hx⟩ := append_inj_of_stop (fun c => decide (IsDigit c ∨ c = chr '.')) _ _ _ _
    (hmant ds₁ p₁ keep₁ hdig₁) (hmant ds₂ p₂ keep₂ hdig₂) (hexp up₁ tz₁ d₁ hx₁) (hexp up₂ tz₂ d₂ hx₂) h
  refine ⟨exponentPart_inj up₁ up₂ tz₁ tz₂ d₁ d₂ hx₁ hx₂ hr₁ hr₂ hx, ?_⟩
  have hlen₁ : 0 < ds₁.length := List.length_pos_iff.mpr hds₁
  have hlen₂ : 0 < ds₂.length := List.length_pos_iff.mpr hds₂
  exact List.append_inj hm (by rw [List.length_take, List.length_take]; omega)

/-- INTERNAL: the text of `e` and `E`.
SOURCE: dietlibc-printf.patch:3996-4075 -/
theorem fullText_e (dtoa : Dtoa) (hd : DtoaSpec dtoa) (u : BitVec 64) (info : Info) (hfin : IsFinite u)
    (hspec : info.spec = .e ∨ info.spec = .E) :
    fullText dtoa u info = signText u ++ ((dtoa u 2 (precision info + 1)).1.take 1 ++
      pointed info.alt (fraction (dtoa u 2 (precision info + 1)).1 (precision info) true) ++
      exponentPart info.spec.upcase true (dtoa u 2 (precision info + 1)).2) := by
  have hlayout := layout_e dtoa u info hspec
  rw [fullText_of_mantissa dtoa u info (dtoa u 2 (precision info + 1)).1 (precision info) true
    (hd.nonempty u _ hfin) (hd.digits u _ hfin) (by rw [hlayout]), hlayout]

/-- INTERNAL: `g` and `G` in the style of `e`.
SOURCE: dietlibc-printf.patch:4009-4075 -/
theorem fullText_g (dtoa : Dtoa) (hd : DtoaSpec dtoa) (u : BitVec 64) (info : Info) (hfin : IsFinite u)
    (hspec : info.spec = .g ∨ info.spec = .G) (hs : Scientific dtoa u info) :
    fullText dtoa u info = signText u ++ ((dtoa u 2 (precision info)).1.take 1 ++
      pointed info.alt (fraction (dtoa u 2 (precision info)).1
        (afterPoint (precision info) (dtoa u 2 (precision info)).2).toNat info.alt) ++
      exponentPart info.spec.upcase false (dtoa u 2 (precision info)).2) := by
  have hlayout := layout_g_scientific dtoa u info hspec hs
  have hafter := afterPoint_nonneg (precision info) (dtoa u 2 (precision info)).2 (by omega)
  rw [fullText_of_mantissa dtoa u info (dtoa u 2 (precision info)).1 _ info.alt
    (hd.nonempty u _ hfin) (hd.digits u _ hfin) (by rw [hlayout, Int.toNat_of_nonneg hafter]), hlayout]

/-- The number of digits behind the point that `g` and `G` print in the style of `e`.
SOURCE: dietlibc-printf.patch:4011, 4034-4055 -/
def generalDigits (dtoa : Dtoa) (u : BitVec 64) (info : Info) : ℕ :=
  if info.alt then (afterPoint (precision info) (dtoa u 2 (precision info)).2).toNat
  else (dtoa u 2 (precision info)).1.length - 1

/-- The condition under which a conversion keeps its text: it is not rewritten, or it fits into
the buffer at once, or it is `%#g` of a large number and one digit more changes nothing.
SOURCE: dietlibc-printf.patch:3988-4012 -/
def KeepsText (dtoa : Dtoa) (u : BitVec 64) (bufsiz : ℕ) (info : Info) : Prop :=
  match info.spec with
  | .E =>
    scientificLength u info.alt (precision info) true (dtoa u 2 (precision info + 1)).2 < bufsiz
  | .g | .G =>
    ¬ Scientific dtoa u info ∨
      scientificLength u info.alt (generalDigits dtoa u info) false (dtoa u 2 (precision info)).2 <
        bufsiz ∨
      (info.spec = .g ∧ info.alt = true ∧ precision info < (dtoa u 2 (precision info)).2 ∧
        dtoa u 2 (precision info + 1) = dtoa u 2 (precision info))
  | _ => True

/-- INTERNAL: the digits of `g` do not exceed its precision.
SOURCE: dietlibc-printf.patch:3061-3063, 4011 -/
theorem length_le_afterPoint (dtoa : Dtoa) (hd : DtoaSpec dtoa) (u : BitVec 64) (info : Info)
    (hfin : IsFinite u) (hs : Scientific dtoa u info) :
    (dtoa u 2 (precision info)).1.length - 1 ≤
      (afterPoint (precision info) (dtoa u 2 (precision info)).2).toNat := by
  have hlen := hd.length u (precision info) hfin
  unfold Scientific at hs
  unfold afterPoint
  split_ifs <;> omega

/-- INTERNAL: the length of `g` and `G` in the style of `e`.
SOURCE: dietlibc-printf.patch:4009-4075 -/
theorem fullText_g_length (dtoa : Dtoa) (hd : DtoaSpec dtoa) (u : BitVec 64) (info : Info)
    (hfin : IsFinite u) (hspec : info.spec = .g ∨ info.spec = .G) (hs : Scientific dtoa u info) :
    (fullText dtoa u info).length = scientificLength u info.alt (generalDigits dtoa u info) false
      (dtoa u 2 (precision info)).2 := by
  have hle := length_le_afterPoint dtoa hd u info hfin hs
  rw [fullText_g dtoa hd u info hfin hspec hs, scientific_length u info.alt _ _ _ _ _ _
    (hd.nonempty u _ hfin), Nat.min_eq_right hle]
  rfl

/-- INTERNAL: `E` that comes back as `e` prints another letter.
SOURCE: dietlibc-printf.patch:3996-3999, 4065 -/
theorem fullText_E_ne (dtoa : Dtoa) (hd : DtoaSpec dtoa) (u : BitVec 64) (info : Info)
    (hfin : IsFinite u) (hspec : info.spec = .E) :
    fullText dtoa u { info with spec := .e } ≠ fullText dtoa u info := by
  intro h
  rw [fullText_e dtoa hd u { info with spec := .e } hfin (Or.inl rfl),
    fullText_e dtoa hd u info hfin (Or.inr hspec)] at h
  have hrange := hd.range u (precision info + 1) hfin
  have hds := hd.nonempty u (precision info + 1) hfin
  have hdig := hd.digits u (precision info + 1) hfin
  obtain ⟨⟨hup, -⟩, -⟩ := scientific_inj info.alt _ _ _ _ _ _ _ _ _ _ _ _ hds hds hdig hdig hrange hrange
    (Or.inl rfl) (Or.inl rfl) (List.append_cancel_left h)
  rw [hspec] at hup
  exact Bool.false_ne_true hup

/-- INTERNAL: `g` and `G` without an exponent fit into every buffer.
SOURCE: dietlibc-printf.patch:4010, 4065 -/
theorem decpt_ne_one (dtoa : Dtoa) (hd : DtoaSpec dtoa) (u : BitVec 64) (info : Info) (size : ℕ)
    (hfin : IsFinite u) (hs : Scientific dtoa u info) (hsize : 127 ≤ size)
    (hlt : size < scientificLength u info.alt (generalDigits dtoa u info) false
      (dtoa u 2 (precision info)).2) :
    (dtoa u 2 (precision info)).2 ≠ 1 := by
  intro hone
  have hsign := signText_length u
  have hlen := hd.length u (precision info) hfin
  have hprec : precision info = 0 := by
    unfold Scientific at hs
    omega
  have hdigits : generalDigits dtoa u info = 0 := by
    unfold generalDigits afterPoint
    rw [hone]
    split_ifs <;> omega
  unfold scientificLength at hlt
  rw [hdigits, hone] at hlt
  simp only [ne_eq, not_true_eq_false, or_false, Bool.false_eq_true, if_false] at hlt
  split_ifs at hlt <;> omega

/-- INTERNAL: padded digits.
SOURCE: dietlibc-printf.patch:4034-4055 -/
theorem take_append_fraction (ds : Bytes) (preci : ℕ) (h : ds.length ≤ preci + 1) :
    ds.take 1 ++ fraction ds preci true =
      ds ++ List.replicate (preci - (ds.length - 1)) (chr '0') := by
  have hall : (ds.drop 1).take preci = ds.drop 1 := by
    rw [List.take_of_length_le]
    rw [List.length_drop]
    omega
  unfold fraction
  rw [hall, ← List.append_assoc, List.take_append_drop]
  rfl

/-- INTERNAL: when `g` or `G` that comes back as `e` prints the same.
SOURCE: dietlibc-printf.patch:3992-4012 -/
theorem fullText_g_eq_iff (dtoa : Dtoa) (hd : RetryContract dtoa) (u : BitVec 64) (info : Info) (size : ℕ)
    (hfin : IsFinite u) (hspec : info.spec = .g ∨ info.spec = .G) (hs : Scientific dtoa u info)
    (hsize : 127 ≤ size) (hlt : size < (fullText dtoa u info).length) :
    fullText dtoa u { info with spec := .e } = fullText dtoa u info ↔
      info.spec = .g ∧ info.alt = true ∧ precision info < (dtoa u 2 (precision info)).2 ∧
        dtoa u 2 (precision info + 1) = dtoa u 2 (precision info) := by
  rw [fullText_g_length dtoa hd.toDtoaSpec u info hfin hspec hs] at hlt
  have hone := decpt_ne_one dtoa hd.toDtoaSpec u info size hfin hs hsize hlt
  rw [fullText_e dtoa hd.toDtoaSpec u { info with spec := .e } hfin (Or.inl rfl),
    fullText_g dtoa hd.toDtoaSpec u info hfin hspec hs, List.append_cancel_left_eq]
  have hprec : precision { info with spec := .e } = precision info := rfl
  simp only [hprec]
  have hlen := hd.length u (precision info) hfin
  have hlen' := hd.length u (precision info + 1) hfin
  constructor
  · intro h
    obtain ⟨⟨hup, hdec⟩, hfirst, hpoint⟩ := scientific_inj info.alt _ _ _ _ _ _ _ _ _ _ _ _
      (hd.nonempty u _ hfin) (hd.nonempty u _ hfin) (hd.digits u _ hfin) (hd.digits u _ hfin)
      (hd.range u _ hfin) (hd.range u _ hfin) (Or.inl rfl) (Or.inr hone) h
    have hg : info.spec = .g := by
      rcases hspec with hg | hG
      · exact hg
      · rw [hG] at hup
        exact absurd hup Bool.false_ne_true
    refine ⟨hg, ?_⟩
    cases halt : info.alt with
    | false =>
      -- without the flag the second text has one digit more
      exfalso
      have hle := length_le_afterPoint dtoa hd.toDtoaSpec u info hfin hs
      have hcount := congrArg List.length hpoint
      rw [pointed_length, pointed_length, fraction_length, fraction_length, halt] at hcount
      have hsign := signText_length u
      unfold scientificLength generalDigits at hlt
      rw [halt] at hlt
      simp only [Bool.false_eq_true, if_false, if_true, false_or, Nat.min_eq_right hle] at hcount hlt
      split_ifs at hcount hlt <;> omega
    | true =>
      have hcount := congrArg List.length hpoint
      rw [pointed_length, pointed_length, fraction_length, fraction_length, halt] at hcount
      simp only [true_or, if_true, Nat.add_right_cancel_iff] at hcount
      have hlarge : precision info < (dtoa u 2 (precision info)).2 := by
        unfold Scientific at hs
        unfold afterPoint at hcount
        split_ifs at hcount <;> omega
      refine ⟨rfl, hlarge, Prod.ext ?_ hdec⟩
      -- the digits agree once both are padded to the precision
      have hfrac : fraction (dtoa u 2 (precision info + 1)).1 (precision info) true =
          fraction (dtoa u 2 (precision info)).1 (precision info) true := by
        rw [halt, ← hcount] at hpoint
        simpa [pointed] using hpoint
      have hpad : _ ++ _ = _ ++ _ := congrArg₂ (· ++ ·) hfirst hfrac
      rw [take_append_fraction _ _ (by omega), take_append_fraction _ _ (by omega)] at hpad
      have hmany : 15 < precision info := by
        have hsign := signText_length u
        unfold scientificLength generalDigits at hlt
        rw [halt, if_pos rfl, ← hcount] at hlt
        split_ifs at hlt <;> omega
      exact eq_of_append_zeros (chr '0') _ _ _ _ (hd.suppressed u _ hfin (by omega))
        (hd.suppressed u _ hfin (by omega)) (hd.nonempty u _ hfin) (hd.nonempty u _ hfin) hpad
  · intro ⟨hg, halt, hlarge, hsame⟩
    have hafter : (afterPoint (precision info) (dtoa u 2 (precision info)).2).toNat = precision info := by
      unfold afterPoint
      rw [if_neg (by omega)]
      rfl
    rw [hsame, hafter, halt, exponentPart_eq _ true _ (Or.inl rfl), exponentPart_eq _ false _ (Or.inr hone), hg]
    rfl

/-- INTERNAL: a conversion that is stored as it was.
SOURCE: dietlibc-printf.patch:323-374 -/
theorem sameText_unchanged (dtoa : Dtoa) (hd : DtoaSpec dtoa) (u : BitVec 64) (size : ℕ) (info : Info)
    (hfin : IsFinite u) (ha : info.spec ≠ .a) (hA : info.spec ≠ .A)
    (hspec : (layout dtoa u info).spec = info.spec) (hsize : 0 < size) :
    SameText dtoa u (size + 1) info := by
  refine sameText_stable dtoa hd u size info hfin ha hA ?_ ?_ hsize
  · rw [hspec]
    exact ⟨ha, hA⟩
  · rw [hspec]

/-- INTERNAL: `g` and `G` in the style of `f` are repeated as `g`, with the same text.
SOURCE: dietlibc-printf.patch:3992-4012 -/
theorem sameText_g_fixed (dtoa : Dtoa) (hd : DtoaSpec dtoa) (u : BitVec 64) (size : ℕ) (info : Info)
    (hfin : IsFinite u) (hspec : info.spec = .g ∨ info.spec = .G) (hs : ¬ Scientific dtoa u info)
    (hsize : 0 < size) : SameText dtoa u (size + 1) info := by
  have hlayout := layout_g_fixed dtoa u info hspec hs
  have hg : (layout dtoa u info).spec = .g := by rw [hlayout]
  have ha : info.spec ≠ .a ∧ info.spec ≠ .A := by rcases hspec with h | h <;> simp [h]
  refine sameText_stable dtoa hd u size info hfin ha.1 ha.2 ?_ ?_ hsize
  · rw [hg]
    simp
  · rw [hg, hlayout]
    exact layout_g_fixed dtoa u { info with spec := .g } (Or.inl rfl) hs

/-- INTERNAL: `E` keeps its text only if it fits at once.
SOURCE: dietlibc-printf.patch:3996-4001 -/
theorem sameText_E_iff (dtoa : Dtoa) (hd : DtoaSpec dtoa) (u : BitVec 64) (size : ℕ) (info : Info)
    (hfin : IsFinite u) (hspec : info.spec = .E) (hsize : 0 < size) :
    SameText dtoa u (size + 1) info ↔
      scientificLength u info.alt (precision info) true (dtoa u 2 (precision info + 1)).2 < size + 1 := by
  have hlayout := layout_e dtoa u info (Or.inr hspec)
  have hexp : (layout dtoa u info).exponent ≠ [] := by
    rw [hlayout, exponentPart_eq _ true _ (Or.inl rfl)]
    exact List.cons_ne_nil _ _
  rw [sameText_rewritten_iff dtoa hd u size info hfin (by simp [hspec]) (by simp [hspec])
    (by rw [hlayout]) hsize (Or.inl hexp)]
  have hne := fullText_E_ne dtoa hd u info hfin hspec
  simp only [hne, and_false, or_false]
  rw [fullText_e dtoa hd u info hfin (Or.inr hspec), scientific_length u info.alt _ _ _ _ _ _
    (hd.nonempty u _ hfin)]
  exact Nat.lt_succ_iff.symm

/-- INTERNAL: `g` and `G` in the style of `e`.
SOURCE: dietlibc-printf.patch:3992-4012 -/
theorem sameText_g_iff (dtoa : Dtoa) (hd : RetryContract dtoa) (u : BitVec 64) (size : ℕ) (info : Info)
    (hfin : IsFinite u) (hspec : info.spec = .g ∨ info.spec = .G) (hs : Scientific dtoa u info)
    (hsize : 127 ≤ size) :
    SameText dtoa u (size + 1) info ↔
      scientificLength u info.alt (generalDigits dtoa u info) false (dtoa u 2 (precision info)).2 <
        size + 1 ∨
      (info.spec = .g ∧ info.alt = true ∧ precision info < (dtoa u 2 (precision info)).2 ∧
        dtoa u 2 (precision info + 1) = dtoa u 2 (precision info)) := by
  have hlayout := layout_g_scientific dtoa u info hspec hs
  have ha : info.spec ≠ .a ∧ info.spec ≠ .A := by rcases hspec with h | h <;> simp [h]
  have hfit : (layout dtoa u info).exponent ≠ [] ∨
      (signText u ++ (layout dtoa u info).mantissa).length ≤ size := by
    by_cases hone : (dtoa u 2 (precision info)).2 = 1
    · right
      have hprec : precision info = 0 := by
        unfold Scientific at hs
        omega
      have hafter : afterPoint (precision info) (dtoa u 2 (precision info)).2 = (0 : ℕ) := by
        unfold afterPoint
        rw [hone, hprec]
        rfl
      have hmant : (layout dtoa u info).mantissa =
          mantissaText (dtoa u 2 (precision info)).1 1 (0 : ℕ) info.alt := by rw [hlayout, hafter]
      have hsign := signText_length u
      have hfrac := fraction_length (dtoa u 2 (precision info)).1 0 info.alt
      rw [Nat.zero_min, ite_self] at hfrac
      rw [hmant, mantissaText_one _ _ _ (hd.nonempty u _ hfin)]
      simp only [List.length_append, List.length_cons, List.length_take, hfrac]
      omega
    · left
      rw [hlayout, exponentPart_eq _ false _ (Or.inr hone)]
      exact List.cons_ne_nil _ _
  rw [sameText_rewritten_iff dtoa hd.toDtoaSpec u size info hfin ha.1 ha.2 (by rw [hlayout]) (by omega) hfit]
  have hlen := fullText_g_length dtoa hd.toDtoaSpec u info hfin hspec hs
  by_cases hlt : size < (fullText dtoa u info).length
  · rw [fullText_g_eq_iff dtoa hd u info size hfin hspec hs hsize hlt]
    rw [← hlen]
    simp only [hlt, true_and, Nat.lt_succ_iff]
  · rw [← hlen]
    simp only [hlt, false_and, or_false, Nat.lt_succ_iff, Nat.not_lt.mp hlt, true_or]

/-- **When the text does not depend on the buffer**: for every number, every decimal conversion,
precision and flag and every buffer that the branch can start with, the text that is handed to
the output is the one of a single call exactly under `KeepsText`.
SOURCE: dietlibc-printf.patch:288-381, 3761-4080 -/
theorem sameText_iff (dtoa : Dtoa) (hd : RetryContract dtoa) (u : BitVec 64) (bufsiz : ℕ) (info : Info)
    (hbuf : PF_BUFSIZE ≤ bufsiz) (ha : info.spec ≠ .a) (hA : info.spec ≠ .A) :
    SameText dtoa u bufsiz info ↔ ¬ IsFinite u ∨ KeepsText dtoa u bufsiz info := by
  unfold PF_BUFSIZE at hbuf
  obtain ⟨size, rfl⟩ : ∃ size, bufsiz = size + 1 := ⟨bufsiz - 1, by omega⟩
  by_cases hfin : IsFinite u
  · simp only [hfin, not_true_eq_false, false_or]
    unfold KeepsText
    cases hspec : info.spec with
    | a => exact absurd hspec ha
    | A => exact absurd hspec hA
    | e =>
      have hsame : (layout dtoa u info).spec = info.spec := by
        rw [layout_e dtoa u info (Or.inl hspec), hspec]
      exact iff_of_true (sameText_unchanged dtoa hd.toDtoaSpec u size info hfin ha hA hsame (by omega)) trivial
    | f | F =>
      have hsame : (layout dtoa u info).spec = info.spec := by rw [layout_f dtoa u info (by simp [hspec])]
      exact iff_of_true (sameText_unchanged dtoa hd.toDtoaSpec u size info hfin ha hA hsame (by omega)) trivial
    | E => exact sameText_E_iff dtoa hd.toDtoaSpec u size info hfin hspec (by omega)
    | g | G =>
      have hg : info.spec = .g ∨ info.spec = .G := by simp [hspec]
      by_cases hs : Scientific dtoa u info
      · rw [sameText_g_iff dtoa hd u size info hfin hg hs (by omega), hspec]
        simp only [hs, not_true_eq_false, false_or]
      · exact iff_of_true (sameText_g_fixed dtoa hd.toDtoaSpec u size info hfin hg hs (by omega)) (Or.inl hs)
  · exact iff_of_true (sameText_special dtoa u size info hfin (by omega)) (Or.inl hfin)

/-- The bits of the number 1. -/
def one : BitVec 64 := 0x3ff0000000000000#64

/-- `dtoa` on the number 1. -/
def dtoaOne : Dtoa := fun _ _ _ => ([chr '1'], 1)

/-- INTERNAL: the digit of the number 1 is as described.
SOURCE: dietlibc-printf.patch:3049-3081 -/
theorem dtoaOne_spec : DtoaSpec dtoaOne where
  digits := by
    intro u n _ c hc
    obtain rfl : c = chr '1' := by simpa [dtoaOne] using hc
    unfold IsDigit
    decide
  nonempty := by
    intro u n _
    exact List.cons_ne_nil _ _
  length := by
    intro u n _
    show (1 : ℤ) ≤ max 1 n
    omega
  range := by
    intro u n _
    show -400 ≤ (1 : ℤ) ∧ (1 : ℤ) ≤ 400
    omega
  places := by
    intro u n _ hn
    show -n ≤ (1 : ℤ)
    omega

/-- INTERNAL: the digit is no zero. -/
theorem dtoaOne_retry : RetryContract dtoaOne where
  toDtoaSpec := dtoaOne_spec
  suppressed := by
    intro u n _ _
    right
    show some (chr '1') ≠ some (chr '0')
    decide

/-- INTERNAL: the number 1 in the style of `e`. -/
theorem fullText_one (spec : Spec) (preci : ℕ) (hspec : spec = .e ∨ spec = .E) (hpreci : preci ≠ 0) :
    fullText dtoaOne one ⟨some preci, spec, false, false, false⟩ =
      ascii "1.".toList ++ List.replicate preci (chr '0') ++ exponentPart spec.upcase true 1 := by
  have hsign : signText one = [] := by decide
  have hfrac : fraction [chr '1'] preci true = List.replicate preci (chr '0') := by simp [fraction]
  have hpoint : pointed false (List.replicate preci (chr '0')) =
      chr '.' :: List.replicate preci (chr '0') := by simp [pointed, hpreci]
  rw [fullText_e dtoaOne dtoaOne_spec one _ (by decide) hspec, hsign]
  show [chr '1'] ++ pointed false (fraction [chr '1'] preci true) ++ _ = _
  rw [hfrac, hpoint]
  rfl

/-- `%.20E` of the number 1 fits at once. -/
theorem sameText_iff_one :
    SameText dtoaOne one PF_BUFSIZE ⟨some 20, .E, false, false, false⟩ := by
  refine (sameText_iff dtoaOne dtoaOne_retry one PF_BUFSIZE ⟨some 20, .E, false, false, false⟩ (by decide)
    (by decide) (by decide)).mpr (Or.inr ?_)
  show scientificLength one false 20 true 1 < PF_BUFSIZE
  decide

/-- **`%.200E` of the number 1 is printed with a small `e`**: the first call is cut off, and the
second one converts with the specifier that the first one left.
SOURCE: dietlibc-printf.patch:342-348, 3996-3999 -/
theorem second_call_converts_e :
    RetryContract dtoaOne ∧
      OneCall dtoaOne one ⟨some 200, .E, false, false, false⟩
        (ascii "1.".toList ++ List.replicate 200 (chr '0') ++ ascii "E+00".toList) ∧
      Branch dtoaOne one PF_BUFSIZE ⟨some 200, .E, false, false, false⟩
        (ascii "1.".toList ++ List.replicate 200 (chr '0') ++ ascii "e+00".toList) ∧
      ¬ SameText dtoaOne one PF_BUFSIZE ⟨some 200, .E, false, false, false⟩ := by
  have hfin : IsFinite one := by decide
  have hE := fullText_one .E 200 (Or.inr rfl) (by decide)
  have he := fullText_one .e 200 (Or.inl rfl) (by decide)
  refine ⟨dtoaOne_retry, ?_, ⟨3, ?_⟩, ?_⟩
  · have hone := oneCall_fullText dtoaOne dtoaOne_spec one ⟨some 200, .E, false, false, false⟩ hfin
      (by decide) (by decide)
    rw [hE] at hone
    exact hone
  · intro calls hcalls memory
    have hfit : 127 < (textFor dtoaOne one ⟨some 200, .E, false, false, false⟩ 127).length := by
      rw [textFor_fits_iff, hE]
      · rw [List.length_append, List.length_append, List.length_replicate]
        omega
      · left
        rw [layout_e _ _ _ (Or.inr rfl), exponentPart_eq _ true _ (Or.inl rfl)]
        exact List.cons_ne_nil _ _
    have htry := tryagain_rewritten dtoaOne dtoaOne_spec one ⟨some 200, .E, false, false, false⟩ hfin
      (by decide) (by decide) (by rw [layout_e _ _ _ (Or.inr rfl)]) memory calls 0 127 (by decide) hcalls
    rw [if_pos hfit, he] at htry
    exact htry
  · rw [PF_BUFSIZE, sameText_E_iff dtoaOne dtoaOne_spec one 127 _ hfin rfl (by decide)]
    decide

end TTLinux.Analysis.PrintfRetry
