import TTLinux.Lib.Numeral
import TTLinux.Model.Dtoa

/-!
# Digits and their rounding

Decimal digits whose first one is not zero stand for a number once the place of the first digit is known. Digits that are
as many as asked for are rounded up by taking back the nines at their end, or they are kept, without the zeros at their
end. Either way the result is the number rounded at its last place, if the decision is the one of the nearest
integer.
-/

set_option autoImplicit false

namespace TTLinux.Analysis.DtoaDigits

open TTLinux.Lib
open TTLinux.Model.Dtoa

/-! ## Texts of digits -/

/-- Decimal digits, the first of which is not zero. -/
structure Decimal (s : Bytes) : Prop where
  digits : ∀ c ∈ s, isDecimal c = true
  head : s.head? ≠ some 0x30

/-- The last digit is not zero. -/
def Suppressed (s : Bytes) : Prop := s.getLast? ≠ some 0x30

/-- The number whose first digit has the place `k`. -/
def valueAt (s : Bytes) (k : ℤ) : ℚ := digitsValue 10 s * 10 ^ (k + 1 - s.length)

/-- INTERNAL: the character of a digit. -/
theorem toNat_digit (n : ℤ) (h0 : 0 ≤ n) (h9 : n ≤ 9) : (digit n).toNat = 48 + n.toNat := by
  unfold digit
  rw [Nat.toUInt8, UInt8.toNat_ofNat']
  omega

/-- INTERNAL: it is a decimal character. -/
theorem isDecimal_digit (n : ℤ) (h0 : 0 ≤ n) (h9 : n ≤ 9) : isDecimal (digit n) = true := by
  simp only [isDecimal, Bool.and_eq_true, decide_eq_true_eq, UInt8.le_iff_toNat_le, toNat_digit n h0 h9, UInt8.reduceToNat]
  omega

/-- INTERNAL: the value of a decimal character. -/
theorem nibble_of_isDecimal (c : UInt8) (h : isDecimal c = true) : nibble c = c.toNat - 48 ∧ nibble c < 10 := by
  simp only [isDecimal, Bool.and_eq_true, decide_eq_true_eq, UInt8.le_iff_toNat_le, UInt8.reduceToNat] at h
  simp only [nibble, UInt8.le_iff_toNat_le, UInt8.reduceToNat]
  rw [if_pos h.2]
  omega

/-- INTERNAL: a digit is the value of its character. -/
theorem nibble_digit (n : ℤ) (h0 : 0 ≤ n) (h9 : n ≤ 9) : (nibble (digit n) : ℤ) = n := by
  rw [(nibble_of_isDecimal _ (isDecimal_digit n h0 h9)).1, toNat_digit n h0 h9]
  omega

/-- INTERNAL: only the digit zero has the character zero. -/
theorem digit_ne_zero_iff (n : ℤ) (h0 : 0 ≤ n) (h9 : n ≤ 9) : digit n ≠ 0x30 ↔ n ≠ 0 := by
  rw [not_iff_not, ← UInt8.toNat_inj, toNat_digit n h0 h9, show (0x30 : UInt8).toNat = 48 from rfl]
  omega

/-- INTERNAL: one digit more. -/
theorem digitsValue_snoc (s : Bytes) (c : UInt8) : digitsValue 10 (s ++ [c]) = 10 * digitsValue 10 s + nibble c := by
  rw [digitsValue_append, digitsValue_singleton, List.length_singleton, pow_one]

/-- INTERNAL: a digit behind the others keeps them decimal. -/
theorem Decimal.snoc {s : Bytes} (h : Decimal s) (c : UInt8) (hc : isDecimal c = true) (hne : s = [] → c ≠ 0x30) :
    Decimal (s ++ [c]) := by
  refine ⟨fun x hx => ?_, ?_⟩
  · rcases List.mem_append.mp hx with hx | hx
    · exact h.digits x hx
    · rw [List.mem_singleton.mp hx]
      exact hc
  · cases s with
    | nil => simpa using hne rfl
    | cons a s => exact h.head

/-- INTERNAL: one digit more, by its value. -/
theorem Decimal.digit {s : Bytes} (h : Decimal s) (g : ℕ) (hg : g < 10) (hone : s = [] → g ≠ 0) :
    Decimal (s ++ [digit g]) ∧ digitsValue 10 (s ++ [digit g]) = 10 * digitsValue 10 s + g ∧
      (Suppressed (s ++ [digit g]) ↔ g ≠ 0) := by
  have hnibble : nibble (Model.Dtoa.digit g) = g := by
    have := nibble_digit g (by omega) (by omega)
    omega
  have hzero : Model.Dtoa.digit g ≠ 0x30 ↔ g ≠ 0 := by
    rw [digit_ne_zero_iff _ (by omega) (by omega)]
    omega
  refine ⟨h.snoc _ (isDecimal_digit g (by omega) (by omega)) fun hnil => hzero.mpr (hone hnil), ?_, ?_⟩
  · rw [digitsValue_snoc, hnibble]
  · rw [← hzero]
    simp [Suppressed]

/-- INTERNAL: the last digit, by the value. -/
theorem Decimal.suppressed_iff {s : Bytes} (h : Decimal s) (hne : s ≠ []) : Suppressed s ↔ digitsValue 10 s % 10 ≠ 0 := by
  obtain ⟨t, c, rfl⟩ : ∃ t c, s = t ++ [c] := ⟨s.dropLast, s.getLast hne, (List.dropLast_append_getLast hne).symm⟩
  have hc := h.digits c (by simp)
  obtain ⟨hnibble, hlt⟩ := nibble_of_isDecimal c hc
  simp only [isDecimal, Bool.and_eq_true, decide_eq_true_eq, UInt8.le_iff_toNat_le, UInt8.reduceToNat] at hc
  have hlast : Suppressed (t ++ [c]) ↔ c ≠ 0x30 := by simp [Suppressed]
  rw [hlast, digitsValue_snoc, Nat.mul_add_mod, Nat.mod_eq_of_lt hlt, hnibble, not_iff_not, ← UInt8.toNat_inj,
    show (0x30 : UInt8).toNat = 48 from rfl]
  omega

/-- INTERNAL: the first digits of decimal digits. -/
theorem Decimal.of_append {s t : Bytes} (h : Decimal (s ++ t)) : Decimal s := by
  refine ⟨fun c hc => h.digits c (List.mem_append_left t hc), ?_⟩
  cases s with
  | nil => simp
  | cons a s => exact h.head

/-- INTERNAL: the empty text is decimal. -/
theorem decimal_nil : Decimal [] := ⟨by simp, by simp⟩

/-- INTERNAL: decimal digits are worth less than the power of ten of their number. -/
theorem Decimal.lt {s : Bytes} (h : Decimal s) : digitsValue 10 s < 10 ^ s.length :=
  digitsValue_lt 10 s fun c hc => (nibble_of_isDecimal c (h.digits c hc)).2

/-- INTERNAL: digits are worth something, since the first one is not zero. -/
theorem Decimal.le {s : Bytes} (h : Decimal s) (hne : s ≠ []) : 10 ^ (s.length - 1) ≤ digitsValue 10 s := by
  cases s with
  | nil => exact absurd rfl hne
  | cons c s =>
    have hc := nibble_of_isDecimal c (h.digits c List.mem_cons_self)
    have hdec := h.digits c List.mem_cons_self
    have hpos : 1 ≤ nibble c := by
      have hne : c.toNat ≠ 48 := by
        intro heq
        apply h.head
        rw [List.head?_cons, UInt8.toNat_inj.mp (show c.toNat = (48 : UInt8).toNat from heq)]
      simp only [isDecimal, Bool.and_eq_true, decide_eq_true_eq, UInt8.le_iff_toNat_le, UInt8.reduceToNat] at hdec
      omega
    rw [digitsValue, List.length_cons, Nat.add_sub_cancel]
    calc 10 ^ s.length = 10 ^ s.length * 1 := (Nat.mul_one _).symm
      _ ≤ 10 ^ s.length * nibble c := Nat.mul_le_mul_left _ hpos
      _ ≤ _ := Nat.le_add_right _ _

/-! ## The nearest integer -/

/-- INTERNAL: an integer and a fraction are rounded by the double of the fraction. -/
theorem nearestEven_quotient (a v s : ℕ) (hs : 0 < s) (hv : v < s) :
    nearestEven ((a : ℚ) + v / s) = if s < 2 * v ∨ s = 2 * v ∧ a % 2 = 1 then (a : ℤ) + 1 else a := by
  have hs' : (0 : ℚ) < s := by exact_mod_cast hs
  have hfloor : ⌊(a : ℚ) + v / s⌋ = a := by
    rw [Int.floor_eq_iff]
    push_cast
    refine ⟨le_add_of_nonneg_right (by positivity), ?_⟩
    have hlt : (v : ℚ) / s < 1 := by
      rw [div_lt_one hs']
      exact_mod_cast hv
    linarith
  have hfract : Int.fract ((a : ℚ) + v / s) = v / s := by
    rw [Int.fract, hfloor]
    push_cast
    ring
  have hlt : ((v : ℚ) / s < 1 / 2) ↔ 2 * v < s := by
    rw [div_lt_div_iff₀ hs' (by norm_num)]
    norm_cast
    omega
  have heq : ((v : ℚ) / s = 1 / 2) ↔ 2 * v = s := by
    rw [div_eq_div_iff hs'.ne' (by norm_num)]
    norm_cast
    omega
  have heven : Even (a : ℤ) ↔ a % 2 = 0 := by rw [Int.even_iff]; omega
  unfold nearestEven
  rw [hfract, hfloor]
  simp only [hlt, heq, heven]
  split_ifs <;> omega

/-- A number rounded to `ilim` digits, the first of which has the place `k`. -/
structure Rounded (d : ℚ) (k ilim : ℤ) (r : Result) : Prop where
  decimal : Decimal r.1
  value : valueAt r.1 r.2 = nearestEven (d * 10 ^ (ilim - 1 - k)) * 10 ^ (k + 1 - ilim)
  places : (r.1.length : ℤ) ≤ r.2 - k + ilim
  short : (r.1.length : ℤ) ≤ max 1 ilim
  empty : r.1 = [] → r.2 = k - ilim

variable {d : ℚ} {k ilim : ℤ} {s : Bytes}

/-- INTERNAL: a number with no more digits than asked for is an integer at the last place. -/
theorem nearestEven_exact (hlen : (s.length : ℤ) ≤ ilim) (hd : d = valueAt s k) :
    (nearestEven (d * 10 ^ (ilim - 1 - k)) : ℚ) = d * 10 ^ (ilim - 1 - k) := by
  obtain ⟨n, hn⟩ := Int.le.dest hlen
  have hscaled : d * 10 ^ (ilim - 1 - k) = ((digitsValue 10 s * 10 ^ n : ℕ) : ℤ) := by
    rw [hd, valueAt, mul_assoc, ← zpow_add₀ (by norm_num), show k + 1 - (s.length : ℤ) + (ilim - 1 - k) = (n : ℤ) by omega,
      zpow_natCast]
    push_cast
    rfl
  rw [hscaled, nearestEven_intCast]

/-- INTERNAL: the digits are all there are. -/
theorem rounded_exact (h : Decimal s) (hne : s ≠ []) (hlen : (s.length : ℤ) ≤ ilim) (hd : d = valueAt s k) :
    Rounded d k ilim (s, k) := by
  refine ⟨h, ?_, by simp only; omega, by simp only; omega, fun hnil => absurd hnil hne⟩
  rw [nearestEven_exact hlen hd, mul_assoc, ← zpow_add₀ (by norm_num), show ilim - 1 - k + (k + 1 - ilim) = 0 by omega,
    zpow_zero, mul_one]
  exact hd.symm

/-- INTERNAL: the digits are the nearest number, with zeros behind them up to as many digits as asked for. -/
theorem rounded_padded (n : ℕ) (h : Decimal s) (hne : s ≠ []) (hlen : (s.length : ℤ) + n = ilim)
    (hnear : nearestEven (d * 10 ^ (ilim - 1 - k)) = digitsValue 10 s * 10 ^ n) : Rounded d k ilim (s, k) := by
  refine ⟨h, ?_, by simp only; omega, by simp only; omega, fun hnil => absurd hnil hne⟩
  rw [hnear, valueAt]
  push_cast
  rw [mul_assoc, ← zpow_natCast (10 : ℚ) n, ← zpow_add₀ (by norm_num)]
  congr 2
  omega

/-- INTERNAL: as many digits as asked for, and they are the nearest number. -/
theorem rounded_kept (h : Decimal s) (hne : s ≠ []) (hlen : (s.length : ℤ) = ilim)
    (hnear : nearestEven (d * 10 ^ (ilim - 1 - k)) = digitsValue 10 s) : Rounded d k ilim (s, k) :=
  rounded_padded 0 h hne (by omega) (by rw [pow_zero, mul_one]; exact hnear)

/-! ## Zeros at the end -/

/-- INTERNAL: the zeros at the end are worth nothing. -/
theorem dropZeros_spec (s : Bytes) : ∃ n, s = s.rdropWhile (· = 0x30) ++ List.replicate n 0x30 := by
  induction s using List.reverseRecOn with
  | nil => exact ⟨0, rfl⟩
  | append_singleton s c ih =>
    rw [List.rdropWhile_concat]
    split_ifs with hc
    · obtain ⟨n, hn⟩ := ih
      refine ⟨n + 1, ?_⟩
      rw [List.replicate_succ', ← List.append_assoc, ← hn, of_decide_eq_true hc]
    · exact ⟨0, by simp⟩

/-- INTERNAL: zeros behind the digits do not change what they stand for. -/
theorem valueAt_zeros (s : Bytes) (n : ℕ) (k : ℤ) : valueAt (s ++ List.replicate n 0x30) k = valueAt s k := by
  unfold valueAt
  rw [digitsValue_append, digitsValue_zeros, List.length_append, List.length_replicate, Nat.add_zero]
  push_cast
  rw [show k + 1 - ((s.length : ℤ) + n) = k + 1 - s.length - n by ring, zpow_sub₀ (by norm_num) (k + 1 - s.length), zpow_natCast]
  field_simp

/-- **Zeros at the end are left out.**
SOURCE: dietlibc-printf.patch:3376, 3685 -/
theorem trimzeros_spec (h : Decimal s) (hne : s ≠ []) : ∃ s', trimzeros s = some s' ∧ s' ≠ [] ∧ Decimal s' ∧ Suppressed s' ∧
    s'.length ≤ s.length ∧ ∀ k, valueAt s' k = valueAt s k := by
  obtain ⟨n, hn⟩ := dropZeros_spec s
  have hlast : Suppressed (s.rdropWhile (· = 0x30)) := by
    intro hlast
    obtain ⟨hnil, hget⟩ := List.mem_getLast?_eq_getLast hlast
    exact List.rdropWhile_last_not (fun c : UInt8 => decide (c = 0x30)) s hnil (decide_eq_true hget.symm)
  unfold trimzeros
  generalize s.rdropWhile (· = 0x30) = s' at hn hlast ⊢
  have hnil : s' ≠ [] := by
    rintro rfl
    cases n with
    | zero => exact hne hn
    | succ n => exact h.head (by rw [hn]; rfl)
  rw [if_neg hnil]
  refine ⟨s', rfl, hnil, (hn ▸ h).of_append, hlast, ?_, fun k => ?_⟩
  · rw [hn, List.length_append]
    omega
  · rw [hn, valueAt_zeros]

/-- INTERNAL: the nearest number without the zeros at its end is the rounded answer. -/
theorem rounded_trimzeros (n : ℕ) (h : Decimal s) (hne : s ≠ []) (hlen : (s.length : ℤ) + n = ilim)
    (hnear : nearestEven (d * 10 ^ (ilim - 1 - k)) = digitsValue 10 s * 10 ^ n) :
    ∃ s', trimzeros s = some s' ∧ s' ≠ [] ∧ Suppressed s' ∧ Rounded d k ilim (s', k) := by
  obtain ⟨s', htrim, hnil, hdec, hlast, hle, hvalue⟩ := trimzeros_spec h hne
  have hkept := rounded_padded n h hne hlen hnear
  refine ⟨s', htrim, hnil, hlast, hdec, ?_, ?_, ?_, fun h => absurd h hnil⟩
  · rw [hvalue]
    exact hkept.value
  · simp only
    omega
  · simp only
    omega

/-! ## Rounding up -/

/-- INTERNAL: one more than digits whose nines at the end are taken back. -/
theorem dropNines_value (s : Bytes) (hs : ∀ c ∈ s, isDecimal c = true) :
    ∃ n, s = s.rdropWhile (· = 0x39) ++ List.replicate n 0x39 ∧
      digitsValue 10 s + 1 = (digitsValue 10 (s.rdropWhile (· = 0x39)) + 1) * 10 ^ n := by
  induction s using List.reverseRecOn with
  | nil => exact ⟨0, rfl, rfl⟩
  | append_singleton s c ih =>
    rw [List.rdropWhile_concat]
    split_ifs with hc
    · obtain ⟨n, hn, hvalue⟩ := ih fun c hc => hs c (List.mem_append_left _ hc)
      refine ⟨n + 1, ?_, ?_⟩
      · rw [List.replicate_succ', ← List.append_assoc, ← hn, of_decide_eq_true hc]
      · rw [digitsValue_snoc, of_decide_eq_true hc, pow_succ, ← mul_assoc, ← hvalue, show nibble 0x39 = 9 from rfl]
        ring
    · exact ⟨0, by simp, by rw [pow_zero, Nat.mul_one]⟩

/-- INTERNAL: one more than a digit that is not nine. -/
theorem succ_digit (c : UInt8) (hc : isDecimal c = true) (hne : c ≠ 0x39) :
    isDecimal (c + 1) = true ∧ nibble (c + 1) = nibble c + 1 ∧ c + 1 ≠ 0x30 := by
  have hne' : c.toNat ≠ 57 := fun heq => hne (UInt8.toNat_inj.mp heq)
  have hbounds := hc
  simp only [isDecimal, Bool.and_eq_true, decide_eq_true_eq, UInt8.le_iff_toNat_le, UInt8.reduceToNat] at hbounds
  have hsucc : (c + 1).toNat = c.toNat + 1 := by
    rw [UInt8.toNat_add, show (1 : UInt8).toNat = 1 from rfl]
    omega
  have hdec : isDecimal (c + 1) = true := by
    simp only [isDecimal, Bool.and_eq_true, decide_eq_true_eq, UInt8.le_iff_toNat_le, UInt8.reduceToNat, hsucc]
    omega
  refine ⟨hdec, ?_, ?_⟩
  · rw [(nibble_of_isDecimal _ hdec).1, (nibble_of_isDecimal _ hc).1, hsucc]
    omega
  · intro heq
    rw [← UInt8.toNat_inj, hsucc, show (0x30 : UInt8).toNat = 48 from rfl] at heq
    omega

/-- **Digits are rounded up** to the next number with as many digits, and no zero is left at their end.
SOURCE: dietlibc-printf.patch:3424-3431, 3676-3683 -/
theorem roundoff_spec (k : ℤ) (h : Decimal s) : (roundoff s k).1 ≠ [] ∧ Decimal (roundoff s k).1 ∧ Suppressed (roundoff s k).1 ∧
    valueAt (roundoff s k).1 (roundoff s k).2 = (digitsValue 10 s + 1) * 10 ^ (k + 1 - s.length) ∧
    ((roundoff s k).1.length : ℤ) ≤ (roundoff s k).2 - k + s.length ∧ (roundoff s k).1.length ≤ max 1 s.length := by
  obtain ⟨n, hn, hvalue⟩ := dropNines_value s h.digits
  have hvalue' : ((digitsValue 10 s : ℕ) + 1 : ℚ) = (digitsValue 10 (s.rdropWhile (· = 0x39)) + 1) * 10 ^ n := by
    exact_mod_cast hvalue
  have hlast : (s.rdropWhile (· = 0x39)).getLast? ≠ some 0x39 := by
    intro hlast
    obtain ⟨hnil, hget⟩ := List.mem_getLast?_eq_getLast hlast
    exact List.rdropWhile_last_not (fun c : UInt8 => decide (c = 0x39)) s hnil (decide_eq_true hget.symm)
  rw [hvalue']
  unfold roundoff
  generalize s.rdropWhile (· = 0x39) = t at hn hlast ⊢
  have hlen : s.length = t.length + n := by rw [hn, List.length_append, List.length_replicate]
  have hdec : Decimal t := (hn ▸ h).of_append
  cases ht : t.getLast? with
  | none =>
    obtain rfl := List.getLast?_eq_none_iff.mp ht
    simp only
    refine ⟨by simp, ⟨by simp [isDecimal], by simp⟩, by simp [Suppressed], ?_, ?_, by simp⟩
    swap
    · simp only [List.length_singleton]
      omega
    rw [valueAt, hlen, List.length_nil, Nat.zero_add, digitsValue_nil, digitsValue_singleton, List.length_singleton]
    rw [show nibble 0x31 = 1 from rfl, ← zpow_natCast (10 : ℚ) n]
    push_cast
    rw [one_mul, zero_add, one_mul, ← zpow_add₀ (by norm_num)]
    congr 1
    omega
  | some c =>
    obtain ⟨t', rfl⟩ := List.getLast?_eq_some_iff.mp ht
    have hc := hdec.digits c (by simp)
    obtain ⟨hsucc, hnibble, hzero⟩ := succ_digit c hc fun heq => hlast (by rw [ht, heq])
    simp only [List.dropLast_concat]
    refine ⟨by simp, hdec.of_append.snoc (c + 1) hsucc fun _ => hzero, by simpa [Suppressed] using hzero, ?_, ?_, ?_⟩
    · rw [valueAt, digitsValue_snoc, digitsValue_snoc, hnibble, hlen]
      simp only [List.length_append, List.length_singleton]
      rw [← zpow_natCast (10 : ℚ) n, mul_assoc, ← zpow_add₀ (by norm_num)]
      push_cast
      rw [add_assoc]
      congr 2
      ring
    · rw [hlen]
      simp only [List.length_append, List.length_singleton]
      omega
    · rw [hlen]
      simp only [List.length_append, List.length_singleton]
      omega

/-- INTERNAL: when the nearest number is one more than the digits, rounding them up gives the rounded answer. -/
theorem rounded_roundoff (h : Decimal s) (hlen : (s.length : ℤ) = ilim)
    (hnear : nearestEven (d * 10 ^ (ilim - 1 - k)) = digitsValue 10 s + 1) :
    (roundoff s k).1 ≠ [] ∧ Suppressed (roundoff s k).1 ∧ Rounded d k ilim (roundoff s k) := by
  obtain ⟨hne, hdec, hlast, hvalue, hplaces, hshort⟩ := roundoff_spec k h
  refine ⟨hne, hlast, hdec, ?_, by omega, by omega, fun h => absurd h hne⟩
  rw [hvalue, hnear, hlen]
  push_cast
  rfl

/-! ## No digits -/

/-- **A number that is not above half of the last place is rounded to no digits.** -/
theorem rounded_noDigits (h0 : 0 ≤ d) (h : d ≤ 5 * 10 ^ (k - ilim)) : Rounded d k ilim ([], k - ilim) := by
  have hnear : nearestEven (d * 10 ^ (ilim - 1 - k)) = 0 := by
    have hpos : (0 : ℚ) < 10 ^ (ilim - 1 - k) := zpow_pos (by norm_num) _
    have hle : d * 10 ^ (ilim - 1 - k) ≤ 1 / 2 :=
      calc d * 10 ^ (ilim - 1 - k) ≤ 5 * 10 ^ (k - ilim) * 10 ^ (ilim - 1 - k) := mul_le_mul_of_nonneg_right h hpos.le
        _ = 1 / 2 := by
            rw [mul_assoc, ← zpow_add₀ (by norm_num), show k - ilim + (ilim - 1 - k) = -1 by ring]
            norm_num
    have hge : 0 ≤ d * 10 ^ (ilim - 1 - k) := mul_nonneg h0 hpos.le
    refine nearestEven_eq ⟨?_, fun _ => Even.zero⟩
    rw [Int.cast_zero, sub_zero, abs_of_nonneg hge]
    exact hle
  refine ⟨decimal_nil, ?_, by simp, by simp, fun _ => rfl⟩
  rw [hnear]
  simp [valueAt]

/-- **A number above half of a place in front of it is rounded to one digit there.** -/
theorem rounded_oneDigit (h : 5 * 10 ^ k < d) (hlt : d < 10 ^ (k + 1)) : Rounded d k 0 (oneDigit k) := by
  have hnear : nearestEven (d * 10 ^ (0 - 1 - k)) = 1 := by
    have hpos : (0 : ℚ) < 10 ^ (0 - 1 - k) := zpow_pos (by norm_num) _
    have hgt : 1 / 2 < d * 10 ^ (0 - 1 - k) :=
      calc (1 / 2 : ℚ) = 5 * 10 ^ k * 10 ^ (0 - 1 - k) := by
            rw [mul_assoc, ← zpow_add₀ (by norm_num), show k + (0 - 1 - k) = -1 by ring]
            norm_num
        _ < _ := mul_lt_mul_of_pos_right h hpos
    have hone : d * 10 ^ (0 - 1 - k) < 1 :=
      calc d * 10 ^ (0 - 1 - k) < 10 ^ (k + 1) * 10 ^ (0 - 1 - k) := mul_lt_mul_of_pos_right hlt hpos
        _ = 1 := by rw [← zpow_add₀ (by norm_num), show k + 1 + (0 - 1 - k) = 0 by ring, zpow_zero]
    generalize d * 10 ^ (0 - 1 - k) = x at hgt hone ⊢
    refine nearestEven_of_lt ?_
    rw [abs_lt, Int.cast_one]
    constructor <;> linarith
  refine ⟨⟨by simp [oneDigit, isDecimal], by simp [oneDigit]⟩, ?_, by simp [oneDigit], by simp [oneDigit],
    by simp [oneDigit]⟩
  rw [hnear]
  simp [oneDigit, valueAt, digitsValue_singleton, show nibble 0x31 = 1 from rfl]

/-- INTERNAL: no digits are asked for, and the first place is one below. -/
theorem Rounded.shift {r : Result} (h : Rounded d k 0 r) : Rounded d (k - 1) (-1) r := by
  obtain ⟨hdec, hvalue, hplaces, hshort, hempty⟩ := h
  refine ⟨hdec, ?_, by omega, by omega, fun hnil => by have := hempty hnil; omega⟩
  rw [hvalue, show (-1 : ℤ) - 1 - (k - 1) = 0 - 1 - k by ring, show k - 1 + 1 - (-1) = k + 1 - 0 by ring]

/-! ## Powers of ten -/

/-- INTERNAL: a power of ten has one digit. -/
theorem power_of_ten (h : Decimal s) (hne : s ≠ []) (hlast : Suppressed s) (m : ℤ) (hvalue : valueAt s k = 10 ^ m) :
    s.length = 1 ∧ k = m := by
  have hmod := (h.suppressed_iff hne).mp hlast
  have hlow := h.le hne
  have hpos := List.length_pos_iff.mpr hne
  have heq : (digitsValue 10 s : ℚ) = 10 ^ (m - (k + 1 - s.length)) := by
    rw [zpow_sub₀ (by norm_num), ← hvalue, valueAt, mul_div_cancel_right₀ _ (zpow_pos (by norm_num) _).ne']
  have hone : m - (k + 1 - s.length) = 0 := by
    have hnonneg : 0 ≤ m - (k + 1 - s.length) := by
      by_contra hneg
      have hlt : (10 : ℚ) ^ (m - (k + 1 - s.length)) < 1 := zpow_lt_one_of_neg₀ (by norm_num) (by omega)
      rw [← heq] at hlt
      have hzero : digitsValue 10 s = 0 := by
        have : digitsValue 10 s < 1 := by exact_mod_cast hlt
        omega
      omega
    obtain ⟨e, he⟩ := Int.eq_ofNat_of_zero_le hnonneg
    rw [he, zpow_natCast] at heq
    have heq' : digitsValue 10 s = 10 ^ e := by exact_mod_cast heq
    cases e with
    | zero => exact he
    | succ e => rw [heq', pow_succ, Nat.mul_mod_left] at hmod; exact absurd rfl hmod
  rw [hone, zpow_zero] at heq
  have hval : digitsValue 10 s = 1 := by exact_mod_cast heq
  have hlen : s.length - 1 = 0 := by
    by_contra hmore
    have : 10 ^ 1 ≤ 10 ^ (s.length - 1) := Nat.pow_le_pow_right (by omega) (by omega)
    omega
  exact ⟨by omega, by omega⟩

/-- INTERNAL: a number that is so close to a power of ten that it is rounded to it, whatever the first place is taken for. -/
theorem Rounded.of_power {r : Result} {m k' ilim' : ℤ} (h : Rounded d k ilim r) (hne : r.1 ≠ []) (hlast : Suppressed r.1)
    (hnear : nearestEven (d * 10 ^ (ilim - 1 - k)) * (10 : ℚ) ^ (k + 1 - ilim) = 10 ^ m)
    (hnear' : nearestEven (d * 10 ^ (ilim' - 1 - k')) * (10 : ℚ) ^ (k' + 1 - ilim') = 10 ^ m) (hplaces : 1 ≤ m - k' + ilim') :
    Rounded d k' ilim' r := by
  obtain ⟨hlen, hplace⟩ := power_of_ten h.decimal hne hlast m (h.value.trans hnear)
  exact ⟨h.decimal, (h.value.trans hnear).trans hnear'.symm, by omega, by omega, fun hnil => absurd hnil hne⟩

/-! ## One way to write a number -/

/-- INTERNAL: the place of the first digit. -/
theorem Decimal.valueAt_bounds (h : Decimal s) (hne : s ≠ []) (k : ℤ) : 10 ^ k ≤ valueAt s k ∧ valueAt s k < 10 ^ (k + 1) := by
  have hpos : (0 : ℚ) < 10 ^ (k + 1 - s.length) := zpow_pos (by norm_num) _
  have hlen := List.length_pos_iff.mpr hne
  have hlow : (10 : ℚ) ^ (s.length - 1) ≤ digitsValue 10 s := by exact_mod_cast h.le hne
  have hhigh : (digitsValue 10 s : ℚ) < 10 ^ s.length := by exact_mod_cast h.lt
  refine ⟨?_, ?_⟩
  · calc (10 : ℚ) ^ k = 10 ^ (s.length - 1) * 10 ^ (k + 1 - s.length) := by
          rw [← zpow_natCast, ← zpow_add₀ (by norm_num)]
          congr 1
          omega
      _ ≤ valueAt s k := mul_le_mul_of_nonneg_right hlow hpos.le
  · calc valueAt s k < 10 ^ s.length * 10 ^ (k + 1 - s.length) := mul_lt_mul_of_pos_right hhigh hpos
      _ = 10 ^ (k + 1) := by
          rw [← zpow_natCast, ← zpow_add₀ (by norm_num)]
          congr 1
          omega

/-- INTERNAL: as many digits with the same value are the same digits. -/
theorem eq_of_digitsValue {s t : Bytes} (hs : ∀ c ∈ s, isDecimal c = true) (ht : ∀ c ∈ t, isDecimal c = true)
    (hlen : s.length = t.length) (hvalue : digitsValue 10 s = digitsValue 10 t) : s = t := by
  induction s generalizing t with
  | nil => exact (List.length_eq_zero_iff.mp hlen.symm).symm
  | cons c s ih =>
    obtain _ | ⟨c', t⟩ := t
    · exact absurd hlen (by simp)
    have hlen' : s.length = t.length := by simpa using hlen
    have hc := hs c List.mem_cons_self
    have hc' := ht c' List.mem_cons_self
    have hslt := digitsValue_lt 10 s fun x hx => (nibble_of_isDecimal x (hs x (List.mem_cons_of_mem c hx))).2
    have htlt := digitsValue_lt 10 t fun x hx => (nibble_of_isDecimal x (ht x (List.mem_cons_of_mem c' hx))).2
    simp only [digitsValue, hlen'] at hvalue hslt
    have hdiv := congrArg (· / 10 ^ t.length) hvalue
    simp only [Nat.mul_add_div (show 0 < 10 ^ t.length by positivity), Nat.div_eq_of_lt hslt, Nat.div_eq_of_lt htlt,
      Nat.add_zero] at hdiv
    rw [hdiv] at hvalue
    rw [ih (fun x hx => hs x (List.mem_cons_of_mem c hx)) (fun x hx => ht x (List.mem_cons_of_mem c' hx)) hlen' (by omega)]
    rw [(nibble_of_isDecimal c hc).1, (nibble_of_isDecimal c' hc').1] at hdiv
    simp only [isDecimal, Bool.and_eq_true, decide_eq_true_eq, UInt8.le_iff_toNat_le, UInt8.reduceToNat] at hc hc'
    rw [UInt8.toNat_inj.mp (show c.toNat = c'.toNat by omega)]

/-- INTERNAL: the longer digits of the same number end in zeros. -/
theorem Suppressed.length_le {s t : Bytes} (h : Decimal s) (hs : Suppressed s) (hne : s ≠ []) (hvalue : valueAt s k = valueAt t k) :
    s.length ≤ t.length := by
  by_contra hlt
  obtain ⟨n, hn⟩ := Nat.exists_eq_add_of_lt (not_le.mp hlt)
  have hscaled : digitsValue 10 s = digitsValue 10 t * 10 ^ (n + 1) := by
    have hpos : (10 : ℚ) ^ (k + 1 - s.length) ≠ 0 := (zpow_pos (by norm_num) _).ne'
    have heq : (digitsValue 10 s : ℚ) * 10 ^ (k + 1 - s.length) = digitsValue 10 t * 10 ^ (n + 1) * 10 ^ (k + 1 - s.length) := by
      rw [mul_assoc, ← zpow_natCast, ← zpow_add₀ (by norm_num)]
      refine hvalue.trans ?_
      rw [valueAt, hn]
      push_cast
      congr 2
      ring
    exact_mod_cast mul_right_cancel₀ hpos heq
  apply (h.suppressed_iff hne).mp hs
  rw [hscaled, pow_succ, ← mul_assoc, Nat.mul_mod_left]

/-- **A number has one row of digits** that neither begins nor ends with a zero. -/
theorem Decimal.eq_of_valueAt {s t : Bytes} {k k' : ℤ} (hs : Decimal s) (ht : Decimal t) (hslast : Suppressed s)
    (htlast : Suppressed t) (hsne : s ≠ []) (htne : t ≠ []) (hvalue : valueAt s k = valueAt t k') : s = t ∧ k = k' := by
  obtain ⟨hslow, hshigh⟩ := hs.valueAt_bounds hsne k
  obtain ⟨htlow, hthigh⟩ := ht.valueAt_bounds htne k'
  have hle : k < k' + 1 := (zpow_lt_zpow_iff_right₀ (by norm_num : (1 : ℚ) < 10)).mp (hslow.trans_lt (hvalue ▸ hthigh))
  have hge : k' < k + 1 := (zpow_lt_zpow_iff_right₀ (by norm_num : (1 : ℚ) < 10)).mp (htlow.trans_lt (hvalue ▸ hshigh))
  obtain rfl : k = k' := by omega
  have hlen : s.length = t.length :=
    le_antisymm (hslast.length_le hs hsne hvalue) (htlast.length_le ht htne hvalue.symm)
  refine ⟨eq_of_digitsValue hs.digits ht.digits hlen ?_, rfl⟩
  have hpos : (10 : ℚ) ^ (k + 1 - s.length) ≠ 0 := (zpow_pos (by norm_num) _).ne'
  have heq : (digitsValue 10 s : ℚ) * 10 ^ (k + 1 - s.length) = digitsValue 10 t * 10 ^ (k + 1 - s.length) := by
    simpa only [valueAt, hlen] using hvalue
  exact_mod_cast mul_right_cancel₀ hpos heq

/-- **A rounded number without zeros at its end is written in one way.** -/
theorem Rounded.unique {r r' : Result} (h : Rounded d k ilim r) (h' : Rounded d k ilim r') (hlast : Suppressed r.1)
    (hlast' : Suppressed r'.1) : r = r' := by
  have hvalue := h.value.trans h'.value.symm
  have hpos : ∀ {r : Result}, Rounded d k ilim r → r.1 ≠ [] → 0 < valueAt r.1 r.2 := fun h hne =>
    (zpow_pos (by norm_num) _).trans_le (h.decimal.valueAt_bounds hne _).1
  have hzero : ∀ {r : Result}, r.1 = [] → valueAt r.1 r.2 = 0 := fun hnil => by rw [hnil]; simp [valueAt]
  by_cases hne : r.1 = []
  · have hne' : r'.1 = [] := by
      by_contra hne'
      have := hpos h' hne'
      rw [← hvalue, hzero hne] at this
      exact lt_irrefl _ this
    exact Prod.ext (hne.trans hne'.symm) ((h.empty hne).trans (h'.empty hne').symm)
  · have hne' : r'.1 ≠ [] := fun hnil => by
      have := hpos h hne
      rw [hvalue, hzero hnil] at this
      exact lt_irrefl _ this
    obtain ⟨hdigits, hplace⟩ := h.decimal.eq_of_valueAt h'.decimal hlast hlast' hne hne' hvalue
    exact Prod.ext hdigits hplace

end TTLinux.Analysis.DtoaDigits
