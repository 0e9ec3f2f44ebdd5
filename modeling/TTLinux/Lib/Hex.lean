import Mathlib.Data.Nat.Bitwise
import Mathlib.Data.List.Lex
import Mathlib.Tactic.Ring
import TTLinux.Lib.Bytes

/-!
# Hexadecimal texts

The value of a text of hexadecimal digits, the lower-case digits of a number, and what the two
keep: the digits of a bitwise AND are the ANDs of the digits, and the byte order of lower-case
texts of one length is the order of their values.
-/

set_option autoImplicit false

namespace TTLinux.Lib

/-! ## Digits -/

/-- A decimal digit or a letter from `a` to `f`. -/
def IsLowerHex (c : UInt8) : Prop := (0x30 ≤ c ∧ c ≤ 0x39) ∨ (0x61 ≤ c ∧ c ≤ 0x66)

/-- A hexadecimal digit in either case. -/
def IsHex (c : UInt8) : Prop := IsLowerHex c ∨ (0x41 ≤ c ∧ c ≤ 0x46)

instance (c : UInt8) : Decidable (IsLowerHex c) := inferInstanceAs (Decidable (_ ∨ _))

instance (c : UInt8) : Decidable (IsHex c) := inferInstanceAs (Decidable (_ ∨ _))

/-- The value of a digit. -/
def nibble (c : UInt8) : ℕ :=
  if c ≤ 0x39 then c.toNat - 0x30 else if c ≤ 0x46 then c.toNat - 0x41 + 10 else c.toNat - 0x61 + 10

/-- The lower-case digit of a value below 16. -/
def hexDigit (v : ℕ) : UInt8 := if v < 10 then (v + 0x30).toUInt8 else (v - 10 + 0x61).toUInt8

/-- INTERNAL: the value of a digit. -/
theorem nibble_lt (c : UInt8) (hc : IsHex c) : nibble c < 16 := by
  simp only [IsHex, IsLowerHex, UInt8.le_iff_toNat_le, UInt8.reduceToNat] at hc
  simp only [nibble, UInt8.le_iff_toNat_le, UInt8.reduceToNat]
  split_ifs <;> omega

/-- INTERNAL: the character of a value. -/
theorem toNat_hexDigit (v : ℕ) (hv : v < 16) :
    (hexDigit v).toNat = if v < 10 then v + 0x30 else v - 10 + 0x61 := by
  unfold hexDigit
  split_ifs
  · exact Nat.mod_eq_of_lt (by omega)
  · exact Nat.mod_eq_of_lt (by omega)

/-- INTERNAL: it is a lower case digit. -/
theorem isLowerHex_hexDigit (v : ℕ) (hv : v < 16) : IsLowerHex (hexDigit v) := by
  simp only [IsLowerHex, UInt8.le_iff_toNat_le, UInt8.reduceToNat, toNat_hexDigit v hv]
  split_ifs <;> omega

/-- INTERNAL: with that value. -/
theorem nibble_hexDigit (v : ℕ) (hv : v < 16) : nibble (hexDigit v) = v := by
  simp only [nibble, UInt8.le_iff_toNat_le, UInt8.reduceToNat, toNat_hexDigit v hv]
  split_ifs <;> omega

/-- INTERNAL: a lower case digit is the character of its value. -/
theorem hexDigit_nibble (c : UInt8) (hc : IsLowerHex c) : hexDigit (nibble c) = c := by
  apply UInt8.toNat_inj.mp
  rw [toNat_hexDigit _ (nibble_lt c (Or.inl hc))]
  simp only [IsLowerHex, UInt8.le_iff_toNat_le, UInt8.reduceToNat] at hc
  simp only [nibble, UInt8.le_iff_toNat_le, UInt8.reduceToNat]
  split_ifs <;> omega

/-- INTERNAL: the digits stand in the order of their values. -/
theorem nibble_lt_nibble (c d : UInt8) (hc : IsLowerHex c) (hd : IsLowerHex d) :
    nibble c < nibble d ↔ c < d := by
  simp only [IsLowerHex, UInt8.le_iff_toNat_le, UInt8.reduceToNat] at hc hd
  simp only [nibble, UInt8.le_iff_toNat_le, UInt8.lt_iff_toNat_lt, UInt8.reduceToNat]
  split_ifs <;> omega

/-! ## Texts -/

/-- The value of a text of digits, the first digit being the highest. -/
def hexValue : Bytes → ℕ
  | [] => 0
  | c :: s => 16 ^ s.length * nibble c + hexValue s

/-- The lowest `w` digits of a number. -/
def hexText : ℕ → ℕ → Bytes
  | 0, _ => []
  | w + 1, n => hexDigit (n / 16 ^ w % 16) :: hexText w n

/-- INTERNAL: the length of a text. -/
@[simp] theorem length_hexText (w n : ℕ) : (hexText w n).length = w := by
  induction w with
  | zero => rfl
  | succ w ih => simp [hexText, ih]

/-- INTERNAL: the value of a text is bounded by its length. -/
theorem hexValue_lt (s : Bytes) (hs : ∀ c ∈ s, IsHex c) : hexValue s < 16 ^ s.length := by
  induction s with
  | nil => simp [hexValue]
  | cons c s ih =>
    have hc := nibble_lt c (hs c List.mem_cons_self)
    have hrest := ih fun c hc => hs c (List.mem_cons_of_mem _ hc)
    calc hexValue (c :: s) < 16 ^ s.length * nibble c + 16 ^ s.length := by
          rw [hexValue]
          omega
      _ = 16 ^ s.length * (nibble c + 1) := by ring
      _ ≤ 16 ^ s.length * 16 := Nat.mul_le_mul_left _ hc
      _ = 16 ^ (c :: s).length := by rw [List.length_cons, pow_succ]

/-- INTERNAL: a text has lower case digits. -/
theorem isLowerHex_hexText (w n : ℕ) : ∀ c ∈ hexText w n, IsLowerHex c := by
  induction w with
  | zero => simp [hexText]
  | succ w ih =>
    intro c hc
    rcases List.mem_cons.mp hc with rfl | hc
    · exact isLowerHex_hexDigit _ (Nat.mod_lt _ (by omega))
    · exact ih c hc

/-- INTERNAL: the digits are those of the number. -/
theorem hexValue_hexText (w n : ℕ) : hexValue (hexText w n) = n % 16 ^ w := by
  induction w with
  | zero => simp [hexText, hexValue, Nat.mod_one]
  | succ w ih =>
    rw [hexText, hexValue, ih, length_hexText, nibble_hexDigit _ (Nat.mod_lt _ (by omega)), Nat.mod_pow_succ]
    omega

/-- INTERNAL: higher digits do not matter. -/
theorem hexText_add (w a n : ℕ) : hexText w (16 ^ w * a + n) = hexText w n := by
  induction w generalizing a with
  | zero => rfl
  | succ w ih =>
    have hpow : 16 ^ (w + 1) * a + n = 16 ^ w * (16 * a) + n := by ring
    rw [hexText, hexText, hpow, ih (16 * a), Nat.mul_add_div (Nat.pow_pos (by omega)), Nat.mul_add_mod]

/-- INTERNAL: zero is written with zeros. -/
theorem hexText_zero (w : ℕ) : hexText w 0 = List.replicate w 0x30 := by
  induction w with
  | zero => rfl
  | succ w ih =>
    rw [hexText, ih, Nat.zero_div]
    rfl

/-- INTERNAL: the digits from the other end: the lowest one stands last. -/
theorem hexText_succ (w n : ℕ) : hexText (w + 1) n = hexText w (n / 16) ++ [hexDigit (n % 16)] := by
  induction w with
  | zero => simp [hexText]
  | succ w ih =>
    rw [hexText, ih, hexText, List.cons_append, Nat.div_div_eq_div_mul, pow_succ']

/-- INTERNAL: **a lower-case text is the digits of its value.** -/
theorem hexText_hexValue (s : Bytes) (hs : ∀ c ∈ s, IsLowerHex c) : hexText s.length (hexValue s) = s := by
  induction s with
  | nil => rfl
  | cons c s ih =>
    have hc := hs c List.mem_cons_self
    have hs' : ∀ c ∈ s, IsLowerHex c := fun c hc => hs c (List.mem_cons_of_mem _ hc)
    have hlt := hexValue_lt s fun c hc => Or.inl (hs' c hc)
    have hdiv : (16 ^ s.length * nibble c + hexValue s) / 16 ^ s.length = nibble c := by
      rw [Nat.mul_add_div (Nat.pow_pos (by omega)), Nat.div_eq_of_lt hlt, Nat.add_zero]
    rw [hexValue, List.length_cons, hexText, hexText_add, ih hs', hdiv,
      Nat.mod_eq_of_lt (nibble_lt c (Or.inl hc)), hexDigit_nibble c hc]

/-! ## Order and bits -/

/-- INTERNAL: **the order of texts is the order of values.** -/
theorem hexValue_lt_hexValue (s t : Bytes) (hs : ∀ c ∈ s, IsLowerHex c) (ht : ∀ c ∈ t, IsLowerHex c)
    (hlen : s.length = t.length) : hexValue s < hexValue t ↔ s < t := by
  induction s generalizing t with
  | nil => simp [List.length_eq_zero_iff.mp hlen.symm]
  | cons c s ih =>
    cases t with
    | nil => simp at hlen
    | cons d t =>
      have hc := hs c List.mem_cons_self
      have hd := ht d List.mem_cons_self
      have hs' : ∀ c ∈ s, IsLowerHex c := fun c hc => hs c (List.mem_cons_of_mem _ hc)
      have ht' : ∀ c ∈ t, IsLowerHex c := fun c hc => ht c (List.mem_cons_of_mem _ hc)
      have hlen' : s.length = t.length := by simpa using hlen
      have hslt := hexValue_lt s fun c hc => Or.inl (hs' c hc)
      have htlt := hexValue_lt t fun c hc => Or.inl (ht' c hc)
      rw [List.cons_lt_cons_iff, ← nibble_lt_nibble c d hc hd, ← ih t hs' ht' hlen', hexValue, hexValue,
        ← hlen']
      rw [← hlen'] at htlt
      rcases Nat.lt_trichotomy (nibble c) (nibble d) with h | h | h
      · have hmul := Nat.mul_le_mul_left (16 ^ s.length) h
        rw [Nat.succ_eq_add_one, Nat.mul_add, Nat.mul_one] at hmul
        simp only [h, true_or, iff_true]
        omega
      · have hcd : c = d := by rw [← hexDigit_nibble c hc, h, hexDigit_nibble d hd]
        simp [hcd]
      · have hmul := Nat.mul_le_mul_left (16 ^ s.length) h
        rw [Nat.succ_eq_add_one, Nat.mul_add, Nat.mul_one] at hmul
        have hcd : c ≠ d := fun hcd => by simp [hcd] at h
        simp only [Nat.lt_asymm h, hcd, false_and, or_self, iff_false]
        omega

/-- INTERNAL: an AND of two numbers that are cut at one place. -/
theorem and_mul_add (k a b x y : ℕ) (hx : x < 2 ^ k) (hy : y < 2 ^ k) :
    (2 ^ k * a + x) &&& (2 ^ k * b + y) = 2 ^ k * (a &&& b) + (x &&& y) := by
  apply Nat.eq_of_testBit_eq
  intro j
  rw [Nat.testBit_and, Nat.testBit_two_pow_mul_add a hx, Nat.testBit_two_pow_mul_add b hy,
    Nat.testBit_two_pow_mul_add _ (Nat.and_lt_two_pow x hy)]
  split_ifs <;> rw [Nat.testBit_and]

/-- The digit of the AND of two digits. -/
def andDigit (c d : UInt8) : UInt8 := hexDigit (nibble c &&& nibble d)

/-- INTERNAL: the common bits of two digits are those of a digit. -/
theorem and_nibble_lt (c d : UInt8) (hd : IsHex d) : nibble c &&& nibble d < 16 :=
  Nat.and_lt_two_pow (n := 4) _ (nibble_lt d hd)

/-- INTERNAL: **the AND of two texts** is taken digit by digit. -/
theorem hexValue_and (s t : Bytes) (hs : ∀ c ∈ s, IsHex c) (ht : ∀ c ∈ t, IsHex c)
    (hlen : s.length = t.length) : hexValue (List.zipWith andDigit s t) = hexValue s &&& hexValue t := by
  induction s generalizing t with
  | nil => simp [hexValue]
  | cons c s ih =>
    cases t with
    | nil => simp at hlen
    | cons d t =>
      have hlen' : s.length = t.length := by simpa using hlen
      have hs' : ∀ c ∈ s, IsHex c := fun c hc => hs c (List.mem_cons_of_mem _ hc)
      have ht' : ∀ c ∈ t, IsHex c := fun c hc => ht c (List.mem_cons_of_mem _ hc)
      have hpow : (16 : ℕ) ^ s.length = 2 ^ (4 * s.length) := by
        rw [pow_mul]
        rfl
      have hslt := hexValue_lt s hs'
      have htlt := hexValue_lt t ht'
      rw [← hlen', hpow] at htlt
      rw [hpow] at hslt
      have hand := and_nibble_lt c d (ht d List.mem_cons_self)
      rw [List.zipWith_cons_cons, hexValue, ih t hs' ht' hlen', andDigit, nibble_hexDigit _ hand, hexValue,
        hexValue, List.length_zipWith, ← hlen', Nat.min_self, hpow, and_mul_add _ _ _ _ _ hslt htlt]

/-- INTERNAL: and so are those of two texts. -/
theorem isLowerHex_zipWith_andDigit (s t : Bytes) (ht : ∀ c ∈ t, IsHex c) :
    ∀ c ∈ List.zipWith andDigit s t, IsLowerHex c := by
  induction s generalizing t with
  | nil => simp
  | cons c s ih =>
    cases t with
    | nil => simp
    | cons d t =>
      intro x hx
      rcases List.mem_cons.mp hx with rfl | hx
      · exact isLowerHex_hexDigit _ (and_nibble_lt c d (ht d List.mem_cons_self))
      · exact ih t (fun c hc => ht c (List.mem_cons_of_mem _ hc)) x hx

/-- INTERNAL: the digits so taken are the lower-case digits of the AND. -/
theorem zipWith_andDigit (s t : Bytes) (hs : ∀ c ∈ s, IsHex c) (ht : ∀ c ∈ t, IsHex c)
    (hlen : s.length = t.length) :
    List.zipWith andDigit s t = hexText s.length (hexValue s &&& hexValue t) := by
  have htext := hexText_hexValue _ (isLowerHex_zipWith_andDigit s t ht)
  rw [hexValue_and s t hs ht hlen, List.length_zipWith, ← hlen, Nat.min_self] at htext
  exact htext.symm

end TTLinux.Lib
