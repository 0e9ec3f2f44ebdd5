import Mathlib.Algebra.Order.Ring.Rat
import Mathlib.Algebra.Field.Rat
import TTLinux.Lib.Hex

/-!
# Numerals

The value of a text of digits in a base, and numbers that are written with a sign, a point and an exponent. A style
says how they look: what stands in front of the digits, which bytes are digits, and which letter marks the exponent. What
is written in a style can be read again.
-/

set_option autoImplicit false

namespace TTLinux.Lib

/-! ## Digits -/

/-- The value of a text of digits in a base, the first digit being the highest. -/
def digitsValue (base : ℕ) : Bytes → ℕ
  | [] => 0
  | c :: s => base ^ s.length * nibble c + digitsValue base s

/-- INTERNAL: no digits are worth nothing. -/
@[simp] theorem digitsValue_nil (base : ℕ) : digitsValue base [] = 0 := rfl

/-- INTERNAL: the value of two parts. -/
theorem digitsValue_append (base : ℕ) (s t : Bytes) :
    digitsValue base (s ++ t) = base ^ t.length * digitsValue base s + digitsValue base t := by
  induction s with
  | nil => simp
  | cons c s ih =>
    rw [List.cons_append, digitsValue, digitsValue, ih, List.length_append, pow_add]
    ring

/-- INTERNAL: the value of one digit. -/
theorem digitsValue_singleton (base : ℕ) (c : UInt8) : digitsValue base [c] = nibble c := by
  simp [digitsValue]

/-- INTERNAL: zeros in front or alone are worth nothing. -/
theorem digitsValue_zeros (base n : ℕ) : digitsValue base (List.replicate n 0x30) = 0 := by
  induction n with
  | zero => rfl
  | succ n ih =>
    rw [List.replicate_succ, digitsValue, ih]
    rfl

/-- INTERNAL: the value is bounded by the number of digits. -/
theorem digitsValue_lt (base : ℕ) (s : Bytes) (hs : ∀ c ∈ s, nibble c < base) :
    digitsValue base s < base ^ s.length := by
  induction s with
  | nil => simp
  | cons c s ih =>
    have hc := hs c List.mem_cons_self
    have hrest := ih fun c hc => hs c (List.mem_cons_of_mem _ hc)
    calc digitsValue base (c :: s) < base ^ s.length * nibble c + base ^ s.length := by
          rw [digitsValue]
          omega
      _ = base ^ s.length * (nibble c + 1) := by ring
      _ ≤ base ^ s.length * base := Nat.mul_le_mul_left _ hc
      _ = base ^ (c :: s).length := by rw [List.length_cons, pow_succ]

/-- INTERNAL: the first digits and the others are a quotient and its remainder. -/
theorem digitsValue_take_drop (base : ℕ) (s : Bytes) (i : ℕ) (hs : ∀ c ∈ s, nibble c < base) :
    digitsValue base (s.take i) = digitsValue base s / base ^ (s.length - i) ∧
      digitsValue base (s.drop i) = digitsValue base s % base ^ (s.length - i) := by
  have hlt := digitsValue_lt base (s.drop i) fun c hc => hs c (List.mem_of_mem_drop hc)
  have hsum := digitsValue_append base (s.take i) (s.drop i)
  rw [List.take_append_drop, List.length_drop] at hsum
  rw [List.length_drop] at hlt
  refine ⟨?_, ?_⟩
  · rw [hsum, Nat.mul_add_div (by omega), Nat.div_eq_of_lt hlt, Nat.add_zero]
  · rw [hsum, Nat.mul_add_mod, Nat.mod_eq_of_lt hlt]

/-- INTERNAL: the first digit says in which part of its range a number lies. -/
theorem le_first_digit_iff (base : ℕ) (c : UInt8) (s : Bytes) (d : ℕ) (hs : ∀ c ∈ s, nibble c < base) :
    d ≤ nibble c ↔ d * base ^ s.length ≤ digitsValue base (c :: s) := by
  have hlt := digitsValue_lt base s hs
  rw [digitsValue, Nat.mul_comm d]
  constructor
  · intro hd
    exact (Nat.mul_le_mul_left _ hd).trans (Nat.le_add_right _ _)
  · intro hle
    by_contra hd
    have hmul : base ^ s.length * (nibble c + 1) ≤ base ^ s.length * d := Nat.mul_le_mul_left _ (by omega)
    rw [Nat.mul_add, Nat.mul_one] at hmul
    omega

/-! ## Styles -/

/-- A decimal digit. -/
def isDecimal (c : UInt8) : Bool := 0x30 ≤ c && c ≤ 0x39

/-- A number as it is written: digits before and behind the point, if there is one, and the exponent with its sign. -/
structure Numeral where
  negative : Bool
  whole : Bytes
  point : Bool
  fraction : Bytes
  exponent : Option (Bool × Bytes)

/-- How numbers are written: the text in front of the digits, the digits and their base, the letter of the exponent and
what is raised to it. The bytes that separate the parts can be told from the digits. -/
structure NumberStyle where
  lead : Bytes
  digit : UInt8 → Bool
  base : ℕ
  mark : UInt8
  scale : ℕ
  minus_lead : (0x2d : UInt8) ∉ lead
  minus_digit : digit 0x2d = false
  minus_mark : mark ≠ 0x2d
  point_digit : digit 0x2e = false
  point_mark : mark ≠ 0x2e
  mark_digit : digit mark = false

/-- The exponent as a number. -/
def exponentValue : Option (Bool × Bytes) → ℤ
  | none => 0
  | some (negative, ds) => if negative then -(digitsValue 10 ds : ℤ) else digitsValue 10 ds

/-- The text of an exponent. -/
def exponentText (mark : UInt8) : Option (Bool × Bytes) → Bytes
  | none => []
  | some (negative, ds) => mark :: (if negative then 0x2d else 0x2b) :: ds

namespace NumberStyle

variable (s : NumberStyle)

/-- **The number that a numeral stands for.** -/
def value (n : Numeral) : ℚ :=
  (if n.negative then -1 else 1) * (digitsValue s.base (n.whole ++ n.fraction) : ℚ) / (s.base : ℚ) ^ n.fraction.length *
    (s.scale : ℚ) ^ exponentValue n.exponent

/-- The text of a numeral. -/
def text (n : Numeral) : Bytes :=
  (if n.negative then [0x2d] else []) ++ (s.lead ++ (n.whole ++
    ((if n.point then 0x2e :: n.fraction else []) ++ exponentText s.mark n.exponent)))

/-- The parts of a numeral are digits, and nothing stands behind a point that is not there. -/
structure WellFormed (n : Numeral) : Prop where
  whole : ∀ c ∈ n.whole, s.digit c = true
  fraction : ∀ c ∈ n.fraction, s.digit c = true
  point : n.point = false → n.fraction = []
  exponent : ∀ negative ds, n.exponent = some (negative, ds) → ds ≠ [] ∧ ∀ c ∈ ds, isDecimal c = true

/-- Read an exponent. -/
def readExponent : Bytes → Option (Option (Bool × Bytes))
  | [] => some none
  | [_] => none
  | c :: sign :: ds =>
    if c = s.mark ∧ (sign = 0x2d ∨ sign = 0x2b) ∧ ds ≠ [] ∧ ds.all isDecimal then some (some (sign = 0x2d, ds)) else none

/-- Read the digits: those before the point, whether there is one, those behind it, and the rest. -/
def readDigits (t : Bytes) : Bytes × Bool × Bytes × Bytes :=
  match t.dropWhile s.digit with
  | [] => (t.takeWhile s.digit, false, [], [])
  | c :: rest =>
    if c = 0x2e then (t.takeWhile s.digit, true, rest.takeWhile s.digit, rest.dropWhile s.digit)
    else (t.takeWhile s.digit, false, [], c :: rest)

/-- **Read a numeral**: the whole text has to be one. -/
def read (t : Bytes) : Option Numeral :=
  let (negative, t) := if t.head? = some 0x2d then (true, t.tail) else (false, t)
  if s.lead <+: t then
    let (whole, point, fraction, rest) := s.readDigits (t.drop s.lead.length)
    (s.readExponent rest).map fun exponent => ⟨negative, whole, point, fraction, exponent⟩
  else none

/-! ## Reading what was written -/

/-- INTERNAL: an exponent is read back from its text. -/
theorem readExponent_text (e : Option (Bool × Bytes))
    (he : ∀ negative ds, e = some (negative, ds) → ds ≠ [] ∧ ∀ c ∈ ds, isDecimal c = true) :
    s.readExponent (exponentText s.mark e) = some e := by
  rcases e with _ | ⟨negative, ds⟩
  · rfl
  · obtain ⟨hne, hds⟩ := he negative ds rfl
    have hall : ds.all isDecimal = true := List.all_eq_true.mpr hds
    unfold exponentText readExponent
    cases negative <;> simp [hne, hall]

/-- INTERNAL: digits end where something else begins. -/
theorem takeWhile_digits (ds rest : Bytes) (hds : ∀ c ∈ ds, s.digit c = true)
    (hrest : ∀ c, rest.head? = some c → s.digit c = false) :
    (ds ++ rest).takeWhile s.digit = ds ∧ (ds ++ rest).dropWhile s.digit = rest := by
  rw [List.takeWhile_append_of_pos hds, List.dropWhile_append_of_pos hds]
  cases rest with
  | nil => simp
  | cons c rest =>
    have hc := hrest c rfl
    rw [List.takeWhile_cons_of_neg (by simp [hc]), List.dropWhile_cons_of_neg (by simp [hc])]
    exact ⟨List.append_nil ds, rfl⟩

/-- INTERNAL: its text begins with the mark. -/
theorem exponentText_head (e : Option (Bool × Bytes)) (c : UInt8) (h : (exponentText s.mark e).head? = some c) :
    c = s.mark := by
  rcases e with _ | ⟨negative, ds⟩
  · cases h
  · cases h
    rfl

/-- INTERNAL: the digits of a numeral are read back from its text. -/
theorem readDigits_text (n : Numeral) (h : s.WellFormed n) :
    s.readDigits (n.whole ++ ((if n.point then 0x2e :: n.fraction else []) ++ exponentText s.mark n.exponent)) =
      (n.whole, n.point, n.fraction, exponentText s.mark n.exponent) := by
  have hmark : ∀ c, (exponentText s.mark n.exponent).head? = some c → s.digit c = false := by
    intro c hc
    rw [s.exponentText_head n.exponent c hc]
    exact s.mark_digit
  unfold readDigits
  cases hpoint : n.point with
  | true =>
    obtain ⟨htake, hdrop⟩ := s.takeWhile_digits n.whole (0x2e :: n.fraction ++ exponentText s.mark n.exponent) h.whole
      (by
        intro c hc
        cases hc
        exact s.point_digit)
    obtain ⟨htake', hdrop'⟩ := s.takeWhile_digits n.fraction (exponentText s.mark n.exponent) h.fraction hmark
    rw [if_pos rfl, htake, hdrop]
    simp only [List.cons_append, if_true, htake', hdrop']
  | false =>
    obtain ⟨htake, hdrop⟩ := s.takeWhile_digits n.whole (exponentText s.mark n.exponent) h.whole hmark
    rw [if_neg Bool.false_ne_true, List.nil_append, htake, hdrop, h.point hpoint]
    cases htext : exponentText s.mark n.exponent with
    | nil => rfl
    | cons c rest =>
      have hc : c = s.mark := s.exponentText_head n.exponent c (by rw [htext]; rfl)
      simp only
      rw [if_neg (hc ▸ s.point_mark)]

/-- INTERNAL: behind the sign there is no other one. -/
theorem head_ne_minus (n : Numeral) (h : s.WellFormed n) :
    (s.lead ++ (n.whole ++ ((if n.point then 0x2e :: n.fraction else []) ++
      exponentText s.mark n.exponent))).head? ≠ some 0x2d := by
  intro hhead
  rw [List.head?_append, List.head?_append, List.head?_append] at hhead
  rcases Option.or_eq_some_iff.mp hhead with hlead | ⟨-, hhead⟩
  · exact s.minus_lead (List.mem_of_mem_head? hlead)
  rcases Option.or_eq_some_iff.mp hhead with hwhole | ⟨-, hhead⟩
  · have hdigit := h.whole _ (List.mem_of_mem_head? hwhole)
    rw [s.minus_digit] at hdigit
    cases hdigit
  rcases Option.or_eq_some_iff.mp hhead with hpoint | ⟨-, hexponent⟩
  · cases hp : n.point with
    | true =>
      rw [hp] at hpoint
      cases hpoint
    | false =>
      rw [hp] at hpoint
      cases hpoint
  · exact s.minus_mark (s.exponentText_head n.exponent _ hexponent).symm

/-- **What is written in a style can be read again.** -/
theorem read_text (n : Numeral) (h : s.WellFormed n) : s.read (s.text n) = some n := by
  have hstart : (s.lead ++ (n.whole ++ ((if n.point then 0x2e :: n.fraction else []) ++
      exponentText s.mark n.exponent))).head? ≠ some 0x2d := s.head_ne_minus n h
  have hdigits := s.readDigits_text n h
  have hexponent := s.readExponent_text n.exponent h.exponent
  unfold read text
  cases hneg : n.negative with
  | true =>
    simp only [if_true, List.cons_append, List.nil_append, List.head?_cons, List.tail_cons, List.prefix_append,
      List.drop_left, hdigits, hexponent, Option.map_some]
    rw [← hneg]
  | false =>
    simp only [Bool.false_eq_true, if_false, List.nil_append, if_neg hstart, List.prefix_append, if_true,
      List.drop_left, hdigits, hexponent, Option.map_some]
    rw [← hneg]

end NumberStyle

end TTLinux.Lib
