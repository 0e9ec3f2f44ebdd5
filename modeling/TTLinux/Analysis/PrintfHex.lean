import Mathlib.Data.List.DropRight
import TTLinux.Lib.Numeral
import TTLinux.Analysis.PrintfLayout

/-!
# Hexadecimal conversions

The digits of `%a` are those of the fraction, which has thirteen with the zeros in front of it. Without a precision the
zeros at the end are removed. With one, the digits behind it are rounded, and a carry runs through the buffer up to the
digit before the point.
-/

set_option autoImplicit false

namespace TTLinux.Analysis.PrintfHex

open TTLinux.Lib
open TTLinux.Model.Printf
open TTLinux.Analysis.PrintfLayout

/-! ## The digits of a number -/

/-- INTERNAL: a digit in either case. -/
theorem cased_digitChar (upcase : Bool) : ∀ d < 16,
    nibble (cased upcase (Nat.digitChar d)) = d ∧ IsHex (cased upcase (Nat.digitChar d)) := by
  cases upcase <;> decide

/-- INTERNAL: the character of a decimal digit. -/
theorem digitChar_spec : ∀ d < 10, nibble (digitChar d) = d ∧ isDecimal (digitChar d) = true := by decide

/-- INTERNAL: `__lltostr` gives the digits of the number. -/
theorem lltostr_spec (upcase : Bool) (n : ℕ) :
    digitsValue 16 (lltostr upcase n) = n ∧ ∀ c ∈ lltostr upcase n, IsHex c := by
  induction n using Nat.strong_induction_on with
  | h n ih =>
    unfold lltostr
    by_cases hn : n < 16
    · obtain ⟨hvalue, hhex⟩ := cased_digitChar upcase n hn
      rw [Nat.toDigits_of_lt_base hn, List.map_singleton]
      refine ⟨by rw [digitsValue_singleton, hvalue], ?_⟩
      intro c hc
      rw [List.mem_singleton.mp hc]
      exact hhex
    · obtain ⟨hvalue, hhex⟩ := cased_digitChar upcase (n % 16) (Nat.mod_lt _ (by omega))
      obtain ⟨ihvalue, ihhex⟩ := ih (n / 16) (by omega)
      unfold lltostr at ihvalue ihhex
      rw [Nat.toDigits_of_base_le (by omega) (by omega), List.map_append, List.map_singleton]
      refine ⟨?_, ?_⟩
      · rw [digitsValue_append, digitsValue_singleton, ihvalue, hvalue, List.length_singleton]
        omega
      · intro c hc
        rcases List.mem_append.mp hc with hc | hc
        · exact ihhex c hc
        · rw [List.mem_singleton.mp hc]
          exact hhex

/-- INTERNAL: every number has a digit. -/
theorem lltostr_length_pos (upcase : Bool) (n : ℕ) : 0 < (lltostr upcase n).length := by
  unfold lltostr
  rw [List.length_map]
  exact Nat.length_toDigits_pos

/-- INTERNAL: how many digits a number has. -/
theorem lltostr_length_le_iff (upcase : Bool) (n k : ℕ) (hk : 0 < k) : (lltostr upcase n).length ≤ k ↔ n < 16 ^ k := by
  unfold lltostr
  rw [List.length_map]
  exact Nat.length_toDigits_le_iff (by omega) hk

/-- The fraction of a double. -/
def mantissa (u : BitVec 64) : ℕ := (u &&& MANTMASK).toNat

/-- INTERNAL: the mantissa has thirteen hexadecimal digits. -/
theorem mantissa_lt (u : BitVec 64) : mantissa u < 16 ^ 13 := by
  unfold mantissa
  have hle : (u &&& MANTMASK).toNat ≤ MANTMASK.toNat := by
    rw [BitVec.toNat_and]
    exact Nat.and_le_right
  have hmask : MANTMASK.toNat < 16 ^ 13 := by decide
  omega

/-- The thirteen digits of the fraction. -/
def fractionHex (upcase : Bool) (m : ℕ) : Bytes :=
  List.replicate (13 - (lltostr upcase m).length) (chr '0') ++ lltostr upcase m

/-- INTERNAL: the fraction has as many. -/
theorem fractionHex_length (upcase : Bool) (m : ℕ) (hm : m < 16 ^ 13) : (fractionHex upcase m).length = 13 := by
  have hle := (lltostr_length_le_iff upcase m 13 (by omega)).mpr hm
  unfold fractionHex
  rw [List.length_append, List.length_replicate]
  omega

/-- INTERNAL: the value of the fraction. -/
theorem fractionHex_value (upcase : Bool) (m : ℕ) : digitsValue 16 (fractionHex upcase m) = m := by
  have hzeros : List.replicate (13 - (lltostr upcase m).length) (chr '0') =
      List.replicate (13 - (lltostr upcase m).length) 0x30 := rfl
  unfold fractionHex
  rw [digitsValue_append, hzeros, digitsValue_zeros, Nat.mul_zero, Nat.zero_add, (lltostr_spec upcase m).1]

/-- INTERNAL: its characters. -/
theorem fractionHex_hex (upcase : Bool) (m : ℕ) : ∀ c ∈ fractionHex upcase m, IsHex c := by
  intro c hc
  rcases List.mem_append.mp hc with hc | hc
  · rw [List.eq_of_mem_replicate hc]
    decide
  · exact (lltostr_spec upcase m).2 c hc

/-! ## Rounding up -/

/-- The next digit.
SOURCE: dietlibc-printf.patch:3948-3952 -/
def nextDigit (upcase : Bool) (c : UInt8) : UInt8 := if c = chr '9' then cased upcase 'a' else c + 1

/-- Add one to a row of digits: whether there is a carry, and the digits. -/
def addOne (upcase : Bool) : Bytes → Bool × Bytes
  | [] => (true, [])
  | c :: cs =>
    if (addOne upcase cs).1 then
      if c = chr 'f' ∨ c = chr 'F' then (true, chr '0' :: (addOne upcase cs).2)
      else (false, nextDigit upcase c :: (addOne upcase cs).2)
    else (false, c :: (addOne upcase cs).2)

/-- INTERNAL: the digit after one that is not the last. -/
theorem nextDigit_spec (upcase : Bool) (c : UInt8) (hc : IsHex c) (hf : ¬ (c = chr 'f' ∨ c = chr 'F')) :
    nibble (nextDigit upcase c) = nibble c + 1 ∧ IsHex (nextDigit upcase c) := by
  unfold nextDigit
  by_cases hnine : c = chr '9'
  · subst hnine
    cases upcase <;> decide
  · rw [if_neg hnine]
    have hnine' : c.toNat ≠ 57 := fun h => hnine (UInt8.toNat_inj.mp h)
    have hf' : c.toNat ≠ 102 := fun h => hf (Or.inl (UInt8.toNat_inj.mp h))
    have hF' : c.toNat ≠ 70 := fun h => hf (Or.inr (UInt8.toNat_inj.mp h))
    have hadd : (c + 1).toNat = (c.toNat + 1) % 256 := UInt8.toNat_add c 1
    simp only [IsHex, IsLowerHex, nibble, UInt8.le_iff_toNat_le, UInt8.reduceToNat, hadd] at hc ⊢
    refine ⟨?_, by omega⟩
    split_ifs <;> omega

/-- INTERNAL: the last digit. -/
theorem nibble_f (c : UInt8) (hf : c = chr 'f' ∨ c = chr 'F') : nibble c = 15 := by
  rcases hf with rfl | rfl <;> decide

/-- INTERNAL: **the digits of a number and the carry are those of the next number.** -/
theorem addOne_value (upcase : Bool) (ds : Bytes) (hds : ∀ c ∈ ds, IsHex c) :
    digitsValue 16 ds + 1 = digitsValue 16 (addOne upcase ds).2 + (if (addOne upcase ds).1 then 16 ^ ds.length else 0) ∧
      (addOne upcase ds).2.length = ds.length ∧ ∀ c ∈ (addOne upcase ds).2, IsHex c := by
  induction ds with
  | nil =>
    refine ⟨by simp [addOne], rfl, ?_⟩
    intro c hc
    cases hc
  | cons c cs ih =>
    obtain ⟨hvalue, hlen, hhex⟩ := ih fun d hd => hds d (List.mem_cons_of_mem c hd)
    have hc := hds c List.mem_cons_self
    rw [addOne]
    by_cases hcarry : (addOne upcase cs).1 = true
    · rw [if_pos hcarry] at hvalue ⊢
      by_cases hf : c = chr 'f' ∨ c = chr 'F'
      · rw [if_pos hf]
        refine ⟨?_, by simp [hlen], ?_⟩
        · dsimp only
          rw [if_pos rfl, digitsValue, digitsValue, hlen, nibble_f c hf, List.length_cons, pow_succ,
            show nibble (chr '0') = 0 from rfl]
          omega
        · intro d hd
          rcases List.mem_cons.mp hd with rfl | hd
          · decide
          · exact hhex d hd
      · obtain ⟨hnext, hnexthex⟩ := nextDigit_spec upcase c hc hf
        rw [if_neg hf]
        refine ⟨?_, by simp [hlen], ?_⟩
        · dsimp only
          rw [if_neg Bool.false_ne_true, digitsValue, digitsValue, hlen, hnext, Nat.mul_add]
          omega
        · intro d hd
          rcases List.mem_cons.mp hd with rfl | hd
          · exact hnexthex
          · exact hhex d hd
    · rw [if_neg hcarry] at hvalue ⊢
      refine ⟨?_, by simp [hlen], ?_⟩
      · dsimp only
        rw [if_neg Bool.false_ne_true, digitsValue, digitsValue, hlen]
        omega
      · intro d hd
        rcases List.mem_cons.mp hd with rfl | hd
        · exact hc
        · exact hhex d hd

/-- INTERNAL: adding one begins at the last digit. -/
theorem addOne_concat (upcase : Bool) (ds : Bytes) (c : UInt8) :
    addOne upcase (ds ++ [c]) =
      if c = chr 'f' ∨ c = chr 'F' then ((addOne upcase ds).1, (addOne upcase ds).2 ++ [chr '0'])
      else (false, ds ++ [nextDigit upcase c]) := by
  induction ds with
  | nil =>
    by_cases hf : c = chr 'f' ∨ c = chr 'F'
    · simp [addOne, hf]
    · simp [addOne, hf]
  | cons d ds ih =>
    rw [List.cons_append, addOne, ih]
    by_cases hf : c = chr 'f' ∨ c = chr 'F'
    · simp only [if_pos hf, addOne]
      split_ifs <;> rfl
    · simp only [if_neg hf]
      rfl

/-- INTERNAL: one turn of the loop, at a digit of the buffer.
SOURCE: dietlibc-printf.patch:3938-3956 -/
theorem roundUp_digit (upcase : Bool) (front post : Bytes) (c : UInt8) (retval : ℕ) (hfront : front ≠ [])
    (hc : c ≠ chr '.') :
    roundUp upcase ⟨front ++ c :: post, retval⟩ front.length =
      if c = chr 'f' ∨ c = chr 'F' then roundUp upcase ⟨front ++ chr '0' :: post, retval⟩ (front.length - 1)
      else some ⟨front ++ nextDigit upcase c :: post, retval⟩ := by
  obtain ⟨i, hi⟩ := Nat.exists_eq_succ_of_ne_zero (fun h => hfront (List.length_eq_zero_iff.mp h))
  have hget : (front ++ c :: post)[i + 1]? = some c := by
    rw [← Nat.succ_eq_add_one, ← hi, List.getElem?_append_right (Nat.le_refl _), Nat.sub_self]
    rfl
  have hset : ∀ d, (front ++ c :: post).set (i + 1) d = front ++ d :: post := by
    intro d
    rw [← Nat.succ_eq_add_one, ← hi, List.set_append_right _ _ (Nat.le_refl _), Nat.sub_self]
    rfl
  have hlt : i + 1 < (front ++ c :: post).length := by
    rw [List.length_append, List.length_cons]
    omega
  rw [hi, roundUp, Nat.succ_sub_one]
  unfold Out.poke nextDigit
  simp only [hget, Option.bind_eq_bind, Option.bind_some, if_neg hc, if_pos hlt, hset]
  split_ifs <;> rfl

/-- INTERNAL: the loop adds one to the digits at the end of the text, and goes on with the carry.
SOURCE: dietlibc-printf.patch:3938-3956 -/
theorem roundUp_digits (upcase : Bool) (front ds post : Bytes) (retval : ℕ) (hfront : front ≠ [])
    (hds : ∀ c ∈ ds, IsHex c) :
    roundUp upcase ⟨front ++ (ds ++ post), retval⟩ (front.length + ds.length - 1) =
      if (addOne upcase ds).1 then roundUp upcase ⟨front ++ ((addOne upcase ds).2 ++ post), retval⟩ (front.length - 1)
      else some ⟨front ++ ((addOne upcase ds).2 ++ post), retval⟩ := by
  induction ds using List.reverseRecOn generalizing post with
  | nil => rfl
  | append_singleton ds c ih =>
    have hc : c ≠ chr '.' := by
      rintro rfl
      exact absurd (hds _ (List.mem_append_right _ (List.mem_singleton_self _))) (by decide)
    have hturn := roundUp_digit upcase (front ++ ds) post c retval
      (fun h => hfront (List.append_eq_nil_iff.mp h).1) hc
    rw [List.length_append, List.append_assoc] at hturn
    rw [List.length_append, List.length_singleton, ← Nat.add_assoc, Nat.add_sub_cancel, List.append_assoc,
      List.singleton_append, hturn, addOne_concat]
    by_cases hf : c = chr 'f' ∨ c = chr 'F'
    · rw [if_pos hf, if_pos hf, List.append_assoc, ih (chr '0' :: post) fun d hd => hds d (List.mem_append_left _ hd)]
      simp only [List.append_assoc, List.singleton_append]
    · rw [if_neg hf, if_neg hf]
      simp only [Bool.false_eq_true, if_false, List.append_assoc, List.singleton_append]

/-- The digit before the point.
SOURCE: dietlibc-printf.patch:3880-3888 -/
def leadDigit (normal carry : Bool) : UInt8 := digitChar (normal.toNat + carry.toNat)

/-- INTERNAL: **rounding up adds one** to the number that is in the buffer.
SOURCE: dietlibc-printf.patch:3938-3956 -/
theorem roundUp_number (upcase normal : Bool) (front ds post : Bytes) (retval : ℕ) (hfront : front ≠ [])
    (hds : ∀ c ∈ ds, IsHex c) :
    roundUp upcase ⟨front ++ leadDigit normal false :: chr '.' :: (ds ++ post), retval⟩ (front.length + 2 + ds.length - 1) =
      some ⟨front ++ leadDigit normal (addOne upcase ds).1 :: chr '.' :: ((addOne upcase ds).2 ++ post), retval⟩ := by
  have hrow := roundUp_digits upcase (front ++ [leadDigit normal false, chr '.']) ds post retval (by simp) hds
  rw [List.length_append, List.append_assoc, List.append_assoc] at hrow
  refine Eq.trans hrow ?_
  cases (addOne upcase ds).1 with
  | false => rfl
  | true =>
    -- the carry steps over the point
    have hdot : ∀ post : Bytes, roundUp upcase ⟨front ++ leadDigit normal false :: chr '.' :: post, retval⟩
        (front.length + 1) =
        roundUp upcase ⟨front ++ leadDigit normal false :: chr '.' :: post, retval⟩ front.length := by
      intro post
      have hget : (front ++ leadDigit normal false :: chr '.' :: post)[front.length + 1]? = some (chr '.') := by
        rw [List.getElem?_append_right (by omega), Nat.add_sub_cancel_left]
        rfl
      rw [roundUp]
      simp only [hget, Option.bind_eq_bind, Option.bind_some, if_true]
    rw [if_pos rfl]
    refine Eq.trans (hdot _) ?_
    rw [roundUp_digit upcase front _ _ retval hfront (by cases normal <;> decide),
      if_neg (by cases normal <;> decide)]
    cases normal <;> rfl

/-! ## The digits behind the point -/

def isZero (c : UInt8) : Bool := c = chr '0'

/-- INTERNAL: the loop removes the zeros at the end of the text.
SOURCE: dietlibc-printf.patch:3907 -/
theorem stripZeros_append (t rest : Bytes) :
    stripZeros (t ++ rest) t.length = some ⟨t ++ rest, (t.rdropWhile isZero).length⟩ := by
  induction t using List.reverseRecOn generalizing rest with
  | nil => rfl
  | append_singleton t c ih =>
    have hget : (t ++ c :: rest)[t.length]? = some c := by
      rw [List.getElem?_append_right (Nat.le_refl _), Nat.sub_self]
      rfl
    rw [List.length_append, List.length_singleton, List.append_assoc, List.singleton_append, stripZeros]
    simp only [hget, Option.bind_eq_bind, Option.bind_some]
    by_cases hc : c = chr '0'
    · rw [if_pos hc, ih (c :: rest), List.rdropWhile_concat_pos isZero t c (decide_eq_true hc)]
    · rw [if_neg hc, List.rdropWhile_concat_neg isZero t c (by simpa [isZero] using hc), List.length_append,
        List.length_singleton]

/-- INTERNAL: no zero is removed in front of something else. -/
theorem rdropWhile_behind (front ds : Bytes) (x : UInt8) (hx : isZero x = false) :
    (front ++ x :: ds).rdropWhile isZero = front ++ x :: ds.rdropWhile isZero := by
  induction ds using List.reverseRecOn with
  | nil => exact List.rdropWhile_concat_neg isZero front x (by simp [hx])
  | append_singleton ds c ih =>
    rw [← List.cons_append, ← List.append_assoc]
    by_cases hc : isZero c = true
    · rw [List.rdropWhile_concat_pos isZero _ c hc, List.rdropWhile_concat_pos isZero ds c hc, ih]
    · rw [List.rdropWhile_concat_neg isZero _ c hc, List.rdropWhile_concat_neg isZero ds c hc, List.append_assoc,
        List.cons_append]

/-- The digit that decides about rounding is one of the upper half.
SOURCE: dietlibc-printf.patch:3913-3937 -/
def roundsUp (upcase : Bool) (m p : ℕ) : Bool :=
  let tmp := lltostr upcase m
  ((tmp[min tmp.length (p - min (13 - tmp.length) p)]?).map fun c => !decide (chr '0' ≤ c ∧ c ≤ chr '7')).getD false

/-- The carry into the digit before the point, and the digits behind it.
SOURCE: dietlibc-printf.patch:3899-3961 -/
def hexRow (upcase : Bool) (m : ℕ) : Option ℕ → Bool × Bytes
  | none => (false, (fractionHex upcase m).rdropWhile isZero)
  | some p =>
    let row := if roundsUp upcase m p then addOne upcase ((fractionHex upcase m).take p)
      else (false, (fractionHex upcase m).take p)
    (row.1, row.2 ++ List.replicate (p - 13) (chr '0'))

/-- INTERNAL: digits that are cut off. -/
theorem hexRow_down (upcase : Bool) (m p : ℕ) (h : roundsUp upcase m p = false) :
    hexRow upcase m (some p) = (false, (fractionHex upcase m).take p ++ List.replicate (p - 13) (chr '0')) := by
  simp [hexRow, h]

/-- INTERNAL: digits that are rounded up. -/
theorem hexRow_up (upcase : Bool) (m p : ℕ) (h : roundsUp upcase m p = true) :
    hexRow upcase m (some p) = ((addOne upcase ((fractionHex upcase m).take p)).1,
      (addOne upcase ((fractionHex upcase m).take p)).2 ++ List.replicate (p - 13) (chr '0')) := by
  simp [hexRow, h]

/-- INTERNAL: the characters of the printed fraction. -/
theorem hexRow_hex (upcase : Bool) (m : ℕ) (prec : Option ℕ) : ∀ c ∈ (hexRow upcase m prec).2, IsHex c := by
  have htake : ∀ p, ∀ c ∈ (fractionHex upcase m).take p, IsHex c :=
    fun p c hc => fractionHex_hex upcase m c (List.mem_of_mem_take hc)
  cases prec with
  | none => exact fun c hc => fractionHex_hex upcase m c ((List.rdropWhile_prefix isZero _).subset hc)
  | some p =>
    intro c hc
    cases hup : roundsUp upcase m p with
    | false =>
      rw [hexRow_down upcase m p hup] at hc
      rcases List.mem_append.mp hc with hc | hc
      · exact htake p c hc
      · rw [List.eq_of_mem_replicate hc]
        decide
    | true =>
      rw [hexRow_up upcase m p hup] at hc
      rcases List.mem_append.mp hc with hc | hc
      · exact (addOne_value upcase _ (htake p)).2.2 c hc
      · rw [List.eq_of_mem_replicate hc]
        decide

/-- INTERNAL: their number. -/
theorem hexRow_length (upcase : Bool) (m p : ℕ) (hm : m < 16 ^ 13) : (hexRow upcase m (some p)).2.length = p := by
  have hlen : ((fractionHex upcase m).take p).length = min p 13 := by
    rw [List.length_take, fractionHex_length upcase m hm]
  cases hup : roundsUp upcase m p with
  | false =>
    rw [hexRow_down upcase m p hup, List.length_append, List.length_replicate, hlen]
    omega
  | true =>
    have hone := (addOne_value upcase ((fractionHex upcase m).take p)
      fun c hc => fractionHex_hex upcase m c (List.mem_of_mem_take hc)).2.1
    rw [hexRow_up upcase m p hup, List.length_append, List.length_replicate, hone, hlen]
    omega

/-- INTERNAL: the zeros and digits that are printed are the first digits of the fraction.
SOURCE: dietlibc-printf.patch:3913-3924 -/
theorem take_fractionHex (upcase : Bool) (m p : ℕ) :
    List.replicate (min (13 - (lltostr upcase m).length) p) (chr '0') ++
      (lltostr upcase m).take (min (lltostr upcase m).length (p - min (13 - (lltostr upcase m).length) p)) =
    (fractionHex upcase m).take p := by
  unfold fractionHex
  rw [List.take_append, List.take_replicate, List.length_replicate, Nat.min_comm p]
  congr 1
  rw [List.take_eq_take_iff]
  omega

/-- INTERNAL: the precision that is left behind the digits.
SOURCE: dietlibc-printf.patch:3960 -/
theorem rest_of_precision (upcase : Bool) (m p : ℕ) (hm : m < 16 ^ 13) :
    p - min (13 - (lltostr upcase m).length) p -
      min (lltostr upcase m).length (p - min (13 - (lltostr upcase m).length) p) = p - 13 := by
  have hle := (lltostr_length_le_iff upcase m 13 (by omega)).mpr hm
  omega

/-- INTERNAL: without a precision the zeros at the end are dropped. -/
theorem hexDigits_none (upcase : Bool) (m : ℕ) (o : Out) :
    hexDigits upcase (lltostr upcase m) none o =
      stripZeros (o.puts (fractionHex upcase m)).buf (o.puts (fractionHex upcase m)).retval := rfl

/-- INTERNAL: the first digits, rounding, and zeros.
SOURCE: dietlibc-printf.patch:3910-3961 -/
theorem hexDigits_some (upcase : Bool) (m p : ℕ) (o : Out) (hm : m < 16 ^ 13) :
    hexDigits upcase (lltostr upcase m) (some p) o =
      (if roundsUp upcase m p then
        roundUp upcase (o.puts ((fractionHex upcase m).take p)) ((o.puts ((fractionHex upcase m).take p)).retval - 1)
      else some (o.puts ((fractionHex upcase m).take p))).bind fun o => o.zeros (p - 13 : ℕ) := by
  unfold hexDigits
  dsimp only
  rw [take_fractionHex, rest_of_precision upcase m p hm]
  split
  · next c htmp =>
    have hdigit : roundsUp upcase m p = !decide (chr '0' ≤ c ∧ c ≤ chr '7') := by
      unfold roundsUp
      dsimp only
      rw [htmp]
      rfl
    rw [hdigit]
    by_cases hlow : chr '0' ≤ c ∧ c ≤ chr '7'
    · rw [if_pos hlow, decide_eq_true hlow]
      rfl
    · rw [if_neg hlow, decide_eq_false hlow]
      rfl
  · next htmp =>
    have hdigit : roundsUp upcase m p = false := by
      unfold roundsUp
      dsimp only
      rw [htmp]
      rfl
    rw [hdigit]
    rfl

/-- INTERNAL: zeros behind the digits. -/
theorem zeros_holds (o : Out) (size n : ℕ) (t : Bytes) (h : Holds o size t) :
    ∃ o', o.zeros (n : ℤ) = some o' ∧ Holds o' size (t ++ List.replicate n (chr '0')) := by
  refine ⟨o.puts (List.replicate n (chr '0')), ?_, puts_holds _ o size t h⟩
  unfold Out.zeros
  rw [if_neg (by omega), Int.toNat_natCast]

/-- INTERNAL: without a precision.
SOURCE: dietlibc-printf.patch:3902-3907 -/
theorem hexDigits_all (upcase normal : Bool) (m : ℕ) (o : Out) (size : ℕ) (front : Bytes) (hm : m < 16 ^ 13)
    (h : Holds o size (front ++ [leadDigit normal false, chr '.'])) (hfit : front.length + 15 ≤ size) :
    ∃ o', hexDigits upcase (lltostr upcase m) none o = some o' ∧
      Holds o' size (front ++ leadDigit normal (hexRow upcase m none).1 :: chr '.' :: (hexRow upcase m none).2) := by
  have hputs := puts_holds (fractionHex upcase m) o size _ h
  rw [List.append_assoc, List.cons_append, List.singleton_append] at hputs
  obtain ⟨rest, hbuf, hsize⟩ := Holds.exists_append _ size _ hputs (by
    rw [List.length_append, List.length_cons, List.length_cons, fractionHex_length upcase m hm]
    omega)
  have hstrip : (front ++ leadDigit normal false :: chr '.' :: fractionHex upcase m).rdropWhile isZero =
      front ++ leadDigit normal false :: chr '.' :: (fractionHex upcase m).rdropWhile isZero := by
    have hbehind := rdropWhile_behind (front ++ [leadDigit normal false]) (fractionHex upcase m) (chr '.') rfl
    simpa only [List.append_assoc, List.singleton_append] using hbehind
  have hloop := stripZeros_append (front ++ leadDigit normal false :: chr '.' :: fractionHex upcase m) rest
  rw [hstrip] at hloop
  rw [hexDigits_none, hbuf]
  refine ⟨_, hloop, ?_⟩
  rw [← hsize]
  apply holds_of_prefix
  show front ++ leadDigit normal false :: chr '.' :: (fractionHex upcase m).rdropWhile isZero <+: _
  rw [← hstrip]
  exact (List.rdropWhile_prefix isZero _).trans (List.prefix_append _ _)

/-- INTERNAL: with a precision and without rounding up, whatever the buffer.
SOURCE: dietlibc-printf.patch:3910-3961 -/
theorem hexDigits_down (upcase normal : Bool) (m p : ℕ) (o : Out) (size : ℕ) (front : Bytes) (hm : m < 16 ^ 13)
    (h : Holds o size (front ++ [leadDigit normal false, chr '.'])) (hdown : roundsUp upcase m p = false) :
    ∃ o', hexDigits upcase (lltostr upcase m) (some p) o = some o' ∧
      Holds o' size
        (front ++ leadDigit normal (hexRow upcase m (some p)).1 :: chr '.' :: (hexRow upcase m (some p)).2) := by
  have hputs := puts_holds ((fractionHex upcase m).take p) o size _ h
  obtain ⟨o', hzeros, hholds⟩ := zeros_holds _ size (p - 13) _ hputs
  refine ⟨o', ?_, ?_⟩
  · rw [hexDigits_some upcase m p o hm, hdown, if_neg Bool.false_ne_true, Option.bind_some]
    exact hzeros
  · rw [hexRow_down upcase m p hdown]
    simpa only [List.append_assoc, List.cons_append, List.nil_append] using hholds

/-- INTERNAL: with a precision and with rounding up, in a buffer that holds the digits.
SOURCE: dietlibc-printf.patch:3910-3961 -/
theorem hexDigits_up (upcase normal : Bool) (m p : ℕ) (o : Out) (size : ℕ) (front : Bytes) (hm : m < 16 ^ 13)
    (hfront : front ≠ []) (h : Holds o size (front ++ [leadDigit normal false, chr '.']))
    (hup : roundsUp upcase m p = true) (hfit : front.length + 2 + min p 13 ≤ size) :
    ∃ o', hexDigits upcase (lltostr upcase m) (some p) o = some o' ∧
      Holds o' size
        (front ++ leadDigit normal (hexRow upcase m (some p)).1 :: chr '.' :: (hexRow upcase m (some p)).2) := by
  have hputs := puts_holds ((fractionHex upcase m).take p) o size _ h
  rw [List.append_assoc, List.cons_append, List.singleton_append] at hputs
  have hlen : (front ++ leadDigit normal false :: chr '.' :: (fractionHex upcase m).take p).length =
      front.length + 2 + ((fractionHex upcase m).take p).length := by
    rw [List.length_append, List.length_cons, List.length_cons]
    omega
  have hkept : ((fractionHex upcase m).take p).length = min p 13 := by
    rw [List.length_take, fractionHex_length upcase m hm]
  have hhex : ∀ c ∈ (fractionHex upcase m).take p, IsHex c :=
    fun c hc => fractionHex_hex upcase m c (List.mem_of_mem_take hc)
  obtain ⟨-, hlenOne, -⟩ := addOne_value upcase _ hhex
  obtain ⟨rest, hbuf, hsize⟩ := Holds.exists_append _ size _ hputs (by omega)
  have hround := roundUp_number upcase normal front ((fractionHex upcase m).take p) rest
    (front ++ leadDigit normal false :: chr '.' :: (fractionHex upcase m).take p).length hfront hhex
  have hsame : (front ++ leadDigit normal (addOne upcase ((fractionHex upcase m).take p)).1 :: chr '.' ::
      (addOne upcase ((fractionHex upcase m).take p)).2).length =
      (front ++ leadDigit normal false :: chr '.' :: (fractionHex upcase m).take p).length := by
    simp only [List.length_append, List.length_cons, hlenOne]
  have hone := holds_of_prefix (front ++ leadDigit normal (addOne upcase ((fractionHex upcase m).take p)).1 :: chr '.' ::
      ((addOne upcase ((fractionHex upcase m).take p)).2 ++ rest))
    (front ++ leadDigit normal (addOne upcase ((fractionHex upcase m).take p)).1 :: chr '.' ::
      (addOne upcase ((fractionHex upcase m).take p)).2) ⟨rest, by simp⟩
  obtain ⟨o', hzeros, hholds⟩ := zeros_holds _ _ (p - 13) _ hone
  refine ⟨o', ?_, ?_⟩
  · rw [hexDigits_some upcase m p o hm, hup, if_pos rfl, hbuf]
    rw [← hlen] at hround
    simp only [List.append_assoc, List.cons_append]
    rw [hround, Option.bind_some, ← hsame]
    exact hzeros
  · have hwhole : (front ++ leadDigit normal (addOne upcase ((fractionHex upcase m).take p)).1 :: chr '.' ::
        ((addOne upcase ((fractionHex upcase m).take p)).2 ++ rest)).length = size := by
      rw [← hsize]
      simp only [List.length_append, List.length_cons, hlenOne]
      omega
    rw [hwhole] at hholds
    rw [hexRow_up upcase m p hup]
    simpa only [List.append_assoc, List.cons_append] using hholds

/-- The room that the digits need: they are read again to remove zeros or to round up.
SOURCE: dietlibc-printf.patch:3907, 3938-3956 -/
def hexRoom (upcase : Bool) (m : ℕ) : Option ℕ → ℕ
  | none => 15
  | some p => if roundsUp upcase m p then 2 + min p 13 else 0

/-- INTERNAL: the digits in a buffer with the room for them.
SOURCE: dietlibc-printf.patch:3899-3961 -/
theorem hexDigits_holds (upcase normal : Bool) (m : ℕ) (prec : Option ℕ) (o : Out) (size : ℕ) (front : Bytes)
    (hm : m < 16 ^ 13) (hfront : front ≠ []) (h : Holds o size (front ++ [leadDigit normal false, chr '.']))
    (hroom : hexRoom upcase m prec ≠ 0 → front.length + hexRoom upcase m prec ≤ size) :
    ∃ o', hexDigits upcase (lltostr upcase m) prec o = some o' ∧
      Holds o' size (front ++ leadDigit normal (hexRow upcase m prec).1 :: chr '.' :: (hexRow upcase m prec).2) := by
  cases prec with
  | none => exact hexDigits_all upcase normal m o size front hm h (hroom (Nat.succ_ne_zero 14))
  | some p =>
    cases hup : roundsUp upcase m p with
    | false => exact hexDigits_down upcase normal m p o size front hm h hup
    | true =>
      have hsize : hexRoom upcase m (some p) = 2 + min p 13 := by simp [hexRoom, hup]
      rw [hsize] at hroom
      have hfit := hroom (by omega)
      exact hexDigits_up upcase normal m p o size front hm hfront h hup (by omega)

/-! ## The text -/

/-- The exponent of a double, with its bias. -/
def biased (u : BitVec 64) : ℕ := ((u &&& EXPOMASK) >>> 52).toNat

/-- A normal number. -/
def isNormal (u : BitVec 64) : Bool := biased u ≠ 0

/-- A number with a sign. -/
def isNegative (u : BitVec 64) : Bool := u &&& SIGNMASK ≠ 0#64

/-- INTERNAL: the sign, as it is in the code. -/
theorem signText_eq (u : BitVec 64) : signText u = if isNegative u then [0x2d] else [] := by
  unfold signText isNegative
  by_cases hneg : u &&& SIGNMASK ≠ 0#64
  · simp only [if_pos hneg, decide_eq_true hneg, if_true]
    rfl
  · simp only [if_neg hneg, decide_eq_false hneg]
    rfl

/-- The exponent that is printed.
SOURCE: dietlibc-printf.patch:3884-3890 -/
def hexScale (u : BitVec 64) : ℤ := if biased u ≠ 0 then biased u - 1023 else if mantissa u ≠ 0 then -1022 else 0

/-- The text in front of the digit before the point. -/
def hexFront (u : BitVec 64) (upcase : Bool) : Bytes := signText u ++ [chr '0', cased upcase 'x']

/-- The text up to the exponent, with its dot. -/
def hexMantissa (u : BitVec 64) (upcase : Bool) (prec : Option ℕ) : Bytes :=
  hexFront u upcase ++ leadDigit (isNormal u) (hexRow upcase (mantissa u) prec).1 :: chr '.' ::
    (hexRow upcase (mantissa u) prec).2

/-- The text of the exponent.
SOURCE: dietlibc-printf.patch:3968-3984 -/
def hexTail (u : BitVec 64) (upcase : Bool) : Bytes :=
  cased upcase 'p' :: (if hexScale u < 0 then chr '-' else chr '+') :: hexExponent (hexScale u).natAbs

/-- INTERNAL: the parts of a hexadecimal text. -/
theorem formatHex_eq (u : BitVec 64) (upcase : Bool) (preci : Option ℕ) (o : Out) :
    formatHex u upcase preci o =
      (hexDigits upcase (lltostr upcase (mantissa u)) preci
        (o.puts [chr '0', cased upcase 'x', leadDigit (isNormal u) false, chr '.'])).bind fun o =>
      (o.cutDot false).bind fun o => some (o.puts (hexTail u upcase)) := by
  have hlead : (if ((u &&& EXPOMASK) >>> 52).toNat ≠ 0 then chr '1' else chr '0') = leadDigit (isNormal u) false := by
    unfold leadDigit isNormal biased
    by_cases h : ((u &&& EXPOMASK) >>> 52).toNat ≠ 0
    · rw [if_pos h, decide_eq_true h]
      rfl
    · rw [if_neg h, decide_eq_false h]
      rfl
  unfold formatHex
  dsimp only
  rw [hlead]
  rfl

/-- INTERNAL: **the text of a hexadecimal conversion**, in a buffer with the room for its digits.
SOURCE: dietlibc-printf.patch:3876-3986 -/
theorem formatHex_holds (u : BitVec 64) (upcase : Bool) (prec : Option ℕ) (o : Out) (size : ℕ)
    (h : Holds o size (signText u))
    (hroom : hexRoom upcase (mantissa u) prec ≠ 0 →
      (hexFront u upcase).length + hexRoom upcase (mantissa u) prec ≤ size) :
    ∃ o', formatHex u upcase prec o = some o' ∧
      Holds o' size (cutDot false size (hexMantissa u upcase prec) ++ hexTail u upcase) := by
  have hputs := puts_holds [chr '0', cased upcase 'x', leadDigit (isNormal u) false, chr '.'] o size _ h
  have hstart : signText u ++ [chr '0', cased upcase 'x', leadDigit (isNormal u) false, chr '.'] =
      hexFront u upcase ++ [leadDigit (isNormal u) false, chr '.'] := by simp [hexFront]
  rw [hstart] at hputs
  obtain ⟨o₁, ho₁, hdigits⟩ := hexDigits_holds upcase (isNormal u) (mantissa u) prec _ size (hexFront u upcase)
    (mantissa_lt u) (by simp [hexFront]) hputs hroom
  obtain ⟨o₂, ho₂, hdot⟩ := cutDot_holds false o₁ size _ hdigits (by simp)
  refine ⟨o₂.puts (hexTail u upcase), ?_, puts_holds _ o₂ size _ hdot⟩
  rw [formatHex_eq, ho₁, Option.bind_some, ho₂, Option.bind_some]

/-- INTERNAL: `__dtostr` for `%a`.
SOURCE: dietlibc-printf.patch:3761-3986 -/
theorem dtostr_hex (dtoa : Dtoa) (u : BitVec 64) (info : Info) (buf : Bytes) (hfin : IsFinite u)
    (hspec : info.spec = .a ∨ info.spec = .A) (hbuf : (signText u).length ≤ buf.length)
    (hroom : hexRoom info.spec.upcase (mantissa u) info.prec ≠ 0 →
      (hexFront u info.spec.upcase).length + hexRoom info.spec.upcase (mantissa u) info.prec ≤ buf.length) :
    ∃ o, dtostr dtoa u buf info = some (o, info) ∧
      Holds o buf.length (cutDot false buf.length (hexMantissa u info.spec.upcase info.prec) ++
        hexTail u info.spec.upcase) := by
  have hfin' : ¬ u &&& EXPOMASK = EXPOMASK := hfin
  obtain ⟨o₁, ho₁, hsign⟩ := signCheck_holds u buf hbuf
  obtain ⟨o₂, ho₂, htext⟩ := formatHex_holds u info.spec.upcase info.prec o₁ buf.length hsign hroom
  refine ⟨o₂, ?_, htext⟩
  unfold dtostr
  simp only [if_neg hfin', if_pos hspec, ho₁, ho₂, Option.bind_eq_bind, Option.bind_some]

/-- INTERNAL: **what `%a` prints.**
SOURCE: dietlibc-printf.patch:3761-3986 -/
theorem prints_hexText (dtoa : Dtoa) (u : BitVec 64) (info : Info) (hfin : IsFinite u)
    (hspec : info.spec = .a ∨ info.spec = .A) :
    Prints dtoa u info (cutDot false (hexMantissa u info.spec.upcase info.prec).length
      (hexMantissa u info.spec.upcase info.prec) ++ hexTail u info.spec.upcase) := by
  apply prints_of_holds dtoa u info info _ ((signText u).length + (hexFront u info.spec.upcase).length +
    hexRoom info.spec.upcase (mantissa u) info.prec + (hexMantissa u info.spec.upcase info.prec).length)
  intro buf hbuf
  obtain ⟨o, ho, h⟩ := dtostr_hex dtoa u info buf hfin hspec (by omega) (by omega)
  rw [cutDot_of_le _ _ _ (by omega)] at h
  exact ⟨o, ho, h⟩

/-- INTERNAL: without the room for its digits `__dtostr` reads behind the buffer.
SOURCE: dietlibc-printf.patch:3907, 3938-3940 -/
theorem hexDigits_outside (upcase normal : Bool) (m : ℕ) (prec : Option ℕ) (o : Out) (size : ℕ) (front : Bytes)
    (hm : m < 16 ^ 13) (hfront : front ≠ []) (h : Holds o size (front ++ [leadDigit normal false, chr '.']))
    (hne : hexRoom upcase m prec ≠ 0) (hroom : size < front.length + hexRoom upcase m prec) :
    hexDigits upcase (lltostr upcase m) prec o = none := by
  have hpos : 0 < front.length := List.length_pos_iff.mpr hfront
  cases prec with
  | none =>
    obtain ⟨hlen, hret, -⟩ := puts_holds (fractionHex upcase m) o size _ h
    have hcount : (o.puts (fractionHex upcase m)).retval = front.length + 14 + 1 := by
      rw [hret, List.length_append, List.length_append, fractionHex_length upcase m hm]
      rfl
    have hfifteen : hexRoom upcase m none = 15 := rfl
    rw [hexDigits_none, hcount, stripZeros, List.getElem?_eq_none (by omega)]
    rfl
  | some p =>
    cases hup : roundsUp upcase m p with
    | false => exact absurd (by simp [hexRoom, hup]) hne
    | true =>
      have hsize : hexRoom upcase m (some p) = 2 + min p 13 := by simp [hexRoom, hup]
      obtain ⟨hlen, hret, -⟩ := puts_holds ((fractionHex upcase m).take p) o size _ h
      have hcount : (o.puts ((fractionHex upcase m).take p)).retval - 1 = front.length + min p 13 + 1 := by
        rw [hret, List.length_append, List.length_append, List.length_take, fractionHex_length upcase m hm]
        simp only [List.length_cons, List.length_nil]
        omega
      rw [hexDigits_some upcase m p o hm, hup, if_pos rfl, hcount, roundUp, List.getElem?_eq_none (by omega)]
      rfl

end TTLinux.Analysis.PrintfHex
