import TTLinux.Analysis.DtoaDigits
import TTLinux.Analysis.DtoaEstimate

/-!
# The conversion with big integers

The number is a quotient of two big integers, the divisor of which has four zero bits in front, so that `quorem` finds each
digit. After each digit the remainder is what is left of the number at the next place. When the digits asked for have
been written, the remainder says how the number is rounded: to the nearest, and to an even digit if it lies in the middle.
-/

set_option autoImplicit false

namespace TTLinux.Analysis.DtoaLong

open TTLinux.Lib
open TTLinux.Lib.Limbs
open TTLinux.Model.Dtoa
open TTLinux.Model.DtoaBigint
open TTLinux.Analysis.DtoaBigint
open TTLinux.Analysis.DtoaWords
open TTLinux.Analysis.DtoaEstimate
open TTLinux.Analysis.DtoaDigits

/-! ## The digits -/

/-- INTERNAL: the test for zero. -/
theorem isZero_iff {b : Bigint} {v : ℕ} (h : Holds b v) : isZero b = true ↔ v = 0 := by
  unfold isZero
  rw [Bool.and_eq_true, decide_eq_true_eq, decide_eq_true_eq]
  constructor
  · rintro ⟨hx, hwds⟩
    rw [← h.value]
    obtain ⟨k, sign, wds, x⟩ := b
    cases x with
    | nil => simp at hx
    | cons a x =>
      obtain rfl : a = 0 := by simpa using hx
      obtain rfl | rfl : wds = 0 ∨ wds = 1 := by simp only at hwds; omega
      · simp
      · simp
  · rintro rfl
    obtain ⟨hwds, hx⟩ := h.zero rfl
    exact ⟨hx, hwds⟩

/-- What the loop over the digits has found: the number is `n/q` at the first place. -/
def Found (n q : ℕ) (ilim : ℤ) : Digits → Prop
  | .ret s => s ≠ [] ∧ Decimal s ∧ Suppressed s ∧ (s.length : ℤ) ≤ ilim ∧ n * 10 ^ (s.length - 1) = digitsValue 10 s * q
  | .roundoff _ => False
  | .last s dig b => s ≠ [] ∧ Decimal s ∧ (s.length : ℤ) = ilim ∧ dig % 2 = digitsValue 10 s % 2 ∧
      ∃ v, Holds b v ∧ v ≠ 0 ∧ v < q ∧ n * 10 ^ (s.length - 1) = digitsValue 10 s * q + v

/-- **The digits are those of the quotient.** What stands in `b` is what is left of the number at the next place.
SOURCE: dietlibc-printf.patch:3646-3657 -/
theorem plainDigits_spec (S : Bigint) (n q : ℕ) (ilim : ℤ) (hS : Holds S q) (hq : q ≠ 0) (haligned : Aligned S)
    (hlimit : 10 * q < limit) (room : ℕ) (i : ℤ) (b : Bigint) (v : ℕ) (s : Bytes) (hb : Holds b v) (hv : v ≠ 0) (hlt : v < 10 * q)
    (hdec : Decimal s) (hfirst : s = [] → q ≤ v) (hi : i = s.length + 1) (hilim : i ≤ ilim) (hroom : ilim ≤ s.length + room)
    (hinv : n * 10 ^ s.length = 10 * digitsValue 10 s * q + v) :
    ∃ r, plainDigits S ilim room i b s = some r ∧ Found n q ilim r := by
  induction room generalizing i b v s with
  | zero => omega
  | succ room ih =>
    obtain ⟨b', hquorem, hb'⟩ := quorem_spec b S v q hb hS hq hv haligned hlt
    have hqpos : 0 < q := Nat.pos_of_ne_zero hq
    have hdig : v / q < 10 := (Nat.div_lt_iff_lt_mul hqpos).mpr hlt
    have hmod : v % q < q := Nat.mod_lt _ hqpos
    have hdiv : q * (v / q) + v % q = v := Nat.div_add_mod v q
    have hone : s = [] → v / q ≠ 0 := fun hnil => (Nat.div_pos (hfirst hnil) hqpos).ne'
    generalize v / q = g at hquorem hdig hdiv hone
    generalize v % q = m at hb' hmod hdiv
    obtain ⟨hdec', hvalue, hlast⟩ := hdec.digit g hdig hone
    have hlen : (s ++ [digit g]).length = s.length + 1 := by simp
    have hinv' : n * 10 ^ s.length = digitsValue 10 (s ++ [digit g]) * q + m := by
      rw [hinv, hvalue, Nat.add_mul]
      linarith
    simp only [plainDigits, hquorem, Option.bind_eq_bind, Option.bind_some]
    by_cases hdone : m = 0
    · rw [if_pos ((isZero_iff hb').mpr hdone)]
      refine ⟨_, rfl, by simp, hdec', ?_, by omega, ?_⟩
      · refine hlast.mpr ?_
        rintro rfl
        omega
      · rw [hlen, Nat.add_sub_cancel, hinv', hdone, Nat.add_zero]
    · rw [if_neg (mt (isZero_iff hb').mp hdone)]
      by_cases hlimited : i ≥ ilim
      · rw [if_pos hlimited]
        refine ⟨_, rfl, by simp, hdec', by omega, by rw [hvalue]; omega, m, hb', hdone, hmod, ?_⟩
        rw [hlen, Nat.add_sub_cancel, hinv']
      · rw [if_neg hlimited]
        obtain ⟨b'', hmultadd, hb''⟩ := multadd_holds b' (m) 10 0 hb' hdone (by omega) (by norm_num) (by norm_num) (by omega)
        rw [Nat.add_zero] at hb''
        rw [hmultadd, Option.bind_some]
        refine ih (i + 1) b'' (10 * (m)) _ hb'' (by omega) (by omega) hdec' (by simp) (by omega) (by omega) (by omega) ?_
        rw [hlen, pow_succ, ← mul_assoc, hinv']
        ring

variable {d : ℚ} {k ilim : ℤ}

/-- INTERNAL: the number at the place `ilim`, by the digits and what is left. -/
theorem scaled_of_quotient (n q a v l : ℕ) (hq : 0 < q) (hd : d = n / q * 10 ^ k) (hl : (l : ℤ) = ilim) (hlpos : 0 < l)
    (h : n * 10 ^ (l - 1) = a * q + v) : d * 10 ^ (ilim - 1 - k) = a + v / q := by
  have hq' : (q : ℚ) ≠ 0 := by exact_mod_cast hq.ne'
  have h' : (n : ℚ) * 10 ^ (l - 1) = a * q + v := by exact_mod_cast h
  rw [hd, mul_assoc, ← zpow_add₀ (by norm_num), show k + (ilim - 1 - k) = ((l - 1 : ℕ) : ℤ) by omega, zpow_natCast,
    div_mul_eq_mul_div, h', add_div, mul_div_cancel_right₀ _ hq']

/-- **The last digit is rounded to the nearest**, and to an even one in the middle.
SOURCE: dietlibc-printf.patch:3659-3688 -/
theorem roundLast_spec (S : Bigint) (n q : ℕ) (hS : Holds S q) (hq : q ≠ 0) (hd : d = n / q * 10 ^ k) (hlimit : 10 * q < limit)
    (r : Digits) (h : Found n q ilim r) :
    ∃ r', roundLast S k r = some r' ∧ r'.1 ≠ [] ∧ Suppressed r'.1 ∧ Rounded d k ilim r' := by
  have hqpos : 0 < q := Nat.pos_of_ne_zero hq
  cases r with
  | ret s =>
    obtain ⟨hne, hdec, hlast, hlen, hvalue⟩ := h
    have hpos := List.length_pos_iff.mpr hne
    refine ⟨(s, k), rfl, hne, hlast, rounded_exact hdec hne hlen ?_⟩
    have hscaled := scaled_of_quotient n q (digitsValue 10 s) 0 s.length hqpos hd rfl hpos hvalue
    rw [Nat.cast_zero, zero_div, add_zero] at hscaled
    rw [valueAt, ← hscaled, mul_assoc, ← zpow_add₀ (by norm_num), show (s.length : ℤ) - 1 - k + (k + 1 - s.length) = 0 by ring,
      zpow_zero, mul_one]
  | roundoff s => exact h.elim
  | last s dig b =>
    obtain ⟨hne, hdec, hlen, hparity, v, hb, hv, hlt, hvalue⟩ := h
    have hpos := List.length_pos_iff.mpr hne
    have hand : dig &&& 1 = dig % 2 := Nat.and_two_pow_sub_one_eq_mod dig 1
    obtain ⟨b', hshift, hb'⟩ := lshift_holds b v 1 hb hv (by omega)
    obtain ⟨j, hj, hneg, hzero⟩ := cmp_spec b' S _ q hb' hS hq
    have hnear := nearestEven_quotient (digitsValue 10 s) v q hqpos hlt
    rw [← scaled_of_quotient n q _ v s.length hqpos hd hlen hpos hvalue] at hnear
    have hiff : (j > 0 ∨ j = 0 ∧ dig &&& 1 ≠ 0) ↔ q < 2 * v ∨ q = 2 * v ∧ digitsValue 10 s % 2 = 1 := by
      rw [hand]
      rw [pow_one] at hneg hzero
      omega
    simp only [roundLast, hshift, hj, Option.bind_eq_bind, Option.bind_some, hiff]
    split_ifs at hnear ⊢ with hup
    · obtain ⟨hne', hlast, hrounded⟩ := rounded_roundoff hdec hlen hnear
      exact ⟨_, rfl, hne', hlast, hrounded⟩
    · obtain ⟨s', htrim, hne', hlast, hrounded⟩ := rounded_trimzeros 0 hdec hne (by simpa using hlen) (by simpa using hnear)
      exact ⟨(s', k), by rw [htrim]; rfl, hne', hlast, hrounded⟩

/-! ## The quotient -/

/-- The number `d` is the quotient of `b` and `S`, whose first digit has the place `k`. -/
structure Quotient (d : ℚ) (k : ℤ) (b S : Bigint) (v q : ℕ) : Prop where
  dividend : Holds b v
  divisor : Holds S q
  ne_zero : v ≠ 0
  divisor_ne_zero : q ≠ 0
  aligned : Aligned S
  value : d = v / q * 10 ^ k
  lt : v < 10 * q
  limit : 100 * q < limit

/-- INTERNAL: the number and a place, by the quotient. -/
theorem Quotient.le_iff {b S : Bigint} {v q : ℕ} (h : Quotient d k b S v q) (m : ℕ) : d ≤ m * 10 ^ k ↔ v ≤ m * q := by
  have hq : (0 : ℚ) < q := by exact_mod_cast Nat.pos_of_ne_zero h.divisor_ne_zero
  rw [h.value, mul_le_mul_iff_left₀ (zpow_pos (by norm_num) k), div_le_iff₀ hq]
  exact_mod_cast Iff.rfl

/-- INTERNAL: comparing a number is comparing the numerator that is held for it. -/
theorem Quotient.lt_iff {b S : Bigint} {v q : ℕ} (h : Quotient d k b S v q) (m : ℕ) : d < m * 10 ^ k ↔ v < m * q := by
  have hq : (0 : ℚ) < q := by exact_mod_cast Nat.pos_of_ne_zero h.divisor_ne_zero
  rw [h.value, mul_lt_mul_iff_left₀ (zpow_pos (by norm_num) k), div_lt_iff₀ hq]
  exact_mod_cast Iff.rfl

/-- What has been asked for: digits, or in mode 3 a place in front of the first digit. -/
structure Asked (mode ndigits k ilim : ℤ) : Prop where
  either : mode = 2 ∨ mode = 3
  digits : mode = 2 → 0 < ilim
  places : mode = 3 → ilim = ndigits + k + 1

/-- What the conversion of `d` comes to, the digits asked for being those from the place `k` on. -/
structure Converted (d : ℚ) (k ilim : ℤ) (r : Result) : Prop where
  rounded : Rounded d k ilim r
  nonempty : 0 < ilim → r.1 ≠ []

/-- **The digits of the quotient are those of the number, rounded.**
SOURCE: dietlibc-printf.patch:3530-3688 -/
theorem digitsOf_spec (u : BitVec 64) (room : ℕ) (mode ndigits : ℤ) (b S : Bigint) (v q : ℕ) (m2 : ℤ)
    (h : Quotient d k b S v q) (hasked : Asked mode ndigits k ilim) (hroom : ilim ≤ room) (hfirst : q ≤ v) :
    ∃ r, digitsOf u room mode ndigits false b S none m2 k ilim = some r ∧ Suppressed r.1 ∧ Converted d k ilim r := by
  have hqpos : 0 < q := Nat.pos_of_ne_zero h.divisor_ne_zero
  have hd : 0 ≤ d := by
    rw [h.value]
    exact mul_nonneg (by positivity) (zpow_nonneg (by norm_num) k)
  have hplace : mode = 3 → noDigits ndigits = ([], k - ilim) := by
    intro hmode
    rw [noDigits, hasked.places hmode]
    congr 1
    ring
  have hlt : d < 10 * 10 ^ k := by
    have hiff := h.lt_iff 10
    push_cast at hiff
    exact hiff.mpr h.lt
  unfold digitsOf
  by_cases hfew : ilim ≤ 0
  · have hmode : mode = 3 := hasked.either.resolve_left fun hmode => by have := hasked.digits hmode; omega
    rw [if_pos ⟨hfew, .inl hmode⟩]
    by_cases hneg : ilim < 0
    · rw [if_pos hneg, hplace hmode]
      refine ⟨_, rfl, by simp [Suppressed], rounded_noDigits hd ?_, fun h => absurd h (by omega)⟩
      calc d ≤ 1 * 10 ^ (k + 1) := by rw [zpow_add₀ (by norm_num), zpow_one]; linarith
        _ ≤ 5 * 10 ^ (k - ilim) :=
            mul_le_mul (by norm_num) (zpow_le_zpow_right₀ (by norm_num) (by omega)) (zpow_nonneg (by norm_num) _) (by norm_num)
    · have hzero : ilim = 0 := by omega
      subst hzero
      obtain ⟨S', hmultadd, hS'⟩ := multadd_holds S q 5 0 h.divisor h.divisor_ne_zero (by omega) (by norm_num) (by norm_num)
        (by have := h.limit; omega)
      obtain ⟨j, hj, hneg', hzero'⟩ := cmp_spec b S' v _ h.dividend hS' (by omega)
      have hiff := h.le_iff 5
      push_cast at hiff
      rw [if_neg hneg]
      simp only [hmultadd, hj, Option.bind_eq_bind, Option.bind_some]
      rw [hplace hmode]
      split_ifs with hle
      · refine ⟨_, rfl, by simp [Suppressed], rounded_noDigits hd ?_, fun h => absurd h (by omega)⟩
        rw [sub_zero]
        exact hiff.mpr (by omega)
      · refine ⟨_, rfl, by simp [oneDigit, Suppressed], rounded_oneDigit (not_le.mp (mt hiff.mp (by omega))) ?_,
          fun h => absurd h (by omega)⟩
        rwa [zpow_add₀ (by norm_num), zpow_one, mul_comm]
  · rw [if_neg fun hboth => hfew hboth.1]
    obtain ⟨r, hr, hfound⟩ := plainDigits_spec S v q ilim h.divisor h.divisor_ne_zero h.aligned
      (by have := h.limit; omega) room 1 b v []
      h.dividend h.ne_zero h.lt decimal_nil (fun _ => hfirst) (by simp) (by omega) (by simpa using hroom) (by simp)
    obtain ⟨r', hr', hne, hlast, hrounded⟩ := roundLast_spec S v q h.divisor h.divisor_ne_zero h.value
      (by have := h.limit; omega) r hfound
    refine ⟨r', ?_, hlast, hrounded, fun _ => hne⟩
    simp only [hr, Option.bind_eq_bind, Option.bind_some]
    exact hr'

/-! ## The divisor and its four zero bits -/

/-- INTERNAL: the highest word, by the bits of the number. -/
theorem aligned_of_bits (S : Bigint) (q m : ℕ) (hS : Holds S q) (hlow : 2 ^ (32 * m + 27) ≤ q) (hhigh : q < 2 ^ (32 * m + 28)) :
    Aligned S := by
  have hq : q ≠ 0 := fun h => by rw [h] at hlow; exact absurd hlow (by simp)
  obtain ⟨t, ht, htlow, hthigh⟩ := top_word S q hS hq
  have hpow : ∀ n, W ^ n = 2 ^ (32 * n) := fun n => by rw [pow_mul]
  have hwords : S.wds - 1 = m := by
    have hle := hS.normal hq
    have hlt := hS.lt_pow
    have hpos := hS.wds_pos hq
    rw [hpow] at hle hlt
    have h1 := (Nat.pow_lt_pow_iff_right (by omega)).mp (hle.trans_lt hhigh)
    have h2 := (Nat.pow_lt_pow_iff_right (by omega)).mp (hlow.trans_lt hlt)
    omega
  rw [hwords, hpow] at htlow hthigh
  refine ⟨t, ht, ?_, ?_⟩
  · have hlt : 2 ^ 27 * 2 ^ (32 * m) < (t + 1) * 2 ^ (32 * m) := by
      rw [← pow_add, Nat.add_comm]
      exact hlow.trans_lt hthigh
    exact Nat.lt_succ_iff.mp (Nat.lt_of_mul_lt_mul_right hlt)
  · have hlt : t * 2 ^ (32 * m) < 2 ^ 28 * 2 ^ (32 * m) := by
      rw [← pow_add, Nat.add_comm 28]
      exact htlow.trans_lt hhigh
    exact Nat.lt_of_mul_lt_mul_right hlt

/-- INTERNAL: the number of bits of the highest word. -/
theorem top_bits (S : Bigint) (q : ℕ) (s5 : ℤ) (hS : Holds S q) (hq : q ≠ 0) (hone : s5 = 0 → q = 1) :
    ∃ n a : ℕ, (if s5 ≠ 0 then S.x[S.wds - 1]?.map fun x => 32 - (hi0bits x : ℤ) else some 1) = some (n : ℤ) ∧
      0 < n ∧ 2 ^ (n - 1 + 32 * a) ≤ q ∧ q < 2 ^ (n + 32 * a) := by
  by_cases hs5 : s5 = 0
  · rw [if_neg (not_not_intro hs5), hone hs5]
    exact ⟨1, 0, rfl, by omega, by norm_num, by norm_num⟩
  · obtain ⟨t, ht, htlow, hthigh⟩ := top_word S q hS hq
    have hne : t ≠ 0 := by
      rintro rfl
      have hle := hS.normal hq
      omega
    have htW : t < W := by
      obtain ⟨w, hw, hlt⟩ := hS.top_mem (S.wds - 1) (by have := hS.wds_pos hq; omega)
      obtain rfl : w = t := by simpa [hw] using ht
      exact hlt
    obtain ⟨hlow, hhigh, hle⟩ := hi0bits_spec t htW hne
    have hpow : W ^ (S.wds - 1) = 2 ^ (32 * (S.wds - 1)) := by rw [pow_mul]
    rw [hpow] at htlow hthigh
    rw [if_pos hs5, ht, Option.map_some]
    generalize hi0bits t = z at hlow hhigh hle ⊢
    have hz : 2 ^ (31 - z) * 2 ^ z = 2 ^ 31 := by rw [← pow_add, Nat.sub_add_cancel hle]
    have hz' : 2 ^ (32 - z) * 2 ^ z = W := by rw [← pow_add, Nat.sub_add_cancel (by omega)]
    have hbit : 2 ^ (31 - z) ≤ t := Nat.le_of_mul_le_mul_right (hz.trans_le hlow) (by positivity)
    have hbits : t < 2 ^ (32 - z) := Nat.lt_of_mul_lt_mul_right (hhigh.trans_eq hz'.symm)
    refine ⟨32 - z, S.wds - 1, by congr 1; omega, by omega, ?_, ?_⟩
    · calc 2 ^ (32 - z - 1 + 32 * (S.wds - 1)) = 2 ^ (31 - z) * 2 ^ (32 * (S.wds - 1)) := by
            rw [← pow_add]
            congr 1
            omega
        _ ≤ t * 2 ^ (32 * (S.wds - 1)) := Nat.mul_le_mul_right _ hbit
        _ ≤ q := htlow
    · calc q < (t + 1) * 2 ^ (32 * (S.wds - 1)) := hthigh
        _ ≤ 2 ^ (32 - z) * 2 ^ (32 * (S.wds - 1)) := Nat.mul_le_mul_right _ hbits
        _ = 2 ^ (32 - z + 32 * (S.wds - 1)) := (pow_add _ _ _).symm

/-- **The shift leaves four zero bits in front of the divisor.**
SOURCE: dietlibc-printf.patch:3499-3526 -/
theorem alignment_spec (S : Bigint) (q : ℕ) (s2 s5 : ℤ) (hS : Holds S q) (hq : q ≠ 0) (hone : s5 = 0 → q = 1) (hs2 : 0 ≤ s2) :
    ∃ shift m : ℕ, alignment S s2 s5 = some (shift : ℤ) ∧ shift ≤ 31 ∧
      2 ^ (32 * m + 27) ≤ q * 2 ^ (s2.toNat + shift) ∧ q * 2 ^ (s2.toNat + shift) < 2 ^ (32 * m + 28) := by
  obtain ⟨n, a, hn, hpos, hlow, hhigh⟩ := top_bits S q s5 hS hq hone
  obtain ⟨e, rfl⟩ := Int.eq_ofNat_of_zero_le hs2
  unfold alignment
  rw [hn]
  simp only [Option.bind_eq_bind, Option.bind_some, Int.toNat_natCast]
  obtain ⟨shift, hshift, hle, hmod⟩ : ∃ shift : ℕ, (if (if ((n : ℤ) + e) % 32 ≠ 0 then 32 - ((n : ℤ) + e) % 32
      else ((n : ℤ) + e) % 32) > 4 then (if ((n : ℤ) + e) % 32 ≠ 0 then 32 - ((n : ℤ) + e) % 32
      else ((n : ℤ) + e) % 32) - 4 else if (if ((n : ℤ) + e) % 32 ≠ 0 then 32 - ((n : ℤ) + e) % 32
      else ((n : ℤ) + e) % 32) < 4 then (if ((n : ℤ) + e) % 32 ≠ 0 then 32 - ((n : ℤ) + e) % 32
      else ((n : ℤ) + e) % 32) + 28 else 0) = shift ∧ shift ≤ 31 ∧ (n + e + shift) % 32 = 28 := by
    refine ⟨((28 - ((n : ℤ) + e)) % 32).toNat, ?_, by omega, by omega⟩
    split_ifs <;> omega
  have hsum : n + e + shift = 32 * ((n + e + shift) / 32) + 28 := by omega
  refine ⟨shift, a + (n + e + shift) / 32, by rw [hshift], hle, ?_, ?_⟩
  · calc 2 ^ (32 * (a + (n + e + shift) / 32) + 27) = 2 ^ (n - 1 + 32 * a) * 2 ^ (e + shift) := by
          rw [← pow_add]
          congr 1
          omega
      _ ≤ q * 2 ^ (e + shift) := Nat.mul_le_mul_right _ hlow
  · calc q * 2 ^ (e + shift) < 2 ^ (n + 32 * a) * 2 ^ (e + shift) := Nat.mul_lt_mul_of_pos_right hhigh (by positivity)
      _ = 2 ^ (32 * (a + (n + e + shift) / 32) + 28) := by
          rw [← pow_add]
          congr 1
          omega

/-! ## The scale -/

/-- INTERNAL: the numbers that occur are far below the limit. -/
theorem lt_limit (v m n : ℕ) (hv : v < 2 ^ 60) (hm : m ≤ 400) (hn : n ≤ 4000) : v * 5 ^ m * 2 ^ n < limit := by
  have h5 : 5 ^ m ≤ 2 ^ (3 * m) := by
    rw [pow_mul]
    exact Nat.pow_le_pow_left (by omega) m
  calc v * 5 ^ m * 2 ^ n < 2 ^ 60 * 2 ^ (3 * m) * 2 ^ n :=
        Nat.mul_lt_mul_of_pos_right (Nat.mul_lt_mul_of_lt_of_le hv h5 (by positivity)) (by positivity)
    _ ≤ 2 ^ (32 * (2 ^ Kmax - 2)) := by
        rw [← pow_add, ← pow_add]
        have hK : 2 ^ Kmax = 32768 := rfl
        exact Nat.pow_le_pow_right (by omega) (by omega)
    _ = limit := by rw [limit, pow_mul]

/-- INTERNAL: multiplying by a power of five, if there is one. -/
theorem timesFives_spec (p5s : List Bigint) (b : Bigint) (v : ℕ) (k : ℤ) (hcache : Cache p5s) (hb : Holds b v) (hv : v ≠ 0)
    (hk : 0 ≤ k) (hlimit : v * 5 ^ k.toNat < limit) :
    ∃ b' p5s', timesFives p5s b k = some (b', p5s') ∧ Holds b' (v * 5 ^ k.toNat) ∧ Cache p5s' := by
  unfold timesFives
  by_cases hpos : k > 0
  · rw [if_pos hpos]
    exact pow5mult_holds p5s b v k.toNat hcache hb hv hlimit
  · rw [if_neg hpos, show k.toNat = 0 by omega, pow_zero, Nat.mul_one]
    exact ⟨b, p5s, rfl, hb, hcache⟩

/-- INTERNAL: shifting by a power of two, if there is one. -/
theorem shifted_spec (b : Bigint) (v : ℕ) (n : ℤ) (hb : Holds b v) (hv : v ≠ 0) (hlimit : v * 2 ^ n.toNat < limit) :
    ∃ b', shifted b n = some b' ∧ Holds b' (v * 2 ^ n.toNat) := by
  unfold shifted
  by_cases hpos : n > 0
  · rw [if_pos hpos]
    exact lshift_holds b v n.toNat hb hv hlimit
  · rw [if_neg hpos, show n.toNat = 0 by omega, pow_zero, Nat.mul_one]
    exact ⟨b, rfl, hb⟩

/-- INTERNAL: the exponents of the scale. -/
theorem scale_spec (j k : ℤ) : 0 ≤ (scale j k).b2 ∧ 0 ≤ (scale j k).b5 ∧ 0 ≤ (scale j k).s2 ∧ 0 ≤ (scale j k).s5 ∧
    (scale j k).b2 - (scale j k).s2 = -j - k ∧ (scale j k).b5 - (scale j k).s5 = -k ∧
    (scale j k).b2 ≤ |j| + |k| ∧ (scale j k).s2 ≤ |j| + |k| ∧ (scale j k).b5 ≤ |k| ∧ (scale j k).s5 ≤ |k| := by
  unfold scale
  simp only
  have hj := abs_cases j
  have hk := abs_cases k
  split_ifs <;> simp only <;> omega

/-- INTERNAL: a factor of two and five on either side of a quotient. -/
theorem scaled_quotient (v b2 b5 s2 s5 : ℕ) (be k : ℤ) (h2 : (b2 : ℤ) - s2 = be - k) (h5 : (b5 : ℤ) - s5 = -k) :
    (v : ℚ) * 2 ^ be = ((v * 5 ^ b5 * 2 ^ b2 : ℕ) : ℚ) / ((1 * 5 ^ s5 * 2 ^ s2 : ℕ) : ℚ) * 10 ^ k := by
  have hten : (10 : ℚ) ^ k = 2 ^ k * 5 ^ k := by rw [← mul_zpow]; norm_num
  have htwo : (2 : ℚ) ^ be = 2 ^ b2 / 2 ^ s2 * 2 ^ k := by
    rw [← zpow_natCast, ← zpow_natCast, ← zpow_sub₀ (by norm_num), ← zpow_add₀ (by norm_num)]
    congr 1
    omega
  have hfive : (5 : ℚ) ^ b5 / 5 ^ s5 * 5 ^ k = 1 := by
    rw [← zpow_natCast, ← zpow_natCast, ← zpow_sub₀ (by norm_num), ← zpow_add₀ (by norm_num), h5, neg_add_cancel, zpow_zero]
  push_cast
  rw [htwo, hten, one_mul]
  calc (v : ℚ) * (2 ^ b2 / 2 ^ s2 * 2 ^ k) = v * (2 ^ b2 / 2 ^ s2 * 2 ^ k) * (5 ^ b5 / 5 ^ s5 * 5 ^ k) := by rw [hfive, mul_one]
    _ = _ := by
        field_simp

/-- INTERNAL: what the factors have in common is left out on both sides. -/
theorem common_le (b2 s2 : ℤ) (hb : 0 ≤ b2) (hs : 0 ≤ s2) : 0 ≤ (if b2 > 0 ∧ s2 > 0 then min b2 s2 else 0) ∧
    (if b2 > 0 ∧ s2 > 0 then min b2 s2 else 0) ≤ b2 ∧ (if b2 > 0 ∧ s2 > 0 then min b2 s2 else 0) ≤ s2 := by
  split_ifs <;> omega

/-- INTERNAL: the number and its scale are big integers whose quotient is the number. -/
theorem quotient_spec (p5s : List Bigint) (b : Bigint) (v : ℕ) (be k : ℤ) (hcache : Cache p5s) (hb : Holds b v) (hv : v ≠ 0)
    (hsmall : v < 2 ^ 53) (hbe : |be| ≤ 1100) (hk : |k| ≤ 330) (hlt : (v : ℚ) * 2 ^ be < 10 ^ (k + 1)) :
    ∃ b₁ p₁ one S₁ p₂, ∃ shift common : ℤ, ∃ b₂ S₂, ∃ v₂ q₂ : ℕ,
      timesFives p5s b (scale (-be) k).b5 = some (b₁, p₁) ∧ i2b 1 = some one ∧
      timesFives p₁ one (scale (-be) k).s5 = some (S₁, p₂) ∧ Cache p₂ ∧
      (if (scale (-be) k).b2 > 0 ∧ (scale (-be) k).s2 > 0 then min (scale (-be) k).b2 (scale (-be) k).s2 else 0) = common ∧
      alignment S₁ ((scale (-be) k).s2 - common) (scale (-be) k).s5 = some shift ∧
      shifted b₁ ((scale (-be) k).b2 - common + shift) = some b₂ ∧
      shifted S₁ ((scale (-be) k).s2 - common + shift) = some S₂ ∧ Quotient (v * 2 ^ be) k b₂ S₂ v₂ q₂ := by
  obtain ⟨hb2, hb5, hs2, hs5, h2, h5, hb2le, hs2le, hb5le, hs5le⟩ := scale_spec (-be) k
  rw [abs_neg] at hb2le hs2le
  generalize scale (-be) k = c at *
  obtain ⟨hc0, hcb, hcs⟩ := common_le c.b2 c.s2 hb2 hs2
  generalize (if c.b2 > 0 ∧ c.s2 > 0 then min c.b2 c.s2 else 0) = common at hc0 hcb hcs ⊢
  have hvlt : v < 2 ^ 60 := hsmall.trans (by norm_num)
  obtain ⟨b₁, p₁, hfives, hb₁, hcache₁⟩ := timesFives_spec p5s b v c.b5 hcache hb hv hb5 (by
    have := lt_limit v c.b5.toNat 0 hvlt (by omega) (by omega)
    rwa [pow_zero, Nat.mul_one] at this)
  obtain ⟨one, hone, hone'⟩ := i2b_holds 1 (by norm_num) (by omega)
  obtain ⟨S₁, p₂, hfives', hS₁, hcache₂⟩ := timesFives_spec p₁ one 1 c.s5 hcache₁ hone' (by omega) hs5 (by
    have := lt_limit 1 c.s5.toNat 0 (by norm_num) (by omega) (by omega)
    rwa [pow_zero, Nat.mul_one] at this)
  have hS₁ne : 1 * 5 ^ c.s5.toNat ≠ 0 := by positivity
  have hb₁ne : v * 5 ^ c.b5.toNat ≠ 0 := Nat.mul_ne_zero hv (by positivity)
  obtain ⟨shift, m, hshift, hshiftle, hbits, hbits'⟩ := alignment_spec S₁ _ (c.s2 - common) c.s5 hS₁ hS₁ne (by
    intro h
    rw [h, Int.toNat_zero, pow_zero, Nat.mul_one]) (by omega)
  have hsum : (c.s2 - common + shift).toNat = (c.s2 - common).toNat + shift := by omega
  obtain ⟨b₂, hshifted, hb₂⟩ := shifted_spec b₁ _ (c.b2 - common + shift) hb₁ hb₁ne
    (lt_limit v c.b5.toNat _ hvlt (by omega) (by omega))
  obtain ⟨S₂, hshifted', hS₂⟩ := shifted_spec S₁ _ (c.s2 - common + shift) hS₁ hS₁ne
    (lt_limit 1 c.s5.toNat _ (by norm_num) (by omega) (by omega))
  have hvalue := scaled_quotient v (c.b2 - common + shift).toNat c.b5.toNat (c.s2 - common + shift).toNat c.s5.toNat be k
    (by omega) (by omega)
  refine ⟨b₁, p₁, one, S₁, p₂, shift, common, b₂, S₂, _, _, hfives, hone, hfives', hcache₂, rfl, hshift, hshifted, hshifted',
    hb₂, hS₂, Nat.mul_ne_zero hb₁ne (by positivity), Nat.mul_ne_zero hS₁ne (by positivity), ?_, hvalue, ?_, ?_⟩
  · exact aligned_of_bits S₂ _ m hS₂ (hsum ▸ hbits) (hsum ▸ hbits')
  · rw [hvalue, zpow_add₀ (by norm_num), mul_comm ((10 : ℚ) ^ k), zpow_one,
      mul_lt_mul_iff_left₀ (zpow_pos (by norm_num) k), div_lt_iff₀ (by positivity)] at hlt
    exact_mod_cast hlt
  · have hlimit := lt_limit 100 c.s5.toNat (c.s2 - common + shift).toNat (by norm_num) (by omega) (by omega)
    rwa [Nat.one_mul, ← Nat.mul_assoc]

/-- The place of the first digit and the number of digits, once the estimate has been checked. -/
def checked (d : ℚ) (k ilim ilim1 : ℤ) : ℤ × ℤ := if d < 10 ^ k then (k - 1, ilim1) else (k, ilim)

/-- **The conversion with big integers rounds the number.**
SOURCE: dietlibc-printf.patch:3439-3688 -/
theorem long_spec (p5s : List Bigint) (u : BitVec 64) (room : ℕ) (b : Bigint) (v : ℕ) (be bbits : ℤ) (denorm k_check : Bool)
    (mode ndigits k ilim ilim1 : ℤ) (hcache : Cache p5s) (hb : Holds b v) (hv : v ≠ 0) (hsmall : v < 2 ^ 53)
    (hbe : |be| ≤ 1100) (hplaced : Placed (v * 2 ^ be) k k_check) (hasked : Asked mode ndigits k ilim)
    (hasked' : Asked mode ndigits (k - 1) ilim1) (hroom : ilim ≤ room) (hroom' : ilim1 ≤ room) :
    ∃ r p5s', long p5s u room b be bbits denorm mode ndigits false k_check (-be) k ilim ilim1 = some (r, p5s') ∧ Cache p5s' ∧
      Suppressed r.1 ∧
      Converted (v * 2 ^ be) (checked (v * 2 ^ be) k ilim ilim1).1 (checked (v * 2 ^ be) k ilim ilim1).2 r := by
  have hd : 0 ≤ (v : ℚ) * 2 ^ be := mul_nonneg (by positivity) (zpow_nonneg (by norm_num) be)
  have hrange := hplaced.range
  obtain ⟨b₁, p₁, one, S₁, p₂, shift, common, b₂, S₂, v₂, q₂, hfives, hone, hfives', hcache₂, hcommon, hshift, hshifted,
    hshifted', hquot⟩ := quotient_spec p5s b v be k hcache hb hv hsmall hbe (abs_le.mpr ⟨by omega, by omega⟩) (hplaced.lt hd)
  have hless := hquot.lt_iff 1
  rw [Nat.cast_one, one_mul, Nat.one_mul] at hless
  obtain ⟨j, hj, hneg, -⟩ := cmp_spec b₂ S₂ v₂ q₂ hquot.dividend hquot.divisor hquot.divisor_ne_zero
  unfold long
  simp only [Bool.false_eq_true, if_false, false_and, decide_false, multiples, hfives, hone, hfives', hcommon, add_zero, hshift,
    hshifted, hshifted', Option.bind_eq_bind, Option.bind_some]
  by_cases hsmaller : v₂ < q₂
  · -- the estimate was too great
    have hd10 : (v : ℚ) * 2 ^ be < 10 ^ k := hless.mpr hsmaller
    have hcheck : k_check = true := by
      by_contra hnot
      exact absurd (hplaced.exact (Bool.eq_false_iff.mpr hnot)) (not_le.mpr hd10)
    obtain ⟨b₃, hten, hb₃⟩ := multadd_holds b₂ v₂ 10 0 hquot.dividend hquot.ne_zero (by omega) (by norm_num) (by norm_num)
      (by have := hquot.limit; omega)
    have hquot' : Quotient (v * 2 ^ be) (k - 1) b₃ S₂ (10 * v₂ + 0) q₂ := by
      refine ⟨hb₃, hquot.divisor, by have := hquot.ne_zero; omega, hquot.divisor_ne_zero, hquot.aligned, ?_, by omega,
        hquot.limit⟩
      rw [hquot.value, zpow_sub_one₀ (by norm_num)]
      push_cast
      ring
    have hfirst : q₂ ≤ 10 * v₂ + 0 := by
      have hiff := hquot'.lt_iff 1
      rw [Nat.cast_one, one_mul, Nat.one_mul] at hiff
      exact not_lt.mp (mt hiff.mpr (not_lt.mpr hplaced.low))
    obtain ⟨r, hr, hlast, hconverted⟩ := digitsOf_spec u room mode ndigits b₃ S₂ _ q₂ ((scale (-be) k).b2 - common + shift) hquot' hasked' hroom' hfirst
    refine ⟨r, p₂, ?_, hcache₂, hlast, by rw [checked, if_pos hd10]; exact hconverted⟩
    rw [if_pos hcheck, hj, Option.map_some, decide_eq_true (hneg.mpr hsmaller), Option.bind_some, if_pos rfl, hten,
      Option.bind_some, hr, Option.bind_some]
  · have hd10 : ¬ (v : ℚ) * 2 ^ be < 10 ^ k := mt hless.mp hsmaller
    have hfalse : (if k_check = true then Option.map (fun j => decide (j < 0)) (Model.DtoaBigint.cmp b₂ S₂) else some false) =
        some false := by
      rw [hj]
      split_ifs
      · rw [Option.map_some, decide_eq_false (mt hneg.mp hsmaller)]
      · rfl
    obtain ⟨r, hr, hlast, hconverted⟩ := digitsOf_spec u room mode ndigits b₂ S₂ v₂ q₂ ((scale (-be) k).b2 - common + shift) hquot hasked hroom
      (not_lt.mp hsmaller)
    refine ⟨r, p₂, ?_, hcache₂, hlast, by rw [checked, if_neg hd10]; exact hconverted⟩
    rw [hfalse, Option.bind_some, if_neg Bool.false_ne_true, hr, Option.bind_some]

end TTLinux.Analysis.DtoaLong
