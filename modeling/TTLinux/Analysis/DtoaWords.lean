import Mathlib.Data.Nat.Bitwise
import TTLinux.Analysis.DtoaBigint
import TTLinux.Model.Dtoa

/-!
# A double as a big integer

`lo0bits` and `hi0bits` count the zero bits at either end of a word. `d2b` takes a double apart: what it returns is
the double, as an integer times a power of two, with the number of its bits. From this `highestBit` finds the highest bit of
the double and its first digits behind it, also if the double is denormalized.
-/

set_option autoImplicit false

namespace TTLinux.Analysis.DtoaWords

open Nat (ofDigits)
open TTLinux.Lib
open TTLinux.Lib.Limbs
open TTLinux.Model.Dtoa
open TTLinux.Model.DtoaBigint
open TTLinux.Analysis.DtoaBigint

/-! ## Zero bits -/

/-- INTERNAL: a mask of the high bits. -/
theorem and_high_eq_zero_iff (x j m : ℕ) (hx : x < 2 ^ 32) (hj : j ≤ 32) (hm : m = 2 ^ 32 - 2 ^ j) :
    x &&& m = 0 ↔ x < 2 ^ j := by
  have hmask : m = (2 ^ (32 - j) - 1) <<< j := by
    rw [hm, Nat.shiftLeft_eq, Nat.sub_mul, Nat.one_mul, ← pow_add, Nat.sub_add_cancel hj]
  have hand : x &&& m = ((x >>> j) &&& (2 ^ (32 - j) - 1)) <<< j := by
    rw [hmask]
    apply Nat.eq_of_testBit_eq
    intro i
    by_cases hi : j ≤ i
    · simp [Nat.testBit_shiftLeft, hi, Bool.and_comm]
    · simp [Nat.testBit_shiftLeft, hi]
  rw [hand, Nat.and_two_pow_sub_one_eq_mod, Nat.shiftLeft_eq, Nat.shiftRight_eq_div_pow, Nat.mul_eq_zero]
  have hlt : x / 2 ^ j < 2 ^ (32 - j) := by
    rw [Nat.div_lt_iff_lt_mul (by positivity), ← pow_add, Nat.sub_add_cancel hj]
    exact hx
  rw [Nat.mod_eq_of_lt hlt, Nat.div_eq_zero_iff_lt (by positivity)]
  simp

/-- INTERNAL: one test of `hi0bits`: the word is shifted, and has the bit that the mask asks for. -/
theorem hiStep_spec (x mask n : ℕ) (r : ℕ × ℕ) (hn : n ≤ 32) (hr : r.2 = x * 2 ^ r.1) (hlt : r.2 < W)
    (hmask : mask = 2 ^ 32 - 2 ^ (32 - n)) (hbit : 2 ^ (32 - 2 * n) ≤ r.2) :
    (hiStep mask n r).2 = x * 2 ^ (hiStep mask n r).1 ∧ (hiStep mask n r).2 < W ∧
      2 ^ (32 - n) ≤ (hiStep mask n r).2 ∧ (hiStep mask n r).1 ≤ r.1 + n := by
  have hiff := and_high_eq_zero_iff r.2 (32 - n) mask hlt (by omega) hmask
  unfold hiStep
  split_ifs with h
  · have hsmall := hiff.mp h
    have hpow : W = 2 ^ (32 - n) * 2 ^ n := by rw [← pow_add, Nat.sub_add_cancel hn]
    have hwide : r.2 * 2 ^ n < W := by
      rw [hpow]
      exact Nat.mul_lt_mul_of_pos_right hsmall (by positivity)
    have hshift : (r.2 <<< n) % W = r.2 * 2 ^ n := by rw [Nat.shiftLeft_eq, Nat.mod_eq_of_lt hwide]
    simp only [hshift]
    refine ⟨by rw [hr, pow_add, Nat.mul_assoc], hwide, ?_, le_rfl⟩
    calc 2 ^ (32 - n) ≤ 2 ^ (32 - 2 * n + n) := Nat.pow_le_pow_right (by omega) (by omega)
      _ = 2 ^ (32 - 2 * n) * 2 ^ n := pow_add _ _ _
      _ ≤ r.2 * 2 ^ n := Nat.mul_le_mul_right _ hbit
  · exact ⟨hr, hlt, not_lt.mp fun hlt' => h (hiff.mpr hlt'), Nat.le_add_right _ _⟩

/-- **`hi0bits` counts the zero bits in front.**
SOURCE: dietlibc-printf.patch:1061-1093 -/
theorem hi0bits_spec (x : ℕ) (hx : x < W) (hne : x ≠ 0) :
    2 ^ 31 ≤ x * 2 ^ hi0bits x ∧ x * 2 ^ hi0bits x < W ∧ hi0bits x ≤ 31 := by
  obtain ⟨h1, h1lt, h1bit, h1le⟩ := hiStep_spec x 0xffff0000 16 (0, x) (by omega) (by simp) hx (by norm_num)
    (Nat.one_le_iff_ne_zero.mpr hne)
  obtain ⟨h2, h2lt, h2bit, h2le⟩ := hiStep_spec x 0xff000000 8 _ (by omega) h1 h1lt (by norm_num) h1bit
  obtain ⟨h3, h3lt, h3bit, h3le⟩ := hiStep_spec x 0xf0000000 4 _ (by omega) h2 h2lt (by norm_num) h2bit
  obtain ⟨h4, h4lt, h4bit, h4le⟩ := hiStep_spec x 0xc0000000 2 _ (by omega) h3 h3lt (by norm_num) h3bit
  unfold hi0bits
  generalize hiStep 0xc0000000 2 (hiStep 0xf0000000 4 (hiStep 0xff000000 8 (hiStep 0xffff0000 16 (0, x)))) = r
    at h4 h4lt h4bit h4le ⊢
  have hhigh := and_high_eq_zero_iff r.2 31 0x80000000 h4lt (by omega) (by norm_num)
  simp only at h1le ⊢
  split_ifs with htop hnext
  · -- the second bit is there, since the last test found one of two
    have hbit : r.2 &&& 2 ^ 30 = 2 ^ 30 := by
      rw [Nat.and_two_pow, Nat.testBit_eq_decide_div_mod_eq]
      have hlt := hhigh.mp htop
      rw [show r.2 / 2 ^ 30 % 2 = 1 by omega]
      rfl
    rw [show 0x40000000 = 2 ^ 30 from rfl, hbit] at hnext
    omega
  · have hlt := hhigh.mp htop
    rw [show x * 2 ^ (r.1 + 1) = r.2 * 2 by rw [pow_succ, ← Nat.mul_assoc, ← h4], W_eq]
    exact ⟨by omega, by omega, by omega⟩
  · rw [← h4]
    exact ⟨not_lt.mp fun hlt => htop (hhigh.mpr hlt), h4lt, by omega⟩

/-- INTERNAL: one test of `lo0bits`: the zeros are taken off. -/
theorem loStep_spec (y mask n : ℕ) (r : ℕ × ℕ) (hr : y = r.2 * 2 ^ r.1) (hmask : mask = 2 ^ n - 1)
    (hbits : r.2 % 2 ^ (2 * n) ≠ 0) :
    y = (loStep mask n r).2 * 2 ^ (loStep mask n r).1 ∧ (loStep mask n r).2 % 2 ^ n ≠ 0 ∧
      (loStep mask n r).1 ≤ r.1 + n ∧ (loStep mask n r).2 ≤ r.2 := by
  unfold loStep
  rw [hmask, Nat.and_two_pow_sub_one_eq_mod]
  split_ifs with h
  · obtain ⟨q, hq⟩ := Nat.dvd_of_mod_eq_zero h
    have hdiv : r.2 >>> n = q := by
      rw [Nat.shiftRight_eq_div_pow, hq, Nat.mul_div_cancel_left _ (by positivity)]
    simp only [hdiv]
    refine ⟨by rw [hr, hq, pow_add]; ring, ?_, le_rfl, by rw [hq]; exact Nat.le_mul_of_pos_left _ (by positivity)⟩
    intro hzero
    apply hbits
    rw [hq, two_mul, pow_add, Nat.mul_mod_mul_left, hzero, Nat.mul_zero]
  · exact ⟨hr, h, Nat.le_add_right _ _, le_rfl⟩

/-- INTERNAL: the bit that stands for two. -/
theorem and_two_ne_zero_iff (y : ℕ) : y &&& 2 ≠ 0 ↔ y / 2 % 2 = 1 := by
  have h := Nat.and_two_pow y 1
  rw [Nat.testBit_eq_decide_div_mod_eq, pow_one] at h
  rw [h]
  by_cases hbit : y / 2 % 2 = 1 <;> simp [hbit]

/-- INTERNAL: the tests of `lo0bits` behind the first three bits. -/
theorem loSteps_spec (y : ℕ) (hy : y < W) (hne : y ≠ 0) (r : ℕ × ℕ)
    (hr : r = loStep 0x3 2 (loStep 0xf 4 (loStep 0xff 8 (loStep 0xffff 16 (0, y))))) :
    y = r.2 * 2 ^ r.1 ∧ r.2 % 4 ≠ 0 ∧ r.1 ≤ 30 ∧ r.2 ≤ y := by
  obtain ⟨h1, h1ne, h1le, h1lt⟩ := loStep_spec y 0xffff 16 (0, y) (by simp) rfl
    (by rw [show 2 ^ (2 * 16) = W from rfl, Nat.mod_eq_of_lt hy]; exact hne)
  obtain ⟨h2, h2ne, h2le, h2lt⟩ := loStep_spec y 0xff 8 _ h1 rfl h1ne
  obtain ⟨h3, h3ne, h3le, h3lt⟩ := loStep_spec y 0xf 4 _ h2 rfl h2ne
  obtain ⟨h4, h4ne, h4le, h4lt⟩ := loStep_spec y 0x3 2 _ h3 rfl h3ne
  rw [← hr] at h4 h4ne h4le h4lt
  simp only at h1le h1lt
  exact ⟨h4, h4ne, by omega, by omega⟩

/-- **`lo0bits` takes the zero bits off the end.**
SOURCE: dietlibc-printf.patch:1095-1138 -/
theorem lo0bits_spec (y : ℕ) (hy : y < W) (hne : y ≠ 0) :
    y = (lo0bits y).2 * 2 ^ (lo0bits y).1 ∧ (lo0bits y).2 ≠ 0 ∧ (lo0bits y).1 ≤ 31 ∧ (lo0bits y).2 ≤ y := by
  have h7 : y &&& 7 = y % 8 := Nat.and_two_pow_sub_one_eq_mod y 3
  have hand : ∀ x, x &&& 1 = x % 2 := fun x => Nat.and_two_pow_sub_one_eq_mod x 1
  unfold lo0bits
  rw [h7, hand]
  by_cases hlow : y % 8 = 0
  · rw [if_neg (not_not_intro hlow)]
    generalize hr : loStep 0x3 2 (loStep 0xf 4 (loStep 0xff 8 (loStep 0xffff 16 (0, y)))) = r
    obtain ⟨hvalue, hbits, hle, hlt⟩ := loSteps_spec y hy hne r hr.symm
    simp only [hand, Nat.shiftRight_eq_div_pow, pow_one]
    by_cases hodd : r.2 % 2 = 0
    · rw [if_pos hodd, if_neg (by omega)]
      refine ⟨?_, by simp only; omega, by simp only; omega, by simp only; omega⟩
      simp only
      rw [pow_succ, Nat.mul_comm (2 ^ r.1), ← Nat.mul_assoc, Nat.div_mul_cancel (Nat.dvd_of_mod_eq_zero hodd)]
      exact hvalue
    · rw [if_neg hodd]
      exact ⟨hvalue, by omega, by omega, hlt⟩
  · rw [if_pos hlow]
    by_cases hodd : y % 2 = 0
    · rw [if_neg (not_not_intro hodd)]
      by_cases htwo : y / 2 % 2 = 1
      · rw [if_pos ((and_two_ne_zero_iff y).mpr htwo), Nat.shiftRight_eq_div_pow]
        refine ⟨?_, ?_, ?_, ?_⟩ <;> simp only <;> omega
      · rw [if_neg (mt (and_two_ne_zero_iff y).mp htwo), Nat.shiftRight_eq_div_pow]
        refine ⟨?_, ?_, ?_, ?_⟩ <;> simp only <;> omega
    · rw [if_pos hodd]
      exact ⟨by simp, hne, by simp, le_rfl⟩

/-! ## The parts of a double -/

/-- The bits of the fraction of a double. -/
def fraction (u : BitVec 64) : ℕ := (word0 u &&& 0xfffff) * 2 ^ 32 + word1 u

/-- The exponent field. -/
def exponent (u : BitVec 64) : ℕ := word0 u >>> 20

/-- The integer that is scaled by the exponent. -/
def mantissa (u : BitVec 64) : ℕ := if exponent u = 0 then fraction u else 2 ^ 52 + fraction u

/-- The exponent of the last bit. -/
def lastPlace (u : BitVec 64) : ℤ := if exponent u = 0 then -1074 else (exponent u : ℤ) - 1075

/-- INTERNAL: the lower word is a word. -/
theorem word1_lt (u : BitVec 64) : word1 u < W := by
  unfold word1
  have h := Nat.and_le_right (n := u.toNat) (m := 0xffffffff)
  rw [BitVec.toNat_and]
  exact lt_of_le_of_lt h (by norm_num)

/-- INTERNAL: the fraction in the two words. -/
theorem fraction_eq (u : BitVec 64) : fraction u = word0 u % 2 ^ 20 * 2 ^ 32 + word1 u := by
  unfold fraction
  rw [show 0xfffff = 2 ^ 20 - 1 from rfl, Nat.and_two_pow_sub_one_eq_mod]

/-- INTERNAL: it has 52 bits. -/
theorem fraction_lt (u : BitVec 64) : fraction u < 2 ^ 52 := by
  have h0 := Nat.mod_lt (word0 u) (show 0 < 2 ^ 20 by positivity)
  have h1 := word1_lt u
  rw [W_eq] at h1
  rw [fraction_eq]
  omega

/-- INTERNAL: the mantissa has 53. -/
theorem mantissa_lt (u : BitVec 64) : mantissa u < 2 ^ 53 := by
  have h := fraction_lt u
  unfold mantissa
  split_ifs <;> omega

/-- INTERNAL: the value of the two words is that of mantissa and last place. -/
theorem dval_eq (u : BitVec 64) : dval (word0 u) (word1 u) = mantissa u * 2 ^ lastPlace u := by
  unfold dval mantissa lastPlace exponent fraction
  simp only
  split_ifs <;> rfl

/-- What `d2b` returns: the double is `v * 2^be`, and `v` has `n` bits. -/
structure TakenApart (u : BitVec 64) (b : Bigint) (v : ℕ) (be : ℤ) (n : ℕ) : Prop where
  holds : Holds b v
  ne_zero : v ≠ 0
  factors : ∃ k : ℕ, mantissa u = v * 2 ^ k ∧ be = lastPlace u + k
  low : 2 ^ (n - 1) ≤ v
  high : v < 2 ^ n
  pos : 0 < n

/-- INTERNAL: the words of the mantissa. -/
theorem d2bWords_spec (z y : ℕ) (hz : z < 2 ^ 21) (hy : y < W) (hne : z * W + y ≠ 0) :
    z * W + y = ofDigits W (d2bWords z y).1 * 2 ^ (d2bWords z y).2 ∧ Words W (d2bWords z y).1 ∧
      ((d2bWords z y).1.length = 1 ∨ (d2bWords z y).1.length = 2) ∧
      ((d2bWords z y).1.length = 1 → (d2bWords z y).1[0]? ≠ some 0) := by
  unfold d2bWords
  by_cases hzero : y = 0
  · have hz0 : z ≠ 0 := by
      rintro rfl
      rw [hzero, Nat.zero_mul] at hne
      exact hne rfl
    obtain ⟨hvalue, hlow, -, hle⟩ := lo0bits_spec z (by norm_num; omega) hz0
    rw [if_neg (not_not_intro hzero), hzero, Nat.add_zero]
    refine ⟨?_, ?_, .inl rfl, fun _ => by simpa using hlow⟩
    · simp only [Nat.ofDigits_singleton, pow_add]
      rw [← Nat.mul_assoc, ← hvalue]
    · simp only [words_cons, words_nil, and_true]
      norm_num
      omega
  · obtain ⟨hvalue, hlow, hk, hle⟩ := lo0bits_spec y hy hzero
    rw [if_pos hzero]
    generalize lo0bits y = r at hvalue hlow hk hle ⊢
    split_ifs with hshift
    · have hpow : W = 2 ^ (32 - r.1) * 2 ^ r.1 := by rw [← pow_add, Nat.sub_add_cancel (by omega)]
      have hrlt : r.2 < 2 ^ (32 - r.1) := by
        refine lt_of_mul_lt_mul_right ?_ (Nat.zero_le (2 ^ r.1))
        rw [← hvalue, ← hpow]
        exact hy
      have hmod : (z <<< (32 - r.1)) % W = (z % 2 ^ r.1) <<< (32 - r.1) := by
        rw [Nat.shiftLeft_eq, Nat.shiftLeft_eq, hpow, Nat.mul_comm (2 ^ (32 - r.1)), Nat.mul_mod_mul_right]
      have hor : r.2 ||| (z <<< (32 - r.1)) % W = z % 2 ^ r.1 * 2 ^ (32 - r.1) + r.2 := by
        rw [hmod, Nat.or_comm, ← Nat.shiftLeft_add_eq_or_of_lt hrlt, Nat.shiftLeft_eq]
      have hdiv := Nat.mod_add_div z (2 ^ r.1)
      simp only [hor, Nat.shiftRight_eq_div_pow]
      refine ⟨?_, ?_, .inr rfl, fun h => by simp at h⟩
      · rw [Nat.ofDigits_cons, Nat.ofDigits_singleton]
        calc z * W + y = (z % 2 ^ r.1 + 2 ^ r.1 * (z / 2 ^ r.1)) * W + r.2 * 2 ^ r.1 := by rw [hdiv, ← hvalue]
          _ = z % 2 ^ r.1 * (2 ^ (32 - r.1) * 2 ^ r.1) + r.2 * 2 ^ r.1 + W * (z / 2 ^ r.1) * 2 ^ r.1 := by
              rw [← hpow]
              ring
          _ = _ := by ring
      · rw [words_cons, words_cons]
        refine ⟨?_, ?_, words_nil⟩
        · have hlt := Nat.mod_lt z (show 0 < 2 ^ r.1 by positivity)
          calc z % 2 ^ r.1 * 2 ^ (32 - r.1) + r.2 < z % 2 ^ r.1 * 2 ^ (32 - r.1) + 2 ^ (32 - r.1) := by omega
            _ = (z % 2 ^ r.1 + 1) * 2 ^ (32 - r.1) := by ring
            _ ≤ 2 ^ r.1 * 2 ^ (32 - r.1) := Nat.mul_le_mul_right _ hlt
            _ = W := by rw [hpow, Nat.mul_comm]
        · calc z / 2 ^ r.1 ≤ z := Nat.div_le_self _ _
            _ < W := by norm_num; omega
    · rw [not_not.mp hshift, pow_zero, Nat.mul_one] at hvalue
      simp only [pow_zero, Nat.mul_one, ← hvalue]
      refine ⟨?_, ?_, .inr rfl, fun h => by simp at h⟩
      · rw [Nat.ofDigits_cons, Nat.ofDigits_singleton]
        ring
      · rw [words_cons, words_cons]
        exact ⟨hy, by norm_num; omega, words_nil⟩

/-- INTERNAL: the words of the mantissa in their block. -/
theorem d2bWords_holds (z y : ℕ) (hz : z < 2 ^ 21) (hy : y < W) (hne : z * W + y ≠ 0) :
    ∃ b v i t, (⟨1, false, 0, []⟩ : Bigint).fill (d2bWords z y).1 i = some b ∧
      i = (if (d2bWords z y).1[1]?.getD 0 ≠ 0 then 2 else 1) ∧ Holds b v ∧ v ≠ 0 ∧ z * W + y = v * 2 ^ (d2bWords z y).2 ∧
      (d2bWords z y).1[i - 1]? = some t ∧ t ≠ 0 ∧ t < W ∧ t * W ^ (i - 1) ≤ v ∧ v < (t + 1) * W ^ (i - 1) ∧ 0 < i := by
  obtain ⟨hvalue, hwords, hlength, hone⟩ := d2bWords_spec z y hz hy hne
  generalize (d2bWords z y).2 = k at hvalue
  generalize (d2bWords z y).1 = x at hvalue hwords hlength hone ⊢
  have hv : ofDigits W x ≠ 0 := by
    intro h
    rw [h, Nat.zero_mul] at hvalue
    exact hne hvalue
  have hW := W_eq
  obtain _ | ⟨a, _ | ⟨c, _ | ⟨e, x⟩⟩⟩ := x
  · simp at hlength
  · have ha : a ≠ 0 := by simpa using hone rfl
    have haW : a < W := by simpa using hwords
    obtain ⟨hfill, hholds⟩ := holds_fill ⟨1, false, 0, []⟩ [a] 1 a (by decide) (by simp [Bigint.maxwds]) (by simp)
      (by simpa using haW) (by simp) (Nat.one_le_iff_ne_zero.mpr ha) ha
    refine ⟨_, a, 1, a, hfill, by simp, hholds, ha, by simpa using hvalue, rfl, ha, haW, ?_, ?_, by omega⟩ <;> simp
  · obtain ⟨haW, hcW, -⟩ : a < W ∧ c < W ∧ True := by simpa using hwords
    rw [Nat.ofDigits_cons, Nat.ofDigits_singleton] at hvalue hv
    by_cases hc : c = 0
    · rw [hc, Nat.mul_zero, Nat.add_zero] at hvalue hv
      obtain ⟨hfill, hholds⟩ := holds_fill ⟨1, false, 0, []⟩ [a, c] 1 a (by decide) (by simp [Bigint.maxwds]) (by simp)
        (by simpa using haW) (by simp) (Nat.one_le_iff_ne_zero.mpr hv) hv
      refine ⟨_, a, 1, a, hfill, by simp [hc], hholds, hv, hvalue, rfl, hv, haW, ?_, ?_, by omega⟩ <;> simp
    · have hge : W ≤ a + W * c := (Nat.le_mul_of_pos_right W (Nat.pos_of_ne_zero hc)).trans (Nat.le_add_left _ _)
      obtain ⟨hfill, hholds⟩ := holds_fill ⟨1, false, 0, []⟩ [a, c] 2 (a + W * c) (by decide) (by simp [Bigint.maxwds])
        (by simp) (by simpa using ⟨haW, hcW⟩) (by simp [Nat.ofDigits_cons]) (by simpa using hge) hv
      refine ⟨_, _, 2, c, hfill, by simp [hc], hholds, hv, hvalue, rfl, hc, hcW, ?_, ?_, by omega⟩
      · simp only [Nat.add_one_sub_one, pow_one]
        rw [Nat.mul_comm]
        omega
      · simp only [Nat.add_one_sub_one, pow_one]
        rw [Nat.add_mul, Nat.mul_comm c]
        omega
  · simp at hlength

/-- INTERNAL: as many bits as `hi0bits` leaves. -/
theorem bits_of_top (t i v : ℕ) (ht : t ≠ 0) (htW : t < W) (hi : 0 < i) (hlow : t * W ^ (i - 1) ≤ v)
    (hhigh : v < (t + 1) * W ^ (i - 1)) :
    hi0bits t < 32 * i ∧ 2 ^ (32 * i - hi0bits t - 1) ≤ v ∧ v < 2 ^ (32 * i - hi0bits t) := by
  obtain ⟨hbit, hlt, hle⟩ := hi0bits_spec t htW ht
  generalize hi0bits t = h at hbit hlt hle ⊢
  have hpowi : W ^ (i - 1) = 2 ^ (32 * (i - 1)) := by rw [← pow_mul]
  have htlow : 2 ^ (31 - h) ≤ t := by
    refine Nat.le_of_mul_le_mul_right ?_ (show 0 < 2 ^ h by positivity)
    rw [← pow_add, Nat.sub_add_cancel hle]
    exact hbit
  have hthigh : t + 1 ≤ 2 ^ (32 - h) := by
    refine Nat.lt_of_mul_lt_mul_right (a := 2 ^ h) ?_
    rw [← pow_add, Nat.sub_add_cancel (by omega)]
    exact hlt
  refine ⟨by omega, ?_, ?_⟩
  · calc 2 ^ (32 * i - h - 1) = 2 ^ (31 - h) * W ^ (i - 1) := by
          rw [hpowi, ← pow_add]
          congr 1
          omega
      _ ≤ t * W ^ (i - 1) := Nat.mul_le_mul_right _ htlow
      _ ≤ v := hlow
  · calc v < (t + 1) * W ^ (i - 1) := hhigh
      _ ≤ 2 ^ (32 - h) * W ^ (i - 1) := Nat.mul_le_mul_right _ hthigh
      _ = 2 ^ (32 * i - h) := by
          rw [hpowi, ← pow_add]
          congr 1
          omega

/-- **`d2b` takes a double apart.**
SOURCE: dietlibc-printf.patch:1624-1730 -/
theorem d2b_spec (u : BitVec 64) (hsign : word0 u < 2 ^ 31) (hne : mantissa u ≠ 0) :
    ∃ b v be, ∃ n : ℕ, d2b u = some (b, be, (n : ℤ)) ∧ TakenApart u b v be n := by
  have hclear : word0 u &&& 0x7fffffff = word0 u := by
    rw [show 0x7fffffff = 2 ^ 31 - 1 from rfl, Nat.and_two_pow_sub_one_eq_mod, Nat.mod_eq_of_lt hsign]
  have hfraction := fraction_eq u
  have hlow : word0 u &&& 0xfffff = word0 u % 2 ^ 20 := Nat.and_two_pow_sub_one_eq_mod _ 20
  have hzlt := Nat.mod_lt (word0 u) (show 0 < 2 ^ 20 by positivity)
  have hW := W_eq
  -- the highest bit of a normalized number
  have hor : word0 u % 2 ^ 20 ||| 0x100000 = 2 ^ 20 + word0 u % 2 ^ 20 := by
    have h := Nat.two_pow_add_eq_or_of_lt hzlt 1
    rw [Nat.mul_one] at h
    rw [h, Nat.or_comm]
  obtain ⟨z, hz, hzbound, hM⟩ : ∃ z, (if (word0 u) >>> 20 ≠ 0 then word0 u % 2 ^ 20 ||| 0x100000 else word0 u % 2 ^ 20) = z ∧
      z < 2 ^ 21 ∧ mantissa u = z * W + word1 u := by
    unfold mantissa exponent
    by_cases he : (word0 u) >>> 20 = 0
    · rw [if_neg (not_not_intro he), if_pos he, hfraction, W_eq]
      exact ⟨_, rfl, by omega, by omega⟩
    · rw [if_pos he, if_neg he, hor, hfraction, W_eq]
      exact ⟨_, rfl, by omega, by omega⟩
  obtain ⟨b, v, i, t, hfill, hi, hholds, hv, hvalue, htop, ht, htW, htlow, hthigh, hipos⟩ :=
    d2bWords_holds z (word1 u) hzbound (word1_lt u) (by rw [← hM]; exact hne)
  rw [← hM] at hvalue
  simp only [d2b, hclear, hlow, hz, balloc_eq 1 (by decide), Option.bind_eq_bind, Option.bind_some, ← hi, hfill]
  generalize hk : (d2bWords z (word1 u)).2 = k at hvalue
  by_cases he : (word0 u) >>> 20 = 0
  · obtain ⟨hlt, hvlow, hvhigh⟩ := bits_of_top t i v ht htW hipos htlow hthigh
    rw [if_neg (not_not_intro he), htop]
    refine ⟨b, v, lastPlace u + k, 32 * i - hi0bits t, ?_, hholds, hv, ⟨k, hvalue, rfl⟩, hvlow, hvhigh, by omega⟩
    unfold lastPlace exponent
    simp only [Option.bind_some, he, if_true]
    congr 3
    omega
  · rw [if_pos he]
    have hMlow : 2 ^ 52 ≤ mantissa u := by
      unfold mantissa exponent
      rw [if_neg he]
      omega
    have hMhigh := mantissa_lt u
    have hk52 : k ≤ 52 := by
      by_contra hgt
      have hpow : 2 ^ 53 ≤ 2 ^ k := Nat.pow_le_pow_right (by omega) (by omega)
      have hle : 2 ^ k ≤ v * 2 ^ k := Nat.le_mul_of_pos_left _ (Nat.pos_of_ne_zero hv)
      omega
    refine ⟨b, v, lastPlace u + k, 53 - k, ?_, hholds, hv, ⟨k, hvalue, rfl⟩, ?_, ?_, by omega⟩
    · unfold lastPlace exponent
      rw [if_neg he]
      congr 3
      · ring
      · omega
    · refine Nat.le_of_mul_le_mul_right ?_ (show 0 < 2 ^ k by positivity)
      rw [← pow_add, ← hvalue, show 53 - k - 1 + k = 52 by omega]
      exact hMlow
    · refine Nat.lt_of_mul_lt_mul_right (a := 2 ^ k) ?_
      rw [← pow_add, ← hvalue, Nat.sub_add_cancel (by omega)]
      exact hMhigh

/-! ## The highest bit -/

/-- INTERNAL: the bits of the mantissa: those of `v` and the zeros that were taken off. -/
theorem TakenApart.bits {u : BitVec 64} {b : Bigint} {v : ℕ} {be : ℤ} {n : ℕ} (h : TakenApart u b v be n) :
    ∃ m : ℕ, 2 ^ m ≤ mantissa u ∧ mantissa u < 2 ^ (m + 1) ∧ be + n - 1 = lastPlace u + m ∧ m ≤ 52 ∧
      (exponent u ≠ 0 → m = 52) := by
  obtain ⟨k, hk, hbe⟩ := h.factors
  have hpos := h.pos
  have hlow : 2 ^ (n - 1 + k) ≤ mantissa u := by
    rw [hk, pow_add]
    exact Nat.mul_le_mul_right _ h.low
  have hhigh : mantissa u < 2 ^ (n - 1 + k + 1) := by
    rw [hk, show n - 1 + k + 1 = n + k by omega, pow_add]
    exact Nat.mul_lt_mul_of_pos_right h.high (by positivity)
  have hlt := mantissa_lt u
  refine ⟨n - 1 + k, hlow, hhigh, by omega, ?_, fun he => ?_⟩
  · have hpow := (Nat.pow_lt_pow_iff_right (show 1 < 2 by omega)).mp (hlow.trans_lt hlt)
    omega
  · have hM : 2 ^ 52 ≤ mantissa u := by
      unfold mantissa
      rw [if_neg he]
      omega
    have h1 := (Nat.pow_lt_pow_iff_right (show 1 < 2 by omega)).mp (hlow.trans_lt hlt)
    have h2 := (Nat.pow_lt_pow_iff_right (show 1 < 2 by omega)).mp (hM.trans_lt hhigh)
    omega

/-- INTERNAL: the first 32 bits of a mantissa.
SOURCE: dietlibc-printf.patch:3199-3201 -/
theorem first_bits (w0 w1 m : ℕ) (hw1 : w1 < 2 ^ 32) (hlow : 2 ^ m ≤ w0 * 2 ^ 32 + w1) (hhigh : w0 * 2 ^ 32 + w1 < 2 ^ (m + 1))
    (hm : m ≤ 52) :
    (if (m : ℤ) + 1 > 32 then (w0 <<< (64 - ((m : ℤ) + 1)).toNat) % W ||| w1 >>> ((m : ℤ) + 1 - 32).toNat
      else (w1 <<< (32 - ((m : ℤ) + 1)).toNat) % W) = (w0 * 2 ^ 32 + w1) * 2 ^ 31 / 2 ^ m := by
  split_ifs with hlong
  · obtain ⟨j, rfl⟩ : ∃ j, m = j + 31 := ⟨m - 31, by omega⟩
    have hj : 1 ≤ j := by omega
    rw [show (64 - (((j + 31 : ℕ) : ℤ) + 1)).toNat = 32 - j by omega, show (((j + 31 : ℕ) : ℤ) + 1 - 32).toNat = j by omega]
    have hpow : 2 ^ 32 = 2 ^ (32 - j) * 2 ^ j := by rw [← pow_add, Nat.sub_add_cancel (by omega)]
    have hquot : (w0 * 2 ^ 32 + w1) * 2 ^ 31 / 2 ^ (j + 31) = w0 * 2 ^ (32 - j) + w1 / 2 ^ j := by
      rw [pow_add, Nat.mul_div_mul_right _ _ (by positivity), hpow, ← Nat.mul_assoc, Nat.add_comm,
        Nat.add_mul_div_right _ _ (by positivity), Nat.add_comm]
    have hwlow : w1 / 2 ^ j < 2 ^ (32 - j) := by
      rw [Nat.div_lt_iff_lt_mul (by positivity), ← hpow]
      exact hw1
    have hsmall : w0 * 2 ^ (32 - j) < W := by
      refine Nat.lt_of_mul_lt_mul_right (a := 2 ^ j) ?_
      calc w0 * 2 ^ (32 - j) * 2 ^ j = w0 * 2 ^ 32 := by rw [hpow, Nat.mul_assoc]
        _ ≤ w0 * 2 ^ 32 + w1 := Nat.le_add_right _ _
        _ < 2 ^ (j + 31 + 1) := hhigh
        _ = W * 2 ^ j := by rw [← pow_add]; congr 1; omega
    rw [hquot, Nat.shiftRight_eq_div_pow, Nat.shiftLeft_eq, Nat.mod_eq_of_lt hsmall, ← Nat.shiftLeft_eq,
      Nat.shiftLeft_add_eq_or_of_lt hwlow]
  · have hw0 : w0 = 0 := by
      by_contra hne
      have h1 : 2 ^ (m + 1) ≤ 2 ^ 32 := Nat.pow_le_pow_right (by omega) (by omega)
      omega
    have hm31 : m ≤ 31 := by omega
    rw [hw0, Nat.zero_mul, Nat.zero_add] at hhigh ⊢
    rw [show (32 - ((m : ℤ) + 1)).toNat = 31 - m by omega, Nat.shiftLeft_eq]
    have hpow : 2 ^ 31 = 2 ^ (31 - m) * 2 ^ m := by rw [← pow_add, Nat.sub_add_cancel hm31]
    have hsmall : w1 * 2 ^ (31 - m) < W :=
      calc w1 * 2 ^ (31 - m) < 2 ^ (m + 1) * 2 ^ (31 - m) := Nat.mul_lt_mul_of_pos_right hhigh (by positivity)
        _ = W := by rw [← pow_add]; congr 1; omega
    rw [Nat.mod_eq_of_lt hsmall, hpow, ← Nat.mul_assoc, Nat.mul_div_cancel _ (by positivity)]

/-- INTERNAL: the double with its exponent set to zero.
SOURCE: dietlibc-printf.patch:3151-3153 -/
theorem dval_unit (u : BitVec 64) : dval (word0 u &&& 0xfffff ||| 0x3ff00000) (word1 u) =
    ((2 ^ 52 + fraction u : ℕ) : ℚ) * 2 ^ (-52 : ℤ) := by
  have hlow : word0 u &&& 0xfffff = word0 u % 2 ^ 20 := Nat.and_two_pow_sub_one_eq_mod _ 20
  have hzlt := Nat.mod_lt (word0 u) (show 0 < 2 ^ 20 by positivity)
  have hor : word0 u % 2 ^ 20 ||| 0x3ff00000 = 2 ^ 20 * 1023 + word0 u % 2 ^ 20 := by
    rw [Nat.two_pow_add_eq_or_of_lt hzlt, Nat.or_comm]
  have hlow' : (2 ^ 20 * 1023 + word0 u % 2 ^ 20) &&& 0xfffff = word0 u % 2 ^ 20 := by
    rw [show 0xfffff = 2 ^ 20 - 1 from rfl, Nat.and_two_pow_sub_one_eq_mod]
    omega
  have hexp : (2 ^ 20 * 1023 + word0 u % 2 ^ 20) >>> 20 = 1023 := by
    rw [Nat.shiftRight_eq_div_pow]
    omega
  unfold dval fraction
  rw [hlow, hor]
  simp only [hlow', hexp]
  norm_num

/-- What `highestBit` returns: the place `i` of the highest bit, and `d2`, the digits behind it. -/
structure Normalized (u : BitVec 64) (i : ℤ) (d2 : ℚ) : Prop where
  one_le : 1 ≤ d2
  lt_two : d2 < 2
  low : d2 * 2 ^ i ≤ dval (word0 u) (word1 u)
  high : dval (word0 u) (word1 u) < (d2 + 1 / 2 ^ 31) * 2 ^ i
  isFloat : binary64.IsFloat d2
  range : -1074 ≤ i ∧ i ≤ 1023

/-- **`highestBit` finds the highest bit**, and the digits behind it: all of them, or 31 of a denormalized number.
SOURCE: dietlibc-printf.patch:3150-3208 -/
theorem highestBit_spec (u : BitVec 64) (b : Bigint) (v : ℕ) (be : ℤ) (n : ℕ) (hfinite : exponent u < 2047)
    (h : TakenApart u b v be n) :
    (highestBit u be n).1 = be + n - 1 ∧ Normalized u (be + n - 1) (highestBit u be n).2 := by
  obtain ⟨m, hlow, hhigh, hi, hm, hnormal⟩ := h.bits
  have hplace : ∀ x : ℚ, x * 2 ^ (be + (n : ℤ) - 1) = x * 2 ^ m * 2 ^ lastPlace u := by
    intro x
    rw [hi, zpow_add₀ (by norm_num), zpow_natCast]
    ring
  have hpos : (0 : ℚ) < 2 ^ lastPlace u := zpow_pos (by norm_num) _
  have hexp : (word0 u) >>> 20 &&& 0x7ff = exponent u := by
    rw [show 0x7ff = 2 ^ 11 - 1 from rfl, Nat.and_two_pow_sub_one_eq_mod]
    exact Nat.mod_eq_of_lt (by unfold exponent at hfinite; omega)
  have hrange : -1074 ≤ be + (n : ℤ) - 1 ∧ be + (n : ℤ) - 1 ≤ 1023 := by
    rw [hi]
    unfold lastPlace
    split_ifs <;> omega
  unfold highestBit
  simp only [hexp]
  by_cases he : exponent u = 0
  · have hM : mantissa u = word0 u * 2 ^ 32 + word1 u := by
      have hw0 : word0 u < 2 ^ 20 := by
        unfold exponent at he
        rw [Nat.shiftRight_eq_div_pow] at he
        omega
      unfold mantissa
      rw [if_pos he, fraction_eq, Nat.mod_eq_of_lt hw0]
    have hbits : (n : ℤ) + be + (1023 + 52 - 1) = m + 1 := by
      unfold lastPlace at hi
      rw [if_pos he] at hi
      omega
    have hfirst := first_bits (word0 u) (word1 u) m (word1_lt u) (hM ▸ hlow) (hM ▸ hhigh) hm
    rw [← hM] at hfirst
    rw [if_neg (not_not_intro he)]
    simp only [hbits, hfirst]
    have hdiv := Nat.div_mul_le_self (mantissa u * 2 ^ 31) (2 ^ m)
    have hnext := Nat.lt_mul_of_div_lt (Nat.lt_succ_self (mantissa u * 2 ^ 31 / 2 ^ m)) (show 0 < 2 ^ m by positivity)
    have hge : 2 ^ 31 ≤ mantissa u * 2 ^ 31 / 2 ^ m := by
      rw [Nat.le_div_iff_mul_le (by positivity), Nat.mul_comm]
      exact Nat.mul_le_mul_right _ hlow
    have hlt : mantissa u * 2 ^ 31 / 2 ^ m < 2 ^ 32 := by
      rw [Nat.div_lt_iff_lt_mul (by positivity)]
      calc mantissa u * 2 ^ 31 < 2 ^ (m + 1) * 2 ^ 31 := Nat.mul_lt_mul_of_pos_right hhigh (by positivity)
        _ = 2 ^ 32 * 2 ^ m := by ring
    generalize mantissa u * 2 ^ 31 / 2 ^ m = x at hdiv hnext hge hlt ⊢
    refine ⟨by omega, ?_, ?_, ?_, ?_, ?_, hrange⟩
    · rw [le_div_iff₀ (by positivity)]
      exact_mod_cast (by omega : 1 * 2 ^ 31 ≤ x)
    · rw [div_lt_iff₀ (by positivity)]
      exact_mod_cast (by omega : x < 2 * 2 ^ 31)
    · rw [dval_eq, hplace]
      refine mul_le_mul_of_nonneg_right ?_ hpos.le
      rw [div_mul_eq_mul_div, div_le_iff₀ (by positivity)]
      exact_mod_cast hdiv
    · rw [dval_eq, hplace]
      refine mul_lt_mul_of_pos_right ?_ hpos
      rw [← add_div, div_mul_eq_mul_div, lt_div_iff₀ (by positivity)]
      exact_mod_cast hnext
    · refine ⟨x, -31, ?_, ?_, by decide⟩
      · rw [zpow_neg, div_eq_mul_inv]
        norm_num
      · rw [Nat.abs_cast]
        have h53 : x ≤ 2 ^ 53 := by omega
        exact_mod_cast h53
  · have hm52 := hnormal he
    subst hm52
    have hM : mantissa u = 2 ^ 52 + fraction u := by
      unfold mantissa
      rw [if_neg he]
    rw [if_pos he, dval_unit, ← hM]
    have hplace' : ((mantissa u : ℕ) : ℚ) * 2 ^ (-52 : ℤ) * 2 ^ (be + (n : ℤ) - 1) = dval (word0 u) (word1 u) := by
      rw [hplace, dval_eq, show (2 : ℚ) ^ (-52 : ℤ) = 1 / 2 ^ 52 by norm_num]
      ring
    have hunit : (2 : ℚ) ^ (-52 : ℤ) = 1 / 4503599627370496 := by norm_num
    have hlow' : (4503599627370496 : ℚ) ≤ mantissa u := by exact_mod_cast hlow
    have hhigh' : (mantissa u : ℚ) < 9007199254740992 := by exact_mod_cast hhigh
    refine ⟨?_, ?_, ?_, hplace'.le, ?_, ?_, hrange⟩
    · rw [hi]
      unfold lastPlace
      rw [if_neg he]
      push_cast
      ring
    · rw [hunit]
      linarith
    · rw [hunit]
      linarith
    · rw [← hplace']
      refine mul_lt_mul_of_pos_right ?_ (zpow_pos (by norm_num) _)
      have : (0 : ℚ) < 1 / 2 ^ 31 := by positivity
      linarith
    · refine ⟨mantissa u, -52, by push_cast; rfl, ?_, by decide⟩
      rw [Nat.abs_cast]
      exact_mod_cast (mantissa_lt u).le

end TTLinux.Analysis.DtoaWords
