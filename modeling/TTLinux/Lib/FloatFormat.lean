import Mathlib.Algebra.Order.Floor.Ring
import Mathlib.Data.Int.Log
import Mathlib.Tactic.FieldSimp
import Mathlib.Tactic.Linarith
import Mathlib.Tactic.NormNum
import Mathlib.Tactic.Positivity
import Mathlib.Tactic.Ring

/-!
# Floating point formats

The nearest integer with ties to even, and the numbers of a binary floating point format with gradual underflow: integer
multiples of a power of two, with `p` bits and no exponent below `emin`. `round` is the number of the format that is
nearest, as IEEE arithmetic returns it. It is monotone, exact on the numbers of the format, and its relative error is at
most `2^-p` where nothing is lost to underflow.
-/

set_option autoImplicit false

namespace TTLinux.Lib

variable {K : Type*} [Field K] [LinearOrder K] [IsStrictOrderedRing K] [FloorRing K]

/-! ## The nearest integer -/

/-- The nearest integer, and the even one of two. -/
def nearestEven (x : K) : ℤ :=
  if Int.fract x < 1 / 2 ∨ Int.fract x = 1 / 2 ∧ Even ⌊x⌋ then ⌊x⌋ else ⌊x⌋ + 1

/-- What the nearest integer with ties to even is. -/
structure IsNearestEven (x : K) (n : ℤ) : Prop where
  near : |x - n| ≤ 1 / 2
  even : |x - n| = 1 / 2 → Even n

/-- INTERNAL: what is computed is a nearest integer. -/
theorem nearestEven_spec (x : K) : IsNearestEven x (nearestEven x) := by
  have hfract := Int.self_sub_floor x
  have hnonneg := Int.fract_nonneg x
  have hlt := Int.fract_lt_one x
  unfold nearestEven
  split_ifs with h
  · rw [← hfract] at h hnonneg
    refine ⟨?_, fun hhalf => ?_⟩
    · rw [abs_of_nonneg hnonneg]
      rcases h with h | h
      · exact h.le
      · exact h.1.le
    · rw [abs_of_nonneg hnonneg] at hhalf
      exact (h.resolve_left (by rw [hhalf]; exact lt_irrefl _)).2
  · push Not at h
    have hneg : x - ((⌊x⌋ + 1 : ℤ) : K) ≤ 0 := by
      push_cast
      linarith
    rw [← hfract] at h
    refine ⟨?_, fun hhalf => ?_⟩
    · rw [abs_of_nonpos hneg]
      push_cast
      linarith [h.1]
    · rw [abs_of_nonpos hneg] at hhalf
      push_cast at hhalf
      exact (Int.not_even_iff_odd.mp (h.2 (by linarith))).add_one

/-- INTERNAL: there is only one. -/
theorem IsNearestEven.unique {x : K} {m n : ℤ} (hm : IsNearestEven x m) (hn : IsNearestEven x n) : m = n := by
  have hml := abs_le.mp hm.near
  have hnl := abs_le.mp hn.near
  by_contra hne
  rcases lt_or_gt_of_ne hne with hlt | hgt
  · have hcast : (m : K) + 1 ≤ n := by exact_mod_cast hlt
    have hm' : |x - m| = 1 / 2 := by
      rw [abs_of_nonneg (by linarith)]
      linarith
    have hn' : |x - n| = 1 / 2 := by
      rw [abs_of_nonpos (by linarith)]
      linarith
    have hsum : (n : K) = m + 1 := by
      rw [abs_of_nonneg (by linarith)] at hm'
      linarith
    have hstep : n = m + 1 := by exact_mod_cast hsum
    obtain ⟨a, ha⟩ := hm.even hm'
    obtain ⟨b, hb⟩ := hn.even hn'
    omega
  · have hcast : (n : K) + 1 ≤ m := by exact_mod_cast hgt
    have hm' : |x - m| = 1 / 2 := by
      rw [abs_of_nonpos (by linarith)]
      linarith
    have hn' : |x - n| = 1 / 2 := by
      rw [abs_of_nonneg (by linarith)]
      linarith
    have hsum : (m : K) = n + 1 := by
      rw [abs_of_nonneg (by linarith)] at hn'
      linarith
    have hstep : m = n + 1 := by exact_mod_cast hsum
    obtain ⟨a, ha⟩ := hm.even hm'
    obtain ⟨b, hb⟩ := hn.even hn'
    omega

/-- INTERNAL: there is only one. -/
theorem nearestEven_eq {x : K} {n : ℤ} (h : IsNearestEven x n) : nearestEven x = n := (nearestEven_spec x).unique h

/-- INTERNAL: an integer at less than a half is the nearest. -/
theorem nearestEven_of_lt {x : K} {n : ℤ} (h : |x - n| < 1 / 2) : nearestEven x = n :=
  nearestEven_eq ⟨h.le, fun heq => absurd heq h.ne⟩

/-- INTERNAL: an integer is its own. -/
@[simp] theorem nearestEven_intCast (n : ℤ) : nearestEven (n : K) = n :=
  nearestEven_of_lt (by rw [sub_self, abs_zero]; norm_num)

/-- INTERNAL: the nearest integer to the opposite. -/
theorem nearestEven_neg (x : K) : nearestEven (-x) = -nearestEven x := by
  have h := nearestEven_spec x
  have habs : |(-x) - ((-nearestEven x : ℤ) : K)| = |x - nearestEven x| := by
    push_cast
    rw [← abs_neg]
    congr 1
    ring
  exact nearestEven_eq ⟨habs ▸ h.near, fun heq => (h.even (habs ▸ heq)).neg⟩

/-- INTERNAL: a greater number has no smaller one. -/
theorem nearestEven_mono {x y : K} (h : x ≤ y) : nearestEven x ≤ nearestEven y := by
  by_contra hlt
  push Not at hlt
  have hcast : (nearestEven y : K) + 1 ≤ nearestEven x := by exact_mod_cast hlt
  have hx := abs_le.mp (nearestEven_spec x).near
  have hy := abs_le.mp (nearestEven_spec y).near
  have hxy : x = y := le_antisymm h (by linarith)
  rw [hxy] at hlt
  exact lt_irrefl _ hlt

/-! ## Formats -/

/-- A binary format: the bits of a number, and the exponent of the smallest one. -/
structure FloatFormat where
  p : ℕ
  emin : ℤ
  p_pos : 0 < p

namespace FloatFormat

variable (F : FloatFormat)

/-- The exponent of the last bit of the numbers about `x`. -/
def lastBit (x : K) : ℤ := max (Int.log 2 |x| - F.p + 1) F.emin

/-- The nearest number of the format. -/
def round (x : K) : K := nearestEven (x / 2 ^ F.lastBit x) * 2 ^ F.lastBit x

/-- The numbers of the format. -/
def IsFloat (x : K) : Prop := ∃ m e : ℤ, x = m * 2 ^ e ∧ |m| ≤ 2 ^ F.p ∧ F.emin ≤ e

variable {F}

/-- INTERNAL: powers of two are positive. -/
theorem two_zpow_pos (e : ℤ) : (0 : K) < 2 ^ e := zpow_pos (by norm_num) e

omit [IsStrictOrderedRing K] in
/-- INTERNAL: the last bit does not depend on the sign. -/
theorem lastBit_neg (x : K) : F.lastBit (-x) = F.lastBit x := by rw [lastBit, lastBit, abs_neg]

/-- INTERNAL: rounding the opposite. -/
theorem round_neg (x : K) : F.round (-x) = -F.round x := by
  rw [round, round, lastBit_neg, neg_div, nearestEven_neg]
  push_cast
  ring

/-- INTERNAL: zero is not rounded. -/
@[simp] theorem round_zero : F.round (0 : K) = 0 := by
  have h : nearestEven (0 : K) = 0 := by exact_mod_cast nearestEven_intCast (K := K) 0
  rw [round, zero_div, h, Int.cast_zero, zero_mul]

/-- INTERNAL: a multiple of the last bit is not rounded. -/
theorem round_of_multiple (x : K) (m : ℤ) (h : x = m * 2 ^ F.lastBit x) : F.round x = x := by
  have hdiv : x / 2 ^ F.lastBit x = m := by
    rw [div_eq_iff (two_zpow_pos _).ne']
    exact h
  rw [round, hdiv, nearestEven_intCast]
  exact h.symm

omit [IsStrictOrderedRing K] in
/-- INTERNAL: a power of two is a multiple of every smaller one. -/
theorem zpow_split (e f : ℤ) (h : f ≤ e) : ∃ n : ℕ, (2 : K) ^ e = 2 ^ n * 2 ^ f := by
  refine ⟨(e - f).toNat, ?_⟩
  rw [← zpow_natCast, ← zpow_add₀ (by norm_num)]
  congr 1
  omega

/-- **The numbers of the format are exact.** -/
theorem IsFloat.round_eq {x : K} (h : F.IsFloat x) : F.round x = x := by
  obtain ⟨m, e, rfl, hm, he⟩ := h
  rcases eq_or_ne m 0 with rfl | hne
  · simp
  have hp := F.p_pos
  have hpos : 0 < |(m : K) * 2 ^ e| := abs_pos.mpr (mul_ne_zero (by exact_mod_cast hne) (two_zpow_pos e).ne')
  have habs : |(m : K) * 2 ^ e| = |m| * 2 ^ e := by
    rw [abs_mul, abs_of_pos (two_zpow_pos (K := K) e)]
    push_cast
    rfl
  rcases hm.lt_or_eq with hlt | heq
  · -- fewer than `p` bits: the last bit is not above the exponent
    have hlog : Int.log 2 |(m : K) * 2 ^ e| < F.p + e := by
      rw [← Int.lt_zpow_iff_log_lt (by omega) hpos, habs]
      push_cast
      rw [zpow_add₀ (by norm_num), zpow_natCast]
      exact mul_lt_mul_of_pos_right (by exact_mod_cast hlt) (two_zpow_pos e)
    obtain ⟨n, hn⟩ := zpow_split (K := K) e (F.lastBit ((m : K) * 2 ^ e)) (by unfold lastBit; omega)
    refine round_of_multiple _ (m * 2 ^ n) ?_
    calc (m : K) * 2 ^ e = m * (2 ^ n * 2 ^ F.lastBit ((m : K) * 2 ^ e)) := by rw [← hn]
      _ = _ := by
          push_cast
          ring
  · have hlog : Int.log 2 |(m : K) * 2 ^ e| = F.p + e := by
      have hpow : |(m : K) * 2 ^ e| = ((2 : ℕ) : K) ^ ((F.p : ℤ) + e) := by
        rw [habs, heq]
        push_cast
        rw [zpow_add₀ (by norm_num), zpow_natCast]
      rw [hpow, Int.log_zpow (by omega)]
    have hbit : F.lastBit ((m : K) * 2 ^ e) = e + 1 := by
      unfold lastBit
      rw [hlog]
      omega
    obtain ⟨q, hq⟩ : ∃ q : ℕ, F.p = q + 1 := ⟨F.p - 1, by omega⟩
    rw [hq] at heq
    have hsign : m = 2 ^ q * 2 ∨ m = -(2 ^ q * 2) := by
      rw [← pow_succ]
      exact (abs_eq (by positivity)).mp heq
    rcases hsign with hsign | hsign
    · refine round_of_multiple _ (2 ^ q) ?_
      rw [hbit, zpow_add₀ (by norm_num), zpow_one, hsign]
      push_cast
      ring
    · refine round_of_multiple _ (-2 ^ q) ?_
      rw [hbit, zpow_add₀ (by norm_num), zpow_one, hsign]
      push_cast
      ring

/-- INTERNAL: a number has no more than `p` bits in front of its last bit. -/
theorem abs_div_lastBit_lt (x : K) : |x / 2 ^ F.lastBit x| < 2 ^ F.p := by
  rw [abs_div, abs_of_pos (two_zpow_pos (K := K) _), div_lt_iff₀ (two_zpow_pos _)]
  calc |x| < ((2 : ℕ) : K) ^ (Int.log 2 |x| + 1) := Int.lt_zpow_succ_log_self (by omega) _
    _ ≤ 2 ^ ((F.p : ℤ) + F.lastBit x) := by
        push_cast
        exact zpow_le_zpow_right₀ (by norm_num) (by unfold lastBit; omega)
    _ = 2 ^ F.p * 2 ^ F.lastBit x := by rw [zpow_add₀ (by norm_num), zpow_natCast]

/-- INTERNAL: rounding stays within an integer bound. -/
theorem abs_nearestEven_le (x : K) (n : ℕ) (h : |x| ≤ n) : |nearestEven x| ≤ n := by
  have hx := abs_le.mp h
  have hhigh : nearestEven x ≤ nearestEven ((n : ℤ) : K) := nearestEven_mono (by push_cast; exact hx.2)
  have hlow : nearestEven ((-n : ℤ) : K) ≤ nearestEven x := nearestEven_mono (by push_cast; exact hx.1)
  rw [nearestEven_intCast] at hhigh hlow
  exact abs_le.mpr ⟨hlow, hhigh⟩

/-- **Every result is a number of the format.** -/
theorem isFloat_round (x : K) : F.IsFloat (F.round x) := by
  refine ⟨nearestEven (x / 2 ^ F.lastBit x), F.lastBit x, rfl, ?_, le_max_right _ _⟩
  have h := abs_nearestEven_le (x / 2 ^ F.lastBit x) (2 ^ F.p) (by push_cast; exact (abs_div_lastBit_lt x).le)
  push_cast at h
  exact h

/-- INTERNAL: the error is at most half of the last bit. -/
theorem abs_round_sub_le (x : K) : |F.round x - x| ≤ 2 ^ F.lastBit x / 2 := by
  have hpos := two_zpow_pos (K := K) (F.lastBit x)
  have hnear := (nearestEven_spec (x / 2 ^ F.lastBit x)).near
  have hsplit : F.round x - x = -((x / 2 ^ F.lastBit x - nearestEven (x / 2 ^ F.lastBit x)) * 2 ^ F.lastBit x) := by
    rw [round, sub_mul, div_mul_cancel₀ _ hpos.ne']
    ring
  rw [hsplit, abs_neg, abs_mul, abs_of_pos hpos]
  calc _ ≤ 1 / 2 * 2 ^ F.lastBit x := mul_le_mul_of_nonneg_right hnear hpos.le
    _ = _ := by ring

/-- **The relative error** where nothing is lost to underflow. -/
theorem abs_round_sub_le_mul (x : K) (h : 2 ^ (F.emin + F.p - 1) ≤ |x|) : |F.round x - x| ≤ |x| / 2 ^ F.p := by
  have hx : 0 < |x| := (two_zpow_pos _).trans_le h
  have hlog : F.emin + F.p - 1 ≤ Int.log 2 |x| := by
    rw [← Int.zpow_le_iff_le_log (by omega) hx]
    exact_mod_cast h
  have hbit : F.lastBit x = Int.log 2 |x| - F.p + 1 := by
    unfold lastBit
    omega
  have hself : ((2 : ℕ) : K) ^ Int.log 2 |x| ≤ |x| := Int.zpow_log_le_self (by omega) hx
  refine (abs_round_sub_le x).trans ?_
  rw [hbit, le_div_iff₀ (by positivity), zpow_add₀ (by norm_num), zpow_sub₀ (by norm_num), zpow_natCast, zpow_one]
  push_cast at hself
  have hp : (0 : K) < 2 ^ F.p := by positivity
  calc (2 : K) ^ Int.log 2 |x| / 2 ^ F.p * 2 / 2 * 2 ^ F.p = 2 ^ Int.log 2 |x| := by field_simp
    _ ≤ |x| := hself

/-- INTERNAL: multiples of the smallest number of the format do not lose anything to underflow. -/
theorem abs_round_sub_le_mul_of_multiple (x : K) (m e : ℤ) (hx : x = m * 2 ^ e) (he : F.emin ≤ e) :
    |F.round x - x| ≤ |x| / 2 ^ F.p := by
  by_cases h : 2 ^ (F.emin + F.p - 1) ≤ |x|
  · exact abs_round_sub_le_mul x h
  · push Not at h
    have hpos := two_zpow_pos (K := K) e
    have hfloat : F.IsFloat x := by
      refine ⟨m, e, hx, ?_, he⟩
      rw [hx, abs_mul, abs_of_pos hpos] at h
      have hlt : |(m : K)| * 2 ^ e < 2 ^ F.p * 2 ^ e :=
        calc _ < (2 : K) ^ (F.emin + F.p - 1) := h
          _ ≤ 2 ^ ((F.p : ℤ) + e) := zpow_le_zpow_right₀ (by norm_num) (by omega)
          _ = 2 ^ F.p * 2 ^ e := by rw [zpow_add₀ (by norm_num), zpow_natCast]
      have hm : |(m : K)| < 2 ^ F.p := lt_of_mul_lt_mul_right hlt hpos.le
      exact_mod_cast hm.le
    rw [hfloat.round_eq, sub_self, abs_zero]
    positivity

/-! ## Order -/

/-- INTERNAL: rounding keeps the sign. -/
theorem round_nonneg {x : K} (h : 0 ≤ x) : 0 ≤ F.round x := by
  have hdiv : 0 ≤ x / 2 ^ F.lastBit x := div_nonneg h (two_zpow_pos _).le
  have hn : nearestEven ((0 : ℤ) : K) ≤ nearestEven (x / 2 ^ F.lastBit x) := nearestEven_mono (by exact_mod_cast hdiv)
  rw [nearestEven_intCast] at hn
  exact mul_nonneg (by exact_mod_cast hn) (two_zpow_pos _).le

/-- INTERNAL: the bounds of a binade are bounds of what is rounded to. -/
theorem round_le_zpow {x : K} (e : ℤ) (hx : |x| < 2 ^ e) (he : F.emin < e) : |F.round x| ≤ 2 ^ e := by
  rcases eq_or_ne x 0 with rfl | hne
  · rw [round_zero, abs_zero]
    exact (two_zpow_pos _).le
  have hlog : Int.log 2 |x| < e := by
    rw [← Int.lt_zpow_iff_log_lt (by omega) (abs_pos.mpr hne)]
    exact_mod_cast hx
  have hp := F.p_pos
  obtain ⟨n, hn⟩ := zpow_split (K := K) e (F.lastBit x) (by unfold lastBit; omega)
  have hbound : |x / 2 ^ F.lastBit x| ≤ ((2 ^ n : ℕ) : K) := by
    rw [abs_div, abs_of_pos (two_zpow_pos (K := K) _), div_le_iff₀ (two_zpow_pos _)]
    push_cast
    rw [← hn]
    exact hx.le
  have h := abs_nearestEven_le _ _ hbound
  rw [round, abs_mul, abs_of_pos (two_zpow_pos (K := K) _), hn]
  refine mul_le_mul_of_nonneg_right ?_ (two_zpow_pos _).le
  exact_mod_cast h

/-- INTERNAL: rounding does not pass below a power of two. -/
theorem zpow_le_round {x : K} (e : ℤ) (hx : 2 ^ e ≤ x) (he : F.lastBit x ≤ e) : 2 ^ e ≤ F.round x := by
  obtain ⟨n, hn⟩ := zpow_split (K := K) e (F.lastBit x) he
  have hdiv : ((2 ^ n : ℤ) : K) ≤ x / 2 ^ F.lastBit x := by
    rw [le_div_iff₀ (two_zpow_pos _)]
    push_cast
    rw [← hn]
    exact hx
  have h := nearestEven_mono hdiv
  rw [nearestEven_intCast] at h
  rw [round, hn]
  refine mul_le_mul_of_nonneg_right ?_ (two_zpow_pos _).le
  exact_mod_cast h

/-- INTERNAL: rounding is monotone from zero on. -/
theorem round_mono_of_nonneg {x y : K} (hx : 0 ≤ x) (h : x ≤ y) : F.round x ≤ F.round y := by
  rcases hx.eq_or_lt with rfl | hpos
  · rw [round_zero]
    exact round_nonneg h
  have hy : 0 < y := hpos.trans_le h
  have hlog : Int.log 2 |x| ≤ Int.log 2 |y| := by
    rw [abs_of_pos hpos, abs_of_pos hy]
    exact Int.log_mono_right hpos h
  by_cases hbit : F.lastBit x = F.lastBit y
  · rw [round, round, hbit]
    refine mul_le_mul_of_nonneg_right ?_ (two_zpow_pos _).le
    have hmono := nearestEven_mono (div_le_div_of_nonneg_right h (two_zpow_pos (K := K) (F.lastBit y)).le)
    exact_mod_cast hmono
  · -- a power of two lies between the two numbers
    have hself : ((2 : ℕ) : K) ^ Int.log 2 |y| ≤ |y| := Int.zpow_log_le_self (by omega) (abs_pos.mpr hy.ne')
    have hself' : |x| < ((2 : ℕ) : K) ^ (Int.log 2 |x| + 1) := Int.lt_zpow_succ_log_self (by omega) _
    have hp := F.p_pos
    unfold lastBit at hbit
    have hlow : |x| < 2 ^ Int.log 2 |y| := by
      push_cast at hself'
      exact hself'.trans_le (zpow_le_zpow_right₀ (by norm_num) (by omega))
    rw [abs_of_pos hy] at hself
    calc F.round x ≤ |F.round x| := le_abs_self _
      _ ≤ 2 ^ Int.log 2 |y| := round_le_zpow _ hlow (by omega)
      _ ≤ F.round y := zpow_le_round _ (by rw [abs_of_pos hy]; exact_mod_cast hself) (by unfold lastBit; omega)

/-- **Rounding is monotone.** -/
theorem round_mono {x y : K} (h : x ≤ y) : F.round x ≤ F.round y := by
  rcases le_total 0 x with hx | hx
  · exact round_mono_of_nonneg hx h
  rcases le_total 0 y with hy | hy
  · calc F.round x = -F.round (-x) := by rw [round_neg, neg_neg]
      _ ≤ 0 := neg_nonpos.mpr (round_nonneg (neg_nonneg.mpr hx))
      _ ≤ F.round y := round_nonneg hy
  · have hneg := round_mono_of_nonneg (F := F) (neg_nonneg.mpr hy) (neg_le_neg h)
    rw [round_neg, round_neg] at hneg
    exact neg_le_neg_iff.mp hneg

/-- INTERNAL: a float is a lower bound for rounding. -/
theorem le_round {x y : K} (h : x ≤ y) (hx : F.IsFloat x) : x ≤ F.round y :=
  calc x = F.round x := hx.round_eq.symm
    _ ≤ F.round y := round_mono h

/-! ## Numbers of the format -/

omit [LinearOrder K] [IsStrictOrderedRing K] [FloorRing K] in
/-- INTERNAL: the integers up to the precision are floats. -/
theorem isFloat_natCast (n : ℕ) (hn : n ≤ 2 ^ F.p) (hemin : F.emin ≤ 0) : F.IsFloat (n : K) :=
  ⟨n, 0, by simp, by rw [Nat.abs_cast]; exact_mod_cast hn, hemin⟩

omit [LinearOrder K] [IsStrictOrderedRing K] [FloorRing K] in
/-- INTERNAL: the opposite of a float is one. -/
theorem IsFloat.neg {x : K} (h : F.IsFloat x) : F.IsFloat (-x) := by
  obtain ⟨m, e, rfl, hm, he⟩ := h
  exact ⟨-m, e, by push_cast; ring, by rwa [abs_neg], he⟩

/-- INTERNAL: a greater multiple of a power of two is greater by at least that power. -/
theorem add_zpow_le {e f : ℤ} {x y : K} (m n : ℤ) (hx : x = m * 2 ^ e) (hy : y = n * 2 ^ f) (he : f ≤ e) (h : x < y) :
    x + 2 ^ f ≤ y := by
  obtain ⟨k, hk⟩ := zpow_split (K := K) e f he
  have hpos := two_zpow_pos (K := K) f
  rw [hx, hk, ← mul_assoc, hy, mul_lt_mul_iff_left₀ hpos] at h
  have hlt : m * 2 ^ k < n := by exact_mod_cast h
  have hle : ((m * 2 ^ k + 1 : ℤ) : K) ≤ n := by exact_mod_cast hlt
  rw [hx, hk, ← mul_assoc, hy]
  calc (m : K) * 2 ^ k * 2 ^ f + 2 ^ f = ((m * 2 ^ k + 1 : ℤ) : K) * 2 ^ f := by push_cast; ring
    _ ≤ n * 2 ^ f := mul_le_mul_of_nonneg_right hle hpos.le

/-- **Between two numbers of the format there is a gap.** -/
theorem IsFloat.gap {x y : K} (hx : F.IsFloat x) (hy : F.IsFloat y) (hnonneg : 0 ≤ x) (h : x < y) : x ≤ y * (1 - 1 / 2 ^ F.p) := by
  obtain ⟨m, e, hxe, hm, -⟩ := hx
  obtain ⟨n, f, hyf, hn, -⟩ := hy
  have hp : (0 : K) < 2 ^ F.p := by positivity
  have hle : ∀ (a : ℤ) (g : ℤ), |a| ≤ 2 ^ F.p → (a : K) * 2 ^ g ≤ 2 ^ F.p * 2 ^ g := by
    intro a g ha
    refine mul_le_mul_of_nonneg_right ?_ (two_zpow_pos g).le
    exact_mod_cast (le_abs_self a).trans ha
  suffices hgap : y ≤ (y - x) * 2 ^ F.p by
    rw [← div_le_iff₀ hp] at hgap
    rw [mul_sub, mul_one, mul_one_div]
    linarith
  rcases le_or_gt f e with hfe | hef
  · have hstep := add_zpow_le m n hxe hyf hfe h
    calc y = n * 2 ^ f := hyf
      _ ≤ 2 ^ F.p * 2 ^ f := hle n f hn
      _ = 2 ^ f * 2 ^ F.p := mul_comm _ _
      _ ≤ (y - x) * 2 ^ F.p := mul_le_mul_of_nonneg_right (by linarith) hp.le
  · -- `y` has the greater unit
    rcases le_or_gt y (2 ^ F.p * 2 ^ e) with hsmall | hgreat
    · obtain ⟨k, hk⟩ := zpow_split (K := K) f e hef.le
      have hstep := add_zpow_le m (n * 2 ^ k) hxe (by rw [hyf, hk]; push_cast; ring) le_rfl h
      calc y ≤ 2 ^ F.p * 2 ^ e := hsmall
        _ = 2 ^ e * 2 ^ F.p := mul_comm _ _
        _ ≤ (y - x) * 2 ^ F.p := mul_le_mul_of_nonneg_right (by linarith) hp.le
    · have hxle : x ≤ 2 ^ ((F.p : ℤ) + e) := by
        rw [hxe, zpow_add₀ (by norm_num), zpow_natCast]
        exact hle m e hm
      rw [← zpow_natCast, ← zpow_add₀ (by norm_num)] at hgreat
      rcases le_or_gt f (F.p + e) with hnear | hfar
      · have hstep := add_zpow_le 1 n (by rw [Int.cast_one, one_mul]) hyf hnear hgreat
        calc y = n * 2 ^ f := hyf
          _ ≤ 2 ^ F.p * 2 ^ f := hle n f hn
          _ = 2 ^ f * 2 ^ F.p := mul_comm _ _
          _ ≤ (y - x) * 2 ^ F.p := mul_le_mul_of_nonneg_right (by linarith) hp.le
      · have hhalf : 2 * x ≤ 2 ^ f :=
          calc 2 * x ≤ 2 ^ (1 : ℤ) * 2 ^ ((F.p : ℤ) + e) := by rw [zpow_one]; linarith
            _ = 2 ^ (1 + ((F.p : ℤ) + e)) := (zpow_add₀ (by norm_num) _ _).symm
            _ ≤ 2 ^ f := zpow_le_zpow_right₀ (by norm_num) (by omega)
        have hone : 2 ^ f ≤ y := by
          have hpos : (0 : K) < n * 2 ^ f := hyf ▸ hnonneg.trans_lt h
          have hn1 : 0 < n := by exact_mod_cast pos_of_mul_pos_left hpos (two_zpow_pos f).le
          rw [hyf]
          exact le_mul_of_one_le_left (two_zpow_pos f).le (by exact_mod_cast hn1)
        have htwo : (2 : K) ≤ 2 ^ F.p := by
          calc (2 : K) = 2 ^ 1 := (pow_one 2).symm
            _ ≤ 2 ^ F.p := pow_le_pow_right₀ (by norm_num) F.p_pos
        calc y ≤ (y - x) * 2 := by linarith
          _ ≤ (y - x) * 2 ^ F.p := mul_le_mul_of_nonneg_left htwo (by linarith)

/-- INTERNAL: a number of the format without its integer part. -/
theorem IsFloat.fract {x : K} (h : F.IsFloat x) (hx : 0 ≤ x) : F.IsFloat (x - ⌊x⌋) := by
  obtain ⟨m, e, rfl, hm, he⟩ := h
  have hmnonneg : 0 ≤ m := by
    have h := nonneg_of_mul_nonneg_left hx (two_zpow_pos e)
    exact_mod_cast h
  rcases le_total 0 e with hnonneg | hneg
  · have hint : (m : K) * 2 ^ e = ((m * 2 ^ e.toNat : ℤ) : K) := by
      push_cast
      rw [← zpow_natCast, Int.toNat_of_nonneg hnonneg]
    rw [hint, Int.floor_intCast, sub_self]
    exact ⟨0, e, by simp, by simp, he⟩
  · obtain ⟨n, rfl⟩ : ∃ n : ℕ, e = -n := ⟨(-e).toNat, by omega⟩
    have hdiv : (m : K) * 2 ^ (-n : ℤ) = (m : K) / ((2 ^ n : ℕ) : K) := by
      push_cast
      rw [zpow_neg, zpow_natCast, div_eq_mul_inv]
    have hfloor : ⌊(m : K) * 2 ^ (-n : ℤ)⌋ = m / 2 ^ n := by
      rw [hdiv, Int.floor_div_natCast, Int.floor_intCast]
      push_cast
      rfl
    have hsplit := Int.emod_add_mul_ediv m (2 ^ n)
    refine ⟨m % 2 ^ n, -n, ?_, ?_, he⟩
    · rw [hfloor]
      have hcast : (m : K) = ((m % 2 ^ n : ℤ) : K) + 2 ^ n * ((m / 2 ^ n : ℤ) : K) := by exact_mod_cast hsplit.symm
      have hpow : (2 : K) ^ n * 2 ^ (-n : ℤ) = 1 := by
        rw [zpow_neg, zpow_natCast, mul_inv_cancel₀ (by positivity)]
      calc (m : K) * 2 ^ (-n : ℤ) - ((m / 2 ^ n : ℤ) : K) =
            (((m % 2 ^ n : ℤ) : K) + 2 ^ n * ((m / 2 ^ n : ℤ) : K)) * 2 ^ (-n : ℤ) - ((m / 2 ^ n : ℤ) : K) := by rw [← hcast]
        _ = ((m % 2 ^ n : ℤ) : K) * 2 ^ (-n : ℤ) + ((m / 2 ^ n : ℤ) : K) * (2 ^ n * 2 ^ (-n : ℤ) - 1) := by ring
        _ = _ := by rw [hpow, sub_self, mul_zero, add_zero]
    · have hquot : 0 ≤ 2 ^ n * (m / 2 ^ n) := mul_nonneg (by positivity) (Int.ediv_nonneg hmnonneg (by positivity))
      rw [abs_of_nonneg (Int.emod_nonneg _ (by positivity))]
      rw [abs_of_nonneg hmnonneg] at hm
      linarith

end FloatFormat

/-- IEEE double precision. -/
def binary64 : FloatFormat := ⟨53, -1074, by decide⟩

end TTLinux.Lib
