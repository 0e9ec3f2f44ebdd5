import TTLinux.Analysis.DtoaWords

/-!
# The estimate of the first place

`dtoa` takes the decimal logarithm from the tangent at 1.5 to the logarithm of the mantissa. Without rounding it grows
with the number, at a power of ten it is too great by less than 0.05, and never too small: this is checked for each power
within the range of doubles. Rounding moves it by less than 10^-12. So `k` is the place of the first digit, or the one in front of
it, and within the table of powers the second case is found at once.
-/

set_option autoImplicit false

namespace TTLinux.Analysis.DtoaEstimate

open TTLinux.Lib
open TTLinux.Lib.FloatFormat
open TTLinux.Model.Dtoa
open TTLinux.Analysis.DtoaWords

/-! ## Rounding within a power of two -/

/-- INTERNAL: the error of one operation. -/
theorem abs_fl_sub_le (x : ℚ) (e : ℤ) (hx : |x| < 2 ^ e) (he : -1021 ≤ e) : |fl x - x| ≤ 2 ^ (e - 54) := by
  rcases eq_or_ne x 0 with rfl | hne
  · rw [fl, FloatFormat.round_zero, sub_zero, abs_zero]
    exact (two_zpow_pos _).le
  have hlast : binary64.lastBit x ≤ e - 53 := by
    have hlog : Int.log 2 |x| < e := by
      rw [← Int.lt_zpow_iff_log_lt (by omega) (abs_pos.mpr hne)]
      exact_mod_cast hx
    simp only [lastBit, binary64]
    omega
  calc |fl x - x| ≤ 2 ^ binary64.lastBit x / 2 := abs_round_sub_le x
    _ ≤ 2 ^ (e - 53) / 2 := by
        have := zpow_le_zpow_right₀ (show (1 : ℚ) ≤ 2 by norm_num) hlast
        linarith
    _ = 2 ^ (e - 54) := by
        rw [show e - 53 = e - 54 + 1 by ring, zpow_add₀ (by norm_num), zpow_one]
        ring

/-! ## The tangent -/

/-- The estimate without rounding. -/
def tangent (i : ℤ) (d2 : ℚ) : ℚ := (d2 - 1.5) * 0.289529654602168 + 0.1760912590558 + i * 0.301029995663981

/-- INTERNAL: the tangent does not fall from one power of two to the next. -/
theorem tangent_next {i j : ℤ} {x y : ℚ} (hij : i < j) (hx : x ≤ 2) (hy : 1 ≤ y) : tangent i x ≤ tangent j y := by
  unfold tangent
  have hcast : (i : ℚ) + 1 ≤ j := by exact_mod_cast hij
  linarith

/-- The operations that `dtoa` makes of it. -/
def tangentRounded (i : ℤ) (d2 : ℚ) : ℚ :=
  fl (fl (fl (fl (d2 - 1.5) * fl 0.289529654602168) + fl 0.1760912590558) + fl (i * fl 0.301029995663981))

/-- INTERNAL: one step of the estimate: `y` is close to `x`, and the step rounds `y`. -/
theorem abs_fl_sub_le_add (x y a e : ℚ) (n : ℤ) (hn : -1021 ≤ n) (hy : |y - x| ≤ a) (hx : |y| < 2 ^ n)
    (he : a + 2 ^ (n - 54) ≤ e) : |fl y - x| ≤ e := by
  have h := abs_fl_sub_le y n hx hn
  calc |fl y - x| = |(fl y - y) + (y - x)| := by rw [sub_add_sub_cancel]
    _ ≤ |fl y - y| + |y - x| := abs_add_le _ _
    _ ≤ e := by linarith

/-- INTERNAL: a product with a rounded factor. -/
theorem abs_mul_sub_le (x y c t a b s : ℚ) (hx : |x| ≤ s) (ht : |t - x| ≤ a) (hy : |y - c| ≤ b) (hc : |c| + b ≤ 1) :
    |t * y - x * c| ≤ a + s * b := by
  have hs : 0 ≤ s := (abs_nonneg x).trans hx
  have hyone : |y| ≤ 1 :=
    calc |y| = |c + (y - c)| := by rw [add_sub_cancel]
      _ ≤ |c| + |y - c| := abs_add_le _ _
      _ ≤ 1 := by linarith
  calc |t * y - x * c| = |(t - x) * y + x * (y - c)| := by congr 1; ring
    _ ≤ |(t - x) * y| + |x * (y - c)| := abs_add_le _ _
    _ = |t - x| * |y| + |x| * |y - c| := by rw [abs_mul, abs_mul]
    _ ≤ a * 1 + s * b := add_le_add (mul_le_mul ht hyone (abs_nonneg _) ((abs_nonneg _).trans ht))
        (mul_le_mul hx hy (abs_nonneg _) hs)
    _ = a + s * b := by rw [mul_one]

/-- INTERNAL: the sum of two terms. -/
theorem abs_add_sub_le (x y s t a b : ℚ) (hx : |s - x| ≤ a) (hy : |t - y| ≤ b) : |s + t - (x + y)| ≤ a + b :=
  calc |s + t - (x + y)| = |(s - x) + (t - y)| := by congr 1; ring
    _ ≤ |s - x| + |t - y| := abs_add_le _ _
    _ ≤ a + b := add_le_add hx hy

/-- INTERNAL: a number is not much greater than one that it is close to. -/
theorem abs_lt_of_close (x y a b c : ℚ) (h : |y - x| ≤ a) (hx : |x| ≤ b) (hc : a + b < c) : |y| < c :=
  calc |y| = |(y - x) + x| := by rw [sub_add_cancel]
    _ ≤ |y - x| + |x| := abs_add_le _ _
    _ < c := by linarith

/-- INTERNAL: the error of a constant of the estimate. -/
theorem abs_fl_const_sub_le (c : ℚ) (h0 : 0 ≤ c) (h1 : c < 1 / 2) : |fl c - c| ≤ 1 / 2 ^ 55 := by
  have h := abs_fl_sub_le c (-1) (by rw [abs_of_nonneg h0, zpow_neg_one, inv_eq_one_div]; exact h1) (by omega)
  rwa [show (2 : ℚ) ^ (-1 - 54 : ℤ) = 1 / 2 ^ 55 by norm_num] at h

/-- INTERNAL: the part of the mantissa. -/
theorem mantissa_part (d2 : ℚ) (h1 : 1 ≤ d2) (h2 : d2 < 2) :
    |fl (fl (fl (d2 - 1.5) * fl 0.289529654602168) + fl 0.1760912590558) -
      ((d2 - 1.5) * 0.289529654602168 + 0.1760912590558)| ≤ 1 / 2 ^ 50 := by
  have hx : |d2 - 1.5| ≤ 1 / 2 := abs_le.mpr ⟨by linarith, by linarith⟩
  have hxc : |(d2 - 1.5) * 0.289529654602168| ≤ 1 / 4 := by
    rw [abs_mul]
    calc |d2 - 1.5| * |0.289529654602168| ≤ 1 / 2 * (1 / 2) :=
          mul_le_mul hx (by norm_num [abs_of_pos]) (abs_nonneg _) (by norm_num)
      _ = 1 / 4 := by norm_num
  have ht : |fl (d2 - 1.5) - (d2 - 1.5)| ≤ 1 / 2 ^ 54 := by
    have h := abs_fl_sub_le (d2 - 1.5) 0 (lt_of_le_of_lt hx (by norm_num)) (by omega)
    rwa [show (2 : ℚ) ^ (0 - 54 : ℤ) = 1 / 2 ^ 54 by norm_num] at h
  have hprod := abs_mul_sub_le _ _ _ _ _ _ _ hx ht
    (abs_fl_const_sub_le 0.289529654602168 (by norm_num) (by norm_num)) (by norm_num [abs_of_pos])
  have hround := abs_fl_sub_le_add _ _ _ (1 / 2 ^ 52) 0 (by omega) hprod
    (abs_lt_of_close _ _ _ _ _ hprod hxc (by norm_num)) (by norm_num)
  have hsum := abs_add_sub_le _ _ _ _ _ _ hround (abs_fl_const_sub_le 0.1760912590558 (by norm_num) (by norm_num))
  have hbound : |(d2 - 1.5) * 0.289529654602168 + 0.1760912590558| ≤ 1 / 2 := by
    refine (abs_add_le _ _).trans ?_
    rw [abs_of_pos (show (0 : ℚ) < 0.1760912590558 by norm_num)]
    linarith
  exact abs_fl_sub_le_add _ _ _ _ 0 (by omega) hsum (abs_lt_of_close _ _ _ _ _ hsum hbound (by norm_num)) (by norm_num)

/-- INTERNAL: the part of the exponent. -/
theorem exponent_part (i : ℤ) (hi : -1074 ≤ i ∧ i ≤ 1023) :
    |fl (i * fl 0.301029995663981) - i * 0.301029995663981| ≤ 1 / 2 ^ 43 := by
  have hlow : (-1074 : ℚ) ≤ i := by exact_mod_cast hi.1
  have hhigh : (i : ℚ) ≤ 1023 := by exact_mod_cast hi.2
  have habs : |(i : ℚ)| ≤ 1074 := abs_le.mpr ⟨hlow, by linarith⟩
  have hprod := abs_mul_sub_le _ _ _ _ 0 _ _ habs (by rw [sub_self, abs_zero])
    (abs_fl_const_sub_le 0.301029995663981 (by norm_num) (by norm_num)) (by norm_num [abs_of_pos])
  have hbound : |(i : ℚ) * 0.301029995663981| ≤ 400 := by
    rw [abs_mul, abs_of_pos (show (0 : ℚ) < 0.301029995663981 by norm_num)]
    linarith
  exact abs_fl_sub_le_add _ _ _ _ 9 (by omega) hprod (abs_lt_of_close _ _ _ _ _ hprod hbound (by norm_num)) (by norm_num)

/-- **Rounding moves the estimate by less than 10^-12.** -/
theorem abs_tangentRounded_sub_le (i : ℤ) (d2 : ℚ) (hi : -1074 ≤ i ∧ i ≤ 1023) (h1 : 1 ≤ d2) (h2 : d2 < 2) :
    |tangentRounded i d2 - tangent i d2| ≤ 1 / 10 ^ 12 := by
  have hlow : (-1074 : ℚ) ≤ i := by exact_mod_cast hi.1
  have hhigh : (i : ℚ) ≤ 1023 := by exact_mod_cast hi.2
  have hsum := abs_add_sub_le _ _ _ _ _ _ (mantissa_part d2 h1 h2) (exponent_part i hi)
  have hbound : |(d2 - 1.5) * 0.289529654602168 + 0.1760912590558 + i * 0.301029995663981| ≤ 400 := by
    rw [abs_le]
    constructor <;> linarith
  exact abs_fl_sub_le_add _ _ _ _ 9 (by omega) hsum (abs_lt_of_close _ _ _ _ _ hsum hbound (by norm_num)) (by norm_num)

/-! ## Powers of ten -/

/-- About the binary logarithm of `10^n`. -/
def binaryPlace (n : ℕ) : ℕ := n * 3321928094887362 / 10 ^ 15

/-- `10^K` as a fraction between one and two, and a power of two. -/
def tenParts : ℤ → ℕ × ℕ × ℤ
  | .ofNat n => (10 ^ n, 2 ^ binaryPlace n, binaryPlace n)
  | .negSucc n => (2 ^ (binaryPlace (n + 1) + 1), 10 ^ (n + 1), -(binaryPlace (n + 1) + 1 : ℕ))

/-- The tangent at `a/b` times `2^i` lies between `K + 10^-9` and `K + 0.05`, with the fractions cleared, and `a/b` lies between
one and two, but not next to one unless `K` is zero. -/
def tangentNear (K : ℤ) (a b : ℕ) (i : ℤ) : Bool :=
  let c : ℤ := 2 * (K * 10 ^ 15 + 10 ^ 6) + 516406445694904 - i * 602059991327962
  b * c ≤ a * 579059309204336 && a * 579059309204336 ≤ b * (c + 99999998000000) && b ≤ a && a < 2 * b &&
    ((10 ^ 9 + 1) * b ≤ 10 ^ 9 * a || K = 0 && i = 0)

/-- INTERNAL: the powers of ten within the range of doubles. -/
theorem tenParts_near :
    (∀ n : ℕ, n < 310 → tangentNear n (tenParts n).1 (tenParts n).2.1 (tenParts n).2.2 = true) ∧
    ∀ n : ℕ, n < 324 → tangentNear (.negSucc n) (tenParts (.negSucc n)).1 (tenParts (.negSucc n)).2.1
      (tenParts (.negSucc n)).2.2 = true := by
  decide +kernel

/-- The tangent at a power of ten, which is `x` times `2^i`. -/
structure NearTen (K i : ℤ) (x : ℚ) : Prop where
  value : (10 : ℚ) ^ K = x * 2 ^ i
  low : K + 1 / 10 ^ 9 ≤ tangent i x
  high : tangent i x ≤ K + 1 / 20
  one_le : 1 ≤ x
  lt_two : x < 2
  below : 1 + 1 / 10 ^ 9 ≤ x ∨ K + 1 / 10 ^ 9 ≤ tangent (i - 1) 2

/-- INTERNAL: the fraction and the power of two. -/
theorem tenParts_value (K : ℤ) : 0 < (tenParts K).2.1 ∧
    (10 : ℚ) ^ K = (tenParts K).1 / (tenParts K).2.1 * 2 ^ (tenParts K).2.2 := by
  cases K with
  | ofNat n =>
    simp only [tenParts]
    push_cast
    refine ⟨by positivity, ?_⟩
    rw [zpow_natCast, div_mul_cancel₀ _ (by positivity)]
    exact zpow_natCast 10 n
  | negSucc n =>
    simp only [tenParts]
    rw [zpow_neg, zpow_natCast, zpow_negSucc]
    push_cast
    refine ⟨by positivity, ?_⟩
    field_simp

/-- INTERNAL: the comparison in integers says that a tangent is near a power of ten. -/
theorem tangent_of_near (K : ℤ) (a b : ℕ) (i : ℤ) (hb : 0 < b) (hvalue : (10 : ℚ) ^ K = a / b * 2 ^ i)
    (h : tangentNear K a b i = true) : NearTen K i (a / b) := by
  simp only [tangentNear, Bool.and_eq_true, Bool.or_eq_true, decide_eq_true_eq] at h
  obtain ⟨⟨⟨⟨hlow, hhigh⟩, hone⟩, htwo⟩, hbelow⟩ := h
  have hlow' : (b : ℚ) * (2 * (K * 10 ^ 15 + 10 ^ 6) + 516406445694904 - i * 602059991327962) ≤
      a * 579059309204336 := by exact_mod_cast hlow
  have hhigh' : (a : ℚ) * 579059309204336 ≤
      b * (2 * (K * 10 ^ 15 + 10 ^ 6) + 516406445694904 - i * 602059991327962 + 99999998000000) := by exact_mod_cast hhigh
  have hb' : (0 : ℚ) < b := by exact_mod_cast hb
  rw [mul_comm, ← le_div_iff₀ hb', mul_div_right_comm] at hlow'
  rw [mul_comm (b : ℚ), ← div_le_iff₀ hb', mul_div_right_comm] at hhigh'
  refine ⟨hvalue, ?_, ?_, ?_, ?_, ?_⟩
  · unfold tangent
    linarith
  · unfold tangent
    linarith
  · rw [le_div_iff₀ hb', one_mul]
    exact_mod_cast hone
  · rw [div_lt_iff₀ hb']
    exact_mod_cast htwo
  · rcases hbelow with h | ⟨hK, hi⟩
    · left
      rw [le_div_iff₀ hb']
      have h' : ((10 : ℚ) ^ 9 + 1) * b ≤ 10 ^ 9 * a := by exact_mod_cast h
      linarith
    · right
      rw [hK, hi]
      unfold tangent
      norm_num

/-- A power of ten within the range of doubles. -/
theorem tangent_ten (K : ℤ) (hlow : -324 ≤ K) (hhigh : K ≤ 309) : ∃ (i : ℤ) (x : ℚ), NearTen K i x := by
  obtain ⟨hpos, hvalue⟩ := tenParts_value K
  have hnear : tangentNear K (tenParts K).1 (tenParts K).2.1 (tenParts K).2.2 = true := by
    cases K with
    | ofNat n => exact tenParts_near.1 n (by simp at hhigh; omega)
    | negSucc n => exact tenParts_near.2 n (by omega)
  exact ⟨_, _, tangent_of_near K _ _ _ hpos hvalue hnear⟩

/-- INTERNAL: an exponent is compared by the power of two. -/
theorem mul_two_zpow_le_iff (x y : ℚ) (i j : ℤ) : x * 2 ^ i ≤ y * 2 ^ j ↔ x * 2 ^ (i - j) ≤ y := by
  rw [show (2 : ℚ) ^ i = 2 ^ (i - j) * 2 ^ j by rw [← zpow_add₀ (by norm_num)]; congr 1; omega, ← mul_assoc]
  exact mul_le_mul_iff_left₀ (two_zpow_pos j)

/-- INTERNAL: the tangent of a number that is not much below a power of ten. -/
theorem le_tangent (K i : ℤ) (d2 : ℚ) (hlow : -324 ≤ K) (hhigh : K ≤ 309) (h1 : 1 ≤ d2) (h2 : d2 < 2)
    (h : 10 ^ K ≤ (d2 + 8 / 10 ^ 10) * 2 ^ i) : K + 1 / 10 ^ 10 ≤ tangent i d2 := by
  obtain ⟨j, x, hnear⟩ := tangent_ten K hlow hhigh
  have hx := hnear.one_le
  rw [hnear.value, mul_two_zpow_le_iff] at h
  rcases lt_trichotomy j i with hlt | heq | hgt
  · have := hnear.low
    have := tangent_next hlt hnear.lt_two.le h1
    linarith
  · have hlow := hnear.low
    rw [heq, sub_self, zpow_zero, mul_one] at h
    unfold tangent at hlow ⊢
    rw [heq] at hlow
    linarith
  · -- the power of ten is next to the power of two above the number
    have hnext : (2 : ℚ) ^ (1 : ℤ) ≤ 2 ^ (j - i) := zpow_le_zpow_right₀ (by norm_num) (by omega)
    have hj : j = i + 1 := by
      by_contra hne
      have hfour : (2 : ℚ) ^ (2 : ℤ) ≤ 2 ^ (j - i) := zpow_le_zpow_right₀ (by norm_num) (by omega)
      have hmul : (2 : ℚ) ^ (2 : ℤ) ≤ x * 2 ^ (j - i) := hfour.trans (le_mul_of_one_le_left (two_zpow_pos _).le hx)
      norm_num at hmul
      linarith
    rw [hj, add_sub_cancel_left, zpow_one] at h
    have hbelow := hnear.below.resolve_left (by linarith)
    rw [hj, add_sub_cancel_right] at hbelow
    unfold tangent at hbelow ⊢
    linarith

/-- INTERNAL: the tangent of a number that is not much above a power of ten. -/
theorem tangent_le (K i : ℤ) (d2 : ℚ) (hlow : -324 ≤ K) (hhigh : K ≤ 309) (h1 : 1 ≤ d2) (h2 : d2 < 2)
    (h : d2 * 2 ^ i ≤ 10 ^ K * (1 + 1 / 10 ^ 10)) : tangent i d2 ≤ K + 1 / 10 := by
  obtain ⟨j, x, hnear⟩ := tangent_ten K hlow hhigh
  have hx := hnear.one_le
  have hhigh' := hnear.high
  have hlt := hnear.lt_two
  rw [hnear.value, mul_right_comm, mul_two_zpow_le_iff] at h
  rcases lt_trichotomy i j with hij | heq | hgt
  · have := tangent_next hij h2.le hx
    linarith
  · rw [heq, sub_self, zpow_zero, mul_one] at h
    rw [heq]
    unfold tangent at hhigh' ⊢
    linarith
  · -- the number is next to the power of two above the power of ten
    have hi : i = j + 1 := by
      by_contra hne
      have hfour : (2 : ℚ) ^ (2 : ℤ) ≤ 2 ^ (i - j) := zpow_le_zpow_right₀ (by norm_num) (by omega)
      have hmul : (2 : ℚ) ^ (2 : ℤ) ≤ d2 * 2 ^ (i - j) := hfour.trans (le_mul_of_one_le_left (two_zpow_pos _).le h1)
      norm_num at hmul
      linarith
    rw [hi, add_sub_cancel_left, zpow_one] at h
    rw [hi]
    unfold tangent at hhigh' ⊢
    push_cast
    linarith

/-! ## The first place -/

/-- INTERNAL: the cast to an integer and its correction round down. -/
theorem estimate_eq (i : ℤ) (d2 : ℚ) : estimate i d2 = ⌊tangentRounded i d2⌋ := by
  unfold estimate
  simp only
  rw [← tangentRounded]
  generalize tangentRounded i d2 = x
  unfold truncate
  by_cases hneg : x < 0
  swap
  · rw [if_neg hneg, if_neg fun h => hneg h.1]
  rw [if_pos hneg]
  split_ifs with hne
  · obtain ⟨-, hne⟩ := hne
    refine (Int.floor_eq_iff.mpr ?_).symm
    have hle := Int.le_ceil x
    have hlt := Int.ceil_lt_add_one x
    push_cast
    exact ⟨by linarith, by linarith [lt_of_le_of_ne hle hne]⟩
  · have heq : x = ⌈x⌉ := by
      by_contra hne'
      exact hne ⟨hneg, hne'⟩
    rw [heq, Int.ceil_intCast, Int.floor_intCast]

/-- **The estimate is the place of the first digit or the next one**, and the next one if the number is about as great.
SOURCE: dietlibc-printf.patch:3209-3212 -/
theorem estimate_spec (u : BitVec 64) (i : ℤ) (d2 : ℚ) (h : Normalized u i d2) (K : ℤ) (hlow : -324 ≤ K) (hhigh : K ≤ 309) :
    (10 ^ K ≤ dval (word0 u) (word1 u) * (1 + 1 / 10 ^ 10) → K ≤ estimate i d2) ∧
      (dval (word0 u) (word1 u) < 10 ^ K * (1 + 1 / 10 ^ 10) → estimate i d2 ≤ K) := by
  have hround := abs_le.mp (abs_tangentRounded_sub_le i d2 h.range h.one_le h.lt_two)
  have hpos := two_zpow_pos (K := ℚ) i
  rw [estimate_eq]
  constructor
  · intro hge
    have hgreat : (10 : ℚ) ^ K ≤ (d2 + 8 / 10 ^ 10) * 2 ^ i := by
      refine hge.trans ((mul_le_mul_of_nonneg_right h.high.le (by norm_num)).trans ?_)
      rw [mul_right_comm]
      have := h.lt_two
      exact mul_le_mul_of_nonneg_right (by linarith) hpos.le
    have ht := le_tangent K i d2 hlow hhigh h.one_le h.lt_two hgreat
    rw [Int.le_floor]
    linarith
  · intro hlt
    have ht := tangent_le K i d2 hlow hhigh h.one_le h.lt_two (h.low.trans hlt.le)
    rw [← Int.lt_add_one_iff, Int.floor_lt]
    push_cast
    linarith

/-- What is known of `k`: it is the place of the first digit, or, if that is still to be checked, the place of the first digit
or the next one, and then the number is neither about as great as `10^(k+1)` nor about as small as `10^(k-1)`. -/
structure Placed (d : ℚ) (k : ℤ) (k_check : Bool) : Prop where
  high : d * (1 + 1 / 10 ^ 10) < 10 ^ (k + 1) ∨ k_check = false ∧ k ≤ 21 ∧ d < 10 ^ (k + 1)
  exact : k_check = false → 10 ^ k ≤ d
  apart : k_check = true → 10 ^ (k - 1) * (1 + 1 / 10 ^ 10) ≤ d
  table : k_check = false → -1 ≤ k ∧ k ≤ 22
  outside : k_check = true → k < 0 ∨ 22 < k
  range : -325 ≤ k ∧ k ≤ 310

/-- INTERNAL: a number is below the power of ten behind its place. -/
theorem Placed.lt {d : ℚ} {k : ℤ} {k_check : Bool} (h : Placed d k k_check) (hd : 0 ≤ d) : d < 10 ^ (k + 1) := by
  rcases h.high with h | ⟨-, -, h⟩
  · linarith
  · exact h

/-- INTERNAL: and at most one power of ten below it. -/
theorem Placed.low {d : ℚ} {k : ℤ} {k_check : Bool} (h : Placed d k k_check) : 10 ^ (k - 1) ≤ d := by
  cases hcheck : k_check with
  | false => exact (zpow_le_zpow_right₀ (by norm_num) (by omega)).trans (h.exact hcheck)
  | true =>
    have hpos : (0 : ℚ) < 10 ^ (k - 1) := zpow_pos (by norm_num) _
    have := h.apart hcheck
    linarith

/-- INTERNAL: the range of doubles. -/
theorem range_of_doubles : (10 : ℚ) ^ (-324 : ℤ) ≤ 2 ^ (-1074 : ℤ) ∧ (2 : ℚ) ^ (1025 : ℤ) ≤ 10 ^ (309 : ℤ) := by
  have hmin : 2 ^ 1074 ≤ 10 ^ 324 := by decide +kernel
  have hmax : 2 ^ 1025 ≤ 10 ^ 309 := by decide +kernel
  constructor
  · rw [show (-324 : ℤ) = -((324 : ℕ) : ℤ) by rfl, show (-1074 : ℤ) = -((1074 : ℕ) : ℤ) by rfl, zpow_neg, zpow_neg,
      zpow_natCast, zpow_natCast]
    exact inv_anti₀ (by positivity) (by exact_mod_cast hmin)
  · rw [show (1025 : ℤ) = ((1025 : ℕ) : ℤ) by rfl, show (309 : ℤ) = ((309 : ℕ) : ℤ) by rfl, zpow_natCast, zpow_natCast]
    exact_mod_cast hmax

/-- INTERNAL: the first digit of a double. -/
theorem first_digit (u : BitVec 64) (i : ℤ) (d2 : ℚ) (h : Normalized u i d2) :
    ∃ t : ℤ, (-324 ≤ t ∧ t ≤ 308) ∧ 10 ^ t ≤ dval (word0 u) (word1 u) ∧ dval (word0 u) (word1 u) < 10 ^ (t + 1) := by
  obtain ⟨hilow, hihigh⟩ := h.range
  have hmin : (10 : ℚ) ^ (-324 : ℤ) ≤ dval (word0 u) (word1 u) :=
    calc (10 : ℚ) ^ (-324 : ℤ) ≤ 2 ^ (-1074 : ℤ) := range_of_doubles.1
      _ ≤ 2 ^ i := zpow_le_zpow_right₀ (by norm_num) hilow
      _ ≤ d2 * 2 ^ i := le_mul_of_one_le_left (two_zpow_pos i).le h.one_le
      _ ≤ _ := h.low
  have hmax : dval (word0 u) (word1 u) < 10 ^ (309 : ℤ) :=
    calc dval (word0 u) (word1 u) < (d2 + 1 / 2 ^ 31) * 2 ^ i := h.high
      _ ≤ 2 ^ (2 : ℤ) * 2 ^ (1023 : ℤ) := by
          have hlt := h.lt_two
          exact mul_le_mul (by norm_num; linarith) (zpow_le_zpow_right₀ (by norm_num) hihigh) (two_zpow_pos i).le (by norm_num)
      _ = 2 ^ (1025 : ℤ) := by rw [← zpow_add₀ (by norm_num)]; rfl
      _ ≤ 10 ^ (309 : ℤ) := range_of_doubles.2
  have hpos : 0 < dval (word0 u) (word1 u) := (zpow_pos (by norm_num) _).trans_le hmin
  refine ⟨Int.log 10 (dval (word0 u) (word1 u)), ⟨?_, ?_⟩, ?_, ?_⟩
  · rw [← Int.zpow_le_iff_le_log (by omega) hpos]
    exact_mod_cast hmin
  · rw [← Int.lt_add_one_iff, ← Int.lt_zpow_iff_log_lt (by omega) hpos]
    rw [Nat.cast_ofNat]
    exact hmax
  · exact_mod_cast Int.zpow_log_le_self (b := 10) (by omega) hpos
  · exact_mod_cast Int.lt_zpow_succ_log_self (b := 10) (by omega) (dval (word0 u) (word1 u))

/-- **`k` is the place of the first digit, or it is checked later.**
SOURCE: dietlibc-printf.patch:3150-3218 -/
theorem firstPlace_spec (u : BitVec 64) (i : ℤ) (d2 : ℚ) (h : Normalized u i d2) :
    Placed (dval (word0 u) (word1 u)) (firstPlace (dval (word0 u) (word1 u)) (estimate i d2)).1
      (firstPlace (dval (word0 u) (word1 u)) (estimate i d2)).2 := by
  have hest := estimate_spec u i d2 h
  obtain ⟨t, ht, hlow, hhigh⟩ := first_digit u i d2 h
  generalize dval (word0 u) (word1 u) = d at hest hlow hhigh ⊢
  generalize estimate i d2 = k at hest ⊢
  have hpos : 0 < d := (zpow_pos (by norm_num) t).trans_le hlow
  have hge : t ≤ k := (hest t ht.1 (by omega)).1 (by linarith)
  have htpos : (0 : ℚ) < 10 ^ (t + 1) := zpow_pos (by norm_num) _
  have hle : k ≤ t + 1 := (hest (t + 1) (by omega) (by omega)).2 (by linarith)
  have hnext : k = t → d * (1 + 1 / 10 ^ 10) < 10 ^ (t + 1) := by
    intro hk
    by_contra hnot
    have := (hest (t + 1) (by omega) (by omega)).1 (not_lt.mp hnot)
    omega
  have hapart : k = t + 1 → 10 ^ t * (1 + 1 / 10 ^ 10) ≤ d := by
    intro hk
    by_contra hnot
    have := (hest t (by omega) (by omega)).2 (not_le.mp hnot)
    omega
  unfold firstPlace
  by_cases htable : 0 ≤ k ∧ k ≤ 22
  · have hpow : (10 : ℚ) ^ k.toNat = 10 ^ k := by
      rw [← zpow_natCast, Int.toNat_of_nonneg htable.1]
    rw [if_pos htable, hpow]
    split_ifs with hless
    · -- the estimate is too great
      have hk : k = t + 1 := by
        by_contra hne
        rw [show k = t by omega] at hless
        linarith
      rw [show k - 1 = t by omega]
      exact ⟨.inr ⟨rfl, by omega, hhigh⟩, fun _ => hlow, nofun, fun _ => by omega, nofun, by omega⟩
    · have hk : k = t := by
        by_contra hne
        rw [show k = t + 1 by omega] at hless
        exact hless hhigh
      rw [hk]
      exact ⟨.inl (hnext hk), fun _ => hlow, nofun, fun _ => by omega, nofun, by omega⟩
  · rw [if_neg htable]
    rcases (show k = t ∨ k = t + 1 by omega) with hk | hk
    · rw [hk]
      refine ⟨.inl (hnext hk), nofun, fun _ => ?_, nofun, fun _ => by omega, by omega⟩
      rw [zpow_sub_one₀ (by norm_num)]
      linarith [zpow_pos (show (0 : ℚ) < 10 by norm_num) t]
    · rw [hk]
      refine ⟨.inl ?_, nofun, fun _ => ?_, nofun, fun _ => by omega, by omega⟩
      · rw [zpow_add₀ (by norm_num) (t + 1), zpow_one]
        linarith
      · rw [add_sub_cancel_right]
        exact hapart hk

end TTLinux.Analysis.DtoaEstimate
