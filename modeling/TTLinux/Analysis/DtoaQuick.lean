import TTLinux.Analysis.DtoaLong
import TTLinux.Lib.RelativeError

/-!
# The conversion with doubles only

The number is divided by a power of ten in a few operations, each of which rounds, and the digits are taken off one by one. A
bound of the error is carried along, and grows with the number of operations. The digits are returned only if the number is
farther from the middle between two results than this error: then the result is the number rounded to as many digits. The
first place may be missed by one, but only if the number is so close to a power of ten that it is rounded to it.
-/

set_option autoImplicit false

namespace TTLinux.Analysis.DtoaQuick

open TTLinux.Lib
open TTLinux.Lib.FloatFormat
open TTLinux.Model.Dtoa
open TTLinux.Analysis.DtoaEstimate
open TTLinux.Analysis.DtoaDigits
open TTLinux.Analysis.DtoaLong

/-! ## Relative errors of doubles -/

/-- The relative error of an operation. -/
def unit : ℚ := 1 / 2 ^ 53

/-- INTERNAL: the unit of rounding is not negative. -/
theorem unit_nonneg : 0 ≤ unit := by unfold unit; positivity

/-- INTERNAL: it is below one. -/
theorem unit_lt_one : unit < 1 := by unfold unit; norm_num

/-- INTERNAL: an operation with a result of the normal range rounds once. -/
theorem within_fl (x : ℚ) (hx : 2 ^ (-1022 : ℤ) ≤ x) : Within unit 1 (fl x) x := by
  have hpos : 0 < x := (two_zpow_pos _).trans_le hx
  refine Within.of_abs_sub_le unit_nonneg unit_lt_one hpos ?_
  have h := abs_round_sub_le_mul (F := binary64) x (by rwa [abs_of_pos hpos])
  rw [abs_of_pos hpos] at h
  rw [unit, mul_one_div]
  exact h

/-- INTERNAL: an operation with a multiple of the least double rounds once. -/
theorem within_fl_of_multiple (x : ℚ) (m e : ℤ) (hpos : 0 < x) (hx : x = m * 2 ^ e) (he : -1074 ≤ e) :
    Within unit 1 (fl x) x := by
  refine Within.of_abs_sub_le unit_nonneg unit_lt_one hpos ?_
  have h := abs_round_sub_le_mul_of_multiple (F := binary64) x m e hx he
  rw [abs_of_pos hpos] at h
  rw [unit, mul_one_div]
  exact h

/-- INTERNAL: a rounded number is a double. -/
theorem isFloat_fl (x : ℚ) : binary64.IsFloat (fl x) := isFloat_round x

/-- INTERNAL: powers of two are doubles. -/
theorem isFloat_two_zpow (e : ℤ) (he : -1074 ≤ e) : binary64.IsFloat ((2 : ℚ) ^ e) :=
  ⟨1, e, by rw [Int.cast_one, one_mul], by norm_num [binary64], he⟩

/-- INTERNAL: a positive double is not below the least one. -/
theorem le_of_isFloat (x : ℚ) (h : binary64.IsFloat x) (hpos : 0 < x) : 2 ^ (-1074 : ℤ) ≤ x := by
  obtain ⟨m, e, rfl, -, he⟩ := h
  have hm : 0 < m := by exact_mod_cast pos_of_mul_pos_left hpos (two_zpow_pos e).le
  calc (2 : ℚ) ^ (-1074 : ℤ) ≤ 2 ^ e := zpow_le_zpow_right₀ (by norm_num) he
    _ ≤ m * 2 ^ e := le_mul_of_one_le_left (two_zpow_pos e).le (by exact_mod_cast hm)

/-! ## The scale -/

/-- The doubles next to a power and to its repeated squares. -/
inductive Squares : ℚ → List ℚ → Prop
  | nil (p : ℚ) : Squares p []
  | cons (p b : ℚ) (bs : List ℚ) (hb : Within unit 1 b p) (hgreat : 2 ^ (53 : ℤ) ≤ b) (hbs : Squares (p * p) bs) : Squares p (b :: bs)

/-- INTERNAL: each entry of `bigtens` is the square of the one before. -/
theorem squares_bigtens : Squares (10 ^ 16) bigtens := by
  have h : ∀ n : ℕ, 16 ≤ n → Within unit 1 (fl (10 ^ n)) (10 ^ n) ∧ (2 : ℚ) ^ (53 : ℤ) ≤ fl (10 ^ n) := by
    intro n hn
    have hle : (2 : ℚ) ^ (53 : ℤ) ≤ 10 ^ n :=
      calc (2 : ℚ) ^ (53 : ℤ) ≤ 10 ^ 16 := by norm_num
        _ ≤ 10 ^ n := pow_le_pow_right₀ (by norm_num) hn
    exact ⟨within_fl _ ((zpow_le_zpow_right₀ (by norm_num) (by omega)).trans hle), le_round hle (isFloat_two_zpow 53 (by omega))⟩
  unfold bigtens
  refine .cons _ _ _ (h 16 (by omega)).1 (h 16 (by omega)).2 ?_
  rw [← pow_add]
  refine .cons _ _ _ (h 32 (by omega)).1 (h 32 (by omega)).2 ?_
  rw [← pow_add]
  refine .cons _ _ _ (h 64 (by omega)).1 (h 64 (by omega)).2 ?_
  rw [← pow_add]
  refine .cons _ _ _ (h 128 (by omega)).1 (h 128 (by omega)).2 ?_
  rw [← pow_add]
  exact .cons _ _ _ (h 256 (by omega)).1 (h 256 (by omega)).2 (.nil _)

/-- **A power of ten is multiplied together**, with two roundings for each factor.
SOURCE: dietlibc-printf.patch:3304-3308, 3313-3317 -/
theorem scaleBig_spec (p : ℚ) (bs : List ℚ) (hbs : Squares p bs) (j : ℕ) (ds y : ℚ) (ieps n : ℕ) (hj : j < 2 ^ bs.length)
    (hfloat : binary64.IsFloat ds) (h : Within unit n ds y) :
    ∃ r c, scaleBig bs j ds ieps = some (r, ieps + c) ∧ Within unit (n + 2 * c) r (y * p ^ j) ∧ binary64.IsFloat r ∧
      c ≤ bs.length := by
  induction hbs generalizing j ds y ieps n with
  | nil p =>
    obtain rfl : j = 0 := by simpa using hj
    exact ⟨ds, 0, rfl, by simpa using h, hfloat, le_rfl⟩
  | cons p b bs hb hgreat hbs ih =>
    have hand : j &&& 1 = j % 2 := Nat.and_two_pow_sub_one_eq_mod j 1
    have hhalf : j / 2 < 2 ^ bs.length := by
      rw [List.length_cons, pow_succ] at hj
      omega
    have hsplit : p ^ j = p ^ (j % 2) * (p * p) ^ (j / 2) := by
      rw [← pow_two, ← pow_mul, ← pow_add, Nat.mod_add_div]
    unfold scaleBig
    simp only [hand, Nat.shiftRight_eq_div_pow, pow_one]
    by_cases hzero : j = 0
    · rw [if_pos hzero]
      exact ⟨ds, 0, rfl, by simpa [hzero] using h, hfloat, by omega⟩
    rw [if_neg hzero]
    by_cases hodd : j % 2 = 0
    · obtain ⟨r, c, hr, hwithin, hfloat', hc⟩ := ih (j / 2) ds y ieps n hhalf hfloat h
      rw [if_neg (not_not_intro hodd)]
      refine ⟨r, c, hr, ?_, hfloat', by rw [List.length_cons]; omega⟩
      rw [hsplit, hodd, pow_zero, one_mul]
      exact hwithin
    · have hproduct : (2 : ℚ) ^ (-1021 : ℤ) ≤ ds * b :=
        calc (2 : ℚ) ^ (-1021 : ℤ) = 2 ^ (-1074 : ℤ) * 2 ^ (53 : ℤ) := by rw [← zpow_add₀ (by norm_num)]; rfl
          _ ≤ ds * b := mul_le_mul (le_of_isFloat ds hfloat (h.pos_left unit_lt_one)) hgreat (two_zpow_pos _).le
              (h.pos_left unit_lt_one).le
      have hround := within_fl (ds * b) ((zpow_le_zpow_right₀ (by norm_num) (by omega)).trans hproduct)
      obtain ⟨r, c, hr, hwithin, hfloat', hc⟩ := ih (j / 2) (fl (ds * b)) (y * p) (ieps + 1) (1 + (n + 1)) hhalf (isFloat_fl _)
        (hround.trans unit_lt_one (h.mul unit_lt_one hb))
      rw [if_pos hodd]
      refine ⟨r, c + 1, by rw [hr]; congr 2; omega, ?_, hfloat', by rw [List.length_cons]; omega⟩
      rw [hsplit, show j % 2 = 1 by omega, pow_one, ← mul_assoc]
      rw [show n + 2 * (c + 1) = 1 + (n + 1) + 2 * c by omega]
      exact hwithin

/-- INTERNAL: what is close to a number of ordinary size is in the normal range. -/
theorem normal_of_within (n : ℕ) (x y : ℚ) (hn : n ≤ 100) (h : Within unit n x y) (hy : 1 / 10 ≤ y) : 2 ^ (-1022 : ℤ) ≤ x := by
  have hsub := (h.sub_le unit_lt_one).2
  have hn' : (n : ℚ) ≤ 100 := by exact_mod_cast hn
  have hsmall : (n : ℚ) * unit ≤ 1 / 2 := by
    unfold unit
    rw [mul_one_div, div_le_iff₀ (by positivity)]
    linarith
  have hhalf : n * unit * y ≤ 1 / 2 * y := mul_le_mul_of_nonneg_right hsmall h.pos.le
  calc (2 : ℚ) ^ (-1022 : ℤ) ≤ 2 ^ (-5 : ℤ) := zpow_le_zpow_right₀ (by norm_num) (by omega)
    _ ≤ 1 / 20 := by norm_num
    _ ≤ x := by linarith

/-- INTERNAL: small powers of ten are doubles. -/
theorem isFloat_ten_pow (n : ℕ) (hn : n ≤ 22) : binary64.IsFloat ((10 : ℚ) ^ n) := by
  refine ⟨5 ^ n, n, ?_, ?_, by simp only [binary64]; omega⟩
  · rw [zpow_natCast]
    push_cast
    rw [← mul_pow]
    norm_num
  · rw [abs_of_pos (by positivity)]
    calc (5 : ℤ) ^ n ≤ 5 ^ 22 := pow_le_pow_right₀ (by norm_num) hn
      _ ≤ 2 ^ binary64.p := by norm_num [binary64]

/-- INTERNAL: the table of the small powers of ten. -/
theorem tens_eq (n : ℕ) (hn : n ≤ 22) : tens n = some (10 ^ n) := by
  unfold tens
  rw [if_pos ⟨by omega, by omega⟩, Int.toNat_natCast]

/-- A double that is not zero, as a multiple of a power of two. -/
structure Double (d : ℚ) : Prop where
  pos : 0 < d
  factors : ∃ (m : ℕ) (e : ℤ), d = m * 2 ^ e ∧ m ≤ 2 ^ 53 ∧ -1074 ≤ e

/-- INTERNAL: a double is a number of the format. -/
theorem Double.isFloat {d : ℚ} (h : Double d) : binary64.IsFloat d := by
  obtain ⟨m, e, hd, hm, he⟩ := h.factors
  exact ⟨m, e, by rw [hd]; push_cast; rfl, by rw [Nat.abs_cast]; exact_mod_cast hm, he⟩

/-- INTERNAL: the product of a double and a small power of ten. -/
theorem within_mul_ten_pow (d : ℚ) (h : Double d) (n : ℕ) : Within unit 1 (fl (d * 10 ^ n)) (d * 10 ^ n) := by
  obtain ⟨m, e, hd, -, he⟩ := h.factors
  refine within_fl_of_multiple _ (m * 10 ^ n : ℕ) e (mul_pos h.pos (by positivity)) ?_ he
  rw [hd]
  push_cast
  ring

variable {d : ℚ} {k : ℤ}

/-- **The number is divided by `10^k`**, with twice as many roundings as are counted, less three.
SOURCE: dietlibc-printf.patch:3290-3318 -/
theorem quickScale_spec (h : Double d) (hlow : 10 ^ (k - 1) ≤ d) (hk : -325 ≤ k ∧ k ≤ 310) : ∃ ds ieps, quickScale d k = some (ds, ieps) ∧
    Within unit (2 * ieps - 3) ds (d / 10 ^ k) ∧ binary64.IsFloat ds ∧ 2 ≤ ieps ∧ ieps ≤ 8 := by
  have hx : 1 / 10 ≤ d / 10 ^ k := by
    rw [le_div_iff₀ (zpow_pos (by norm_num) k)]
    rw [zpow_sub_one₀ (by norm_num)] at hlow
    linarith
  have hlength : bigtens.length = 5 := rfl
  have hmod : ∀ n : ℕ, n &&& 0xf = n % 16 := fun n => Nat.and_two_pow_sub_one_eq_mod n 4
  have hdiv : ∀ n : ℕ, n >>> 4 = n / 16 := fun n => Nat.shiftRight_eq_div_pow n 4
  have htens : ∀ n : ℕ, tens ((n % 16 : ℕ) : ℤ) = some (10 ^ (n % 16)) := fun n => tens_eq _ (by omega)
  have hfloat : ∀ n : ℕ, binary64.IsFloat ((10 : ℚ) ^ (n % 16)) := fun n => isFloat_ten_pow _ (by omega)
  have hpow : ∀ n : ℕ, (10 : ℚ) ^ (n % 16) * (10 ^ 16) ^ (n / 16) = 10 ^ n := fun n => by
    rw [← pow_mul, ← pow_add, Nat.mod_add_div]
  unfold quickScale
  by_cases hpos : k > 0
  · obtain ⟨n, rfl⟩ := Int.eq_ofNat_of_zero_le hpos.le
    rw [zpow_natCast] at hx ⊢
    simp only [if_pos hpos, Int.toNat_natCast, hmod, hdiv, htens, Option.bind_eq_bind, Option.bind_some]
    by_cases hhuge : n / 16 &&& 0x10 ≠ 0
    · rw [if_pos hhuge]
      have hbit : n / 16 / 16 % 2 = 1 := by
        by_contra hbit
        apply hhuge
        have hand := Nat.and_two_pow (n / 16) 4
        rw [Nat.testBit_eq_decide_div_mod_eq, show 2 ^ 4 = 16 from rfl, decide_eq_false hbit] at hand
        exact hand
      obtain ⟨b, hb, hbwithin⟩ : ∃ b, bigtens[4]? = some b ∧ Within unit 1 b (10 ^ 256) :=
        ⟨_, rfl, within_fl _ ((zpow_le_zpow_right₀ (by norm_num) (show (-1022 : ℤ) ≤ 0 by omega)).trans
          (by rw [zpow_zero]; exact one_le_pow₀ (by norm_num)))⟩
      obtain ⟨r, c, hr, hwithin, -, hc⟩ := scaleBig_spec _ _ squares_bigtens (n / 16 % 16) _ _ 3 0 (by rw [hlength]; omega)
        (hfloat n) (Within.refl unit (by positivity))
      rw [hlength] at hc
      -- the quotient by the greatest power is greater than the result
      have hquotient : Within unit 1 (d / b) (d / 10 ^ 256) := by
        have := (Within.refl unit h.pos).div unit_lt_one hbwithin
        rwa [Nat.zero_add] at this
      have hge : 1 / 10 ≤ d / 10 ^ 256 :=
        hx.trans (div_le_div_of_nonneg_left h.pos.le (by positivity) (pow_le_pow_right₀ (by norm_num) (by omega)))
      have hfirst := (within_fl _ (normal_of_within 1 _ _ (by omega) hquotient hge)).trans unit_lt_one hquotient
      have hsecond := hfirst.div unit_lt_one hwithin
      have hvalue : d / 10 ^ 256 / (10 ^ (n % 16) * (10 ^ 16) ^ (n / 16 % 16)) = d / 10 ^ n := by
        rw [div_div, ← pow_mul, ← pow_add, ← pow_add]
        congr 2
        omega
      rw [hvalue] at hsecond
      simp only [hb, Option.bind_some, hr]
      refine ⟨_, 3 + c, rfl, ?_, isFloat_fl _, by omega, by omega⟩
      have := (within_fl _ (normal_of_within _ _ _ (by omega) hsecond hx)).trans unit_lt_one hsecond
      rwa [show 2 * (3 + c) - 3 = 1 + (1 + 1 + (0 + 2 * c)) by omega]
    · rw [if_neg hhuge]
      obtain ⟨r, c, hr, hwithin, -, hc⟩ := scaleBig_spec _ _ squares_bigtens (n / 16) _ _ 2 0 (by rw [hlength]; omega)
        (hfloat n) (Within.refl unit (by positivity))
      rw [hlength] at hc
      rw [hpow] at hwithin
      have hquotient := (Within.refl unit h.pos).div unit_lt_one hwithin
      simp only [Option.bind_some, hr]
      refine ⟨_, 2 + c, rfl, ?_, isFloat_fl _, by omega, by omega⟩
      have := (within_fl _ (normal_of_within _ _ _ (by omega) hquotient hx)).trans unit_lt_one hquotient
      rwa [show 2 * (2 + c) - 3 = 1 + (0 + (0 + 2 * c)) by omega]
  · rw [if_neg hpos]
    by_cases hne : k ≠ 0
    · obtain ⟨n, rfl⟩ : ∃ n : ℕ, k = -n := ⟨(-k).toNat, by omega⟩
      rw [if_pos hne]
      simp only [neg_neg, Int.toNat_natCast, hmod, hdiv, htens, Option.bind_eq_bind, Option.bind_some]
      obtain ⟨r, c, hr, hwithin, hrfloat, hc⟩ := scaleBig_spec _ _ squares_bigtens (n / 16) _ _ 2 1 (by rw [hlength]; omega)
        (isFloat_fl _) (within_mul_ten_pow d h (n % 16))
      refine ⟨r, 2 + c, hr, ?_, hrfloat, by omega, by rw [hlength] at hc; omega⟩
      rw [mul_assoc, hpow] at hwithin
      rw [zpow_neg, zpow_natCast, div_inv_eq_mul, show 2 * (2 + c) - 3 = 1 + 2 * c by omega]
      exact hwithin
    · rw [if_neg hne, not_not.mp hne, zpow_zero, div_one]
      exact ⟨d, 2, rfl, (Within.refl unit h.pos).mono unit_nonneg unit_lt_one (by omega), h.isFloat, by omega, by omega⟩

/-- INTERNAL: within the table of powers the number is divided in one operation.
SOURCE: dietlibc-printf.patch:3290-3318 -/
theorem quickScale_table (d : ℚ) (hfloat : binary64.IsFloat d) (hk : -1 ≤ k ∧ k ≤ 22) :
    ∃ ieps, quickScale d k = some (fl (d / 10 ^ k), ieps) := by
  have hbig : bigtens = (10 ^ 16) :: bigtens.tail := by
    unfold bigtens
    rw [fl, (isFloat_ten_pow 16 (by omega)).round_eq, List.tail_cons]
  have hstop : ∀ bs ds ieps, scaleBig bs 0 ds ieps = some (ds, ieps) := by
    intro bs ds ieps
    cases bs <;> rfl
  unfold quickScale
  by_cases hpos : k > 0
  · obtain ⟨n, rfl⟩ := Int.eq_ofNat_of_zero_le hpos.le
    have hmod : n &&& 0xf = n % 16 := Nat.and_two_pow_sub_one_eq_mod n 4
    have hdiv : n >>> 4 = n / 16 := Nat.shiftRight_eq_div_pow n 4
    simp only [if_pos hpos, Int.toNat_natCast, hmod, hdiv, tens_eq (n % 16) (by omega), Option.bind_eq_bind, Option.bind_some,
      zpow_natCast]
    rcases (show n / 16 = 0 ∨ n / 16 = 1 by omega) with hj | hj
    · rw [hj, if_neg (by decide), hstop, Option.bind_some, show n % 16 = n by omega]
      exact ⟨_, rfl⟩
    · have hpow : (10 : ℚ) ^ (n % 16) * 10 ^ 16 = 10 ^ n := by
        rw [← pow_add]
        congr 1
        omega
      have hexact : fl ((10 : ℚ) ^ n) = 10 ^ n := (isFloat_ten_pow n (by omega)).round_eq
      rw [hj, if_neg (by decide), hbig, scaleBig]
      simp only [one_ne_zero, if_false, Nat.shiftRight_one, hpow, hexact]
      rw [if_pos (by decide), hstop, Option.bind_some]
      exact ⟨_, rfl⟩
  · rw [if_neg hpos]
    rcases (show k = -1 ∨ k = 0 by omega) with rfl | rfl
    · refine ⟨2, ?_⟩
      rw [if_pos (by decide), show ((- -1 : ℤ)).toNat = 1 from rfl, show 1 &&& 0xf = 1 from rfl, tens_eq 1 (by omega)]
      simp only [Option.bind_eq_bind, Option.bind_some]
      rw [show 1 >>> 4 = 0 from rfl, hstop, zpow_neg_one, div_inv_eq_mul, pow_one]
    · refine ⟨2, ?_⟩
      rw [if_neg (not_not_intro rfl), zpow_zero, div_one, fl, hfloat.round_eq]

/-- INTERNAL: a double below a double is so far below it that a tenth of it times ten is not rounded up to ten. -/
theorem fl_lt_ten (x y : ℚ) (hx : binary64.IsFloat x) (hy : binary64.IsFloat y) (hnonneg : 0 ≤ x) (hlt : x < y) (hpos : 0 < y) :
    fl (x / y * 10) < 10 := by
  have hgap := hx.gap hy hnonneg hlt
  have hratio : x / y * 10 ≤ 10 - 10 / 2 ^ 53 := by
    have hle : x / y ≤ 1 - 1 / 2 ^ 53 := by
      rw [div_le_iff₀ hpos, mul_comm]
      exact hgap
    linarith
  have hnonneg' : 0 ≤ x / y * 10 := mul_nonneg (div_nonneg hnonneg hpos.le) (by norm_num)
  have herror := abs_le.mp (abs_fl_sub_le (x / y * 10) 4 (by
    rw [abs_of_nonneg hnonneg']
    norm_num at hratio ⊢
    linarith) (by omega))
  norm_num at herror hratio ⊢
  linarith

/-! ## The digits -/

/-- INTERNAL: what is taken off a double is exact. -/
theorem truncate_spec (d : ℚ) (hfloat : binary64.IsFloat d) (h0 : 0 ≤ d) (h10 : d < 10) : ∃ g : ℕ, g < 10 ∧ truncate d = g ∧
    fl (d - g) = d - g ∧ 0 ≤ d - g ∧ d - g < 1 ∧ (1 ≤ d → g ≠ 0) := by
  have hfloor : 0 ≤ ⌊d⌋ := Int.floor_nonneg.mpr h0
  obtain ⟨g, hg⟩ := Int.eq_ofNat_of_zero_le hfloor
  have hexact := (hfloat.fract h0).round_eq
  have hle := Int.floor_le d
  have hlt := Int.lt_floor_add_one d
  have hten : ⌊d⌋ < 10 := Int.floor_lt.mpr (by exact_mod_cast h10)
  have hone : 1 ≤ d → 1 ≤ ⌊d⌋ := fun h => Int.le_floor.mpr (by exact_mod_cast h)
  rw [hg] at hexact hle hlt hten hone
  push_cast at hexact hle hlt
  refine ⟨g, by omega, ?_, hexact, by linarith, by linarith, fun h => by have := hone h; omega⟩
  rw [truncate, if_neg (not_lt.mpr h0), hg]

/-- What the loop over the digits of the number `x` has found. -/
def QuickFound (x : ℚ) (ilim : ℤ) : Quick → Prop
  | .ret1 s => ∃ s' : Bytes, ∃ n : ℕ, s' ≠ [] ∧ Decimal s' ∧ trimzeros s' = some s ∧ (s'.length : ℤ) + n = ilim ∧
      nearestEven (x * 10 ^ (ilim - 1)) = digitsValue 10 s' * 10 ^ n
  | .bumpUp s => Decimal s ∧ (s.length : ℤ) = ilim ∧ nearestEven (x * 10 ^ (ilim - 1)) = digitsValue 10 s + 1
  | .failed => True
  | _ => False

/-- INTERNAL: the comparisons with the middle. -/
theorem compare_middle (eps d : ℚ) (h0 : 0 ≤ eps) (hd : 0 ≤ d) (h1 : d < 1) :
    (d > fl (0.5 + eps) → 1 / 2 + eps - unit < d) ∧ (d < fl (0.5 - eps) → d < 1 / 2 - eps + unit) := by
  rcases le_or_gt 1 eps with hge | hlt
  · refine ⟨fun h => ?_, fun h => ?_⟩
    · have hone : (1 : ℚ) ≤ fl (0.5 + eps) := by
        have := le_round (F := binary64) (show (2 : ℚ) ^ (0 : ℤ) ≤ 0.5 + eps by norm_num; linarith) (isFloat_two_zpow 0 (by omega))
        rwa [zpow_zero] at this
      linarith
    · have hzero : fl (0.5 - eps) ≤ 0 := by
        have := round_mono (F := binary64) (show 0.5 - eps ≤ 0 by norm_num; linarith)
        rwa [FloatFormat.round_zero] at this
      linarith
  · have herror : ∀ y : ℚ, |y| < 2 → |fl y - y| ≤ unit := by
      intro y hy
      have := abs_fl_sub_le y 1 (by rwa [zpow_one]) (by omega)
      rwa [show (2 : ℚ) ^ (1 - 54 : ℤ) = unit by norm_num [unit]] at this
    have hup := abs_le.mp (herror (0.5 + eps) (by rw [abs_of_nonneg (by linarith)]; norm_num; linarith))
    have hdown := abs_le.mp (herror (0.5 - eps) (abs_lt.mpr ⟨by norm_num; linarith, by norm_num; linarith⟩))
    constructor <;> intro h <;> norm_num at hup hdown h <;> linarith

/-- **The digits are those of the number, as far as the error allows**: when they are returned or rounded up the number is
farther from the middle than the error.
SOURCE: dietlibc-printf.patch:3363-3379 -/
theorem quickDigits_spec (x E eps : ℚ) (N : ℕ) (hE : 0 ≤ E) (heps : 10 ^ (N - 1) * (E + unit) ≤ eps) (room : ℕ) (i : ℤ) (d : ℚ)
    (s : Bytes) (hfloat : binary64.IsFloat d) (h0 : 0 ≤ d) (h10 : d < 10) (hdec : Decimal s) (hfirst : s = [] → 1 ≤ d)
    (hi : i = s.length + 1) (hN : s.length + 1 ≤ N) (hroom : N ≤ s.length + room)
    (herr : |d - (x * 10 ^ s.length - 10 * digitsValue 10 s)| ≤ 10 ^ s.length * (E + unit) - unit) :
    ∃ q, quickDigits eps room N i d s = some q ∧ QuickFound x N q := by
  have hunit : 0 < unit := by unfold unit; positivity
  have heps0 : 0 ≤ eps := (mul_nonneg (by positivity) (by linarith)).trans heps
  induction room generalizing i d s with
  | zero => omega
  | succ room ih =>
    obtain ⟨g, hg, htrunc, hsub, hf0, hf1, hone⟩ := truncate_spec d hfloat h0 h10
    obtain ⟨hdec', hvalue, -⟩ := hdec.digit g hg fun hnil => hone (hfirst hnil)
    have hlen : (s ++ [digit g]).length = s.length + 1 := by simp
    have herr' : |d - g - (x * 10 ^ s.length - digitsValue 10 (s ++ [digit g]))| ≤ 10 ^ s.length * (E + unit) - unit := by
      rw [hvalue]
      push_cast
      rwa [show d - g - (x * 10 ^ s.length - (10 * digitsValue 10 s + g)) = d - (x * 10 ^ s.length - 10 * digitsValue 10 s) by ring]
    have hffloat : binary64.IsFloat (d - g) := hsub ▸ isFloat_fl _
    simp only [quickDigits, htrunc, Int.cast_natCast, hsub]
    generalize d - g = f at herr' hffloat hf0 hf1
    obtain ⟨hup, hdown⟩ := compare_middle eps f heps0 hf0 hf1
    by_cases hended : i = if f = 0 then i else (N : ℤ)
    · rw [if_pos hended]
      -- all digits have been written, or nothing is left
      obtain ⟨n, hn, hrest⟩ : ∃ n : ℕ, s.length + 1 + n = N ∧ (f = 0 ∨ n = 0) := by
        refine ⟨N - (s.length + 1), by omega, ?_⟩
        by_cases hzero : f = 0
        · exact .inl hzero
        · rw [if_neg hzero] at hended
          exact .inr (by omega)
      have hscaled : |f * 10 ^ n - (x * 10 ^ ((N : ℤ) - 1) - digitsValue 10 (s ++ [digit g]) * 10 ^ n)| ≤ eps - unit := by
        have hpow : (10 : ℚ) ^ ((N : ℤ) - 1) = 10 ^ s.length * 10 ^ n := by
          rw [← pow_add, ← zpow_natCast]
          congr 1
          omega
        have hpow' : (10 : ℚ) ^ (N - 1) = 10 ^ s.length * 10 ^ n := by
          rw [← pow_add]
          congr 1
          omega
        have hn1 : (1 : ℚ) ≤ 10 ^ n := one_le_pow₀ (by norm_num)
        rw [hpow, show f * 10 ^ n - (x * (10 ^ s.length * 10 ^ n) - digitsValue 10 (s ++ [digit g]) * 10 ^ n) =
          (f - (x * 10 ^ s.length - digitsValue 10 (s ++ [digit g]))) * 10 ^ n by ring, abs_mul, abs_of_pos (by positivity : (0 : ℚ) < 10 ^ n)]
        calc _ ≤ (10 ^ s.length * (E + unit) - unit) * 10 ^ n := mul_le_mul_of_nonneg_right herr' (by positivity)
          _ = 10 ^ (N - 1) * (E + unit) - unit * 10 ^ n := by rw [hpow']; ring
          _ ≤ eps - unit := by
              have := le_mul_of_one_le_right hunit.le hn1
              linarith
      have hbounds := abs_le.mp hscaled
      by_cases hbump : f > fl (0.5 + eps)
      · rw [if_pos hbump]
        have hgt := hup hbump
        have hn0 : n = 0 := hrest.resolve_left fun hzero => by rw [hzero] at hgt; linarith
        rw [hn0, pow_zero, mul_one, mul_one] at hbounds
        refine ⟨_, rfl, hdec', by rw [hlen]; omega, nearestEven_of_lt ?_⟩
        rw [abs_lt]
        push_cast
        constructor <;> linarith
      · rw [if_neg hbump]
        by_cases hret : f < fl (0.5 - eps)
        · rw [if_pos hret]
          have hlt := hdown hret
          obtain ⟨t, htrim, -⟩ := trimzeros_spec hdec' (by simp)
          refine ⟨.ret1 t, by rw [htrim]; rfl, _, n, by simp, hdec', htrim, by rw [hlen]; push_cast; omega, nearestEven_of_lt ?_⟩
          have hfn : f * 10 ^ n = f := by
            rcases hrest with h | h
            · rw [h, zero_mul]
            · rw [h, pow_zero, mul_one]
          rw [hfn] at hbounds
          rw [abs_lt]
          push_cast
          constructor <;> linarith
        · rw [if_neg hret]
          exact ⟨_, rfl, trivial⟩
    · rw [if_neg hended]
      have hfne : f ≠ 0 := fun hzero => hended (by rw [if_pos hzero])
      rw [if_neg hfne] at hended ⊢
      have hten : fl (f * 10) < 10 := by
        have := fl_lt_ten f 1 hffloat (by have := isFloat_two_zpow 0 (by omega); rwa [zpow_zero] at this) hf0 hf1 (by norm_num)
        rwa [div_one] at this
      have herror := abs_le.mp (abs_fl_sub_le (f * 10) 4 (by rw [abs_of_nonneg (by linarith)]; norm_num; linarith) (by omega))
      refine ih (i + 1) (fl (f * 10)) (s ++ [digit g]) (isFloat_fl _) (round_nonneg (by linarith)) hten hdec' (by simp)
        (by rw [hlen]; omega) (by rw [hlen]; omega) (by rw [hlen]; omega) ?_
      have hbounds := abs_le.mp herr'
      have height : (2 : ℚ) ^ (4 - 54 : ℤ) = 8 * unit := by norm_num [unit]
      rw [height] at herror
      rw [hlen, pow_succ, abs_le]
      constructor <;> linarith

/-! ## The bound of the error -/

/-- INTERNAL: the bound of the error, in units.
SOURCE: dietlibc-printf.patch:3325-3327 -/
theorem quickError_bounds (ieps : ℕ) (ds : ℚ) (hieps : ieps ≤ 9) (h0 : 0 ≤ ds) (h10 : ds < 10) :
    (2 * ieps * ds + 13) * unit ≤ quickError ieps ds ∧ quickError ieps ds ≤ 1 / 2 ^ 45 := by
  have hieps' : (ieps : ℚ) ≤ 9 := by exact_mod_cast hieps
  have hprod : (ieps : ℚ) * ds ≤ 90 := by
    calc (ieps : ℚ) * ds ≤ 9 * 10 := mul_le_mul hieps' h10.le h0 (by norm_num)
      _ = 90 := by norm_num
  have hprod0 : 0 ≤ (ieps : ℚ) * ds := by positivity
  have hfirst := abs_le.mp (abs_fl_sub_le (ieps * ds) 7 (by rw [abs_of_nonneg hprod0]; norm_num; linarith) (by omega))
  norm_num at hfirst
  have hsecond := abs_le.mp (abs_fl_sub_le (fl (ieps * ds) + 7) 7 (by rw [abs_lt]; constructor <;> norm_num <;> linarith) (by omega))
  norm_num at hsecond
  unfold quickError
  generalize fl (ieps * ds) = y at hfirst hsecond ⊢
  generalize fl (y + 7) = z at hsecond ⊢
  constructor
  · rw [unit, mul_one_div, le_div_iff₀ (by positivity), div_mul_eq_mul_div, div_le_iff₀ (by positivity)]
    norm_num
    linarith
  · rw [div_le_div_iff₀ (by positivity) (by positivity)]
    norm_num
    linarith

/-- INTERNAL: the roundings that are counted are few. -/
theorem units_le (n : ℕ) (hn : n ≤ 15) : (n : ℚ) * unit ≤ 1 / 2 ^ 49 := by
  have hn' : (n : ℚ) ≤ 15 := by exact_mod_cast hn
  unfold unit
  rw [mul_one_div, div_le_div_iff₀ (by positivity) (by positivity)]
  norm_num
  linarith

/-- INTERNAL: the number that has been divided is off by its roundings. -/
theorem abs_sub_le_units (n : ℕ) (x ds : ℚ) (hn : n ≤ 15) (h10 : ds < 10) (h : Within unit n ds x) :
    |ds - x| ≤ n * unit * ds + unit := by
  obtain ⟨hup, hdown⟩ := h.sub_le unit_lt_one
  have hds := h.pos_left unit_lt_one
  have hx := h.pos
  have hnu : 0 ≤ (n : ℚ) * unit := mul_nonneg (by positivity) unit_nonneg
  have hsmall := units_le n hn
  -- the number itself is not much greater than the double
  have hx11 : x ≤ 11 := by
    have := mul_le_mul_of_nonneg_right hsmall hx.le
    norm_num at this
    linarith
  have hdiff : x - ds ≤ 1 / 2 ^ 45 := by
    have := mul_le_mul hsmall hx11 hx.le (by positivity)
    norm_num at this ⊢
    linarith
  have hsecond : n * unit * (x - ds) ≤ unit := by
    calc n * unit * (x - ds) ≤ n * unit * (1 / 2 ^ 45) := mul_le_mul_of_nonneg_left hdiff hnu
      _ ≤ 1 / 2 ^ 49 * (1 / 2 ^ 45) := mul_le_mul_of_nonneg_right hsmall (by positivity)
      _ ≤ unit := by unfold unit; norm_num
  have hunit := unit_nonneg
  rw [abs_le]
  constructor <;> linarith

/-- What the attempt has found, `x` being the number and `N` the number of digits. -/
def Outcome (x : ℚ) (N : ℕ) : Quick → Prop
  | .oneDigit => N = 0 ∧ 5 < x
  | .noDigits => N = 0 ∧ x < 5
  | .failed => True
  | q => 0 < N ∧ QuickFound x N q

/-- **The attempt finds the digits of the number, or nothing.**
SOURCE: dietlibc-printf.patch:3328-3387 -/
theorem quickRound_spec (room ieps N : ℕ) (x ds : ℚ) (hieps : 2 ≤ ieps ∧ ieps ≤ 9) (hN : N ≤ 14) (hroom : N ≤ room)
    (h : Within unit (2 * ieps - 3) ds x) (hfloat : binary64.IsFloat ds) (h10 : ds < 10) (h1 : 0 < N → 1 ≤ ds) :
    ∃ q, quickRound room false ds (quickError ieps ds) N = some q ∧ Outcome x N q := by
  have h0 := (h.pos_left unit_lt_one).le
  have hunit := unit_nonneg
  obtain ⟨hlow, hhigh⟩ := quickError_bounds ieps ds hieps.2 h0 h10
  have herror := abs_sub_le_units _ x ds (by omega) h10 h
  have hn : ((2 * ieps - 3 : ℕ) : ℚ) = 2 * ieps - 3 := by rw [Nat.cast_sub (by omega)]; push_cast; rfl
  rw [hn] at herror
  have hds : 0 ≤ unit * ds := mul_nonneg hunit h0
  have hieps' : (2 : ℚ) ≤ ieps := by exact_mod_cast hieps.1
  generalize quickError ieps ds = eps at hlow hhigh ⊢
  unfold quickRound
  by_cases hzero : N = 0
  · rw [if_pos (by rw [hzero]; rfl)]
    refine ⟨_, rfl, ?_⟩
    have hsub := abs_le.mp (abs_fl_sub_le (ds - 5) 3 (by rw [abs_lt]; constructor <;> norm_num <;> linarith) (by omega))
    have hfour : (2 : ℚ) ^ (3 - 54 : ℤ) = 4 * unit := by norm_num [unit]
    rw [hfour] at hsub
    have hbounds := abs_le.mp herror
    have hpos : 0 < unit := by unfold unit; positivity
    split_ifs with hgt hlt
    · exact ⟨hzero, by linarith⟩
    · exact ⟨hzero, by linarith⟩
    · trivial
  · have htens := tens_eq (N - 1) (by omega)
    rw [show ((N - 1 : ℕ) : ℤ) = (N : ℤ) - 1 by omega] at htens
    rw [if_neg (by omega), htens]
    simp only [Option.bind_eq_bind, Option.bind_some, Bool.false_eq_true, if_false]
    have ht1 : (1 : ℚ) ≤ 10 ^ (N - 1) := one_le_pow₀ (by norm_num)
    have ht13 : (10 : ℚ) ^ (N - 1) ≤ 10 ^ 13 := pow_le_pow_right₀ (by norm_num) (by omega)
    have heps0 : 0 ≤ eps := le_trans (mul_nonneg (by positivity) hunit) hlow
    have hscaled : eps * 10 ^ (N - 1) < 1 :=
      calc eps * 10 ^ (N - 1) ≤ 1 / 2 ^ 45 * 10 ^ 13 := mul_le_mul hhigh ht13 (by positivity) (by positivity)
        _ < 1 := by norm_num
    have hround := abs_le.mp (abs_fl_sub_le (eps * 10 ^ (N - 1)) 0 (by
      rw [abs_of_nonneg (by positivity), zpow_zero]
      exact hscaled) (by omega))
    have hhalf : (2 : ℚ) ^ (0 - 54 : ℤ) ≤ unit := by norm_num [unit]
    have hE : 0 ≤ (2 * ieps - 3) * unit * ds + unit := add_nonneg (mul_nonneg (mul_nonneg (by linarith) hunit) h0) hunit
    -- the bound of the error has room for what the digits add to it
    have heps : 10 ^ (N - 1) * ((2 * ieps - 3) * unit * ds + unit + unit) ≤ fl (eps * 10 ^ (N - 1)) := by
      have hmul : (2 * ieps * ds + 13) * unit * 10 ^ (N - 1) ≤ eps * 10 ^ (N - 1) :=
        mul_le_mul_of_nonneg_right hlow (by positivity)
      have hslack : unit * 1 ≤ unit * 10 ^ (N - 1) := mul_le_mul_of_nonneg_left ht1 hunit
      have hds' : 0 ≤ unit * ds * 10 ^ (N - 1) := mul_nonneg hds (by positivity)
      linarith
    obtain ⟨q, hq, hfound⟩ := quickDigits_spec x _ (fl (eps * 10 ^ (N - 1))) N hE heps room 1 ds []
      hfloat h0 h10 decimal_nil (fun _ => h1 (by omega)) (by simp) (by simp; omega) (by simpa using hroom) (by simpa using herror)
    refine ⟨q, hq, ?_⟩
    cases q with
    | failed => trivial
    | ret1 s => exact ⟨by omega, hfound⟩
    | bumpUp s => exact ⟨by omega, hfound⟩
    | oneDigit => exact hfound.elim
    | noDigits => exact hfound.elim

/-! ## The attempt as a whole -/

/-- What the attempt returns, if it does not fail. -/
def returned (ndigits k : ℤ) : Quick → Option Result
  | .failed => none
  | .oneDigit => some (oneDigit k)
  | .noDigits => some (noDigits ndigits)
  | .ret1 s => some (s, k)
  | .bumpUp s => some (roundoff s k)

/-- INTERNAL: digits that are found are the rounded number. -/
theorem rounded_of_found (ilim ndigits : ℤ) (q : Quick) (r : Result) (h : QuickFound (d / 10 ^ k) ilim q)
    (hr : returned ndigits k q = some r) : r.1 ≠ [] ∧ Suppressed r.1 ∧ Rounded d k ilim r := by
  have hscaled : d / 10 ^ k * 10 ^ (ilim - 1) = d * 10 ^ (ilim - 1 - k) := by
    rw [zpow_sub₀ (by norm_num) (ilim - 1)]
    ring
  cases q with
  | failed => exact absurd hr (by simp [returned])
  | oneDigit => exact h.elim
  | noDigits => exact h.elim
  | ret1 s =>
    obtain ⟨s', n, hne, hdec, htrim, hlen, hnear⟩ := h
    rw [hscaled] at hnear
    obtain ⟨t, htrim', hnil, hlast, hrounded⟩ := rounded_trimzeros n hdec hne hlen hnear
    obtain rfl : t = s := by simpa [htrim'] using htrim
    obtain rfl : (t, k) = r := by simpa [returned] using hr
    exact ⟨hnil, hlast, hrounded⟩
  | bumpUp s =>
    obtain ⟨hdec, hlen, hnear⟩ := h
    rw [hscaled] at hnear
    obtain rfl : roundoff s k = r := by simpa [returned] using hr
    exact rounded_roundoff hdec hlen hnear

/-- INTERNAL: a number next to a power of ten is rounded to it. -/
theorem nearestEven_power (e : ℤ) (h : |d / 10 ^ k - 1| ≤ 1 / 2 ^ 48) (he : 0 ≤ e ∧ e ≤ 14) :
    (nearestEven (d * 10 ^ (e - k)) : ℚ) * 10 ^ (k - e) = 10 ^ k := by
  obtain ⟨n, rfl⟩ := Int.eq_ofNat_of_zero_le he.1
  have hpow : (10 : ℚ) ^ n ≤ 10 ^ 14 := pow_le_pow_right₀ (by norm_num) (by omega)
  have hnear : nearestEven (d * 10 ^ ((n : ℤ) - k)) = (10 ^ n : ℕ) := by
    refine nearestEven_of_lt ?_
    have hsplit : d * 10 ^ ((n : ℤ) - k) - ((10 ^ n : ℕ) : ℤ) = (d / 10 ^ k - 1) * 10 ^ n := by
      rw [zpow_sub₀ (by norm_num), zpow_natCast]
      push_cast
      ring
    rw [hsplit, abs_mul, abs_of_pos (by positivity : (0 : ℚ) < 10 ^ n)]
    calc |d / 10 ^ k - 1| * 10 ^ n ≤ 1 / 2 ^ 48 * 10 ^ 14 := mul_le_mul h hpow (by positivity) (by positivity)
      _ < 1 / 2 := by norm_num
  rw [hnear, zpow_sub₀ (by norm_num), zpow_natCast]
  push_cast
  field_simp

/-- INTERNAL: the first place is missed only next to a power of ten. -/
theorem near_one (n : ℕ) (x ds : ℚ) (hn : n ≤ 15) (h : Within unit n ds x) (hmissed : x < 1 ∧ 1 ≤ ds ∨ 1 ≤ x ∧ ds < 1) :
    |x - 1| ≤ 1 / 2 ^ 48 := by
  obtain ⟨hup, hdown⟩ := h.sub_le unit_lt_one
  have hsmall := units_le n hn
  have hup' : n * unit * ds ≤ 1 / 2 ^ 49 * ds := mul_le_mul_of_nonneg_right hsmall (h.pos_left unit_lt_one).le
  have hdown' : n * unit * x ≤ 1 / 2 ^ 49 * x := mul_le_mul_of_nonneg_right hsmall h.pos.le
  rw [abs_le]
  norm_num at hup' hdown' ⊢
  rcases hmissed with ⟨hlt, hge⟩ | ⟨hge, hlt⟩
  · constructor <;> linarith
  · constructor <;> linarith

/-- INTERNAL: a number that is not about as great as ten does not become ten. -/
theorem lt_ten_of_within (n : ℕ) (x ds : ℚ) (hn : n ≤ 15) (h : Within unit n ds x) (hx : x * (1 + 1 / 10 ^ 10) < 10) : ds < 10 := by
  obtain ⟨hup, -⟩ := h.sub_le unit_lt_one
  have hsmall := units_le n hn
  have hup' : n * unit * ds ≤ 1 / 2 ^ 49 * ds := mul_le_mul_of_nonneg_right hsmall (h.pos_left unit_lt_one).le
  norm_num at hup' hx
  linarith

/-- INTERNAL: the outcome at a place is the rounded number. -/
theorem converted_of_outcome (N : ℕ) (ndigits : ℤ) (q : Quick) (r : Result) (h : Outcome (d / 10 ^ k) N q)
    (hr : returned ndigits k q = some r) (hzero : N = 0 → -1 - ndigits = k) (hnonneg : 0 ≤ d) (hlt : d < 10 ^ (k + 1)) :
    Suppressed r.1 ∧ Converted d k N r := by
  have hpos : (0 : ℚ) < 10 ^ k := zpow_pos (by norm_num) k
  have hfound : QuickFound (d / 10 ^ k) N q → Suppressed r.1 ∧ Converted d k N r := by
    intro hfound
    obtain ⟨hne, hlast, hrounded⟩ := rounded_of_found N ndigits q r hfound hr
    exact ⟨hlast, hrounded, fun _ => hne⟩
  cases q with
  | failed => exact absurd hr (by simp [returned])
  | oneDigit =>
    obtain ⟨rfl, hgt⟩ := h
    rw [lt_div_iff₀ hpos] at hgt
    obtain rfl : oneDigit k = r := by simpa [returned] using hr
    exact ⟨by simp [oneDigit, Suppressed], rounded_oneDigit hgt hlt, fun h => absurd h (by simp)⟩
  | noDigits =>
    obtain ⟨rfl, hle⟩ := h
    rw [div_lt_iff₀ hpos] at hle
    obtain rfl : noDigits ndigits = r := by simpa [returned] using hr
    rw [noDigits, hzero rfl]
    refine ⟨by simp [Suppressed], ?_, fun h => absurd h (by simp)⟩
    have hnone : Rounded d k 0 ([], k - 0) := rounded_noDigits hnonneg (by rw [sub_zero]; exact hle.le)
    rwa [sub_zero] at hnone
  | ret1 s => exact hfound h.2
  | bumpUp s => exact hfound h.2

/-- INTERNAL: what is divided within the table of powers has its first digit at the place `k`. -/
theorem table_range (hD : Double d) (hplaced : Placed d k false) (ds : ℚ) (ieps : ℕ) (h : quickScale d k = some (ds, ieps))
    (hwithin : Within unit (2 * ieps - 3) ds (d / 10 ^ k)) (hieps : ieps ≤ 8) : 1 ≤ ds ∧ ds < 10 := by
  have hpos : (0 : ℚ) < 10 ^ k := zpow_pos (by norm_num) k
  have hrange := hplaced.table rfl
  obtain ⟨ieps', htable⟩ := quickScale_table d hD.isFloat hrange
  obtain rfl : fl (d / 10 ^ k) = ds := by
    rw [h] at htable
    simp only [Option.some.injEq, Prod.mk.injEq] at htable
    exact htable.1.symm
  have hone : 1 ≤ d / 10 ^ k := by
    rw [le_div_iff₀ hpos, one_mul]
    exact hplaced.exact rfl
  refine ⟨?_, ?_⟩
  · have := le_round (F := binary64) (show (2 : ℚ) ^ (0 : ℤ) ≤ d / 10 ^ k by rwa [zpow_zero]) (isFloat_two_zpow 0 (by omega))
    rwa [zpow_zero] at this
  · rcases hplaced.high with hhigh | ⟨-, hk, hhigh⟩
    · refine lt_ten_of_within _ _ _ (by omega) hwithin ?_
      rw [div_mul_eq_mul_div, div_lt_iff₀ hpos, mul_comm 10]
      rwa [zpow_add₀ (by norm_num), zpow_one] at hhigh
    · obtain ⟨n, hn⟩ := Int.eq_ofNat_of_zero_le (show 0 ≤ k + 1 by omega)
      have hfloat : binary64.IsFloat ((10 : ℚ) ^ (k + 1)) := by
        rw [hn, zpow_natCast]
        exact isFloat_ten_pow n (by omega)
      have := fl_lt_ten d (10 ^ (k + 1)) hD.isFloat hfloat hD.pos.le hhigh (zpow_pos (by norm_num) _)
      rwa [zpow_add₀ (by norm_num), zpow_one, div_mul_eq_mul_div, mul_div_mul_right _ _ (by norm_num)] at this

/-- **What the attempt returns is the number, rounded.**
SOURCE: dietlibc-printf.patch:3281-3387 -/
theorem quick_spec (room : ℕ) (k_check : Bool) (mode ndigits ilim ilim1 : ℤ) (hD : Double d) (hplaced : Placed d k k_check)
    (hasked : Asked mode ndigits k ilim) (h0 : 0 ≤ ilim) (h14 : ilim ≤ 14) (h1 : ilim - 1 ≤ ilim1 ∧ ilim1 ≤ ilim)
    (h3 : mode = 3 → ilim1 = ilim - 1) (hroom : ilim ≤ room) :
    ∃ q k', quick room false k_check d k ilim ilim1 = some (q, k') ∧ ∀ r, returned ndigits k' q = some r →
      Suppressed r.1 ∧ Converted d (checked d k ilim ilim1).1 (checked d k ilim ilim1).2 r := by
  have hpos : (0 : ℚ) < 10 ^ k := zpow_pos (by norm_num) k
  obtain ⟨ds, ieps, hscale, hwithin, hfloat, hieps, hieps'⟩ := quickScale_spec hD hplaced.low hplaced.range
  have hless : d / 10 ^ k < 1 ↔ d < 10 ^ k := div_lt_one hpos
  unfold quick
  simp only [hscale, Option.bind_eq_bind, Option.bind_some]
  by_cases hmult : k_check = true ∧ ds < 1 ∧ ilim > 0
  · obtain ⟨hcheck, hds, hilim⟩ := hmult
    rw [if_pos ⟨hcheck, hds, hilim⟩]
    by_cases hfew : ilim1 ≤ 0
    · rw [if_pos hfew]
      exact ⟨_, _, rfl, fun r hr => absurd hr (by simp [returned])⟩
    · obtain ⟨N, rfl⟩ := Int.eq_ofNat_of_zero_le (show 0 ≤ ilim1 by omega)
      have hten : ds * 10 = ds / 1 * 10 := by rw [div_one]
      have hlt10 : fl (ds * 10) < 10 := by
        rw [hten]
        exact fl_lt_ten ds 1 hfloat (by have := isFloat_two_zpow 0 (by omega); rwa [zpow_zero] at this)
          (hwithin.pos_left unit_lt_one).le hds (by norm_num)
      have hvalue : d / 10 ^ k * 10 = d / 10 ^ (k - 1) := by
        rw [zpow_sub_one₀ (by norm_num), div_mul_eq_mul_div, div_eq_div_iff hpos.ne' (by positivity)]
        field_simp
      have hapart : 1 + 1 / 10 ^ 10 ≤ d / 10 ^ k * 10 := by
        rw [hvalue, le_div_iff₀ (zpow_pos (by norm_num) _), mul_comm]
        exact hplaced.apart hcheck
      have hproduct : Within unit (2 * ieps - 3 + 0) (ds * 10) (d / 10 ^ k * 10) :=
        hwithin.mul unit_lt_one (Within.refl unit (by norm_num))
      have hge1 : 1 ≤ ds * 10 := by
        have hsmall := units_le (2 * ieps - 3) (by omega)
        have hdown := (hproduct.sub_le unit_lt_one).2
        rw [Nat.add_zero] at hdown
        have hmul := mul_le_mul_of_nonneg_right hsmall hproduct.pos.le
        norm_num at hmul hapart
        linarith
      have hwithin' : Within unit (2 * (ieps + 1) - 3) (fl (ds * 10)) (d / 10 ^ (k - 1)) := by
        have hround := (within_fl (ds * 10) (le_trans (by
          rw [← zpow_zero (2 : ℚ)]
          exact zpow_le_zpow_right₀ (by norm_num) (by omega)) hge1)).trans unit_lt_one hproduct
        rw [hvalue] at hround
        exact hround.mono unit_nonneg unit_lt_one (by omega)
      have hge1' : 1 ≤ fl (ds * 10) := by
        have := le_round (F := binary64) (show (2 : ℚ) ^ (0 : ℤ) ≤ ds * 10 by rwa [zpow_zero]) (isFloat_two_zpow 0 (by omega))
        rwa [zpow_zero] at this
      obtain ⟨q, hq, houtcome⟩ := quickRound_spec room (ieps + 1) N _ _ (by omega) (by omega) (by omega) hwithin' (isFloat_fl _)
        hlt10 fun _ => hge1'
      rw [if_neg hfew, hq]
      refine ⟨q, k - 1, rfl, fun r hr => ?_⟩
      have hfound : QuickFound (d / 10 ^ (k - 1)) N q := by
        cases q with
        | failed => trivial
        | oneDigit => exact absurd houtcome.1 (by omega)
        | noDigits => exact absurd houtcome.1 (by omega)
        | ret1 s => exact houtcome.2
        | bumpUp s => exact houtcome.2
      obtain ⟨hne, hlast, hrounded⟩ := rounded_of_found N ndigits q r hfound hr
      refine ⟨hlast, ?_, fun _ => hne⟩
      unfold checked
      split_ifs with hd
      · exact hrounded
      · -- the number is next to `10^k`, and is rounded to it
        have hnear := near_one _ _ _ (by omega) hwithin (.inr ⟨not_lt.mp (mt hless.mp hd), hds⟩)
        refine hrounded.of_power hne hlast ?_ ?_ (m := k) (by simp only; omega)
        · have := nearestEven_power N hnear (by omega)
          rwa [show (N : ℤ) - 1 - (k - 1) = N - k by ring, show k - 1 + 1 - (N : ℤ) = k - N by ring]
        · have := nearestEven_power (ilim - 1) hnear (by omega)
          simp only
          rwa [show k + 1 - ilim = k - (ilim - 1) by ring]
  · rw [if_neg hmult]
    obtain ⟨N, rfl⟩ := Int.eq_ofNat_of_zero_le h0
    have hrange : (0 < N → 1 ≤ ds) ∧ ds < 10 := by
      cases hcheck : k_check with
      | false =>
        rw [hcheck] at hplaced
        obtain ⟨hge, hlt⟩ := table_range hD hplaced ds ieps hscale hwithin hieps'
        exact ⟨fun _ => hge, hlt⟩
      | true =>
        refine ⟨fun hN => not_lt.mp fun hlt => hmult ⟨hcheck, hlt, by omega⟩, lt_ten_of_within _ _ _ (by omega) hwithin ?_⟩
        have hhigh := hplaced.high.resolve_right fun h => by rw [hcheck] at h; exact absurd h.1 (by simp)
        rw [div_mul_eq_mul_div, div_lt_iff₀ hpos, mul_comm 10]
        rwa [zpow_add₀ (by norm_num), zpow_one] at hhigh
    obtain ⟨q, hq, houtcome⟩ := quickRound_spec room ieps N _ ds ⟨hieps, by omega⟩ (by omega) (by omega) hwithin hfloat hrange.2
      hrange.1
    rw [hq]
    refine ⟨q, k, rfl, fun r hr => ?_⟩
    have hplace : N = 0 → mode = 3 := fun hN => hasked.either.resolve_left fun h => by have := hasked.digits h; omega
    obtain ⟨hlast, hconverted⟩ := converted_of_outcome N ndigits q r houtcome hr (fun hN => by
      have := hasked.places (hplace hN)
      omega) hD.pos.le (hplaced.lt hD.pos.le)
    refine ⟨hlast, ?_⟩
    unfold checked
    split_ifs with hd
    · by_cases hN : N = 0
      · have hilim1 := h3 (hplace hN)
        subst hN
        rw [show ilim1 = -1 by simpa using hilim1]
        exact ⟨hconverted.rounded.shift, fun h => absurd h (by simp)⟩
      · have hnear := near_one _ _ _ (by omega) hwithin (.inl ⟨hless.mpr hd, hrange.1 (by omega)⟩)
        have hne := hconverted.nonempty (by omega)
        refine ⟨hconverted.rounded.of_power hne hlast ?_ ?_ (m := k) (by simp only; omega), fun _ => hne⟩
        · have := nearestEven_power ((N : ℤ) - 1) hnear (by omega)
          rwa [show k + 1 - (N : ℤ) = k - (N - 1) by ring]
        · have := nearestEven_power ilim1 hnear (by omega)
          simp only
          rwa [show ilim1 - 1 - (k - 1) = ilim1 - k by ring, show k - 1 + 1 - ilim1 = k - ilim1 by ring]
    · exact hconverted

end TTLinux.Analysis.DtoaQuick
