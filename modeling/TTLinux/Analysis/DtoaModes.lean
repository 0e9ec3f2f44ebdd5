import TTLinux.Analysis.DtoaInteger
import TTLinux.Analysis.DtoaQuick

/-!
# The digits of modes 2 and 3

`dtoa` tries doubles only, then integers if the number is a small one, then big integers. Whichever of these gives the
result, the digits are those of the number rounded to as many digits as asked for, to the nearest and to an even one in the
middle; modes 6 and 7, which do not try doubles only, give the number that modes 2 and 3 give. The block of the result has
room for the digits, unless so many are asked for that there is no such block.
-/

set_option autoImplicit false

namespace TTLinux.Analysis.DtoaModes

open TTLinux.Lib
open TTLinux.Lib.FloatFormat
open TTLinux.Model.Dtoa
open TTLinux.Model.DtoaBigint
open TTLinux.Analysis.DtoaBigint
open TTLinux.Analysis.DtoaWords
open TTLinux.Analysis.DtoaEstimate
open TTLinux.Analysis.DtoaDigits
open TTLinux.Analysis.DtoaLong
open TTLinux.Analysis.DtoaInteger
open TTLinux.Analysis.DtoaQuick

/-! ## The block of the result -/

/-- INTERNAL: the class that is found, and the one below it. -/
theorem rvClass_spec (i fuel k : ℕ) (hfuel : i < 16 + 4 * 2 ^ (k + fuel)) :
    i < 16 + 4 * 2 ^ rvClass i fuel (4 * 2 ^ k) k ∧
      (rvClass i fuel (4 * 2 ^ k) k = k ∨ 16 + 4 * 2 ^ (rvClass i fuel (4 * 2 ^ k) k - 1) ≤ i) ∧
      k ≤ rvClass i fuel (4 * 2 ^ k) k := by
  induction fuel generalizing k with
  | zero => exact ⟨hfuel, .inl rfl, le_rfl⟩
  | succ fuel ih =>
    rw [rvClass]
    split_ifs with hgrow
    · rw [Nat.shiftLeft_eq, pow_one, show 4 * 2 ^ k * 2 = 4 * 2 ^ (k + 1) by ring]
      obtain ⟨hfits, hleast, hle⟩ := ih (k + 1) (by rwa [Nat.add_right_comm, Nat.add_assoc])
      refine ⟨hfits, .inr ?_, by omega⟩
      rcases hleast with heq | hleast
      · rw [heq, Nat.add_sub_cancel]
        exact hgrow
      · exact hleast
    · exact ⟨by omega, .inl rfl, le_rfl⟩

/-- **There is a block for the digits if they are not too many.**
SOURCE: dietlibc-printf.patch:2941-2967 -/
theorem rvAlloc_spec (i : ℕ) : if i < 16 + 4 * 2 ^ Kmax then ∃ room, rvAlloc i = some room ∧ i ≤ room else rvAlloc i = none := by
  have hpow : i < 2 ^ i := Nat.lt_two_pow_self
  obtain ⟨hfits, hleast, -⟩ := rvClass_spec i i 0 (by rw [Nat.zero_add]; omega)
  rw [pow_zero, Nat.mul_one] at hfits hleast
  unfold rvAlloc Balloc
  generalize rvClass i i 4 0 = k at hfits hleast ⊢
  by_cases hk : k ≤ Kmax
  · have hle : 2 ^ k ≤ 2 ^ Kmax := Nat.pow_le_pow_right (by omega) hk
    rw [if_pos (by omega), if_pos hk]
    exact ⟨_, rfl, by simp only [Bigint.maxwds]; omega⟩
  · have hle : 2 ^ Kmax ≤ 2 ^ (k - 1) := Nat.pow_le_pow_right (by omega) (by omega)
    rw [if_neg (by rcases hleast with h | h <;> omega), if_neg hk]
    rfl

/-! ## The three ways -/

/-- The number of digits asked for from the first place `t` on. -/
def wanted (mode ndigits t : ℤ) : ℤ := if mode = 2 then max 1 ndigits else ndigits + t + 1

/-- INTERNAL: the limits of modes 2 and 3. -/
theorem limits_spec (mode ndigits k : ℤ) (hmode : mode = 2 ∨ mode = 3) :
    limits mode ndigits k = (wanted mode ndigits k, wanted mode ndigits (k - 1), max 1 (wanted mode ndigits k),
      if mode = 2 then max 1 ndigits else ndigits) := by
  unfold limits wanted
  rcases hmode with rfl | rfl
  · simp only [show ¬ (2 : ℤ) ≤ 1 by omega, if_false, true_or, if_true]
    split_ifs <;> simp only [Prod.mk.injEq] <;> omega
  · rw [if_neg (by omega), if_neg (by omega), if_neg (by omega), if_neg (by omega), if_neg (by omega)]
    simp only [Prod.mk.injEq]
    refine ⟨trivial, by omega, ?_, trivial⟩
    split_ifs <;> omega

/-- INTERNAL: the place of the last digit that each of the two modes asks for. -/
theorem asked_wanted (mode ndigits k : ℤ) (hmode : mode = 2 ∨ mode = 3) :
    Asked mode (if mode = 2 then max 1 ndigits else ndigits) k (wanted mode ndigits k) := by
  unfold wanted
  refine ⟨hmode, fun h => ?_, fun h => ?_⟩
  · rw [if_pos h]
    omega
  · rw [if_neg (by omega), if_neg (by omega)]

variable {d : ℚ} {k : ℤ}

/-- INTERNAL: what is checked is the place of the first digit. -/
theorem checked_spec (mode ndigits : ℤ) (k_check : Bool) (hplaced : Placed d k k_check) (hd : 0 ≤ d) :
    ∃ t, checked d k (wanted mode ndigits k) (wanted mode ndigits (k - 1)) = (t, wanted mode ndigits t) ∧
      10 ^ t ≤ d ∧ d < 10 ^ (t + 1) ∧ k - 1 ≤ t ∧ t ≤ k := by
  unfold checked
  split_ifs with h
  · exact ⟨k - 1, rfl, hplaced.low, by rwa [sub_add_cancel], by omega, by omega⟩
  · exact ⟨k, rfl, not_lt.mp h, hplaced.lt hd, by omega, by omega⟩

/-- The number is a small integer, and rounding it down leaves zeros at the end. -/
def KeepsZeros (d : ℚ) (t ilim : ℤ) : Prop := (∃ n : ℕ, d = n) ∧ t ≤ 14 ∧ 0 < ilim ∧ EndsInZero d t ilim

/-- **The conversion of a small integer.**
SOURCE: dietlibc-printf.patch:3389-3435 -/
theorem small_spec (mode ndigits : ℤ) (room n : ℕ) (k_check : Bool) (hmode : mode = 2 ∨ mode = 3) (hn : n ≠ 0) (hk : k ≤ 14)
    (hplaced : Placed (n : ℚ) k k_check) (hroom : wanted mode ndigits k ≤ room) :
    k_check = false ∧ ∃ ds r, tens k = some ds ∧
      (if (if mode = 2 then max 1 ndigits else ndigits) < 0 ∧ wanted mode ndigits k ≤ 0 then
        some (if wanted mode ndigits k < 0 ∨ n ≤ fl (5 * ds) then noDigits (if mode = 2 then max 1 ndigits else ndigits)
          else oneDigit k)
      else (integerDigits ds (wanted mode ndigits k) room 1 n []).map fun x => if x.1 then roundoff x.2 k else (x.2, k)) = some r ∧
      Converted n k (wanted mode ndigits k) r ∧ (Suppressed r.1 ↔ ¬ KeepsZeros n k (wanted mode ndigits k)) := by
  have hone : (1 : ℚ) ≤ n := by exact_mod_cast Nat.one_le_iff_ne_zero.mpr hn
  have hlt := hplaced.lt (by positivity)
  have hk0 : 0 ≤ k := by
    by_contra hneg
    have : (10 : ℚ) ^ (k + 1) ≤ 10 ^ (0 : ℤ) := zpow_le_zpow_right₀ (by norm_num) (by omega)
    rw [zpow_zero] at this
    linarith
  have hcheck : k_check = false := by
    by_contra hnot
    have := hplaced.outside (by simpa using hnot)
    omega
  have hlow := hplaced.exact hcheck
  have hasked := asked_wanted mode ndigits k hmode
  have hten : (10 : ℚ) ^ k.toNat = 10 ^ k := by rw [← zpow_natCast, Int.toNat_of_nonneg hk0]
  refine ⟨hcheck, 10 ^ k.toNat, ?_⟩
  by_cases hfew : (if mode = 2 then max 1 ndigits else ndigits) < 0 ∧ wanted mode ndigits k ≤ 0
  · have h3 : mode = 3 := hmode.resolve_left fun h => by have := hasked.digits h; omega
    have hfive : fl (5 * 10 ^ k.toNat) = 5 * 10 ^ k := by
      rw [hten]
      obtain ⟨e, rfl⟩ := Int.eq_ofNat_of_zero_le hk0
      have hle : 10 ^ e ≤ 10 ^ 14 := Nat.pow_le_pow_right (by omega) (by omega)
      have hcast : (5 : ℚ) * 10 ^ (e : ℤ) = ((5 * 10 ^ e : ℕ) : ℚ) := by rw [zpow_natCast]; push_cast; rfl
      rw [hcast, fl_natCast _ (by omega)]
    have hno : noDigits (if mode = 2 then max 1 ndigits else ndigits) = ([], k - wanted mode ndigits k) := by
      rw [noDigits, hasked.places h3]
      congr 1
      ring
    have hkeeps : ¬ KeepsZeros n k (wanted mode ndigits k) := fun h => absurd h.2.2.1 (by omega)
    rw [if_pos hfew, hfive, hno]
    refine ⟨_, by rw [tens, if_pos ⟨hk0, by omega⟩], rfl, ?_⟩
    split_ifs with hle
    · refine ⟨⟨rounded_noDigits (by positivity) ?_, fun h => absurd h (by omega)⟩, iff_of_true (by simp [Suppressed]) hkeeps⟩
      rcases hle with hneg | hle
      · calc (n : ℚ) ≤ 1 * 10 ^ (k + 1) := by rw [one_mul]; exact hlt.le
          _ ≤ 5 * 10 ^ (k - wanted mode ndigits k) :=
              mul_le_mul (by norm_num) (zpow_le_zpow_right₀ (by norm_num) (by omega)) (zpow_nonneg (by norm_num) _) (by norm_num)
      · refine hle.trans (mul_le_mul_of_nonneg_left (zpow_le_zpow_right₀ (by norm_num) (by omega)) (by norm_num))
    · have hzero : wanted mode ndigits k = 0 := by omega
      rw [hzero]
      refine ⟨⟨rounded_oneDigit (not_le.mp fun h => hle (.inr h)) hlt, fun h => absurd h (by omega)⟩,
        iff_of_true (by simp [oneDigit, Suppressed]) (hzero ▸ hkeeps)⟩
  · have hpos : 0 < wanted mode ndigits k := by
      rcases hmode with h2 | h3
      · exact hasked.digits h2
      · have := hasked.places h3
        omega
    obtain ⟨up, s, hrun, hconverted, hlast⟩ := integer_spec n room k (wanted mode ndigits k) ⟨hk0, hk⟩ hlow hlt hpos hroom
    rw [if_neg hfew, hrun]
    refine ⟨_, by rw [tens, if_pos ⟨hk0, by omega⟩], rfl, hconverted, ?_⟩
    rw [hlast]
    unfold KeepsZeros
    simp only [hk, hpos, true_and, not_iff_not, iff_and_self]
    exact fun _ => ⟨n, rfl⟩

/-- INTERNAL: the parts of a double, and where its first digit is. -/
theorem parts_spec (u : BitVec 64) (hsign : word0 u < 2 ^ 31) (hfinite : exponent u < 2047) (hne : mantissa u ≠ 0) :
    ∃ b v be, ∃ n : ℕ, ∃ k k_check, d2b u = some (b, be, (n : ℤ)) ∧ Holds b v ∧ v ≠ 0 ∧ v < 2 ^ 53 ∧ |be| ≤ 1100 ∧
      (highestBit u be n).1 = be + n - 1 ∧
      firstPlace (dval (word0 u) (word1 u)) (estimate (highestBit u be n).1 (highestBit u be n).2) = (k, k_check) ∧
      dval (word0 u) (word1 u) = v * 2 ^ be ∧ Double (v * 2 ^ be) ∧ Placed (v * 2 ^ be) k k_check := by
  obtain ⟨b, v, be, n, hd2b, htaken⟩ := d2b_spec u hsign hne
  obtain ⟨hi, hnorm⟩ := highestBit_spec u b v be n hfinite htaken
  have hplaced := firstPlace_spec u _ _ hnorm
  obtain ⟨e, he, hbe⟩ := htaken.factors
  have hrange := hnorm.range
  have hplace : -1074 ≤ lastPlace u := by
    unfold lastPlace
    split_ifs <;> omega
  have hpos := htaken.pos
  have hsmall : v < 2 ^ 53 := (Nat.le_mul_of_pos_right v (by positivity)).trans_lt (he ▸ mantissa_lt u)
  have hvalue : dval (word0 u) (word1 u) = v * 2 ^ be := by
    rw [dval_eq, he, hbe, zpow_add₀ (by norm_num), zpow_natCast]
    push_cast
    ring
  rw [← hi, hvalue] at hplaced
  refine ⟨b, v, be, n, _, _, hd2b, htaken.holds, htaken.ne_zero, hsmall, abs_le.mpr ⟨by omega, by omega⟩, hi, rfl, hvalue, ⟨?_, ?_⟩,
    by rw [hvalue]; exact hplaced⟩
  · exact mul_pos (by exact_mod_cast Nat.pos_of_ne_zero htaken.ne_zero) (two_zpow_pos be)
  · exact ⟨v, be, rfl, hsmall.le, by omega⟩

/-! ## The conversion as a whole -/

/-- The conversion without the attempt with doubles only.
SOURCE: dietlibc-printf.patch:3389-3688 -/
def plain (p5s : List Bigint) (u : BitVec 64) (room : ℕ) (b : Bigint) (be bbits mode ndigits : ℤ) (k_check : Bool)
    (k ilim ilim1 : ℤ) : Option (Result × List Bigint) :=
  if be ≥ 0 ∧ k ≤ 14 then
    (tens k).bind fun ds =>
      (if ndigits < 0 ∧ ilim ≤ 0 then
        some (if ilim < 0 ∨ dval (word0 u) (word1 u) ≤ fl (5 * ds) then noDigits ndigits else oneDigit k)
      else (integerDigits ds ilim room 1 (dval (word0 u) (word1 u)) []).map fun x =>
        if x.1 then roundoff x.2 k else (x.2, k)).map fun r => (r, p5s)
  else long p5s u room b be bbits (word0 u >>> 20 &&& 0x7ff = 0) mode ndigits false k_check (-be) k ilim ilim1

/-- Modes 6 and 7 are modes 2 and 3 without the attempt with doubles only. -/
def reduced (mode : ℤ) : ℤ := if mode > 5 then mode - 4 else mode

/-- INTERNAL: the conversion is the attempt, or else the plain conversion.
SOURCE: dietlibc-printf.patch:3139-3688 -/
theorem convert_eq (p5s : List Bigint) (u : BitVec 64) (b : Bigint) (be n k mode ndigits : ℤ) (k_check : Bool)
    (hmode : mode = 2 ∨ mode = 3 ∨ mode = 6 ∨ mode = 7) (hd2b : d2b u = some (b, be, n)) (hi : (highestBit u be n).1 = be + n - 1)
    (hplace : firstPlace (dval (word0 u) (word1 u)) (estimate (highestBit u be n).1 (highestBit u be n).2) = (k, k_check)) :
    convert p5s u mode ndigits =
      (rvAlloc (max 1 (wanted (reduced mode) ndigits k)).toNat).bind fun room =>
        (if wanted (reduced mode) ndigits k ≥ 0 ∧ wanted (reduced mode) ndigits k ≤ 14 ∧ decide (mode ≤ 5) = true then
          quick room false k_check (dval (word0 u) (word1 u)) k (wanted (reduced mode) ndigits k)
            (wanted (reduced mode) ndigits (k - 1))
        else some (.failed, k)).bind fun q =>
          match returned (if reduced mode = 2 then max 1 ndigits else ndigits) q.2 q.1 with
          | some r => some (r, p5s)
          | none => plain p5s u room b be n (reduced mode) (if reduced mode = 2 then max 1 ndigits else ndigits) k_check k
              (wanted (reduced mode) ndigits k) (wanted (reduced mode) ndigits (k - 1)) := by
  have hmode' : reduced mode = 2 ∨ reduced mode = 3 := by
    unfold reduced
    split_ifs <;> omega
  have hleft : (decide ¬ (reduced mode = 2 ∨ reduced mode = 3)) = false := decide_eq_false (not_not_intro hmode')
  have hkeep : (if mode < 0 ∨ mode > 9 then 0 else mode) = mode := if_neg (by omega)
  rw [hi] at hplace
  unfold convert
  simp only [hd2b, hkeep, Option.bind_eq_bind, Option.bind_some, hi, hplace, show n - (be + n - 1) - 1 = -be by ring]
  rw [← reduced]
  simp only [limits_spec _ _ _ hmode', hleft]
  congr 1
  funext room
  congr 1
  funext q
  obtain ⟨q, k'⟩ := q
  cases q with
  | failed =>
    simp only [returned, plain]
    generalize (if reduced mode = 2 then max 1 ndigits else ndigits) = nd
    congr 2
    funext ds
    by_cases hfew : nd < 0 ∧ wanted (reduced mode) ndigits k ≤ 0
    · rw [if_pos hfew, if_pos hfew, Option.map_some]
      split_ifs <;> rfl
    · rw [if_neg hfew, if_neg hfew]
      cases integerDigits ds (wanted (reduced mode) ndigits k) room 1 (dval (word0 u) (word1 u)) [] <;> rfl
  | oneDigit => rfl
  | noDigits => rfl
  | ret1 s => rfl
  | bumpUp s => rfl

/-- **What the plain conversion returns** does not depend on the powers of five that have been kept, and these stay right.
SOURCE: dietlibc-printf.patch:3389-3688 -/
theorem plain_spec (u : BitVec 64) (room : ℕ) (b : Bigint) (v : ℕ) (be bbits mode ndigits k t : ℤ) (k_check : Bool)
    (hmode : mode = 2 ∨ mode = 3) (hb : Holds b v) (hv : v ≠ 0) (hsmall : v < 2 ^ 53) (hbe : |be| ≤ 1100)
    (hvalue : dval (word0 u) (word1 u) = v * 2 ^ be) (hplaced : Placed (v * 2 ^ be) k k_check)
    (hchecked : checked (v * 2 ^ be : ℚ) k (wanted mode ndigits k) (wanted mode ndigits (k - 1)) = (t, wanted mode ndigits t))
    (hroom : wanted mode ndigits k ≤ room) :
    ∃ r, Converted (v * 2 ^ be) t (wanted mode ndigits t) r ∧
      (Suppressed r.1 ∨ KeepsZeros (v * 2 ^ be) t (wanted mode ndigits t)) ∧
      ∀ p5s, Cache p5s → ∃ p5s', plain p5s u room b be bbits mode (if mode = 2 then max 1 ndigits else ndigits) k_check k
        (wanted mode ndigits k) (wanted mode ndigits (k - 1)) = some (r, p5s') ∧ Cache p5s' := by
  have hstep : wanted mode ndigits (k - 1) ≤ wanted mode ndigits k := by
    unfold wanted
    split_ifs <;> omega
  unfold plain
  rw [hvalue]
  by_cases hinteger : be ≥ 0 ∧ k ≤ 14
  · obtain ⟨e, he⟩ := Int.eq_ofNat_of_zero_le hinteger.1
    have hcast : (v : ℚ) * 2 ^ be = ((v * 2 ^ e : ℕ) : ℚ) := by rw [he, zpow_natCast]; push_cast; rfl
    rw [hcast] at hplaced hchecked ⊢
    obtain ⟨hcheck, ds, r, htens, hr, hconverted, hlast⟩ := small_spec mode ndigits room (v * 2 ^ e) k_check hmode
      (Nat.mul_ne_zero hv (by positivity)) hinteger.2 hplaced hroom
    have htk : t = k := by
      rw [checked, if_neg (not_lt.mpr (hplaced.exact hcheck))] at hchecked
      exact (Prod.mk.inj hchecked).1.symm
    rw [htk]
    refine ⟨r, hconverted, or_iff_not_imp_right.mpr hlast.mpr, fun p5s hcache => ⟨p5s, ?_, hcache⟩⟩
    rw [if_pos hinteger, htens, Option.bind_some, hr]
    rfl
  · have hlong := fun p5s hcache => long_spec p5s u room b v be bbits (word0 u >>> 20 &&& 0x7ff = 0) k_check mode
      (if mode = 2 then max 1 ndigits else ndigits) k _ _ hcache hb hv hsmall hbe hplaced (asked_wanted mode ndigits k hmode)
      (asked_wanted mode ndigits (k - 1) hmode) hroom (hstep.trans hroom)
    simp only [hchecked] at hlong
    obtain ⟨r, -, -, -, hlast, hconverted⟩ := hlong [] cache_nil
    refine ⟨r, hconverted, .inl hlast, fun p5s hcache => ?_⟩
    obtain ⟨r', p5s', hr', hcache', hlast', hconverted'⟩ := hlong p5s hcache
    rw [if_neg hinteger, hconverted.rounded.unique hconverted'.rounded hlast hlast']
    exact ⟨p5s', hr', hcache'⟩

/-- **The digits are those of the number, rounded**, whichever way they are found, and the powers of five that have been kept
make no difference and stay right. Zeros at the end are left out, except of some small integers.
SOURCE: dietlibc-printf.patch:3139-3688 -/
theorem convert_spec (u : BitVec 64) (mode ndigits : ℤ) (hsign : word0 u < 2 ^ 31) (hfinite : exponent u < 2047)
    (hne : mantissa u ≠ 0) (hmode : mode = 2 ∨ mode = 3 ∨ mode = 6 ∨ mode = 7) :
    ∃ k t, 10 ^ t ≤ dval (word0 u) (word1 u) ∧ dval (word0 u) (word1 u) < 10 ^ (t + 1) ∧ t ≤ k ∧ k ≤ t + 1 ∧
      if (max 1 (wanted (reduced mode) ndigits k)).toNat < 16 + 4 * 2 ^ Kmax then
        ∃ r, Converted (dval (word0 u) (word1 u)) t (wanted (reduced mode) ndigits t) r ∧
          (Suppressed r.1 ∨ KeepsZeros (dval (word0 u) (word1 u)) t (wanted (reduced mode) ndigits t)) ∧
          ∀ p5s, Cache p5s → ∃ p5s', convert p5s u mode ndigits = some (r, p5s') ∧ Cache p5s'
      else ∀ p5s, convert p5s u mode ndigits = none := by
  obtain ⟨b, v, be, n, k, k_check, hd2b, hb, hv, hsmall, hbe, hi, hplace, hvalue, hdouble, hplaced⟩ :=
    parts_spec u hsign hfinite hne
  have hmode' : reduced mode = 2 ∨ reduced mode = 3 := by
    unfold reduced
    split_ifs <;> omega
  obtain ⟨t, hchecked, hlow, hhigh, htk, hkt⟩ := checked_spec (reduced mode) ndigits k_check hplaced hdouble.pos.le
  have hstep : wanted (reduced mode) ndigits k - 1 ≤ wanted (reduced mode) ndigits (k - 1) ∧
      wanted (reduced mode) ndigits (k - 1) ≤ wanted (reduced mode) ndigits k ∧
      (reduced mode = 3 → wanted (reduced mode) ndigits (k - 1) = wanted (reduced mode) ndigits k - 1) := by
    unfold wanted
    split_ifs <;> omega
  have hconvert := fun p5s => convert_eq p5s u b be n k mode ndigits k_check hmode hd2b hi hplace
  have hreserved := rvAlloc_spec (max 1 (wanted (reduced mode) ndigits k)).toNat
  refine ⟨k, t, hvalue ▸ hlow, hvalue ▸ hhigh, by omega, by omega, ?_⟩
  by_cases hfits : (max 1 (wanted (reduced mode) ndigits k)).toNat < 16 + 4 * 2 ^ Kmax
  swap
  · rw [if_neg hfits] at hreserved ⊢
    exact fun p5s => by rw [hconvert, hreserved, Option.bind_none]
  rw [if_pos hfits] at hreserved ⊢
  obtain ⟨room, hroom, hle⟩ := hreserved
  obtain ⟨r, hconverted, hlast, hplain⟩ := plain_spec u room b v be n (reduced mode) ndigits k t k_check hmode' hb hv hsmall hbe
    hvalue hplaced hchecked (by omega)
  rw [hvalue]
  simp only [hroom, Option.bind_some, hvalue] at hconvert
  by_cases htry : wanted (reduced mode) ndigits k ≥ 0 ∧ wanted (reduced mode) ndigits k ≤ 14 ∧ decide (mode ≤ 5) = true
  · obtain ⟨q, k', hq, hfound⟩ := quick_spec room k_check (reduced mode) (if reduced mode = 2 then max 1 ndigits else ndigits) _
      (wanted (reduced mode) ndigits (k - 1)) hdouble hplaced (asked_wanted (reduced mode) ndigits k hmode') htry.1 htry.2.1
      ⟨hstep.1, hstep.2.1⟩ hstep.2.2 (by omega)
    rw [hchecked] at hfound
    simp only [if_pos htry, hq, Option.bind_some] at hconvert
    cases hreturned : returned (if reduced mode = 2 then max 1 ndigits else ndigits) k' q with
    | none =>
      simp only [hreturned] at hconvert
      exact ⟨r, hconverted, hlast, fun p5s hcache => by rw [hconvert]; exact hplain p5s hcache⟩
    | some r' =>
      simp only [hreturned] at hconvert
      obtain ⟨hlast', hconverted'⟩ := hfound r' hreturned
      exact ⟨r', hconverted', .inl hlast', fun p5s hcache => ⟨p5s, hconvert p5s, hcache⟩⟩
  · simp only [if_neg htry, Option.bind_some, returned] at hconvert
    exact ⟨r, hconverted, hlast, fun p5s hcache => by rw [hconvert]; exact hplain p5s hcache⟩

end TTLinux.Analysis.DtoaModes
