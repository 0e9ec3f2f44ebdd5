import Mathlib.Algebra.Order.Ring.Nat
import Mathlib.Tactic.Ring
import Mathlib.Tactic.SplitIfs

/-!
# The Gregorian calendar

Leap years, the lengths of months and years, valid dates, and the two numbers that a date has: its day of the year and
its day of the week, which is counted from the first of January 1970, a Thursday. `daysFrom_closed` gives the days of a
span of years in closed form.
-/

set_option autoImplicit false

namespace TTLinux.Lib.Gregorian

/-- Every fourth year, but of the years of a century only every fourth. -/
def Leap (y : ℕ) : Prop := y % 4 = 0 ∧ (y % 100 ≠ 0 ∨ y % 400 = 0)

instance (y : ℕ) : Decidable (Leap y) := inferInstanceAs (Decidable (_ ∧ _))

def yearLength (y : ℕ) : ℕ := if Leap y then 366 else 365

/-- The lengths of the months of a common year. -/
def commonLengths : List ℕ := [31, 28, 31, 30, 31, 30, 31, 31, 30, 31, 30, 31]

/-- January is month 0. -/
def monthLength (y m : ℕ) : ℕ := commonLengths.getD m 0 + if Leap y ∧ m = 1 then 1 else 0

/-- The days of a common year in front of a month. -/
def commonBefore : ℕ → ℕ
  | 0 => 0
  | m + 1 => commonBefore m + commonLengths.getD m 0

/-- The days of a year in front of a month. -/
def daysBefore (y : ℕ) : ℕ → ℕ
  | 0 => 0
  | m + 1 => daysBefore y m + monthLength y m

/-- A date that there is. -/
structure Date where
  year : ℕ
  month : ℕ
  day : ℕ
  month_lt : month < 12
  day_pos : 0 < day
  day_le : day ≤ monthLength year month

/-- The first of January is day 0. -/
def Date.dayOfYear (d : Date) : ℕ := daysBefore d.year d.month + (d.day - 1)

/-- The days of `n` years from the year `y` on. -/
def daysFrom (y : ℕ) : ℕ → ℕ
  | 0 => 0
  | n + 1 => daysFrom y n + yearLength (y + n)

/-- Sunday is 0. The first of January 1970 is a Thursday. -/
def Date.weekday (d : Date) : ℕ := (4 + (daysFrom 1970 (d.year - 1970) + d.dayOfYear)) % 7

/-- INTERNAL: the leap day stands behind February. -/
theorem daysBefore_eq (y m : ℕ) : daysBefore y m = commonBefore m + if Leap y ∧ 1 < m then 1 else 0 := by
  induction m with
  | zero => simp [daysBefore, commonBefore]
  | succ m ih =>
    rw [daysBefore, commonBefore, ih, monthLength]
    by_cases hleap : Leap y
    · simp only [hleap, true_and]
      split_ifs <;> omega
    · simp only [hleap, false_and, if_false]
      omega

/-- INTERNAL: a quotient goes up by one where the divisor divides. -/
theorem succ_div_eq (n k : ℕ) : (k + 1) / n = k / n + if (k + 1) % n = 0 then 1 else 0 := by
  rw [Nat.succ_div]
  simp only [Nat.dvd_iff_mod_eq_zero]

/-- INTERNAL: one year behind the year `k`. -/
theorem yearLength_eq (k : ℕ) :
    yearLength (k + 1) + (k + 1) / 100 + k / 4 + k / 400 = 365 + (k + 1) / 4 + (k + 1) / 400 + k / 100 := by
  have h100 : (k + 1) % 100 = 0 → (k + 1) % 4 = 0 := by omega
  have h400 : (k + 1) % 400 = 0 → (k + 1) % 100 = 0 := by omega
  rw [succ_div_eq 4, succ_div_eq 100, succ_div_eq 400]
  unfold yearLength
  generalize k / 4 = a, k / 100 = b, k / 400 = c
  by_cases hfour : (k + 1) % 4 = 0
  · by_cases hcentury : (k + 1) % 100 = 0
    · by_cases hera : (k + 1) % 400 = 0
      · have hleap : Leap (k + 1) := ⟨hfour, Or.inr hera⟩
        rw [if_pos hleap, if_pos hfour, if_pos hcentury, if_pos hera]
        ring
      · have hleap : ¬ Leap (k + 1) := fun h => h.2.elim (fun hne => hne hcentury) hera
        rw [if_neg hleap, if_pos hfour, if_pos hcentury, if_neg hera]
        ring
    · have hera : (k + 1) % 400 ≠ 0 := fun h => hcentury (h400 h)
      have hleap : Leap (k + 1) := ⟨hfour, Or.inl hcentury⟩
      rw [if_pos hleap, if_pos hfour, if_neg hcentury, if_neg hera]
      ring
  · have hcentury : (k + 1) % 100 ≠ 0 := fun h => hfour (h100 h)
    have hera : (k + 1) % 400 ≠ 0 := fun h => hcentury (h400 h)
    have hleap : ¬ Leap (k + 1) := fun h => hfour h.1
    rw [if_neg hleap, if_neg hfour, if_neg hcentury, if_neg hera]
    ring

/-- INTERNAL: **the days of the years behind the year `y`**, in closed form: 365 for each, one more for every fourth,
one less for every hundredth and one more for every four hundredth. -/
theorem daysFrom_closed (y n : ℕ) :
    daysFrom (y + 1) n + (y + n) / 100 + y / 4 + y / 400 = 365 * n + (y + n) / 4 + (y + n) / 400 + y / 100 := by
  induction n with
  | zero =>
    rw [daysFrom, Nat.add_zero]
    ring
  | succ n ih =>
    have hyear := yearLength_eq (y + n)
    rw [daysFrom, Nat.add_right_comm y 1 n, ← Nat.add_assoc y n 1]
    generalize y / 4 = a, y / 100 = b, y / 400 = c, (y + n) / 4 = a₁, (y + n) / 100 = b₁, (y + n) / 400 = c₁,
      (y + n + 1) / 4 = a₂, (y + n + 1) / 100 = b₂, (y + n + 1) / 400 = c₂ at *
    omega

end TTLinux.Lib.Gregorian
