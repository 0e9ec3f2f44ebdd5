import TTLinux.Lib.Gregorian
import TTLinux.Model.Strptime

/-!
# The day of the year and the day of the week

At its end `strptime` computes both from the year, the month and the day of the month. The day of the year goes by the
leap rule; the day of the week counts every fourth year as a leap year. `strptime_date` says for which years the count is
right all the same: from 1970 to 2100, and later where the days that are missed make whole weeks.
-/

set_option autoImplicit false

namespace TTLinux.Analysis.StrptimeDate

open TTLinux.Lib (Bytes ascii)
open TTLinux.Lib.Gregorian
open TTLinux.Model.Strptime

/-- The fields hold a date. -/
def Holds (tm : Tm) (d : Date) : Prop :=
  tm.tmYear = (d.year : ℤ) - 1900 ∧ tm.tmMon = d.month ∧ tm.tmMday = d.day

/-- The years that are no leap years although every fourth is, from 1970 to before the year, make whole weeks. -/
def Regular (year : ℕ) : Prop := ((year - 1) / 100 - (year - 1) / 400 - 15) % 7 = 0

section

variable (U : Unseen) (hspm : ∀ m : ℕ, m < 12 → U.__spm m = commonBefore m)
  (hleap : ∀ y : ℕ, U.__isleap y = decide (Leap y))
include hspm hleap

/-- INTERNAL: the day of the year goes by the leap rule. -/
theorem complete_yday (tm : Tm) (d : Date) (h : Holds tm d) : (complete U tm).tmYday = d.dayOfYear := by
  obtain ⟨hyear, hmon, hday⟩ := h
  have hpos := d.day_pos
  have hisleap : U.__isleap (tm.tmYear + 1900) = decide (Leap d.year) := by
    rw [hyear, Int.sub_add_cancel]
    exact hleap d.year
  unfold complete Date.dayOfYear
  dsimp only
  rw [hisleap, hmon, hday, hspm d.month d.month_lt, daysBefore_eq]
  by_cases hl : Leap d.year
  · by_cases hm : 1 < d.month
    · have hm' : (1 : ℤ) < d.month := by omega
      simp only [hl, hm, hm', decide_true, Bool.and_self, and_self, if_true]
      omega
    · have hm' : ¬ (1 : ℤ) < d.month := by omega
      simp only [hl, hm, hm', decide_true, decide_false, Bool.and_false, and_false, if_false, Bool.false_eq_true]
      omega
  · simp only [hl, decide_false, Bool.false_and, false_and, if_false, Bool.false_eq_true]
    omega

/-- INTERNAL: **the day of the week counts every fourth year as a leap year.** -/
theorem complete_wday (tm : Tm) (d : Date) (h : Holds tm d) (h1970 : 1970 ≤ d.year) :
    (complete U tm).tmWday = ((d.year - 1970) * 365 + (d.year - 1969) / 4 + d.dayOfYear + 4 : ℕ) % 7 := by
  have hyday := complete_yday U hspm hleap tm d h
  have hwday : (complete U tm).tmWday =
      Int.tmod ((tm.tmYear - 70) * 365 + Int.tdiv (tm.tmYear - 69) 4 + (complete U tm).tmYday + 4) 7 := rfl
  have hspan : tm.tmYear - 70 = ((d.year - 1970 : ℕ) : ℤ) := by
    rw [h.1]
    omega
  have hquarter : tm.tmYear - 69 = ((d.year - 1969 : ℕ) : ℤ) := by
    rw [h.1]
    omega
  rw [hwday, hyday, hspan, hquarter, Int.tdiv_eq_ediv_of_nonneg (Int.natCast_nonneg _),
    Int.tmod_eq_emod_of_nonneg (by omega)]
  push_cast
  rfl

end

/-- INTERNAL: the count of the code and the calendar differ by the century years that are no leap years. -/
theorem count_eq (year : ℕ) (h1970 : 1970 ≤ year) :
    (year - 1970) * 365 + (year - 1969) / 4 =
      daysFrom 1970 (year - 1970) + ((year - 1) / 100 - (year - 1) / 400 - 15) := by
  have hclosed := daysFrom_closed 1969 (year - 1970)
  have hlast : 1969 + (year - 1970) = year - 1 := by omega
  have hquarter : (year - 1) / 4 = (year - 1969) / 4 + 492 := by
    rw [show year - 1 = year - 1969 + 492 * 4 by omega, Nat.add_mul_div_right _ _ (by decide)]
  have hera : (year - 1) / 400 = (year - 1) / 100 / 4 := (Nat.div_div_eq_div_mul _ 100 4).symm
  have hcentury : 19 ≤ (year - 1) / 100 := (Nat.le_div_iff_mul_le (by decide)).mpr (by omega)
  rw [hlast, hquarter, hera] at hclosed
  rw [hera]
  generalize (year - 1) / 100 = centuries, (year - 1969) / 4 = quarters, daysFrom 1970 (year - 1970) = days at *
  omega

/-- **The day of the year is that of the date**, for every format and string that leave a date from 1970 on in the
fields; and so is the day of the week exactly if the year is regular.
SOURCE: dietlibc-strptime.patch:14-138 -/
theorem strptime_date (U : Unseen) (hspm : ∀ m : ℕ, m < 12 → U.__spm m = commonBefore m)
    (hleap : ∀ y : ℕ, U.__isleap y = decide (Leap y)) (s format rest : Bytes) (tm tm₁ : Tm) (d : Date)
    (hparse : parse U (time U) format s tm = some (rest, tm₁)) (hdate : Holds tm₁ d) (h1970 : 1970 ≤ d.year) :
    ∃ tm₂, strptime U s format tm = some (rest, tm₂) ∧ Holds tm₂ d ∧ tm₂.tmYday = d.dayOfYear ∧
      (tm₂.tmYday = d.dayOfYear ∧ tm₂.tmWday = d.weekday ↔ Regular d.year) := by
  have hyday := complete_yday U hspm hleap tm₁ d hdate
  have hwday := complete_wday U hspm hleap tm₁ d hdate h1970
  have hcount := count_eq d.year h1970
  have hresult : strptime U s format tm = some (rest, complete U tm₁) := by
    unfold strptime
    rw [hparse]
    rfl
  refine ⟨complete U tm₁, hresult, hdate, hyday, ?_⟩
  rw [hwday, hcount]
  unfold Regular Date.weekday
  generalize (d.year - 1) / 100 - (d.year - 1) / 400 - 15 = missed, daysFrom 1970 (d.year - 1970) = days
  constructor
  · rintro ⟨-, h⟩
    omega
  · intro h
    refine ⟨hyday, ?_⟩
    omega

/-! ## Two dates -/

/-- `getint` for decimal digits: -1 if there is none. -/
def decimal (s : Bytes) (max : ℕ) : ℤ × Bytes :=
  let digits := (s.take max).takeWhile fun b => 0x30 ≤ b && b ≤ 0x39
  (if digits = [] then -1 else digits.foldl (fun i b => i * 10 + ((b.toNat : ℤ) - 0x30)) 0, s.drop digits.length)

/-- The calendar of the library, with no other directives. -/
def calendar : Unseen where
  getint := decimal
  blank s := s.dropWhile (· == 0x20)
  directive _ s tm := some (s, tm)
  __spm m := commonBefore m.toNat
  __isleap y := decide (Leap y.toNat)

/-- All fields are zero. -/
def zeroed : Tm := ⟨0, 0, 0, 0, 0, 0, 0, 0⟩

/-- The first of January 2101. -/
def newYear2101 : Date := ⟨2101, 0, 1, by decide, by decide, by decide⟩

/-- The last of December 2100. -/
def newYearsEve2100 : Date := ⟨2100, 11, 31, by decide, by decide, by decide⟩

/-- **A Saturday is given as a Sunday**: `2101-01-01` for `%Y-%m-%d`. -/
theorem saturday_given_as_sunday :
    strptime calendar (ascii "2101-01-01".toList) (ascii "%Y-%m-%d".toList) zeroed =
      some ([], ⟨0, 0, 0, 1, 0, 201, 0, 0⟩) ∧ newYear2101.weekday = 6 ∧ newYear2101.dayOfYear = 0 := by
  decide +kernel

/-- `strptime_date` for `2100-12-31`. -/
theorem strptime_2100 :
    ∃ tm, strptime calendar (ascii "2100-12-31".toList) (ascii "%Y-%m-%d".toList) zeroed = some ([], tm) ∧
      Holds tm newYearsEve2100 ∧ tm.tmYday = newYearsEve2100.dayOfYear ∧
      (tm.tmYday = newYearsEve2100.dayOfYear ∧ tm.tmWday = newYearsEve2100.weekday ↔
        Regular newYearsEve2100.year) :=
  strptime_date calendar (fun _ _ => rfl) (fun _ => rfl) (ascii "2100-12-31".toList) (ascii "%Y-%m-%d".toList) [] zeroed
    ⟨0, 0, 0, 31, 11, 200, 0, 0⟩ newYearsEve2100 (by decide +kernel) ⟨rfl, rfl, rfl⟩ (by decide)

end TTLinux.Analysis.StrptimeDate
