/-
**The months of the proleptic Gregorian calendar.**

A month is an integer, January of the year 0 being 0, and a day is an integer, the first of January
1970 being 0. `firstDay` gives the first day of a month and `monthOf` the month of a day.

* `firstDay_succ`: every month is as long as the calendar says.
* `firstDay_lt`: months and their first days are in one order.
* `monthOf_spec`, `monthOf_lt`: the month of a day is the one that has begun and not ended.
-/

import Mathlib.Algebra.Order.Group.Int
import Mathlib.Order.SuccPred.IntervalSucc
import Mathlib.Tactic.IntervalCases

namespace OpenBerat.Lib.Calendar

/-- Whether a year has a 29th of February. -/
def Leap (year : Int) : Prop :=
  year % 4 = 0 ∧ (year % 100 ≠ 0 ∨ year % 400 = 0)

instance (year : Int) : Decidable (Leap year) :=
  inferInstanceAs (Decidable (_ ∧ _))

/-- The first of January. -/
def yearStart (year : Int) : Int :=
  365 * year + (year - 1) / 4 - (year - 1) / 100 + (year - 1) / 400 - 719527

/-- The first of a month: 367 days in twelve months, less what February lacks. -/
def firstDay (month : Int) : Int :=
  yearStart (month / 12) + (367 * (month % 12) + 5) / 12 -
    if month % 12 < 2 then 0 else if Leap (month / 12) then 1 else 2

/-- How long a month is. -/
def length (month : Int) : Int :=
  if month % 12 = 1 then if Leap (month / 12) then 29 else 28
  else if month % 12 = 3 ∨ month % 12 = 5 ∨ month % 12 = 8 ∨ month % 12 = 10 then 30
  else 31

theorem yearStart_succ (year : Int) :
    yearStart (year + 1) = yearStart year + if Leap year then 366 else 365 := by
  by_cases leap : Leap year
  · rw [if_pos leap]
    unfold yearStart
    unfold Leap at leap
    omega
  · rw [if_neg leap]
    unfold yearStart
    unfold Leap at leap
    omega

/-- **The lengths of the months.** -/
theorem firstDay_succ (month : Int) : firstDay (month + 1) = firstDay month + length month := by
  have inside : 0 ≤ month % 12 ∧ month % 12 < 12 := by omega
  unfold firstDay length
  by_cases last : month % 12 = 11
  · have year : (month + 1) / 12 = month / 12 + 1 := by omega
    have first : (month + 1) % 12 = 0 := by omega
    rw [year, first, last, yearStart_succ]
    split_ifs
    all_goals omega
  · have year : (month + 1) / 12 = month / 12 := by omega
    have next : (month + 1) % 12 = month % 12 + 1 := by omega
    rw [year, next]
    obtain ⟨low, high⟩ := inside
    generalize month % 12 = index at last low high ⊢
    -- one goal for each month from January to November
    interval_cases index
    all_goals split_ifs <;> omega

example : firstDay (12 * 1970) = 0 := by decide

theorem length_pos (month : Int) : 0 < length month := by
  unfold length
  split_ifs
  all_goals decide

/-- **One order.** -/
theorem firstDay_lt {month other : Int} : firstDay month < firstDay other ↔ month < other := by
  have increasing : StrictMono firstDay := strictMono_int_of_lt_succ fun month => by
    rw [firstDay_succ]
    exact lt_add_of_pos_right _ (length_pos month)
  exact increasing.lt_iff_lt

/-- The month of a day, from the mean length of one. -/
def monthOf (day : Int) : Int :=
  let guess := (4800 * (day + 719528)) / 146097
  if day < firstDay guess then guess - 1 else if firstDay (guess + 1) ≤ day then guess + 1
    else guess

/-- A month begins within half a month of where it would at equal lengths. -/
theorem firstDay_bounds (month : Int) :
    146097 * month - 70000 ≤ 4800 * (firstDay month + 719528) ∧
      4800 * (firstDay month + 719528) ≤ 146097 * month + 70000 := by
  unfold firstDay yearStart
  split_ifs
  all_goals omega

/-- **The month of a day** is the one that has begun and not ended. -/
theorem monthOf_spec (day : Int) :
    firstDay (monthOf day) ≤ day ∧ day < firstDay (monthOf day + 1) := by
  have here := firstDay_bounds ((4800 * (day + 719528)) / 146097)
  have before := firstDay_bounds ((4800 * (day + 719528)) / 146097 - 1)
  have behind := firstDay_bounds ((4800 * (day + 719528)) / 146097 + 1)
  have later := firstDay_bounds ((4800 * (day + 719528)) / 146097 + 1 + 1)
  unfold monthOf
  dsimp only
  split_ifs with early late
  · rw [Int.sub_add_cancel]
    exact ⟨by omega, early⟩
  · exact ⟨late, by omega⟩
  · exact ⟨not_lt.mp early, not_le.mp late⟩

/-- A day is in an earlier month than the ones that begin after it. -/
theorem monthOf_lt {day month : Int} : monthOf day < month ↔ day < firstDay month := by
  obtain ⟨began, ends⟩ := monthOf_spec day
  refine ⟨fun earlier => ?_, fun before => firstDay_lt.mp (began.trans_lt before)⟩
  by_contra begun
  have later := firstDay_lt.mp ((not_lt.mp begun).trans_lt ends)
  omega

end OpenBerat.Lib.Calendar
