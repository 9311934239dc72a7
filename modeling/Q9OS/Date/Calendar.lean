import Mathlib.Tactic

/-!
# The civil calendar

Julian leap years up to 4 October 1582, Gregorian from 15 October 1582, and
the ten days between them left out.
-/

namespace Q9OS.Date

/-- Leap years: the century rule starts after 1582. -/
def isLeap (year : Nat) : Bool :=
  if year ≤ 1582 then year % 4 == 0
  else year % 4 == 0 && (year % 100 != 0 || year % 400 == 0)

def daysInMonth (year month : Nat) : Nat :=
  if month = 2 then (if isLeap year then 29 else 28)
  else if month = 4 ∨ month = 6 ∨ month = 9 ∨ month = 11 then 30
  else 31

/-- 5 to 14 October 1582 were never days. -/
def isSkipped (year month day : Nat) : Prop :=
  year = 1582 ∧ month = 10 ∧ 5 ≤ day ∧ day ≤ 14

instance (year month day : Nat) : Decidable (isSkipped year month day) :=
  inferInstanceAs (Decidable (_ ∧ _ ∧ _ ∧ _))

/-- A day that the civil calendar has. -/
structure CivilDate where
  year : Nat
  month : Nat
  day : Nat
  year_pos : 1 ≤ year
  month_pos : 1 ≤ month
  month_le : month ≤ 12
  day_pos : 1 ≤ day
  day_le : day ≤ daysInMonth year month
  not_skipped : ¬ isSkipped year month day

theorem daysInMonth_le (year month : Nat) : daysInMonth year month ≤ 31 := by
  unfold daysInMonth
  split
  · split <;> omega
  · split <;> omega

theorem daysInMonth_ge (year month : Nat) : 28 ≤ daysInMonth year month := by
  unfold daysInMonth
  split
  · split <;> omega
  · split <;> omega

theorem CivilDate.day_le_31 (date : CivilDate) : date.day ≤ 31 :=
  date.day_le.trans (daysInMonth_le _ _)

/-- The day after, across month ends, leap days and the switch of 1582. -/
def CivilDate.next (date : CivilDate) : CivilDate :=
  if switch : date.year = 1582 ∧ date.month = 10 ∧ date.day = 4 then
    { year := 1582, month := 10, day := 15,
      year_pos := by decide, month_pos := by decide, month_le := by decide,
      day_pos := by decide, day_le := by decide, not_skipped := by decide }
  else if inside : date.day < daysInMonth date.year date.month then
    { year := date.year, month := date.month, day := date.day + 1,
      year_pos := date.year_pos, month_pos := date.month_pos, month_le := date.month_le,
      day_pos := by omega, day_le := inside,
      not_skipped := by
        have := date.not_skipped
        unfold isSkipped at *
        omega }
  else if turn : date.month < 12 then
    { year := date.year, month := date.month + 1, day := 1,
      year_pos := date.year_pos, month_pos := by omega, month_le := turn,
      day_pos := by decide,
      day_le := le_trans (by decide) (daysInMonth_ge _ _),
      not_skipped := by unfold isSkipped; omega }
  else
    { year := date.year + 1, month := 1, day := 1,
      year_pos := by omega, month_pos := by decide, month_le := by decide,
      day_pos := by decide,
      day_le := le_trans (by decide) (daysInMonth_ge _ _),
      not_skipped := by unfold isSkipped; omega }

end Q9OS.Date
