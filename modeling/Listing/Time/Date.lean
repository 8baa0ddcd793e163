/-!
# Calendar dates

Days of the Gregorian calendar, extended to the years before its introduction, with a year `0`. A
`Date` is a day that exists in a year between `Date.firstYear` and `Date.lastYear`; the neighbouring
days `Date.next?` and `Date.previous?` are missing only at the two ends.
-/

set_option autoImplicit false
set_option relaxedAutoImplicit false

namespace Listing

/-- Whether a year has a 29th of February. -/
def isLeapYear (year : Int) : Bool :=
  year % 4 == 0 && (year % 100 != 0 || year % 400 == 0)

/-- The number of days of a month; no day for a number that is no month. -/
def daysInMonth (year : Int) (month : Nat) : Nat :=
  match month with
  | 1 | 3 | 5 | 7 | 8 | 10 | 12 => 31
  | 4 | 6 | 9 | 11 => 30
  | 2 => if isLeapYear year then 29 else 28
  | _ => 0

/-- The first year of the calendar. -/
def Date.firstYear : Int := -262143

/-- The last year of the calendar. -/
def Date.lastYear : Int := 262142

/-- A day of the calendar. -/
structure Date where
  year : Int
  month : Nat
  day : Nat
  year_mem : Date.firstYear ≤ year ∧ year ≤ Date.lastYear
  day_mem : 1 ≤ day ∧ day ≤ daysInMonth year month
deriving DecidableEq

namespace Date

/-- The day with the given numbers, if there is one. -/
def of? (year : Int) (month day : Nat) : Option Date :=
  if h : (firstYear ≤ year ∧ year ≤ lastYear) ∧ 1 ≤ day ∧ day ≤ daysInMonth year month then
    some ⟨year, month, day, h.1, h.2⟩
  else none

/-- The day after. -/
def next? (d : Date) : Option Date :=
  if d.day < daysInMonth d.year d.month then of? d.year d.month (d.day + 1)
  else if d.month < 12 then of? d.year (d.month + 1) 1
  else of? (d.year + 1) 1 1

/-- The day before. -/
def previous? (d : Date) : Option Date :=
  if 1 < d.day then of? d.year d.month (d.day - 1)
  else if 1 < d.month then of? d.year (d.month - 1) (daysInMonth d.year (d.month - 1))
  else of? (d.year - 1) 12 31

/-- Days are ordered by year, then month, then day of the month. -/
instance : Ord Date where
  compare := compareLex (compareOn year) (compareLex (compareOn month) (compareOn day))

/-- The numbers of a day lead back to it. -/
theorem of?_self (d : Date) : of? d.year d.month d.day = some d := by
  simp [of?, d.year_mem, d.day_mem]

/-- The number of a month is between 1 and 12. -/
theorem month_mem (d : Date) : 1 ≤ d.month ∧ d.month ≤ 12 := by
  have h := d.day_mem
  unfold daysInMonth at h
  split at h <;> omega

/-- No month is longer than 31 days. -/
theorem day_le (d : Date) : d.day ≤ 31 := by
  have h := d.day_mem
  unfold daysInMonth at h
  split at h
  iterate 7 omega
  iterate 4 omega
  · split at h <;> omega
  · omega

end Date

end Listing
