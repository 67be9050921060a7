/-!
The proleptic Gregorian calendar.

Days are numbered from 1 January of year 1, which is day 1.

Main definitions:

* `Calendar.isLeap`, `Calendar.daysInMonth` — lengths of years and months;
* `Calendar.dayNumber` — the number of a date;
* `Calendar.dateOfDayNumber` — the date of a number;
* `Calendar.dateOfWeek?` — the date of a day of a numbered week; weeks start on Monday, and the
  first week of a year is the one that holds its first Thursday.
-/

set_option autoImplicit false

namespace ChangeControl.Calendar

/-- Every fourth year is a leap year, except for the centuries that are no multiples of 400. -/
def isLeap (year : Nat) : Bool := year % 4 == 0 && (year % 100 != 0 || year % 400 == 0)

/-- The number of days of a month. -/
def daysInMonth (year month : Nat) : Nat :=
  if month = 2 then if isLeap year then 29 else 28
  else if month = 4 ∨ month = 6 ∨ month = 9 ∨ month = 11 then 30
  else 31

/-- The number of days before the first day of a year. -/
def daysBeforeYear (year : Nat) : Nat :=
  let y := year - 1
  365 * y + y / 4 - y / 100 + y / 400

/-- The number of days of a year before the first day of a month. -/
def daysBeforeMonth (year month : Nat) : Nat :=
  (List.range (month - 1)).foldl (fun days m => days + daysInMonth year (m + 1)) 0

/-- The number of a date. -/
def dayNumber (year month day : Nat) : Nat :=
  daysBeforeYear year + daysBeforeMonth year month + day

/-- The day of the week of a numbered day; Monday is 0. -/
def weekday (number : Nat) : Nat := (number + 6) % 7

/-- The month and the day that lie `left` days after the first of the month that `months` starts
with. -/
def monthAndDay (year : Nat) : List Nat → Nat → Nat × Nat
  | [], left => (12, left + 1)
  | m :: later, left =>
    if later.isEmpty ∨ left < daysInMonth year m then (m, left + 1)
    else monthAndDay year later (left - daysInMonth year m)

/-- The year of a numbered day, and the days of that year before it.  Four hundred years, a hundred,
four and one have their fixed numbers of days, except that the last hundred of four hundred years
and the last year of four have one more. -/
def yearOfDayNumber (number : Nat) : Nat × Nat :=
  let n := number - 1
  let centuries := min (n % 146097 / 36524) 3
  let inCentury := n % 146097 - centuries * 36524
  let years := min (inCentury % 1461 / 365) 3
  (400 * (n / 146097) + 100 * centuries + 4 * (inCentury / 1461) + years + 1,
    inCentury % 1461 - years * 365)

/-- The year, month and day of a numbered day. -/
def dateOfDayNumber (number : Nat) : Nat × Nat × Nat :=
  let (year, before) := yearOfDayNumber number
  let (month, day) := monthAndDay year (List.range' 1 12) before
  (year, month, day)

/-- The number of the Monday of the first week of a year. -/
def firstMonday (year : Nat) : Nat :=
  let first := dayNumber year 1 1
  let w := weekday first
  if 3 < w then first + 7 - w else first - w

/-- Whether a year has a fifty-third week: it starts on a Thursday, or it is a leap year that
starts on a Wednesday. -/
def hasLongYear (year : Nat) : Bool :=
  let w := weekday (dayNumber year 1 1)
  w == 3 || (w == 2 && isLeap year)

/-- The date of a day of a numbered week; Monday is day 1. -/
def dateOfWeek? (year week day : Nat) : Option (Nat × Nat × Nat) :=
  if week = 0 ∨ 53 < week ∨ (week = 53 ∧ hasLongYear year = false) ∨ day = 0 ∨ 7 < day then none
  else some (dateOfDayNumber (firstMonday year + (week - 1) * 7 + (day - 1)))

end ChangeControl.Calendar
