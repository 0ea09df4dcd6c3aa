import ListQuery.Timestamp

/-!
# Calendars with bounds

A calendar that has dates for some years only, as one with years of a fixed size
does. A date has a first instant in it and an instant a later one, as long as
they lie in these years (`midnight?`, `add?`).
-/

namespace ListQuery.Calendar

instance : DecidablePred Date.Valid := fun date =>
  inferInstanceAs (Decidable (1 ≤ date.month ∧ date.month ≤ 12 ∧ 1 ≤ date.day ∧
    date.day ≤ monthLength (isLeap date.year) date.month))

/-- The years that a calendar has dates in. Those that timestamps name are among
them, and the one that starts where these end, since the hour 24 of the last day
is the first instant of that year. -/
structure Years where
  first : Int
  last : Int
  first_le : first ≤ 0
  le_last : 10000 ≤ last

namespace Years

/-- The first instant of a date. There is none if the date is not `Valid`, or if
its year is not one of `years`. -/
def midnight? (years : Years) (date : Date) : Option Instant :=
  if date.Valid ∧ years.first ≤ date.year ∧ date.year ≤ years.last then
    some ⟨dayMilliseconds * date.dayNumber⟩
  else none

/-- The instant so many milliseconds after `moment`. There is none if it lies
beyond `years`. -/
def add? (years : Years) (moment : Instant) (milliseconds : Int) : Option Instant :=
  let sum : Instant := ⟨moment.milliseconds + milliseconds⟩
  if years.first ≤ sum.year ∧ sum.year ≤ years.last then some sum else none

/-- The instant that the fields of `t` name, counted from the first day of their
month on: a day that the month does not have is not a date, but it lies some
days behind one. -/
def instant? (years : Years) (t : Timestamp) : Option Instant := do
  let start ← years.midnight? ⟨t.year, t.month, 1⟩
  years.add? start (dayMilliseconds * (t.day - 1) + t.timeOfDay)

end Years

end ListQuery.Calendar
