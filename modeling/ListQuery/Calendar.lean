/-!
# The proleptic Gregorian calendar

Days counted from 1970-01-01, in every year there is, those before the first
included. A date has a day number (`Date.dayNumber`) and a day number is that of
a date (`Date.ofDayNumber`), which names a day of the calendar
(`valid_ofDayNumber`) and has that number (`dayNumber_ofDayNumber`).
-/

namespace ListQuery.Calendar

/-! ### Years -/

/-- `isLeap year` is true if `year` has a 29th of February: every fourth year
but three of the full centuries in 400 years. -/
def isLeap (year : Int) : Bool := year % 4 = 0 && (year % 100 ≠ 0 || year % 400 = 0)

/-- The number of days of a year. -/
def yearLength (year : Int) : Nat := if isLeap year then 366 else 365

/-- The days from the start of the year 0 to the start of `year`, negative for a
year before it. The year 0 is a leap year, which is the one at the end. A closed
form and no sum, so that it is defined for every year there is. -/
def daysBeforeYear (year : Int) : Int :=
  let past := year - 1
  365 * year + past / 4 - past / 100 + past / 400 + 1

/-- The year of a day that is counted from the start of the year 0. The mean
length of a year, 146097 days in 400 years, misses it by one at most, so
`daysBeforeYear` tells in which direction to move. -/
def yearOfDay (day : Int) : Int :=
  let mean := day * 400 / 146097
  if day < daysBeforeYear mean then mean - 1
  else if daysBeforeYear (mean + 1) ≤ day then mean + 1
  else mean

/-- A year starts where the year before it ends. The divisions by 4, 100 and 400
are those of `isLeap`, so the cases of its rule are all there is to look at. -/
theorem daysBeforeYear_add_one (year : Int) :
    daysBeforeYear (year + 1) = daysBeforeYear year + yearLength year := by
  simp only [daysBeforeYear, yearLength, isLeap]
  by_cases h4 : year % 4 = 0 <;> by_cases h100 : year % 100 = 0 <;>
    by_cases h400 : year % 400 = 0 <;> simp [h4, h100, h400] <;> omega

/-- A day does not stand in front of the year that `yearOfDay` gives it. With
`lt_daysBeforeYear_yearOfDay` this says that the day is in that year. -/
theorem daysBeforeYear_yearOfDay_le (day : Int) : daysBeforeYear (yearOfDay day) ≤ day := by
  simp only [yearOfDay]
  split
  · simp only [daysBeforeYear]
    omega
  · split <;> omega

/-- A day does not stand behind the year that `yearOfDay` gives it. -/
theorem lt_daysBeforeYear_yearOfDay (day : Int) : day < daysBeforeYear (yearOfDay day + 1) := by
  simp only [yearOfDay]
  split
  · simpa using by assumption
  · split
    · simp only [daysBeforeYear]
      omega
    · omega

/-! ### Months -/

def monthLengths (leap : Bool) : List Nat :=
  [31, if leap then 29 else 28, 31, 30, 31, 30, 31, 31, 30, 31, 30, 31]

/-- The days in all of the given stretches of days. -/
def totalLength : List Nat → Nat
  | [] => 0
  | length :: rest => length + totalLength rest

/-- The days from the start of a year to the start of its month. -/
def daysBeforeMonth (leap : Bool) (month : Nat) : Nat :=
  totalLength ((monthLengths leap).take (month - 1))

/-- The number of days of a month, and zero for what is no month. Months are
counted from 1, as in a date. -/
def monthLength (leap : Bool) (month : Nat) : Nat := ((monthLengths leap)[month - 1]?).getD 0

/-- Where a day stands among stretches of days with these lengths: the stretches
before it, and the days before it in its own. -/
def locate : List Nat → Nat → Nat × Nat
  | [], day => (0, day)
  | length :: rest, day =>
    if day < length then (0, day)
    else
      let (before, within) := locate rest (day - length)
      (before + 1, within)

/-- What `locate` returns adds up to the day: the stretches before it and the
days before it in its own. Induction on the stretches. -/
theorem totalLength_take_locate (lengths : List Nat) (day : Nat) :
    totalLength (lengths.take (locate lengths day).1) + (locate lengths day).2 = day := by
  induction lengths generalizing day with
  | nil => simp [locate, totalLength]
  | cons length rest ih =>
    unfold locate
    split
    · simp [totalLength]
    · have := ih (day - length)
      simp only [List.take_succ_cons, totalLength]
      omega

/-- A day that lies in the stretches is located in one of them, within its
length. Induction on the stretches, as `locate` takes them off one by one. -/
theorem locate_lt {lengths : List Nat} {day : Nat} (h : day < totalLength lengths) :
    ∃ length, lengths[(locate lengths day).1]? = some length ∧ (locate lengths day).2 < length := by
  induction lengths generalizing day with
  | nil => simp [totalLength] at h
  | cons length rest ih =>
    unfold locate
    split
    · next hday => exact ⟨length, rfl, hday⟩
    · rw [totalLength] at h
      have hrest : day - length < totalLength rest := by omega
      obtain ⟨found, hget, hlt⟩ := ih hrest
      exact ⟨found, by simpa using hget, hlt⟩

theorem totalLength_monthLengths (year : Int) :
    totalLength (monthLengths (isLeap year)) = yearLength year := by
  unfold yearLength monthLengths
  cases isLeap year <;> rfl

/-! ### Dates -/

/-- A date, `Valid` or not: its month may have no such day. -/
structure Date where
  year : Int
  month : Nat
  day : Nat
  deriving DecidableEq, Repr

namespace Date

/-- The date is a day of the calendar: its month is one of twelve, and the month
has such a day. -/
def Valid (date : Date) : Prop :=
  1 ≤ date.month ∧ date.month ≤ 12 ∧ 1 ≤ date.day ∧
    date.day ≤ monthLength (isLeap date.year) date.month

/-- The days from the start of the year 0 to 1970-01-01. -/
def epoch : Int := daysBeforeYear 1970

/-- The days from 1970-01-01 to a date. The days of a month are counted on from
its first one, so a day beyond `monthLength` is a day of the next month: this is
how the 31st of February is read. -/
def dayNumber (date : Date) : Int :=
  daysBeforeYear date.year + daysBeforeMonth (isLeap date.year) date.month + (date.day - 1) - epoch

/-- The date that is so many days after 1970-01-01: its year by `yearOfDay`, and
its month and day by `locate` among the months of that year. -/
def ofDayNumber (number : Int) : Date :=
  let day := number + epoch
  let year := yearOfDay day
  let (month, within) := locate (monthLengths (isLeap year)) (day - daysBeforeYear year).toNat
  ⟨year, month + 1, within + 1⟩

/-- The date of a day number has that day number. What is left of the day in its
year is split by `locate` and put together again. -/
theorem dayNumber_ofDayNumber (number : Int) : (ofDayNumber number).dayNumber = number := by
  have hle := daysBeforeYear_yearOfDay_le (number + epoch)
  have htotal := totalLength_take_locate (monthLengths (isLeap (yearOfDay (number + epoch))))
    (number + epoch - daysBeforeYear (yearOfDay (number + epoch))).toNat
  simp only [dayNumber, ofDayNumber, daysBeforeMonth, Nat.add_sub_cancel]
  omega

/-- The date of a day number is a day of the calendar: `locate` stays within the
month that it finds, since the months make up the year. -/
theorem valid_ofDayNumber (number : Int) : (ofDayNumber number).Valid := by
  have hle := daysBeforeYear_yearOfDay_le (number + epoch)
  have hlt := lt_daysBeforeYear_yearOfDay (number + epoch)
  rw [daysBeforeYear_add_one] at hlt
  have htotal : (number + epoch - daysBeforeYear (yearOfDay (number + epoch))).toNat <
      totalLength (monthLengths (isLeap (yearOfDay (number + epoch)))) := by
    rw [totalLength_monthLengths]
    omega
  obtain ⟨length, hget, hday⟩ := locate_lt htotal
  have hmonth := (List.getElem?_eq_some_iff.mp hget).1
  have htwelve : (monthLengths (isLeap (yearOfDay (number + epoch)))).length = 12 := rfl
  refine ⟨?_, ?_, ?_, ?_⟩ <;> simp only [ofDayNumber]
  · omega
  · omega
  · omega
  · simp only [monthLength, Nat.add_sub_cancel, hget, Option.getD_some]
    omega

example : (⟨2017, 2, 31⟩ : Date).dayNumber = (⟨2017, 3, 3⟩ : Date).dayNumber := by decide
example : ofDayNumber (-719528) = ⟨0, 1, 1⟩ := by decide

end Date

end ListQuery.Calendar
