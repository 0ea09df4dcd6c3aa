import ListQuery.Calendar

/-!
# The days of a year

Years are consecutive stretches of days, and a date of any month and any day up
to the 31st lies in the stretch of its year, whether or not its month has that
day: what is counted on beyond the end of a month stays in the year, because
December has 31 days.
-/

namespace ListQuery.Calendar

/-- A later year starts later. Induction on the years between, by
`daysBeforeYear_add_one`. -/
theorem daysBeforeYear_mono {year year' : Int} (h : year ≤ year') :
    daysBeforeYear year ≤ daysBeforeYear year' := by
  obtain ⟨n, rfl⟩ := Int.le.dest h
  clear h
  induction n with
  | zero => simp
  | succ n ih =>
    have hstep := daysBeforeYear_add_one (year + n)
    rw [show year + (n + 1 : Nat) = year + n + 1 from by omega]
    omega

/-- Thirty-one days from `daysBeforeMonth` on end within the year. For the
months that have fewer days, what is beyond them belongs to the months
behind. -/
theorem daysBeforeMonth_add_le (year : Int) {month : Nat} (h : month ≤ 12) :
    daysBeforeMonth (isLeap year) month + 31 ≤ yearLength year := by
  -- the month with the fewest days left in the year is the last one
  have hall : ∀ leap : Bool, ∀ month ≤ 12,
      daysBeforeMonth leap month + 31 ≤ if leap then 366 else 365 := by decide
  exact hall (isLeap year) month h

theorem monthLength_le (leap : Bool) (month : Nat) : monthLength leap month ≤ 31 := by
  have hall : ∀ leap : Bool, ∀ length ∈ monthLengths leap, length ≤ 31 := by decide
  rw [monthLength]
  cases hget : (monthLengths leap)[month - 1]? with
  | none => exact Nat.zero_le 31
  | some length => exact hall leap length (List.mem_of_getElem? hget)

namespace Date

/-- The `dayNumber` of a date is not in front of its year, whatever its month
and its day are. Only a day zero would be. -/
theorem daysBeforeYear_le_dayNumber {date : Date} (h : 1 ≤ date.day) :
    daysBeforeYear date.year ≤ date.dayNumber + epoch := by
  unfold dayNumber
  omega

/-- A date whose day is at most the 31st does not stand behind its year, also
where its month has no such day (`daysBeforeMonth_add_le`). With the bound from
below, this keeps every timestamp in range in the years of four digits. -/
theorem dayNumber_lt_daysBeforeYear {date : Date} (hmonth : date.month ≤ 12)
    (hday : date.day ≤ 31) : date.dayNumber + epoch < daysBeforeYear (date.year + 1) := by
  have hyear := daysBeforeMonth_add_le date.year hmonth
  rw [dayNumber, daysBeforeYear_add_one]
  omega

/-- The date of a day number lies in the years from `first` to `last` if the
number lies between the start of the one and the start of the year after the
other. -/
theorem year_ofDayNumber {first last number : Int} (hfirst : daysBeforeYear first ≤ number + epoch)
    (hlast : number + epoch < daysBeforeYear (last + 1)) :
    first ≤ (ofDayNumber number).year ∧ (ofDayNumber number).year ≤ last := by
  have hle : daysBeforeYear (ofDayNumber number).year ≤ number + epoch :=
    daysBeforeYear_yearOfDay_le _
  have hlt : number + epoch < daysBeforeYear ((ofDayNumber number).year + 1) :=
    lt_daysBeforeYear_yearOfDay _
  constructor
  · -- an earlier year is over before the first one starts
    apply Int.not_lt.mp
    intro h
    have hover := daysBeforeYear_mono (show (ofDayNumber number).year + 1 ≤ first from h)
    omega
  · -- a later year starts when the last one is over
    apply Int.not_lt.mp
    intro h
    have hover := daysBeforeYear_mono (show last + 1 ≤ (ofDayNumber number).year from h)
    omega

end Date

end ListQuery.Calendar
