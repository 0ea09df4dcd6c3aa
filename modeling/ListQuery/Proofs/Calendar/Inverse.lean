import ListQuery.Proofs.Calendar

/-!
# The date of a day number

A date of the calendar has a day number, and the date of this number is that
date again. With `Date.dayNumber_ofDayNumber` the two conversions are inverse to
each other, before 1970 as after it.

* **`locate_totalLength_take`** — among consecutive stretches of days, a day is
  found where it was counted from.
* **`Date.ofDayNumber_dayNumber`** — the headline: the year is the one that the
  day number lies in, and the month the stretch of it.
-/

namespace ListQuery.Calendar

/-- `locate` finds a day that is counted from the start of a stretch, within its
length, in that stretch. Induction on the stretches, all of each one in front
being passed over. -/
theorem locate_totalLength_take {lengths : List Nat} {n length day : Nat}
    (h : lengths[n]? = some length) (hday : day < length) :
    locate lengths (totalLength (lengths.take n) + day) = (n, day) := by
  induction lengths generalizing n with
  | nil => simp at h
  | cons first rest ih =>
    cases n with
    | zero =>
      obtain rfl : first = length := by simpa using h
      rw [List.take_zero, totalLength, Nat.zero_add, locate, if_pos hday]
    | succ n =>
      -- all of the first stretch is passed over
      have hrest : rest[n]? = some length := by simpa using h
      rw [List.take_succ_cons, totalLength, locate, if_neg (by omega),
        show first + totalLength (rest.take n) + day - first = totalLength (rest.take n) + day
          from by omega, ih hrest]

namespace Date

theorem day_le {date : Date} (h : date.Valid) : date.day ≤ 31 :=
  Nat.le_trans h.2.2.2 (monthLength_le _ _)

/-- `yearOfDay` finds a day of the calendar in its own year: a day number lies
in one year only, and that of a date lies in the year of the date. -/
theorem yearOfDay_dayNumber {date : Date} (h : date.Valid) :
    yearOfDay (date.dayNumber + epoch) = date.year := by
  have hyear : date.year ≤ (ofDayNumber date.dayNumber).year ∧
      (ofDayNumber date.dayNumber).year ≤ date.year :=
    year_ofDayNumber (daysBeforeYear_le_dayNumber h.2.2.1)
      (dayNumber_lt_daysBeforeYear h.2.1 (day_le h))
  exact Int.le_antisymm hyear.2 hyear.1

/-- `locate` finds a day of the calendar in its own month, at its own place.
Both are counted from zero here. -/
theorem locate_dayNumber {date : Date} (h : date.Valid) :
    locate (monthLengths (isLeap date.year))
        (date.dayNumber + epoch - daysBeforeYear date.year).toNat =
      (date.month - 1, date.day - 1) := by
  obtain ⟨_, _, hday, hlength⟩ := h
  have hwithin : (date.dayNumber + epoch - daysBeforeYear date.year).toNat =
      totalLength ((monthLengths (isLeap date.year)).take (date.month - 1)) + (date.day - 1) := by
    unfold dayNumber daysBeforeMonth
    omega
  rw [hwithin]
  unfold monthLength at hlength
  cases hget : (monthLengths (isLeap date.year))[date.month - 1]? with
  | none =>
    -- what is no month has no days, and a day of the calendar is one of its month
    rw [hget, Option.getD_none] at hlength
    omega
  | some length =>
    rw [hget, Option.getD_some] at hlength
    exact locate_totalLength_take hget (by omega)

/-- **The date of a day number is the date that was counted**: `ofDayNumber`
inverts `dayNumber` on days of the calendar. A date like the 31st of February
becomes another one. -/
theorem ofDayNumber_dayNumber {date : Date} (h : date.Valid) :
    ofDayNumber date.dayNumber = date := by
  have hmonth : date.month - 1 + 1 = date.month := Nat.sub_add_cancel h.1
  have hday : date.day - 1 + 1 = date.day := Nat.sub_add_cancel h.2.2.1
  simp only [ofDayNumber, yearOfDay_dayNumber h, locate_dayNumber h]
  rw [hmonth, hday]

end Date

end ListQuery.Calendar
