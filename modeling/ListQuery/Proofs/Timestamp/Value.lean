import ListQuery.Calendar.Years
import ListQuery.Proofs.Calendar.Count
import ListQuery.Proofs.Timestamp

/-!
# The instant that fields name

Fields in range name an instant. What it is follows from how days are counted,
and a calendar with bounds on its years gives the same one.

* **`milliseconds_instant`** — the days of all years and months between, and the
  time of day.
* **`instant_nextMonth`** — a day that the month does not have is one of the
  next month. December has all days, so this month is in the same year.
* **`instant_bounds`** — the instants from the start of the year 0 to the
  midnight that ends the year 9999.
* **`Years.instant?_eq_some`** — the crux: every month has a first day, and
  counting on from it never leaves the years from 0 to 10000.
-/

namespace ListQuery

open Calendar

namespace Instant

/-- The milliseconds in the years from 0 to 9999 are those between two fixed
ones, so that `Instant.year_of_milliseconds` loses nothing. -/
theorem milliseconds_of_year {moment : Instant} (h : 0 ≤ moment.year) (h' : moment.year ≤ 9999) :
    -62167219200000 ≤ moment.milliseconds ∧ moment.milliseconds < 253402300800000 := by
  have hfirst := daysBeforeYear_mono h
  have hlast := daysBeforeYear_mono (show moment.year + 1 ≤ 10000 by omega)
  have hstart : daysBeforeYear moment.year ≤ moment.milliseconds / dayMilliseconds + Date.epoch :=
    daysBeforeYear_yearOfDay_le _
  have hend : moment.milliseconds / dayMilliseconds + Date.epoch <
      daysBeforeYear (moment.year + 1) := lt_daysBeforeYear_yearOfDay _
  have hzero : daysBeforeYear 0 = 0 := by decide
  have hten : daysBeforeYear 10000 = 3652425 := by decide
  have hepoch : Date.epoch = 719528 := by decide
  unfold dayMilliseconds at hstart hend
  omega

end Instant

namespace Timestamp

/-- The instant that fields `InRange` name, by the days of all years and months
between (`daysToMonth`) and the time of day. -/
theorem milliseconds_instant {t : Timestamp} (h : t.InRange) :
    t.instant.milliseconds =
      86400000 * (daysToMonth t.year t.month + (t.day - 1)) + t.timeOfDay := by
  rw [← Date.dayNumber_eq_daysToMonth h.1.1]
  rfl

/-- The fields with as many days less as their month has, in the next month. -/
def nextMonth (t : Timestamp) : Timestamp :=
  { t with month := t.month + 1, day := t.day - monthLength (isLeap t.year) t.month }

/-- A day that a month does not have is one of `nextMonth`, and names the same
instant there. -/
theorem instant_nextMonth {t : Timestamp} (h : t.InRange)
    (hday : monthLength (isLeap t.year) t.month < t.day) : t.nextMonth.instant = t.instant := by
  have hcount : monthLength (isLeap t.year) t.month + t.nextMonth.day = t.day :=
    Nat.add_sub_cancel' hday.le
  have hnext : t.nextMonth.date.dayNumber = t.date.dayNumber := by
    rw [date, date, ← hcount]
    exact Date.dayNumber_next_month h.1.1
  rw [instant, instant, ← date, ← date, hnext]
  rfl

/-- `nextMonth` has that day. December has all days, so this month is in the
same year, and no month has fewer days than the three that can be left over. -/
theorem valid_nextMonth {t : Timestamp} (h : t.InRange)
    (hday : monthLength (isLeap t.year) t.month < t.day) : t.nextMonth.date.Valid := by
  obtain ⟨⟨hmonth, hmonth'⟩, ⟨_, hday'⟩, _⟩ := h
  -- December has all days, and what is beyond any other month is at most three days
  have hlast := lt_of_monthLength_lt (isLeap t.year) t.month hmonth' (by omega)
  -- the shortest month has 28 days, so the next one has room for what is left
  have hlength := le_monthLength (isLeap t.year) t.month hmonth' hmonth
  have hlength' := le_monthLength (isLeap t.year) (t.month + 1) hlast (by omega)
  refine ⟨Nat.le_add_left 1 _, hlast, Nat.sub_pos_of_lt hday, ?_⟩
  show t.day - monthLength (isLeap t.year) t.month ≤ monthLength (isLeap t.year) (t.month + 1)
  omega

/-- The hour 24 is the midnight at the end of the day, `timeOfDay` being a whole
day. -/
theorem milliseconds_of_hour {t : Timestamp} (h : t.InRange) (hhour : t.hour = 24) :
    t.instant.milliseconds = 86400000 * (daysToMonth t.year t.month + (t.day - 1) + 1) := by
  rcases h.2.2.2.2 with hlt | ⟨-, hminute, hsecond, hmillisecond⟩
  · omega
  · have htime : t.timeOfDay = 86400000 := by
      rw [timeOfDay, hhour, hminute, hsecond, hmillisecond]
    rw [milliseconds_instant h, htime]
    omega

/-- Every timestamp in range can be read, so it names an instant that texts
name, and `read_eq_instant` says which those are. -/
theorem year_or_last {t : Timestamp} (hfits : t.Fits) (h : t.InRange) :
    (0 ≤ t.instant.year ∧ t.instant.year ≤ 9999) ∨ t.instant = .last :=
  read_eq_instant (read_of_find? (find?_text hfits) h)

/-- Fields `InRange` name an instant from the start of the year 0 to the
midnight that ends the year 9999. -/
theorem instant_bounds {t : Timestamp} (hfits : t.Fits) (h : t.InRange) :
    -62167219200000 ≤ t.instant.milliseconds ∧ t.instant.milliseconds ≤ 253402300800000 := by
  rcases year_or_last hfits h with ⟨hfirst, hlast⟩ | hlast
  · obtain ⟨hle, hlt⟩ := Instant.milliseconds_of_year hfirst hlast
    exact ⟨hle, hlt.le⟩
  · rw [hlast]
    decide

theorem year_instant {t : Timestamp} (hfits : t.Fits) (h : t.InRange) :
    0 ≤ t.instant.year ∧ t.instant.year ≤ 10000 := by
  rcases year_or_last hfits h with ⟨hfirst, hlast⟩ | hlast
  · exact ⟨hfirst, by omega⟩
  · rw [hlast]
    decide

end Timestamp

/-! ## Calendars with bounds -/

namespace Calendar.Years

/-- `midnight?` finds the first day of every month in the years from 0 to 9999,
as any bounds of a calendar leave these years in. -/
theorem midnight?_first {years : Years} {year month : Nat} (hyear : year < 10000)
    (hmonth : 1 ≤ month) (hmonth' : month ≤ 12) :
    years.midnight? ⟨year, month, 1⟩ =
      some ⟨dayMilliseconds * (⟨year, month, 1⟩ : Date).dayNumber⟩ := by
  have hfirst := years.first_le
  have hlast := years.le_last
  have hlength := le_monthLength (isLeap year) month hmonth' hmonth
  have hvalid : (⟨year, month, 1⟩ : Date).Valid :=
    ⟨hmonth, hmonth', Nat.le_refl 1, Nat.le_trans (show 1 ≤ 28 by decide) hlength⟩
  have hyears : years.first ≤ (year : Int) ∧ (year : Int) ≤ years.last := ⟨by omega, by omega⟩
  exact if_pos ⟨hvalid, hyears⟩

/-- `instant?` finds the instant of fields `InRange`, in a calendar with any
years: neither of its two steps fails. The first day of the month is there, and
counting on from it leads to the year 10000 at most. -/
theorem instant?_eq_some (years : Years) {t : Timestamp} (hfits : t.Fits) (h : t.InRange) :
    years.instant? t = some t.instant := by
  have hfirst := years.first_le
  have hlast := years.le_last
  obtain ⟨hyear, hyear'⟩ := Timestamp.year_instant hfits h
  have hsum : (⟨dayMilliseconds * (⟨t.year, t.month, 1⟩ : Date).dayNumber +
      (dayMilliseconds * (t.day - 1) + t.timeOfDay)⟩ : Instant) = t.instant := by
    rw [Timestamp.instant, Date.dayNumber_eq_first_add _ _ t.day, Int.mul_add, Int.add_assoc]
  rw [instant?, midnight?_first hfits.year h.1.1 h.1.2, Option.bind_eq_bind, Option.bind_some, add?,
    hsum]
  exact if_pos ⟨by omega, by omega⟩

/-- The end of the 31st of a February with 29 days. -/
example : (⟨-262143, 262142, by decide, by decide⟩ : Years).instant? ⟨2016, 2, 31, 24, 0, 0, 0⟩ =
    some ⟨1456963200000⟩ := by
  decide +kernel

end Calendar.Years

/-! ## What the instant is -/

namespace Timestamp

/-- `t.Names moment` is what there is to say about the instant that fields in
range name: where it lies, what a day beyond the month or the hour 24 means, and
that a calendar with bounds on its years finds it. -/
structure Names (t : Timestamp) (moment : Instant) : Prop where
  milliseconds : moment.milliseconds =
    86400000 * (daysToMonth t.year t.month + (t.day - 1)) + t.timeOfDay
  first_le : -62167219200000 ≤ moment.milliseconds
  le_last : moment.milliseconds ≤ 253402300800000
  /-- A day that the month does not have is one that the next month has. -/
  overflow : monthLength (isLeap t.year) t.month < t.day →
    t.nextMonth.date.Valid ∧ t.nextMonth.instant = moment
  /-- The hour 24 is the midnight at the end of the day. -/
  midnight : t.hour = 24 →
    moment.milliseconds = 86400000 * (daysToMonth t.year t.month + (t.day - 1) + 1)
  /-- A calendar with bounds on its years finds it. -/
  found : ∀ years : Years, years.instant? t = some moment

/-- `t.instant` is what fields `InRange` name, in all that `Names` says about
it. -/
theorem names_instant {t : Timestamp} (hfits : t.Fits) (h : t.InRange) : t.Names t.instant where
  milliseconds := milliseconds_instant h
  first_le := (instant_bounds hfits h).1
  le_last := (instant_bounds hfits h).2
  overflow := fun hday => ⟨valid_nextMonth h hday, instant_nextMonth h hday⟩
  midnight := milliseconds_of_hour h
  found := fun years => years.instant?_eq_some hfits h

end Timestamp

end ListQuery
