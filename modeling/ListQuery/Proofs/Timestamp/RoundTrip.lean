import ListQuery.Proofs.Calendar.Inverse
import ListQuery.Proofs.Filter.Clauses
import ListQuery.Proofs.Operand

/-!
# Instants and the texts that they are written as

An instant is written as a timestamp, and a timestamp is read as an instant.

* **`Genuine`** — fields that name a day of the calendar and a time of that day.
  What overflows into the next month or the next day names an instant, too, but
  is not how it is written.
* **`ofInstant_instant`** — the crux: genuine fields are those of the instant
  that they name. The date comes back from its day number, and the time of day
  from its milliseconds.
* **`eq_midnight_of_instant_eq_last`** — one timestamp only names the midnight
  that ends the year 9999, which has no text that is read back.
* **`recognize_toJson_instant`** — the headline: the three round trips, and the
  instant that has none.
-/

namespace ListQuery

open Calendar

namespace Timestamp

/-! ## Genuine fields -/

/-- The fields name a day that their month has, and a time of that day. -/
structure Genuine (t : Timestamp) : Prop where
  date : t.date.Valid
  hour : t.hour ≤ 23
  minute : t.minute ≤ 59
  second : t.second ≤ 59

theorem Genuine.inRange {t : Timestamp} (h : t.Genuine) : t.InRange :=
  ⟨⟨h.date.1, h.date.2.1⟩, ⟨h.date.2.2.1, Date.day_le h.date⟩, h.minute, h.second, .inl h.hour⟩

/-- A time of a genuine day is shorter than the day. -/
theorem timeOfDay_lt {t : Timestamp} (hfits : t.Fits) (h : t.Genuine) :
    t.timeOfDay < dayMilliseconds := by
  have hhour := h.hour
  have hminute := h.minute
  have hsecond := h.second
  have hmillisecond : t.millisecond < 1000 := hfits.millisecond
  unfold timeOfDay dayMilliseconds
  omega

/-- The instant of `Genuine` fields has the day number of their date and their
`timeOfDay`, since this time is shorter than the day. -/
theorem milliseconds_div_mod {t : Timestamp} (hfits : t.Fits) (h : t.Genuine) :
    t.instant.milliseconds / dayMilliseconds = t.date.dayNumber ∧
      (t.instant.milliseconds % dayMilliseconds).toNat = t.timeOfDay := by
  have htime := timeOfDay_lt hfits h
  have hmilliseconds := milliseconds_eq t
  unfold dayMilliseconds at htime ⊢
  omega

/-- `ofInstant` gives `Genuine` fields back from the instant that they name: the
date comes from its day number, and the time of day from its milliseconds. -/
theorem ofInstant_instant {t : Timestamp} (hfits : t.Fits) (h : t.Genuine) :
    ofInstant t.instant = t := by
  obtain ⟨hdate, htime⟩ := milliseconds_div_mod hfits h
  have hhour := h.hour
  have hminute := h.minute
  have hsecond := h.second
  have hmillisecond : t.millisecond < 1000 := hfits.millisecond
  unfold ofInstant
  rw [hdate, htime, Date.ofDayNumber_dayNumber h.date]
  -- the time of day is taken apart into the fields that it was made of
  unfold timeOfDay date
  cases t
  simp only [mk.injEq, Int.toNat_natCast, true_and] at hhour hminute hsecond hmillisecond ⊢
  omega

/-- `Instant.text` writes the instant that `Genuine` fields name as their
timestamp. -/
theorem text_instant {t : Timestamp} (hfits : t.Fits) (h : t.Genuine) :
    t.instant.text = t.text := by
  have hyear : t.instant.year = t.year := by
    unfold Instant.year
    rw [(milliseconds_div_mod hfits h).1, Date.ofDayNumber_dayNumber h.date]
    rfl
  have hlt : t.year < 10000 := hfits.year
  rw [← text_ofInstant (by omega) (by omega), ofInstant_instant hfits h]

/-! ## The last instant -/

/-- The midnight at the end of the year 9999, as the one timestamp that names
it. -/
def midnight : Timestamp := ⟨9999, 12, 31, 24, 0, 0, 0⟩

/-- Among dates up to the year 9999 only the last day of this year has its day
number: an earlier year is over before it. -/
theorem lastDay_of_dayNumber {date : Date} (hmonth : 1 ≤ date.month) (hmonth' : date.month ≤ 12)
    (hday' : date.day ≤ 31) (hyear : date.year ≤ 9999) (h : date.dayNumber = 2932896) :
    date = ⟨9999, 12, 31⟩ := by
  have hend : daysBeforeYear 9999 = 3652060 := by decide
  have hepoch : Date.epoch = 719528 := by decide
  -- an earlier year is over before that day
  have hlate : 9999 ≤ date.year := by
    by_contra hearly
    have hlt := Date.dayNumber_lt_daysBeforeYear hmonth' hday'
    have hmono := daysBeforeYear_mono (show date.year + 1 ≤ 9999 from by omega)
    omega
  have hmonths : ∀ month ≤ 12, 1 ≤ month → ∀ day ≤ 31,
      daysBeforeMonth (isLeap 9999) month + day = 365 → month = 12 ∧ day = 31 := by decide
  obtain ⟨year, month, day⟩ := date
  obtain rfl : year = 9999 := Int.le_antisymm hyear hlate
  simp only [Date.dayNumber] at h hmonth hmonth' hday'
  obtain ⟨rfl, rfl⟩ := hmonths month hmonth' hmonth day hday' (by omega)
  rfl

/-- `midnight` is the only timestamp that names `last`: it is the end of the
last day of the year 9999, as the day that begins there has a year of five
digits. -/
theorem eq_midnight_of_instant_eq_last {t : Timestamp} (hfits : t.Fits) (hrange : t.InRange)
    (h : t.instant = .last) : t = midnight := by
  have htime := timeOfDay_le hfits hrange
  have hyear : t.year < 10000 := hfits.year
  have hmillisecond : t.millisecond < 1000 := hfits.millisecond
  have hmilliseconds : 86400000 * t.date.dayNumber + t.timeOfDay = 253402300800000 :=
    congrArg Instant.milliseconds h
  obtain ⟨⟨hmonth, hmonth'⟩, ⟨_, hday'⟩, hminute, hsecond, hhour⟩ := hrange
  have hend : daysBeforeYear 10000 = 3652425 := by decide
  have hepoch : Date.epoch = 719528 := by decide
  -- no day begins at that instant, so it is the end of the one in front of it
  have hlast : t.date.dayNumber + Date.epoch < daysBeforeYear 10000 :=
    Int.lt_of_lt_of_le (Date.dayNumber_lt_daysBeforeYear hmonth' hday')
      (daysBeforeYear_mono (show (t.year : Int) + 1 ≤ 10000 from by omega))
  unfold dayMilliseconds at htime
  have hdate : t.date = ⟨9999, 12, 31⟩ :=
    lastDay_of_dayNumber hmonth hmonth' hday' (show (t.year : Int) ≤ 9999 by omega) (by omega)
  have hday : t.timeOfDay = 86400000 := by omega
  unfold timeOfDay at hday
  unfold date at hdate
  cases t
  simp only [Date.mk.injEq] at hdate hhour hminute hsecond hmillisecond hday
  simp only [midnight, mk.injEq]
  omega

end Timestamp

/-! ## Round trips -/

namespace Operand

open Timestamp (HasShape IsLeftmost Genuine)

/-- `Rereads moment moment'` says that the text which the one instant is written
as spells the other one. -/
def Rereads (moment moment' : Instant) : Prop :=
  ∃ string, (Operand.instant moment).toJson = .string string ∧
    (Operand.text string).recognize = .instant moment'

theorem recognize_text_of_read {string : String} {moment : Instant}
    (h : Timestamp.read string.toList = .instant moment) :
    (Operand.text string).recognize = .instant moment := by
  obtain ⟨t, hfind, hrange, rfl⟩ := Timestamp.exists_find?_of_read h
  rw [recognize_text_of_isLeftmost (Timestamp.find?_eq_some_iff.mp hfind), if_pos hrange]

/-- A text that `recognize` types as an instant names it: the other two ways in
which a text is typed give no instant. -/
theorem read_of_recognize_text {string : String} {moment : Instant}
    (h : (Operand.text string).recognize = .instant moment) :
    Timestamp.read string.toList = .instant moment := by
  rw [recognize] at h
  rcases ofText_cases string with hnull | ⟨moment', hread, hinstant⟩ | ⟨_, htext⟩
  · rw [hnull] at h
    cases h
  · rw [hinstant] at h
    rwa [Operand.instant.inj h] at hread
  · rw [htext] at h
    cases h

theorem rereads_of_read_text {moment moment' : Instant}
    (h : Timestamp.read moment.text = .instant moment') : Rereads moment moment' := by
  refine ⟨String.ofList moment.text, rfl, recognize_text_of_read ?_⟩
  rwa [String.toList_ofList]

/-- **Instants and the texts that they are written as.** Genuine timestamps
spell the instant that is written so, and the instants of the years from 0 to
9999 are spelled by what they are written as. So is every instant that a text
spells, but for the last one: it has one timestamp only, is written with a fifth
digit, and the first instant is read in that. -/
theorem recognize_toJson_instant :
    (∀ window : String, HasShape window.toList → (Timestamp.ofChars window.toList).Genuine →
      ∃ moment, (Operand.text window).recognize = .instant moment ∧
        (Operand.instant moment).toJson = .string window) ∧
    (∀ moment : Instant,
      (⟨0, 1, 1, 0, 0, 0, 0⟩ : Timestamp).instant.milliseconds ≤ moment.milliseconds →
      moment.milliseconds ≤ (⟨9999, 12, 31, 23, 59, 59, 999⟩ : Timestamp).instant.milliseconds →
      Rereads moment moment) ∧
    (∀ string moment, (Operand.text string).recognize = .instant moment →
      (moment ≠ .last → Rereads moment moment) ∧
      (moment = .last ↔ IsLeftmost ⟨9999, 12, 31, 24, 0, 0, 0⟩ string.toList)) ∧
    (Operand.instant .last).toJson = .string "+10000-01-01T00:00:00.000Z" ∧
    Rereads .last (⟨0, 1, 1, 0, 0, 0, 0⟩ : Timestamp).instant := by
  have hfirst : (⟨0, 1, 1, 0, 0, 0, 0⟩ : Timestamp).instant = ⟨-62167219200000⟩ := by decide
  have hlast : (⟨9999, 12, 31, 23, 59, 59, 999⟩ : Timestamp).instant = ⟨253402300799999⟩ := by
    decide
  rw [hfirst, hlast]
  refine ⟨fun window hshape hgenuine => ?_, fun moment h h' => ?_, fun string moment h => ⟨?_, ?_⟩,
    ?_, rereads_of_read_text Timestamp.read_text_last⟩
  · -- the fields of a genuine timestamp are those of the instant that it names
    obtain ⟨t, hfits, htext⟩ := Timestamp.hasShape_iff.mp hshape
    rw [← htext, Timestamp.ofChars_text hfits] at hgenuine
    refine ⟨t.instant, recognize_text_of_read ?_, ?_⟩
    · rw [← htext]
      exact Timestamp.read_of_find? (Timestamp.find?_text hfits) hgenuine.inRange
    · show Json.string (String.ofList t.instant.text) = _
      rw [Timestamp.text_instant hfits hgenuine, htext, String.ofList_toList]
  · obtain ⟨hyear, hyear'⟩ := Instant.year_of_milliseconds h (Int.lt_of_le_of_lt h' (by decide))
    exact rereads_of_read_text (Timestamp.read_text_of_year hyear hyear')
  · intro hne
    rcases Timestamp.read_eq_instant (read_of_recognize_text h) with ⟨hyear, hyear'⟩ | heq
    · exact rereads_of_read_text (Timestamp.read_text_of_year hyear hyear')
    · exact absurd heq hne
  · -- only one timestamp in range names the last instant
    obtain ⟨t, hfind, hrange, hinstant⟩ := Timestamp.exists_find?_of_read (read_of_recognize_text h)
    rw [← Timestamp.find?_eq_some_iff, hfind, Option.some_inj]
    constructor
    · rintro rfl
      exact Timestamp.eq_midnight_of_instant_eq_last (Timestamp.fits_of_find? hfind) hrange hinstant
    · rintro rfl
      rw [← hinstant]
      decide
  · show Json.string (String.ofList Instant.last.text) = _
    rw [show Instant.last.text = "+10000-01-01T00:00:00.000Z".toList from by decide +kernel,
      String.ofList_toList]

/-- `recognize_toJson_instant` at the last millisecond of a leap day, the last
one before 1970, and the last instant behind other characters. -/
theorem recognize_toJson_instant_leap_day :
    HasShape "2000-02-29T23:59:59.999Z".toList ∧
      (Timestamp.ofChars "2000-02-29T23:59:59.999Z".toList).Genuine ∧
      (∃ moment, (Operand.text "2000-02-29T23:59:59.999Z").recognize = .instant moment ∧
        (Operand.instant moment).toJson = .string "2000-02-29T23:59:59.999Z") ∧
      Rereads ⟨-1⟩ ⟨-1⟩ ∧
      (Operand.text "till 9999-12-31T24:00:00.000Z").recognize = .instant .last ∧
      IsLeftmost ⟨9999, 12, 31, 24, 0, 0, 0⟩ "till 9999-12-31T24:00:00.000Z".toList := by
  have hshape : HasShape "2000-02-29T23:59:59.999Z".toList := by
    unfold HasShape
    decide
  have hgenuine : (Timestamp.ofChars "2000-02-29T23:59:59.999Z".toList).Genuine :=
    ⟨by decide, by decide, by decide, by decide⟩
  have hlast : (Operand.text "till 9999-12-31T24:00:00.000Z").recognize = .instant .last :=
    recognize_text_of_read (by decide +kernel)
  obtain ⟨hwindow, hmoment, hstring, -⟩ := recognize_toJson_instant
  exact ⟨hshape, hgenuine, hwindow _ hshape hgenuine, hmoment ⟨-1⟩ (by decide) (by decide), hlast,
    ((hstring _ _ hlast).2).mp rfl⟩

end Operand

end ListQuery
