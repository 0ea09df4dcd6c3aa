import ListQuery.Proofs.Calendar
import ListQuery.Timestamp

/-!
# Reading the text of an instant

An instant is written as the timestamp that names it, and a text may hold a
timestamp anywhere.

* **`text`**, **`Fits`** — the timestamp with given fields, and the fields that
  its digits have room for. `find?_text` reads them back.
* **`fits_of_find?`** — the fields of any timestamp in a text fit: what stands
  at a `d` is a digit.
* **`ofInstant`** — the fields of the timestamp that names an instant. They are
  in range and name it (`instant_ofInstant`).
* **`read_text_of_year`** — the crux: an instant in the years from 0 to 9999 is
  read back from its text.
* **`read_eq_instant`** — the instants that texts name lie in these years, all
  but the one that ends them, and `text_inj` and `exists_read_text` draw on
  that.
-/

namespace ListQuery

open Text Calendar

-- A power of natural numbers is `Nat.pow`, whatever other instances are at hand.
attribute [local instance (high)] instPowNat

namespace Timestamp

/-! ## Digits -/

theorem length_zeroPadded_of_lt {width n : Nat} (hwidth : 0 < width) (h : n < 10 ^ width) :
    (zeroPadded width n).length = width :=
  length_zeroPadded ((Nat.length_toDigits_le_iff (by decide) hwidth).mpr h)

/-- `zeroPadded` fits as many places for digits as its width, and what stands
behind it decides whether the text `startsWith` the places. Induction on its
digits. -/
theorem startsWith_zeroPadded {width n : Nat} (hwidth : 0 < width) (h : n < 10 ^ width)
    (places rest : List Char) :
    startsWith (List.replicate width 'd' ++ places) (zeroPadded width n ++ rest) =
      startsWith places rest := by
  have hlength := length_zeroPadded_of_lt hwidth h
  have hdigits : ∀ c ∈ zeroPadded width n, c.isDigit = true := fun c => isDigit_of_mem_zeroPadded
  -- nothing matters but that these are digits, as many as there are places
  generalize zeroPadded width n = digits at hlength hdigits
  subst hlength
  clear hwidth h
  induction digits with
  | nil => rfl
  | cons c digits ih =>
    have hc := hdigits c List.mem_cons_self
    have hrest := ih fun d hd => hdigits d (List.mem_cons_of_mem c hd)
    rw [List.length_cons, List.replicate_succ, List.cons_append, List.cons_append, startsWith,
      hrest]
    simp [fits, hc]

/-- A text that `startsWith` some places still does so behind the same number of
places and characters. Induction on their number. -/
theorem startsWith_drop {places text : List Char} (n : Nat) (h : startsWith places text = true) :
    startsWith (places.drop n) (text.drop n) = true := by
  induction n generalizing places text with
  | zero => exact h
  | succ n ih =>
    cases places with
    | nil => rw [List.drop_nil, startsWith]
    | cons place places =>
      cases text with
      | nil => exact absurd h (by simp [startsWith])
      | cons c rest =>
        rw [startsWith, Bool.and_eq_true] at h
        exact ih h.2

/-- The number that `Nat.ofDigitChars` reads from `n` digits has no more of
them. Induction on their count, with any number in front of them. -/
theorem ofDigitChars_lt {places text : List Char} (n init : Nat)
    (h : startsWith (List.replicate n 'd' ++ places) text = true) :
    Nat.ofDigitChars 10 (text.take n) init < (init + 1) * 10 ^ n := by
  induction n generalizing text init with
  | zero => simp
  | succ n ih =>
    cases text with
    | nil => exact absurd h (by simp [List.replicate_succ, startsWith])
    | cons c rest =>
      rw [List.replicate_succ, List.cons_append, startsWith, Bool.and_eq_true] at h
      have hdigit : c.isDigit = true := by simpa [fits] using h.1
      have hvalue : c.toNat - '0'.toNat ≤ 9 :=
        Nat.sub_le_iff_le_add.mpr (Char.isDigit_iff_toNat.mp hdigit).2
      rw [List.take_succ_cons, Nat.ofDigitChars_cons]
      calc Nat.ofDigitChars 10 (rest.take n) (10 * init + (c.toNat - '0'.toNat))
          < (10 * init + (c.toNat - '0'.toNat) + 1) * 10 ^ n := ih _ h.2
        _ ≤ (10 * (init + 1)) * 10 ^ n := Nat.mul_le_mul_right _ (by omega)
        _ = (init + 1) * 10 ^ (n + 1) := by rw [Nat.pow_succ]; ac_rfl

/-! ## The fields of a timestamp -/

/-- `t.Fits` says that the fields have no more digits than a timestamp has
places for them. They need not be in range (`InRange`). -/
structure Fits (t : Timestamp) : Prop where
  year : t.year < 10000
  month : t.month < 100
  day : t.day < 100
  hour : t.hour < 100
  minute : t.minute < 100
  second : t.second < 100
  millisecond : t.millisecond < 1000

/-- The timestamp with these fields: four digits for the year, three for the
milliseconds and two for each field between them, all of them `zeroPadded`. -/
def text (t : Timestamp) : List Char :=
  zeroPadded 4 t.year ++ ['-'] ++ zeroPadded 2 t.month ++ ['-'] ++ zeroPadded 2 t.day ++ ['T'] ++
    zeroPadded 2 t.hour ++ [':'] ++ zeroPadded 2 t.minute ++ [':'] ++ zeroPadded 2 t.second ++
    ['.'] ++ zeroPadded 3 t.millisecond ++ ['Z']

theorem shape_eq : shape =
    List.replicate 4 'd' ++ '-' :: (List.replicate 2 'd' ++ '-' :: (List.replicate 2 'd' ++
      'T' :: (List.replicate 2 'd' ++ ':' :: (List.replicate 2 'd' ++ ':' ::
        (List.replicate 2 'd' ++ '.' :: (List.replicate 3 'd' ++ ['Z'])))))) := by decide

/-- The `text` of fields that fit has the `shape`. -/
theorem startsWith_text {t : Timestamp} (h : t.Fits) : startsWith shape t.text = true := by
  rw [shape_eq, text]
  simp only [List.append_assoc, List.cons_append, List.nil_append]
  -- field by field, each with the character behind it
  rw [startsWith_zeroPadded (by decide) h.year, startsWith,
    startsWith_zeroPadded (by decide) h.month, startsWith,
    startsWith_zeroPadded (by decide) h.day, startsWith,
    startsWith_zeroPadded (by decide) h.hour, startsWith,
    startsWith_zeroPadded (by decide) h.minute, startsWith,
    startsWith_zeroPadded (by decide) h.second, startsWith,
    startsWith_zeroPadded (by decide) h.millisecond]
  rfl

/-- `ofChars` reads the fields of a timestamp again from its `text`, whatever
stands behind. -/
theorem ofChars_text_append {t : Timestamp} (h : t.Fits) (back : List Char) :
    ofChars (t.text ++ back) = t := by
  simp [ofChars, field, text, List.drop_append, List.drop_eq_nil_of_le, ofDigitChars_zeroPadded,
    length_zeroPadded_of_lt, h.year, h.month, h.day, h.hour, h.minute, h.second, h.millisecond]

theorem ofChars_text {t : Timestamp} (h : t.Fits) : ofChars t.text = t := by
  simpa using ofChars_text_append h []

theorem find?_of_startsWith {text : List Char} (h : startsWith shape text = true) :
    find? text = some (ofChars text) := by
  cases text with
  | nil => exact absurd h (by decide)
  | cons c rest => rw [find?, if_pos h]

theorem find?_text {t : Timestamp} (h : t.Fits) : find? t.text = some t := by
  rw [find?_of_startsWith (startsWith_text h), ofChars_text h]

theorem field_lt {text : List Char} {start width : Nat} (h : startsWith shape text = true)
    (hdigits : (shape.drop start).take width = List.replicate width 'd') :
    field text start width < 10 ^ width := by
  have hdrop := startsWith_drop start h
  rw [← List.take_append_drop width (shape.drop start), hdigits] at hdrop
  rw [field]
  simpa using ofDigitChars_lt width 0 hdrop

/-- The fields of any timestamp that `find?` finds fit, as the `shape` has no
more places for them. Induction on the text. -/
theorem fits_of_find? {text : List Char} {t : Timestamp} (h : find? text = some t) : t.Fits := by
  induction text with
  | nil => exact absurd h (by simp [find?])
  | cons c rest ih =>
    rw [find?] at h
    split at h
    · next hstarts =>
      obtain rfl := Option.some.inj h
      -- at the places of each field the shape has nothing but digits
      constructor <;> exact field_lt hstarts (by decide)
    · exact ih h

/-- `read` gives the instant of the timestamp that `find?` finds, if the fields
of that are `InRange`. -/
theorem read_of_find? {text : List Char} {t : Timestamp} (h : find? text = some t)
    (hrange : t.InRange) : read text = .instant t.instant := by
  unfold read
  rw [h]
  exact if_pos hrange

/-- An instant that `read` gives is that of the timestamp that `find?` finds,
and the fields of this are `InRange`. -/
theorem exists_find?_of_read {text : List Char} {moment : Instant}
    (h : read text = .instant moment) :
    ∃ t, find? text = some t ∧ t.InRange ∧ t.instant = moment := by
  unfold read at h
  split at h
  · exact absurd h (by nofun)
  · next t hfind =>
    split at h
    · next hrange => exact ⟨t, hfind, hrange, Reading.instant.inj h⟩
    · exact absurd h (by nofun)

/-- The date of the fields. -/
def date (t : Timestamp) : Date := ⟨t.year, t.month, t.day⟩

theorem milliseconds_eq (t : Timestamp) :
    t.instant.milliseconds = 86400000 * t.date.dayNumber + t.timeOfDay := rfl

/-- `timeOfDay` is not longer than the day. It is as long where the hour is 24,
so that midnight has two names. -/
theorem timeOfDay_le {t : Timestamp} (hfits : t.Fits) (hrange : t.InRange) :
    t.timeOfDay ≤ dayMilliseconds := by
  obtain ⟨_, _, hminute, hsecond, hhour⟩ := hrange
  have hmillisecond : t.millisecond < 1000 := hfits.millisecond
  unfold timeOfDay dayMilliseconds
  omega

/-! ## The fields of an instant -/

/-- The fields of the timestamp that names an instant, by its date and its time
of day. The hour is never 24. -/
def ofInstant (moment : Instant) : Timestamp :=
  let date := Date.ofDayNumber (moment.milliseconds / dayMilliseconds)
  let time := (moment.milliseconds % dayMilliseconds).toNat
  ⟨date.year.toNat, date.month, date.day, time / 3600000, time / 60000 % 60, time / 1000 % 60,
    time % 1000⟩

end Timestamp

namespace Instant

/-- The last instant that a timestamp names, the midnight at the end of the year
9999. Its `text` has a year of five digits. -/
def last : Instant := ⟨253402300800000⟩

/-- The years of these milliseconds are those from 0 to 9999: the bounds are the
first midnight of the year 0 and the one that ends the year 9999. -/
theorem year_of_milliseconds {moment : Instant} (h : -62167219200000 ≤ moment.milliseconds)
    (h' : moment.milliseconds < 253402300800000) : 0 ≤ moment.year ∧ moment.year ≤ 9999 := by
  have hzero : daysBeforeYear 0 = 0 := by decide
  have hend : daysBeforeYear 10000 = 3652425 := by decide
  have hepoch : Date.epoch = 719528 := by decide
  apply Date.year_ofDayNumber
  · unfold dayMilliseconds
    omega
  · unfold dayMilliseconds
    show _ < daysBeforeYear 10000
    omega

end Instant

namespace Timestamp

/-- The fields of `ofInstant` are `InRange`, whatever the year of the instant
is. -/
theorem inRange_ofInstant (moment : Instant) : (ofInstant moment).InRange := by
  obtain ⟨hmonth, hmonth', hday, hday'⟩ :=
    Date.valid_ofDayNumber (moment.milliseconds / dayMilliseconds)
  have htime : (moment.milliseconds % dayMilliseconds).toNat < 86400000 := by
    unfold dayMilliseconds
    omega
  -- the fields of the time are digits of a number below a day, to the bases 60 and 24
  refine ⟨⟨hmonth, hmonth'⟩, ⟨hday, Nat.le_trans hday' (monthLength_le _ _)⟩, ?_, ?_, .inl ?_⟩
  · simp only [ofInstant]
    omega
  · simp only [ofInstant]
    omega
  · simp only [ofInstant]
    omega

/-- The fields of `ofInstant` fit a timestamp up to the year 9999. All of them
are in range, and no range but that of the year is beyond the places for the
field. -/
theorem fits_ofInstant {moment : Instant} (h : moment.year ≤ 9999) : (ofInstant moment).Fits := by
  obtain ⟨⟨_, hmonth⟩, ⟨_, hday⟩, hminute, hsecond, _⟩ := inRange_ofInstant moment
  have hyear : (ofInstant moment).year < 10000 := by
    show moment.year.toNat < 10000
    omega
  have hhour : (ofInstant moment).hour < 100 := by
    show (moment.milliseconds % dayMilliseconds).toNat / 3600000 < 100
    unfold dayMilliseconds
    omega
  have hmillisecond : (ofInstant moment).millisecond < 1000 := Nat.mod_lt _ (by decide)
  exact ⟨hyear, by omega, by omega, hhour, by omega, by omega, hmillisecond⟩

/-- The `timeOfDay` of an instant is what its milliseconds leave over whole
days. -/
theorem timeOfDay_ofInstant (moment : Instant) :
    ((ofInstant moment).timeOfDay : Int) = moment.milliseconds % dayMilliseconds := by
  -- the time of day is taken apart into fields as a natural number
  have hpositive : 0 ≤ moment.milliseconds % dayMilliseconds :=
    Int.emod_nonneg _ (by decide)
  simp only [timeOfDay, ofInstant]
  omega

/-- The fields of `ofInstant` name the instant that they come from, unless its
year is before the year 0, as a field holds no negative number. -/
theorem instant_ofInstant {moment : Instant} (h : 0 ≤ moment.year) :
    (ofInstant moment).instant = moment := by
  have hdate : (ofInstant moment).date =
      Date.ofDayNumber (moment.milliseconds / dayMilliseconds) := by
    have hyear : ((ofInstant moment).year : Int) = moment.year := Int.toNat_of_nonneg h
    rw [date, hyear]
    rfl
  rw [instant, ← date, hdate, Date.dayNumber_ofDayNumber, timeOfDay_ofInstant,
    Int.mul_ediv_add_emod]

/-- `Instant.text` in the years from 0 to 9999 is the timestamp of
`ofInstant`. -/
theorem text_ofInstant {moment : Instant} (h : 0 ≤ moment.year) (h' : moment.year ≤ 9999) :
    (ofInstant moment).text = moment.text := by
  -- a year of four digits has no sign, and the other fields are written alike
  have hyear : Instant.yearText moment.year = zeroPadded 4 (ofInstant moment).year := by
    have habs : moment.year.natAbs = moment.year.toNat := by omega
    rw [Instant.yearText, if_neg (by omega), if_neg (by omega), habs]
    rfl
  rw [text, ← hyear]
  rfl

/-- **An instant in the years from 0 to 9999 is read back from its text**, by
way of its fields: they fit, are in range and name it. -/
theorem read_text_of_year {moment : Instant} (h : 0 ≤ moment.year) (h' : moment.year ≤ 9999) :
    read moment.text = .instant moment := by
  rw [← text_ofInstant h h', read_of_find? (find?_text (fits_ofInstant h'))
    (inRange_ofInstant moment), instant_ofInstant h]

/-! ## The instants that texts name -/

/-- The instants that `read` gives lie in the years from 0 to 9999, but for
`last`, the midnight that ends them. The date of a timestamp lies in these
years, and the time of day leads to the end of the date at most. -/
theorem read_eq_instant {text : List Char} {moment : Instant} (h : read text = .instant moment) :
    (0 ≤ moment.year ∧ moment.year ≤ 9999) ∨ moment = .last := by
  obtain ⟨t, hfind, hrange, rfl⟩ := exists_find?_of_read h
  have hfits := fits_of_find? hfind
  have htime := timeOfDay_le hfits hrange
  have hyear : t.year < 10000 := hfits.year
  obtain ⟨⟨_, hmonth⟩, ⟨hday, hday'⟩, _⟩ := hrange
  -- the date lies in these years, so midnight at its end is at most the one that ends them
  have hfirst : daysBeforeYear 0 ≤ t.date.dayNumber + Date.epoch :=
    Int.le_trans (daysBeforeYear_mono (show (0 : Int) ≤ t.year from by omega))
      (Date.daysBeforeYear_le_dayNumber hday)
  have hlast : t.date.dayNumber + Date.epoch < daysBeforeYear 10000 :=
    Int.lt_of_lt_of_le (Date.dayNumber_lt_daysBeforeYear hmonth hday')
      (daysBeforeYear_mono (show (t.year : Int) + 1 ≤ 10000 from by omega))
  have hmilliseconds := milliseconds_eq t
  have hzero : daysBeforeYear 0 = 0 := by decide
  have hend : daysBeforeYear 10000 = 3652425 := by decide
  have hepoch : Date.epoch = 719528 := by decide
  unfold dayMilliseconds at htime
  by_cases hmidnight : t.instant.milliseconds = 253402300800000
  · exact .inr (congrArg Instant.mk hmidnight)
  · exact .inl (Instant.year_of_milliseconds (by omega) (by omega))

/-- The text of `last` has a fifth digit in front, and what is read in it is the
first instant of the year 0. -/
theorem read_text_last : read Instant.last.text = .instant ⟨-62167219200000⟩ := by decide +kernel

/-- The text of an instant that `read` gives does name an instant, if only
another one, so that it is never taken for a string. -/
theorem exists_read_text {text : List Char} {moment : Instant} (h : read text = .instant moment) :
    ∃ moment', read moment.text = .instant moment' := by
  rcases read_eq_instant h with ⟨hfirst, hlast⟩ | rfl
  · exact ⟨moment, read_text_of_year hfirst hlast⟩
  · exact ⟨_, read_text_last⟩

/-- No instant in the years from 0 to 9999 has the text of `last`. -/
theorem text_ne_text_last {moment : Instant} (h : 0 ≤ moment.year) (h' : moment.year ≤ 9999) :
    moment.text ≠ Instant.last.text := by
  intro heq
  have hread := read_text_of_year h h'
  -- only the very first midnight is found in the text of the last one, and it is written otherwise
  rw [heq, read_text_last] at hread
  obtain rfl := Reading.instant.inj hread
  exact absurd heq (by decide +kernel)

/-- `Instant.text` tells instants that `read` gives apart: each is read back
from its own text, but for `last`, and no other instant is written like that
one. -/
theorem text_inj {text text' : List Char} {moment moment' : Instant}
    (h : read text = .instant moment) (h' : read text' = .instant moment')
    (heq : moment.text = moment'.text) : moment = moment' := by
  rcases read_eq_instant h with ⟨hfirst, hlast⟩ | rfl
  · rcases read_eq_instant h' with ⟨hfirst', hlast'⟩ | rfl
    · have hread := read_text_of_year hfirst hlast
      rw [heq, read_text_of_year hfirst' hlast'] at hread
      exact (Reading.instant.inj hread).symm
    · exact absurd heq (text_ne_text_last hfirst hlast)
  · rcases read_eq_instant h' with ⟨hfirst', hlast'⟩ | rfl
    · exact absurd heq.symm (text_ne_text_last hfirst' hlast')
    · rfl

end Timestamp

end ListQuery
