import Mathlib.Data.String.Basic
import ListQuery.Proofs.Calendar.Count
import ListQuery.Proofs.Timestamp.RoundTrip

/-!
# Timestamps in order

Fields are written from the greatest to the least, each with as many digits as
any other of its kind, so that timestamps are in order as texts when they are in
order as instants.

* **`ofDigitChars_lt_iff`** — digits are compared as the numbers that they stand
  for, by induction on how many there are: what was read before them decides
  first.
* **`text_lt_text_iff`** — so texts are compared field by field.
* **`Date.dayNumber_lt`** — the crux: a later date of the calendar is a later
  day, whichever field makes it later.
* **`milliseconds_lt`**, **`milliseconds_le`** — the same for instants. Days
  that a month does not have spoil it beyond the month only, and the hour 24
  makes two timestamps name one instant.
* **`instant_lt_iff_lt`** — the headline.
-/

namespace ListQuery

open Text Calendar

-- A power of natural numbers is `Nat.pow`, whatever other instances are at hand.
attribute [local instance (high)] instPowNat

/-! ## Texts in order -/

namespace Text

/-- Of two lists that are each made of two parts, with front parts of the same
length, `front` and `front'` decide unless they are the same. Induction on
`front`. -/
theorem append_lt_append_iff {α : Type} [LT α] {front front' : List α} (back back' : List α)
    (h : front.length = front'.length) :
    front ++ back < front' ++ back' ↔ front < front' ∨ front = front' ∧ back < back' := by
  induction front generalizing front' with
  | nil =>
    obtain rfl := List.length_eq_zero_iff.mp h.symm
    simp
  | cons a rest ih =>
    obtain ⟨a', rest', rfl⟩ := List.exists_cons_of_length_eq_add_one h.symm
    rw [List.cons_append, List.cons_append, List.cons_lt_cons_iff, List.cons_lt_cons_iff,
      ih (by simpa using h), List.cons.injEq]
    tauto

/-- `Nat.ofDigitChars` puts digits in the order of their texts, if what was read
before them is the same, and else in the order of that. Induction on the
digits. -/
theorem ofDigitChars_lt_iff {digits digits' : List Char} {init init' : Nat}
    (hdigits : ∀ c ∈ digits, c.isDigit = true) (hdigits' : ∀ c ∈ digits', c.isDigit = true)
    (hlength : digits.length = digits'.length) :
    Nat.ofDigitChars 10 digits init < Nat.ofDigitChars 10 digits' init' ↔
      init < init' ∨ init = init' ∧ digits < digits' := by
  induction digits generalizing digits' init init' with
  | nil =>
    obtain rfl := List.length_eq_zero_iff.mp hlength.symm
    simp
  | cons c rest ih =>
    obtain ⟨c', rest', rfl⟩ := List.exists_cons_of_length_eq_add_one hlength.symm
    obtain ⟨hc, hrest⟩ := List.forall_mem_cons.mp hdigits
    obtain ⟨hc', hrest'⟩ := List.forall_mem_cons.mp hdigits'
    have hdigit := Char.isDigit_iff_toNat.mp hc
    have hdigit' := Char.isDigit_iff_toNat.mp hc'
    simp only [Char.reduceToNat] at hdigit hdigit'
    have hlt : c < c' ↔ c.toNat < c'.toNat := Iff.rfl
    rw [Nat.ofDigitChars_cons, Nat.ofDigitChars_cons, ih hrest hrest' (by simpa using hlength),
      List.cons_lt_cons_iff, hlt, ← Char.toNat_inj]
    simp only [Char.reduceToNat]
    -- a digit adds less than one more in what was read before it would
    by_cases hbehind : rest < rest' <;> simp only [hbehind, and_true, and_false, or_false] <;> omega

theorem length_zeroPadded_eq {width m n : Nat} (hwidth : 0 < width) (hm : m < 10 ^ width)
    (hn : n < 10 ^ width) : (zeroPadded width m).length = (zeroPadded width n).length := by
  rw [Timestamp.length_zeroPadded_of_lt hwidth hm, Timestamp.length_zeroPadded_of_lt hwidth hn]

/-- `zeroPadded` numbers are in order as texts when they are in order as
numbers. -/
theorem zeroPadded_lt_iff {width m n : Nat} (hwidth : 0 < width) (hm : m < 10 ^ width)
    (hn : n < 10 ^ width) : zeroPadded width m < zeroPadded width n ↔ m < n := by
  have hnumbers :
      Nat.ofDigitChars 10 (zeroPadded width m) 0 < Nat.ofDigitChars 10 (zeroPadded width n) 0 ↔
        0 < 0 ∨ 0 = 0 ∧ zeroPadded width m < zeroPadded width n :=
    ofDigitChars_lt_iff (fun _ => isDigit_of_mem_zeroPadded) (fun _ => isDigit_of_mem_zeroPadded)
      (length_zeroPadded_eq hwidth hm hn)
  rw [ofDigitChars_zeroPadded, ofDigitChars_zeroPadded] at hnumbers
  simpa using hnumbers.symm

/-- A `zeroPadded` number decides over what is written behind it, unless it is
the same. One character stands between, so this can be used field by field. -/
theorem zeroPadded_append_lt_iff {width m n : Nat} {sep : Char} {back back' : List Char}
    (hwidth : 0 < width) (hm : m < 10 ^ width) (hn : n < 10 ^ width) :
    zeroPadded width m ++ sep :: back < zeroPadded width n ++ sep :: back' ↔
      m < n ∨ m = n ∧ back < back' := by
  have hlength := length_zeroPadded_eq hwidth hm hn
  have hinj : zeroPadded width m = zeroPadded width n ↔ m = n := by
    refine ⟨fun h => ?_, fun h => h ▸ rfl⟩
    rw [← ofDigitChars_zeroPadded width m, h, ofDigitChars_zeroPadded]
  rw [append_lt_append_iff _ _ hlength, zeroPadded_lt_iff hwidth hm hn, hinj]
  simp

end Text

/-! ## Dates in order -/

namespace Calendar

namespace Date

variable {date date' : Date}

/-- `date.Before date'` says that the date is earlier by its year, by its month
in the same year or by its day in the same month. -/
def Before (date date' : Date) : Prop :=
  date.year < date'.year ∨ date.year = date'.year ∧
    (date.month < date'.month ∨ date.month = date'.month ∧ date.day < date'.day)

/-- A date of the calendar that is `Before` another has the lesser `dayNumber`,
whichever field makes it earlier. -/
theorem dayNumber_lt (h : date.Valid) (h' : date'.Valid) (hbefore : date.Before date') :
    date.dayNumber < date'.dayNumber := by
  rcases hbefore with hyear | ⟨hyear, hmonth | ⟨hmonth, hday⟩⟩
  · -- the year of the one is over when that of the other starts
    have hend := dayNumber_lt_daysBeforeYear h.2.1 (day_le h)
    have hyears := daysBeforeYear_mono (show date.year + 1 ≤ date'.year from hyear)
    have hstart := daysBeforeYear_le_dayNumber h'.2.2.1
    omega
  · have hmonths := daysBeforeMonth_add_le_of_lt (isLeap date'.year) h.1 hmonth
    have hlast := h.2.2.2
    have hfirst := h'.2.2.1
    rw [hyear] at hlast
    rw [dayNumber, dayNumber, hyear]
    omega
  · rw [dayNumber, dayNumber, hyear, hmonth]
    omega

end Date

end Calendar

/-! ## Timestamps in order -/

namespace Timestamp

variable {t t' : Timestamp}

/-- `t.EarlierInDay t'` says that the time of day is earlier by its hour, by its
minute in the same hour, and so on down to the millisecond. -/
def EarlierInDay (t t' : Timestamp) : Prop :=
  t.hour < t'.hour ∨ t.hour = t'.hour ∧
    (t.minute < t'.minute ∨ t.minute = t'.minute ∧
      (t.second < t'.second ∨ t.second = t'.second ∧ t.millisecond < t'.millisecond))

/-- `t.Before t'` says that the timestamp is earlier by its date, or by its time
on the same date. -/
def Before (t t' : Timestamp) : Prop := t.date.Before t'.date ∨ t.date = t'.date ∧ t.EarlierInDay t'

/-- The `text` of one timestamp is in front of that of another exactly if its
fields are `Before`, from the year down to the millisecond. Every field is
written with as many digits as any other of its kind, so the first that differs
decides. -/
theorem text_lt_text_iff (h : t.Fits) (h' : t'.Fits) : t.text < t'.text ↔ t.Before t' := by
  rw [text, text]
  simp only [List.append_assoc, List.cons_append, List.nil_append]
  rw [zeroPadded_append_lt_iff (by decide) h.year h'.year,
    zeroPadded_append_lt_iff (by decide) h.month h'.month,
    zeroPadded_append_lt_iff (by decide) h.day h'.day,
    zeroPadded_append_lt_iff (by decide) h.hour h'.hour,
    zeroPadded_append_lt_iff (by decide) h.minute h'.minute,
    zeroPadded_append_lt_iff (by decide) h.second h'.second,
    zeroPadded_append_lt_iff (by decide) h.millisecond h'.millisecond]
  simp only [Before, Date.Before, EarlierInDay, date, Date.mk.injEq, Int.ofNat_lt, Int.ofNat_inj,
    List.not_lt_nil, and_false, or_false]
  tauto

/-- A time that is `EarlierInDay` has fewer milliseconds behind midnight. The
later one need not be in range for that. -/
theorem timeOfDay_lt_of_earlierInDay (hfits : t.Fits) (h : t.InRange)
    (hearlier : t.EarlierInDay t') : t.timeOfDay < t'.timeOfDay := by
  have hminute := h.2.2.1
  have hsecond := h.2.2.2.1
  have hmillisecond := hfits.millisecond
  unfold EarlierInDay at hearlier
  unfold timeOfDay
  omega

/-- On one date the time decides that is `EarlierInDay`, be the other one 24
hours. -/
theorem milliseconds_lt_of_date_eq (hfits : t.Fits) (h : t.InRange) (hdate : t.date = t'.date)
    (hearlier : t.EarlierInDay t') : t.instant.milliseconds < t'.instant.milliseconds := by
  have htime := timeOfDay_lt_of_earlierInDay hfits h hearlier
  rw [milliseconds_eq, milliseconds_eq, hdate]
  omega

/-- Of `Genuine` timestamps the one that is `Before` the other names the earlier
instant: its day is over before a later one begins. -/
theorem milliseconds_lt (hfits : t.Fits) (h : t.Genuine) (h' : t'.Genuine) (hbefore : t.Before t') :
    t.instant.milliseconds < t'.instant.milliseconds := by
  rcases hbefore with hdate | ⟨hdate, hearlier⟩
  · have hday := Date.dayNumber_lt h.date h'.date hdate
    have htime := timeOfDay_lt hfits h
    rw [milliseconds_eq, milliseconds_eq]
    unfold dayMilliseconds at htime
    omega
  · exact milliseconds_lt_of_date_eq hfits h.inRange hdate hearlier

/-- Within a month a timestamp `InRange` that is `Before` another names no later
instant: days are counted on evenly, whether or not the month has them. The hour
24 makes two timestamps name one instant, so the order is not strict. -/
theorem milliseconds_le (hfits : t.Fits) (h : t.InRange) (hyear : t.year = t'.year)
    (hmonth : t.month = t'.month) (hbefore : t.Before t') :
    t.instant.milliseconds ≤ t'.instant.milliseconds := by
  rcases hbefore with hdate | ⟨hdate, hearlier⟩
  · have hday : t.day < t'.day := by
      simpa [Date.Before, date, hyear, hmonth] using hdate
    -- with its hour 24 a day reaches the start of the next one, and no further
    have htime := timeOfDay_le hfits h
    have hnumber : t'.date.dayNumber = t.date.dayNumber + (t'.day - t.day : Int) := by
      simp only [date, Date.dayNumber, hyear, hmonth]
      omega
    rw [milliseconds_eq, milliseconds_eq, hnumber]
    unfold dayMilliseconds at htime
    omega
  · exact (milliseconds_lt_of_date_eq hfits h hdate hearlier).le

end Timestamp

namespace Operand

open Timestamp (HasShape ofChars)

/-- `recognize` types a text that `HasShape` by its own fields, as the leftmost
timestamp in it is the text itself. -/
theorem recognize_text_of_hasShape {string : String} (h : HasShape string.toList) :
    (ofChars string.toList).Fits ∧ (ofChars string.toList).text = string.toList ∧
      (Operand.text string).recognize =
        if (ofChars string.toList).InRange then .instant (ofChars string.toList).instant
        else .text string := by
  obtain ⟨t, hfits, htext⟩ := Timestamp.hasShape_iff.mp h
  have hfind := Timestamp.find?_text hfits
  rw [htext] at hfind
  rw [← htext, Timestamp.ofChars_text hfits]
  exact ⟨hfits, rfl, recognize_text_of_isLeftmost (Timestamp.find?_eq_some_iff.mp hfind)⟩

/-- The fields of a timestamp that is typed are `InRange`, and it is typed as
what they name. -/
theorem inRange_of_recognize_text {string : String} {moment : Instant} (h : HasShape string.toList)
    (hmoment : (Operand.text string).recognize = .instant moment) :
    (ofChars string.toList).InRange ∧ (ofChars string.toList).instant = moment := by
  obtain ⟨-, -, hrecognize⟩ := recognize_text_of_hasShape h
  rw [hmoment] at hrecognize
  split at hrecognize
  · next hrange => exact ⟨hrange, (Operand.instant.inj hrecognize).symm⟩
  · nomatch hrecognize

theorem lt_iff_before {string string' : String} (h : HasShape string.toList)
    (h' : HasShape string'.toList) :
    string < string' ↔ (ofChars string.toList).Before (ofChars string'.toList) := by
  obtain ⟨hfits, htext, -⟩ := recognize_text_of_hasShape h
  obtain ⟨hfits', htext', -⟩ := recognize_text_of_hasShape h'
  rw [← Timestamp.text_lt_text_iff hfits hfits', htext, htext', String.lt_iff_toList_lt]

/-- **Timestamps in order.** Of genuine timestamps the one that is first as a
text names the earlier instant, and the other way round. All that are typed are
in order within a month, days that the month does not have and the hour 24
included. -/
theorem instant_lt_iff_lt :
    (∀ string string' : String, HasShape string.toList → HasShape string'.toList →
      (ofChars string.toList).Genuine → (ofChars string'.toList).Genuine →
        ∃ moment moment', (Operand.text string).recognize = .instant moment ∧
          (Operand.text string').recognize = .instant moment' ∧
          (string < string' ↔ moment.milliseconds < moment'.milliseconds)) ∧
    ∀ (string string' : String) (moment moment' : Instant),
      HasShape string.toList → HasShape string'.toList →
      (Operand.text string).recognize = .instant moment →
      (Operand.text string').recognize = .instant moment' →
      (ofChars string.toList).year = (ofChars string'.toList).year →
      (ofChars string.toList).month = (ofChars string'.toList).month →
        string ≤ string' → moment.milliseconds ≤ moment'.milliseconds := by
  constructor
  · -- both are typed, and an earlier text names an earlier instant
    intro string string' hshape hshape' hgenuine hgenuine'
    obtain ⟨hfits, -, hrecognize⟩ := recognize_text_of_hasShape hshape
    obtain ⟨hfits', -, hrecognize'⟩ := recognize_text_of_hasShape hshape'
    rw [if_pos hgenuine.inRange] at hrecognize
    rw [if_pos hgenuine'.inRange] at hrecognize'
    refine ⟨_, _, hrecognize, hrecognize', fun hlt => ?_, fun hlt => ?_⟩
    · exact Timestamp.milliseconds_lt hfits hgenuine hgenuine'
        ((lt_iff_before hshape hshape').mp hlt)
    · -- neither of the other two orders of the texts goes with this one of the instants
      rcases lt_trichotomy string string' with hstrings | rfl | hstrings
      · exact hstrings
      · exact absurd hlt (Int.lt_irrefl _)
      · have hgt := Timestamp.milliseconds_lt hfits' hgenuine' hgenuine
          ((lt_iff_before hshape' hshape).mp hstrings)
        exact absurd hlt (Int.lt_asymm hgt)
  · -- here only the earlier one has to be in range
    intro string string' moment moment' hshape hshape' hmoment hmoment' hyear hmonth hle
    obtain ⟨hrange, hinstant⟩ := inRange_of_recognize_text hshape hmoment
    obtain ⟨-, hinstant'⟩ := inRange_of_recognize_text hshape' hmoment'
    rw [← hinstant, ← hinstant']
    rcases lt_or_eq_of_le hle with hlt | rfl
    · exact Timestamp.milliseconds_le (recognize_text_of_hasShape hshape).1 hrange hyear hmonth
        ((lt_iff_before hshape hshape').mp hlt)
    · exact Int.le_refl _

/-- `instant_lt_iff_lt` at the end of a leap day and the start of the day behind
it, and at a midnight that has two names in its month. -/
theorem instant_lt_iff_lt_leap_day :
    (HasShape "2000-02-29T23:59:59.999Z".toList ∧ HasShape "2000-03-01T00:00:00.000Z".toList ∧
      (ofChars "2000-02-29T23:59:59.999Z".toList).Genuine ∧
      (ofChars "2000-03-01T00:00:00.000Z".toList).Genuine ∧
      ∃ moment moment', (Operand.text "2000-02-29T23:59:59.999Z").recognize = .instant moment ∧
        (Operand.text "2000-03-01T00:00:00.000Z").recognize = .instant moment' ∧
        moment.milliseconds < moment'.milliseconds) ∧
    ∃ moment moment', (Operand.text "2017-02-28T24:00:00.000Z").recognize = .instant moment ∧
      (Operand.text "2017-02-29T00:00:00.000Z").recognize = .instant moment' ∧
      moment.milliseconds ≤ moment'.milliseconds := by
  obtain ⟨hgenuine, htyped⟩ := instant_lt_iff_lt
  have hshape : HasShape "2000-02-29T23:59:59.999Z".toList := by decide
  have hshape' : HasShape "2000-03-01T00:00:00.000Z".toList := by decide
  have hleapDay : (ofChars "2000-02-29T23:59:59.999Z".toList).Genuine :=
    ⟨by decide, by decide, by decide, by decide⟩
  have hdayBehind : (ofChars "2000-03-01T00:00:00.000Z".toList).Genuine :=
    ⟨by decide, by decide, by decide, by decide⟩
  obtain ⟨moment, moment', hmoment, hmoment', hiff⟩ :=
    hgenuine _ _ hshape hshape' hleapDay hdayBehind
  refine ⟨⟨hshape, hshape', hleapDay, hdayBehind, moment, moment', hmoment, hmoment',
    hiff.mp (by decide)⟩, ⟨1488326400000⟩, ⟨1488326400000⟩, rfl, rfl, ?_⟩
  exact htyped "2017-02-28T24:00:00.000Z" "2017-02-29T00:00:00.000Z" _ _ (by decide) (by decide)
    rfl rfl (by decide) (by decide) (by decide)

/-- Across months a day that its month does not have is not where its text
stands. -/
example : "2017-02-31T00:00:00.000Z" < "2017-03-01T00:00:00.000Z" ∧
    (ofChars "2017-03-01T00:00:00.000Z".toList).instant.milliseconds <
      (ofChars "2017-02-31T00:00:00.000Z".toList).instant.milliseconds := by
  decide

end Operand

end ListQuery
