import ListQuery.Calendar
import ListQuery.Text.Digits

/-!
# Timestamps

An instant is counted in milliseconds, and a timestamp names one in a text: a
date, a time of day down to milliseconds and the letter Z, twenty-four
characters in all. A text is searched for the leftmost timestamp in it
(`Timestamp.find?`), and only that one counts, even when its fields are out of
range. A field in range may still name a day that its month does not have; days
are counted on into the next month, and the hour 24 is the midnight at the end
of the day.
-/

namespace ListQuery

/-- A point in time: the milliseconds since the start of 1970, UTC. -/
structure Instant where
  milliseconds : Int
  deriving DecidableEq, Repr

/-- The length of a day. There are no leap seconds. -/
def dayMilliseconds : Nat := 86400000

/-- The fields of a timestamp, whether or not they are in range. -/
structure Timestamp where
  year : Nat
  month : Nat
  day : Nat
  hour : Nat
  minute : Nat
  second : Nat
  millisecond : Nat
  deriving DecidableEq, Repr

namespace Timestamp

/-! ### The fields and the instant that they name -/

/-- `t.InRange` says that the fields are in range. A day may go up to 31 in
every month, and the hour may be 24 only when nothing of it has passed. Every
year of four digits is in range. -/
def InRange (t : Timestamp) : Prop :=
  (1 ≤ t.month ∧ t.month ≤ 12) ∧ (1 ≤ t.day ∧ t.day ≤ 31) ∧ t.minute ≤ 59 ∧ t.second ≤ 59 ∧
    (t.hour ≤ 23 ∨ t.hour = 24 ∧ t.minute = 0 ∧ t.second = 0 ∧ t.millisecond = 0)

instance (t : Timestamp) : Decidable t.InRange := by
  unfold InRange
  infer_instance

/-- The milliseconds from midnight to the time of day. -/
def timeOfDay (t : Timestamp) : Nat :=
  ((t.hour * 60 + t.minute) * 60 + t.second) * 1000 + t.millisecond

/-- The instant that the fields name. A day that its month does not have is
counted on into the next one by `dayNumber`, and so is the hour 24. -/
def instant (t : Timestamp) : Instant :=
  ⟨dayMilliseconds * Calendar.Date.dayNumber ⟨t.year, t.month, t.day⟩ + t.timeOfDay⟩

/-! ### Timestamps in a text -/

/-- The shape of a timestamp. A `d` stands for a digit, every other character
for itself. -/
def shape : List Char := "dddd-dd-ddTdd:dd:dd.dddZ".toList

/-- `fits place c` says that the character may stand at this place of the shape:
any digit at a `d`, and the very character that is written at every other
place. -/
def fits (place c : Char) : Bool := if place = 'd' then c.isDigit else c == place

/-- `startsWith places text` says that the text starts with characters that fit
these places, one by one. -/
def startsWith : List Char → List Char → Bool
  | [], _ => true
  | _ :: _, [] => false
  | place :: places, c :: rest => fits place c && startsWith places rest

/-- The number that stands at `length` characters from `start` on. It is only
asked for where these are digits. -/
def field (text : List Char) (start length : Nat) : Nat :=
  Nat.ofDigitChars 10 ((text.drop start).take length) 0

/-- The fields of the timestamp that a text starts with. -/
def ofChars (text : List Char) : Timestamp where
  year := field text 0 4
  month := field text 5 2
  day := field text 8 2
  hour := field text 11 2
  minute := field text 14 2
  second := field text 17 2
  millisecond := field text 20 3

/-- The fields of the leftmost timestamp in a text. A text that starts with the
`shape` is not looked at any further, so one that is out of range hides those
behind it. -/
def find? : List Char → Option Timestamp
  | [] => none
  | c :: rest => if startsWith shape (c :: rest) then some (ofChars (c :: rest)) else find? rest

/-- What a text says about time. What is `malformed` is told apart from what is
absent for the notices alone; the value of the text is the same. -/
inductive Reading where
  /-- There is no timestamp in it. -/
  | absent
  /-- The fields of its leftmost timestamp are out of range. -/
  | malformed
  /-- Its leftmost timestamp names this instant. -/
  | instant (instant : Instant)
  deriving DecidableEq, Repr

/-- What a text says about time, by its leftmost timestamp alone. -/
def read (text : List Char) : Reading :=
  match find? text with
  | none => .absent
  | some t => if t.InRange then .instant t.instant else .malformed

end Timestamp

/-! ### Instants as timestamps -/

namespace Instant

/-- The year that an instant lies in. -/
def year (instant : Instant) : Int :=
  (Calendar.Date.ofDayNumber (instant.milliseconds / dayMilliseconds)).year

/-- A year of four digits; one that needs more, or lies before the year 0, is
written with its sign. -/
def yearText (year : Int) : List Char :=
  let digits := Text.zeroPadded 4 year.natAbs
  if year < 0 then '-' :: digits else if 9999 < year then '+' :: digits else digits

/-- The timestamp that names the instant, down to its millisecond. It has more
than 24 characters only for a year that is written with its sign. -/
def text (instant : Instant) : List Char :=
  let date := Calendar.Date.ofDayNumber (instant.milliseconds / dayMilliseconds)
  let time := (instant.milliseconds % dayMilliseconds).toNat
  yearText date.year ++ ['-'] ++ Text.zeroPadded 2 date.month ++ ['-'] ++
    Text.zeroPadded 2 date.day ++ ['T'] ++ Text.zeroPadded 2 (time / 3600000) ++ [':'] ++
    Text.zeroPadded 2 (time / 60000 % 60) ++ [':'] ++ Text.zeroPadded 2 (time / 1000 % 60) ++
    ['.'] ++ Text.zeroPadded 3 (time % 1000) ++ ['Z']

end Instant

example : Timestamp.read "2017-13-45T20:33:32.780Z 2017-08-22T20:33:32.780Z".toList =
    .malformed := by
  decide +kernel
example : Timestamp.read "x9999-12-31T24:00:00.000Z".toList = .instant ⟨253402300800000⟩ ∧
    (⟨253402300800000⟩ : Instant).text = "+10000-01-01T00:00:00.000Z".toList := by
  decide +kernel

end ListQuery
