import ListQuery.Calendar.Years
import ListQuery.Number.Integer
import ListQuery.Text.Offset

/-!
# Timestamps by their offsets

A program that never looks at a character can search the bytes of a text for a
window of the shape (`position?`), cut that window out of the text, the fields
out of the window (`fields?`), and count the instant from the first day of the
month on (`parse`). It stops where it would cut within a character or count days
from before the first one.
-/

namespace ListQuery.Timestamp

open Text Calendar
open Utf8 (encode)

/-! ### The search for a window -/

/-- `fitsByte place byte` says that the byte may stand at this place of the
shape, as `fits` says of a character. -/
def fitsByte (place byte : UInt8) : Bool :=
  if place = 0x64 then 0x30 ≤ byte && byte ≤ 0x39 else byte == place

/-- The bytes fit the places of the `shape`, as far as both go. -/
def fitsShape (window : List UInt8) : Bool :=
  ((encode shape).zip window).all fun (place, byte) => fitsByte place byte

/-- All stretches of `size` bytes, from left to right. Some of them begin within
a character; the shape is what keeps such a one from being found. -/
def windows (size : Nat) (bytes : List UInt8) : List (List UInt8) :=
  (List.range (bytes.length + 1 - size)).map fun start => (bytes.drop start).take size

/-- The offset of the first of the `windows` that `fitsShape` accepts. -/
def position? (bytes : List UInt8) : Option Nat :=
  (windows (encode shape).length bytes).findIdx? fitsShape

/-! ### The fields of a window -/

/-- The number between two offsets of a window. -/
def field? (window : List Char) (start stop : Nat) : Option Nat :=
  (slice? window start stop).bind fun digits => (Number.readNatural32 digits).toOption

/-- The fields of a window, if all of them are numbers. The offsets are those of
the shape, where every character is a single byte. -/
def fields? (window : List Char) : Option Timestamp := do
  let year ← field? window 0 4
  let month ← field? window 5 7
  let day ← field? window 8 10
  let hour ← field? window 11 13
  let minute ← field? window 14 16
  let second ← field? window 17 19
  let millisecond ← field? window 20 23
  return ⟨year, month, day, hour, minute, second, millisecond⟩

/-! ### Reading -/

/-- The instant that a window names, counted from the first day of its month on.
The subtraction is `Trap.subtract`, which stops below zero: that the day is one
at least is for the test of the range to see. -/
def parse (years : Years) (window : List Char) : Except Trap (Option Instant) :=
  match fields? window with
  | none => .ok none
  | some t =>
    if t.InRange then do
      let daysBefore ← Trap.subtract t.day 1
      return (years.midnight? ⟨t.year, t.month, 1⟩).bind fun start =>
        years.add? start (dayMilliseconds * daysBefore + t.timeOfDay)
    else .ok none

/-- What a text says about time, found among its bytes. -/
def readByOffset (years : Years) (text : List Char) : Except Trap Reading :=
  match position? (encode text) with
  | none => .ok .absent
  | some start => do
    let window ← slice text start (start + (encode shape).length)
    let moment? ← parse years window
    return moment?.elim .malformed .instant

end ListQuery.Timestamp
