import ListQuery.Text.Utf8

/-!
# Offsets into a text

A text is stored as its bytes, and a place in it is given by an offset, the
number of bytes in front. A text can be cut only between its characters. A
program that cuts it elsewhere stops (`Trap.boundary`), and so does one that
takes more off a number than there is (`Trap.underflow`).
-/

namespace ListQuery

/-- What stops a program that cuts by offsets and counts without a sign. A
program that never meets a `Trap` runs as if texts were lists of characters. -/
inductive Trap where
  /-- A text is cut within a character, or beyond its end. -/
  | boundary
  /-- More is taken off a number than there is. -/
  | underflow
  deriving DecidableEq, Repr

/-- Takes `taken` off `n`, which must not be less. -/
def Trap.subtract (n taken : Nat) : Except Trap Nat :=
  if taken ≤ n then .ok (n - taken) else .error .underflow

namespace Text

open Utf8 (encode)

/-- The number of bytes of a text. -/
def byteLength (text : List Char) : Nat := (encode text).length

/-- `atBoundary bytes offset` says that a character begins at the offset or that
the bytes end there. A character begins at every byte that is no continuation
byte. -/
def atBoundary (bytes : List UInt8) (offset : Nat) : Bool :=
  match bytes[offset]? with
  | some byte => !Utf8.continuation.contains byte
  | none => offset == bytes.length

/-- What stands between two offsets; `none` when they are the wrong way round or
the text cannot be cut at one of them. The bytes in between are then those of
some characters, so they can be read. -/
def slice? (text : List Char) (start stop : Nat) : Option (List Char) :=
  let bytes := encode text
  if start ≤ stop ∧ atBoundary bytes start ∧ atBoundary bytes stop then
    (Utf8.decode ((bytes.drop start).take (stop - start))).toOption
  else none

/-- Cuts out what stands between two offsets, and stops where `slice?` gives
nothing. A program that asks first whether there is something uses `slice?`
instead. -/
def slice (text : List Char) (start stop : Nat) : Except Trap (List Char) :=
  match slice? text start stop with
  | some window => .ok window
  | none => .error .boundary

/-- Cuts a text in two at `offset`, from its start and up to its end. -/
def cut (text : List Char) (offset : Nat) : Except Trap (List Char × List Char) := do
  let front ← slice text 0 offset
  let back ← slice text offset (byteLength text)
  return (front, back)

/-- The offset of the last character in the class `isSep`; nothing when no
character is in the class. It is where `splitLast` cuts. -/
def lastOffset? (isSep : Char → Bool) : List Char → Option Nat
  | [] => none
  | c :: rest =>
    match lastOffset? isSep rest with
    | some offset => some (c.utf8Size + offset)
    | none => if isSep c then some 0 else none

end Text

end ListQuery
