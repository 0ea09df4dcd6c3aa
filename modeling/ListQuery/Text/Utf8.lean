/-!
# UTF-8

The characters that a list of bytes encodes, or the first fault in it. Which
bytes may follow a leading byte is a table (`lead?`): a leading byte comes with
the ranges of the bytes that complete its character, and the narrowed first
range after E0, ED, F0 and F4 is what rules out overlong forms, surrogates and
code points beyond U+10FFFF. A fault names the byte where the character that
went wrong begins.
-/

namespace ListQuery.Text.Utf8

/-- What is wrong with a list of bytes, and the index of the byte where the
first character that cannot be read begins. -/
inductive Fault where
  /-- The `length` bytes from `index` begin a character, or are a byte that
  begins none, and what follows them cannot continue it. -/
  | invalid (length index : Nat)
  /-- The bytes end within the character that begins at `index`. -/
  | incomplete (index : Nat)
  deriving DecidableEq, Repr

/-- The text of a fault, as it stands in the message of a query text that cannot
be loaded. -/
def Fault.message : Fault → String
  | .invalid length index => s!"invalid utf-8 sequence of {length} bytes from index {index}"
  | .incomplete index => s!"incomplete utf-8 byte sequence from index {index}"

/-- A stretch of byte values, both ends included. -/
structure ByteRange where
  first : Nat
  last : Nat
  deriving DecidableEq, Repr

/-- The byte lies in the range, both ends included. -/
def ByteRange.contains (range : ByteRange) (byte : UInt8) : Bool :=
  range.first ≤ byte.toNat && byte.toNat ≤ range.last

/-- The bytes that continue a character, as a rule. -/
def continuation : ByteRange := ⟨0x80, 0xBF⟩

/-- The payload of a leading byte and the ranges of the bytes that must follow
it; `none` for a byte that begins no character. The ranges are those of the
Unicode standard's table of well-formed byte sequences. -/
def lead? (byte : UInt8) : Option (Nat × List ByteRange) :=
  let b := byte.toNat
  if b < 0x80 then some (b, [])
  else if b < 0xC2 then none
  else if b < 0xE0 then some (b % 0x20, [continuation])
  else if b = 0xE0 then some (b % 0x10, [⟨0xA0, 0xBF⟩, continuation])
  else if b = 0xED then some (b % 0x10, [⟨0x80, 0x9F⟩, continuation])
  else if b < 0xF0 then some (b % 0x10, [continuation, continuation])
  else if b = 0xF0 then some (b % 0x08, [⟨0x90, 0xBF⟩, continuation, continuation])
  else if b < 0xF4 then some (b % 0x08, [continuation, continuation, continuation])
  else if b = 0xF4 then some (b % 0x08, [⟨0x80, 0x8F⟩, continuation, continuation])
  else none

/-- A character of which some bytes have been read: how many, the payload of
these, and the ranges of the byte due next and of those due after it. -/
structure Begun where
  count : Nat
  payload : Nat
  next : ByteRange
  later : List ByteRange

/-- Reads bytes, where `index` is the index of the first byte of the character
that is begun, or of the next byte when none is. Nothing is read twice: a byte
either completes the character, continues it or ends the whole reading with a
fault. -/
def decodeFrom : Nat → Option Begun → List UInt8 → Except Fault (List Char)
  | _, none, [] => .ok []
  | index, some _, [] => .error (.incomplete index)
  | index, none, byte :: rest =>
    match lead? byte with
    | none => .error (.invalid 1 index)
    | some (payload, []) => (Char.ofNat payload :: ·) <$> decodeFrom (index + 1) none rest
    | some (payload, next :: later) => decodeFrom index (some ⟨1, payload, next, later⟩) rest
  | index, some begun, byte :: rest =>
    if begun.next.contains byte then
      let payload := begun.payload * 0x40 + byte.toNat % 0x40
      match begun.later with
      | [] => (Char.ofNat payload :: ·) <$> decodeFrom (index + begun.count + 1) none rest
      | next :: later => decodeFrom index (some ⟨begun.count + 1, payload, next, later⟩) rest
    else .error (.invalid begun.count index)

/-- The characters that the bytes encode, or the first `Fault`. Bytes are
counted from zero. -/
def decode (bytes : List UInt8) : Except Fault (List Char) := decodeFrom 0 none bytes

def encode (text : List Char) : List UInt8 := text.flatMap String.utf8EncodeChar

/-- A slash in two bytes, a surrogate and a code point beyond the last fail with
their first byte: nothing that starts with it and goes on as they do is a
character. -/
example : decode [0x41, 0xC0, 0xAF] = .error (.invalid 1 1) := by rfl
example : decode [0xED, 0xA0, 0x80] = .error (.invalid 1 0) := by rfl
example : decode [0xF4, 0x90, 0x80, 0x80] = .error (.invalid 1 0) := by rfl

/-- A character that is broken off fails with the bytes of it that are there. -/
example : decode [0x41, 0xE2, 0x82, 0x41] = .error (.invalid 2 1) := by rfl
example : decode [0x41, 0xF0, 0x9F, 0x98] = .error (.incomplete 1) := by rfl
example : decode [0xF0, 0x9F, 0x98, 0x80] = .ok ['😀'] := by rfl

end ListQuery.Text.Utf8
