import ListQuery.Text.Digits
import ListQuery.Text.Utf8

/-!
# Percent-encoding

The key and the value of a parameter stand in a query text with their bytes
escaped: `%` and two hexadecimal digits stand for a byte, and `+` stands for a
space. The plus signs are read before the escapes, so an escaped plus sign stays
one. A percent sign that no two digits follow stands for itself, and the
characters behind it are read on their own.
-/

namespace ListQuery.Text.Percent

/-- The byte that two hexadecimal digits stand for. -/
def byte? (high low : Char) : Option UInt8 := do
  let h ← digitValue? high
  let l ← digitValue? low
  return UInt8.ofNat (16 * h + l)

/-- The bytes that a text stands for: those of its escapes (`byte?`), and the
UTF-8 encoding of every other character. A percent sign without two digits
behind it stands for itself, and what follows it is looked at again. -/
def bytes : List Char → List UInt8
  | [] => []
  | '%' :: high :: low :: rest =>
    match byte? high low with
    | some b => b :: bytes rest
    | none => String.utf8EncodeChar '%' ++ bytes (high :: low :: rest)
  | c :: rest => String.utf8EncodeChar c ++ bytes rest

/-- Every plus sign is a space. What an escape stands for is not looked at. -/
def spaced (text : List Char) : List Char := text.map fun c => if c = '+' then ' ' else c

/-- The characters that an escaped text stands for, or the first fault in their
UTF-8. The plus signs go before the escapes, so that `%2B` is a plus sign and
not a space. -/
def decode (text : List Char) : Except Utf8.Fault (List Char) := Utf8.decode (bytes (spaced text))

/-- An escape is read once, and what is no escape stays. -/
example : bytes (spaced "+%2B%252b%zz%4".toList) = Utf8.encode " +%2b%zz%4".toList := by
  decide +kernel

end ListQuery.Text.Percent
