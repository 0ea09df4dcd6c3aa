import ListQuery.Number.Decimal
import ListQuery.Text.Digits

/-!
# Numerals

The numerals in which a page or a limit can be given: decimal ones with an
optional sign, fraction and exponent, `Infinity` with an optional sign, and
unsigned ones in base 16, 8 or 2 behind `0x`, `0o` or `0b`. Every numeral
denotes a double (`Numeral.value`). A decimal numeral is rounded once, from its
exact value; one in another base is read digit by digit and rounded at each, so
that only its leading digits decide how it is rounded.
-/

namespace ListQuery.Number

/-- The bases other than ten. -/
inductive Radix where
  | hexadecimal
  | octal
  | binary
  deriving DecidableEq, Repr

def Radix.size : Radix → Nat
  | .hexadecimal => 16
  | .octal => 8
  | .binary => 2

/-- The base that a letter behind a leading zero announces, in either case. -/
def Radix.ofLetter? (letter : Char) : Option Radix :=
  if letter = 'x' ∨ letter = 'X' then some .hexadecimal
  else if letter = 'o' ∨ letter = 'O' then some .octal
  else if letter = 'b' ∨ letter = 'B' then some .binary
  else none

/-- A numeral, by what it says. The decimals and the digits are kept as they are
read; which double they denote is for `value` to say. -/
inductive Numeral where
  /-- That there is no number. Doubles are read so elsewhere, and no page or
  limit is. -/
  | nan
  | infinity (negative : Bool)
  | decimal (negative : Bool) (magnitude : Decimal)
  /-- The digits stand for their values, the leading one first. -/
  | radix (base : Radix) (digits : List Nat)
  deriving DecidableEq, Repr

namespace Numeral

/-! ### What a numeral denotes -/

/-- The magnitude of digits that are read one after the other. Each step
multiplies by `size` and adds a digit, and both are rounded. -/
def readDigits (size : Nat) (digits : List Nat) : Magnitude :=
  digits.foldl (fun magnitude digit => (magnitude.times size).plus digit) .zero

/-- The double that a numeral denotes. The bases other than ten have no sign,
and every decimal is rounded from its exact value by `nearest`. -/
def value : Numeral → Binary64
  | .nan => .nan
  | .infinity negative => .signed negative .infinite
  | .decimal negative magnitude => .signed negative magnitude.nearest
  | .radix base digits => .signed false (readDigits base.size digits)

/-! ### Reading numerals -/

/-- Takes a sign off a text, if it starts with one: `true` for a minus, and what
is behind it. -/
def takeSign : List Char → Bool × List Char
  | '+' :: rest => (false, rest)
  | '-' :: rest => (true, rest)
  | text => (false, text)

/-- The number that a text of decimal digits stands for; at least one is needed.
Zeros in front do not count. -/
def natural? (text : List Char) : Option Nat :=
  if text.isEmpty || !text.all Char.isDigit then none else some (Nat.ofDigitChars 10 text 0)

/-- The exponent that ends a decimal numeral: `e` in either case and a whole
number, or nothing at all, which is the exponent zero. -/
def exponent? : List Char → Option Int
  | [] => some 0
  | letter :: rest =>
    if letter = 'e' ∨ letter = 'E' then
      let (negative, digits) := takeSign rest
      (natural? digits).map fun n => if negative then -(n : Int) else n
    else none

/-- An unsigned decimal numeral: digits, a point among them, before them or
behind them, and an exponent. The digits around the point are read as one
number, and the exponent makes up for those behind it. -/
def decimal? (text : List Char) : Option Decimal :=
  let whole := text.takeWhile Char.isDigit
  let (fraction, rest) :=
    match text.dropWhile Char.isDigit with
    | '.' :: rest => (rest.takeWhile Char.isDigit, rest.dropWhile Char.isDigit)
    | rest => ([], rest)
  if whole.isEmpty && fraction.isEmpty then none
  else
    (exponent? rest).map fun exponent =>
      ⟨Nat.ofDigitChars 10 (whole ++ fraction) 0, exponent - fraction.length⟩

/-- The numeral that doubles are read from everywhere: an optional sign, and
`nan`, `inf` or `infinity` in any letter case or a decimal numeral. -/
def double? (text : List Char) : Option Numeral :=
  let (negative, unsigned) := takeSign text
  let small := unsigned.map Char.toLower
  if small = "nan".toList then some .nan
  else if small = "inf".toList ∨ small = "infinity".toList then some (.infinity negative)
  else (decimal? unsigned).map (.decimal negative)

/-- The characters that decimal numerals are made of: digits, a point, the
letter of an exponent and signs. The word for infinity has others, so `signed?`
looks for it first. -/
def isDecimalChar (c : Char) : Bool := c.isDigit || ['.', 'e', 'E', '+', '-'].contains c

/-- A numeral in base ten or the word for infinity, with an optional sign. Of
what `double?` reads, only what has no other characters than `isDecimalChar`
counts. -/
def signed? (text : List Char) : Option Numeral :=
  let (negative, unsigned) := takeSign text
  if unsigned = "Infinity".toList then some (.infinity negative)
  else if unsigned.all isDecimalChar then double? text
  else none

/-- The digits of a numeral in the given `base`; at least one is needed. -/
def radixDigits? (base : Radix) (text : List Char) : Option Numeral :=
  if text.isEmpty then none else (Text.digitValues? base.size text).map (.radix base)

/-- The numeral that a text is; `none` when it is none. A zero and the letter of
a base decide that what follows is read by `radixDigits?`, whatever it is. -/
def read? (text : List Char) : Option Numeral :=
  match text with
  | '0' :: letter :: digits =>
    match Radix.ofLetter? letter with
    | some base => radixDigits? base digits
    | none => signed? text
  | _ => signed? text

example : read? "-12.50e3".toList = some (.decimal true ⟨1250, 1⟩) := by decide +kernel
example : read? "0XfF".toList = some (.radix .hexadecimal [15, 15]) := by decide +kernel
example : read? "+0x1".toList = none ∧ read? ".".toList = none ∧ read? "inf".toList = none := by
  decide +kernel

end Numeral

end ListQuery.Number
