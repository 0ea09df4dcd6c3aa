import ListQuery.Number.Shortest

/-!
# How numbers are written

A double is written with its shortest decimal digits: positionally from 0.00001
up to below 10^16, otherwise with one digit before the point and a signed
exponent. Positional notation always has a point, with a zero behind it when
nothing else stands there; scientific notation has one only between digits. Zero
keeps its sign. Infinities and what is not a number have no numeral.
-/

namespace ListQuery.Number

/-- The value `0.digits * 10 ^ point` in positional notation. The three cases
are those of the point: in front of the digits, behind them, and among them. -/
def positional (digits : List Char) (point : Int) : List Char :=
  if point ≤ 0 then
    ['0', '.'] ++ List.replicate (-point).toNat '0' ++ digits
  else if digits.length ≤ point.toNat then
    digits ++ List.replicate (point.toNat - digits.length) '0' ++ ['.', '0']
  else
    digits.take point.toNat ++ ['.'] ++ digits.drop point.toNat

/-- The value `0.digits * 10 ^ point` in scientific notation, with one digit in
front of the point and so an exponent that is one less. -/
def scientific (digits : List Char) (point : Int) : List Char :=
  let fraction := digits.drop 1
  let exponent := point - 1
  digits.take 1 ++ (if fraction.isEmpty then [] else '.' :: fraction) ++ ['e'] ++
    [if exponent < 0 then '-' else '+'] ++ Nat.toDigits 10 exponent.natAbs

/-- The value `0.digits * 10 ^ point`: positionally where the point stands among
the digits or a few zeros away from them. -/
def layout (digits : List Char) (point : Int) : List Char :=
  if -5 < point ∧ point ≤ 16 then positional digits point else scientific digits point

/-- The digits up to the last one that is not zero. -/
def dropTrailingZeros (digits : List Char) : List Char :=
  (digits.reverse.dropWhile (· == '0')).reverse

/-- The numeral of a decimal. Zeros at the end of the digits move into the
exponent, so that only the value matters. -/
def Decimal.numeral (d : Decimal) : List Char :=
  if d.digits = 0 then ['0', '.', '0']
  else
    let digits := Nat.toDigits 10 d.digits
    layout (dropTrailingZeros digits) (digits.length + d.exponent)

/-- The numeral of an integer, with its sign if it is negative. -/
def integerNumeral (n : Int) : List Char :=
  (if n < 0 then ['-'] else []) ++ Nat.toDigits 10 n.natAbs

/-- `integerNumeral` writes an integer as `toString` does. -/
theorem ofList_integerNumeral (n : Int) : String.ofList (integerNumeral n) = toString n := by
  cases n with
  | ofNat m => rfl
  | negSucc m =>
    rw [integerNumeral, if_pos (Int.negSucc_lt_zero m), String.ofList_append]
    rfl

/-- The numeral of a double, that of `shortest` with its sign; `none` for
infinities and for `nan`. -/
def Binary64.numeral? : Binary64 → Option (List Char)
  | .signed negative (.finite units _) =>
    some ((if negative then ['-'] else []) ++ (shortest units).numeral)
  | _ => none

end ListQuery.Number
