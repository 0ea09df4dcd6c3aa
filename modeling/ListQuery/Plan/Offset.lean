import ListQuery.Plan
import ListQuery.Timestamp.Offset

/-!
# Plans by offsets

Where a plan depends on a part of a text, the part can be found by its offsets
and cut out of the bytes: the prefix of a numeral, the direction behind a sort
key, the timestamp in an operand. This is the program that does so, with the
trap that stops it wherever it would cut within a character.
-/

namespace ListQuery

open Text Calendar

/-! ### Numerals -/

namespace Number

/-- The base that a zero and a letter announce, in either case of the letter. It
takes any text, and no text but one of two letters announces anything. -/
def Radix.ofPrefix? (front : List Char) : Option Radix :=
  let lower := front.map Char.toLower
  if lower = "0x".toList then some .hexadecimal
  else if lower = "0o".toList then some .octal
  else if lower = "0b".toList then some .binary
  else none

namespace Numeral

/-- The base that the first two bytes of a text announce, in either case of the
letter. Where no character ends behind two bytes there is no prefix to look at
(`slice?` is `none`). -/
def radixPrefix? (text : List Char) : Option Radix :=
  (slice? text 0 2).bind Radix.ofPrefix?

/-- The numeral that a text is, with its prefix told by an offset. -/
def readByOffset (text : List Char) : Except Trap (Option Numeral) :=
  match radixPrefix? text with
  | none => .ok (signed? text)
  | some base => do
    let digits ← slice text 2 (byteLength text)
    return radixDigits? base digits

end Numeral

end Number

/-! ### Sort keys -/

namespace SortKey

/-- The field and the direction behind it, with the part cut at the last white
space. The white space goes with the direction, and `trimStart` takes it off
there. -/
def directedByOffset (part : List Char) : Except Trap (Option SortKey) :=
  match lastOffset? isSpace part with
  | none => .ok none
  | some offset => do
    let (field, word) ← cut part offset
    return (Direction.ofWord? (trimStart word)).map fun direction =>
      ⟨String.ofList (trim field), direction⟩

/-- The sort key that stands between two commas. -/
def ofPartByOffset (part : List Char) : Except Trap SortKey := do
  let directed ← directedByOffset (trim part)
  return directed.getD ⟨String.ofList (trim part), .ascending⟩

/-- The sort keys that parameters ask for. -/
def ofParamsByOffset (params : Params) : Except Trap (Option (List SortKey)) :=
  (listed? id (params.control? .sort)).mapM fun parts => parts.mapM ofPartByOffset

end SortKey

/-! ### Operands and clauses -/

namespace Operand

variable (years : Years)

/-- The value that a text spells, with a timestamp in it found by its offset, in
a calendar that has dates for some `years` only. -/
def ofTextByOffset (string : String) : Except Trap Operand :=
  if string = "null" then .ok .null
  else (Timestamp.readByOffset years string.toList).map (ofReading string)

end Operand

namespace Filter

/-- The filter that parameters ask for. -/
def ofParamsByOffset (years : Years) : Params → Except Trap Filter :=
  ofParamsM (fun control => return .ofControl control) (Operand.ofTextByOffset years)

end Filter

/-! ### Windows -/

namespace Window

/-- What the string given for a page or a limit says. -/
def readByOffset : Option String → Except Trap Reading
  | none => .ok .missing
  | some string =>
    let text := trim string.toList
    if text.isEmpty then .ok .missing else (Number.Numeral.readByOffset text).map (readingOf text)

/-- The window that parameters ask for; none when they ask for all results. -/
def ofParamsByOffset (defaults : Defaults) (params : Params) : Except Trap (Option Window) :=
  ofParamsM (return) (fun control => readByOffset (params.control? control)) defaults params

end Window

/-! ### Plans -/

/-- What parameters ask for, with every part of a text found by its offsets. It
is built as `ofParamsNoted` is, in another monad. -/
def Plan.ofParamsByOffset (years : Years) (defaults : Defaults) (params : Params) :
    Except Trap Plan := do
  let window ← Window.ofParamsByOffset defaults params
  let filter ← Filter.ofParamsByOffset years params
  let sort ← SortKey.ofParamsByOffset params
  return ⟨window, filter, sort, Selection.ofParams params⟩

end ListQuery
