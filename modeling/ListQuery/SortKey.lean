import ListQuery.Json
import ListQuery.Params
import ListQuery.Text.Cut
import ListQuery.Text.Listed
import ListQuery.Text.Space

/-!
# Sorting

A query names the fields to sort by, separated by commas, each with a direction
behind it if it is not to be ascending. The direction is the last word of its
part, in any letter case; a part whose last word is no direction is a field as a
whole, and so is a direction that stands alone.
-/

namespace ListQuery

/-- The order in which a field is sorted. -/
inductive Direction where
  | ascending
  | descending
  deriving DecidableEq, Repr

namespace Direction

def name : Direction → String
  | .ascending => "ASC"
  | .descending => "DESC"

/-- The direction that a word names, in any case of its ASCII letters. No other
letter has one of these as its lower case here, unlike in `Text.lowercase`. -/
def ofWord? (word : List Char) : Option Direction :=
  let small := word.map Char.toLower
  if small = "asc".toList then some .ascending
  else if small = "desc".toList then some .descending
  else none

end Direction

/-- A field to sort by, and the direction. The field may be empty, and it may
have white space within. -/
structure SortKey where
  field : String
  direction : Direction
  deriving DecidableEq, Repr

namespace SortKey

/-- The field and the direction behind it, when that is what a part is. The
direction is the last word, which `Text.splitLast` finds behind any white space,
and the field is what stands in front of it. -/
def directed? (part : List Char) : Option SortKey := do
  let (front, word) ← Text.splitLast Text.isSpace part
  let direction ← Direction.ofWord? word
  return ⟨String.ofList (Text.trim front), direction⟩

/-- The sort key that stands between two commas. A part that `directed?` finds
no direction in is a field as a whole, in ascending order. -/
def ofPart (part : List Char) : SortKey :=
  let trimmed := Text.trim part
  (directed? trimmed).getD ⟨String.ofList trimmed, .ascending⟩

/-- The sort keys that parameters ask for; none when they say nothing about
sorting. -/
def ofParams (params : Params) : Option (List SortKey) :=
  Text.listed? ofPart (params.control? .sort)

def toJson (key : SortKey) : Json := .singleton key.field (.string key.direction.name)

example : ofPart " order id\tDesc ".toList = ⟨"order id", .descending⟩ := by decide +kernel
example : ofPart "DESC".toList = ⟨"DESC", .ascending⟩ := by decide +kernel

end SortKey

end ListQuery
