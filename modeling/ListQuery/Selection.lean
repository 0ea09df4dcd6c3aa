import ListQuery.Params
import ListQuery.Text.Listed
import ListQuery.Text.Space

/-!
# Selecting fields

A query names the fields of a result that it wants, separated by commas. White
space around a name does not count; an empty name and a repeated one do.
-/

namespace ListQuery.Selection

/-- The name that stands between two commas, without the white space around it.
What is white space alone gives the empty name, which is kept. -/
def ofPart (part : List Char) : String := String.ofList (Text.trim part)

def ofParams (params : Params) : Option (List String) :=
  Text.listed? ofPart (params.control? .fields)

end ListQuery.Selection
