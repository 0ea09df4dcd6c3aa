import ListQuery.Params
import ListQuery.Params.Error
import ListQuery.Number.Notation

/-!
# Parameters in a JSON document

The members of a JSON object give the parameters: a scalar gives one string, an
array of scalars the list of theirs. A repeated name counts once, where it first
stands and with its last value. The first member that holds anything else fails
the whole document.
-/

namespace ListQuery.Params

/-- The text of a scalar, or the kind of what is none. A double that `numeral?`
gives nothing for is written as null is; a document that was read from a text
has no such double in it. -/
def scalarText : Json → Except Json.Kind String
  | .null => .ok "null"
  | .bool value => .ok (if value then "true" else "false")
  | .integer value => .ok (String.ofList (Number.integerNumeral value))
  | .double value => .ok ((value.numeral?.map String.ofList).getD "null")
  | .string value => .ok value
  | .array _ => .error .array
  | .object _ => .error .object

/-- The argument that a value gives, or the kind of the first part of it that
`scalarText` refuses. -/
def argumentOf : Json → Except Json.Kind Argument
  | .array items => .many <$> items.mapM scalarText
  | value => .one <$> scalarText value

/-- The parameter that a member gives. A fault names the member, and the kind of
the value in it that has no text. -/
def ofMember (member : String × Json) : Except Error (String × Argument) :=
  match argumentOf member.2 with
  | .ok argument => .ok (member.1, argument)
  | .error kind => .error (.unsupported member.1 kind)

/-- The parameters that a JSON document gives. Repeated names are settled first,
by `OrderedMap.ofList`, so a value that is overwritten later can be anything. -/
def ofJson : Json → Except Error Params
  | .object members => OrderedMap.ofList <$> (OrderedMap.ofList members).entries.mapM ofMember
  | value => .error (.notAnObject value.kind)

end ListQuery.Params
