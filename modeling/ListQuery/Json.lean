import ListQuery.Number.Binary64

/-!
# JSON values

JSON values with their members in document order, and with integers and doubles
kept apart. Query parameters can be given as a JSON object, and the plan of a
query is written as one.
-/

namespace ListQuery

/-- A JSON value. An `object` keeps its members in order, repeated names
included: it is for the parameters to say what a name given twice means. An
`integer` is kept apart from a `double`, since they are written differently as
texts. -/
inductive Json where
  | null
  | bool (value : Bool)
  | integer (value : Int)
  | double (value : Number.Binary64)
  | string (value : String)
  | array (items : List Json)
  | object (members : List (String × Json))

namespace Json

/-- The kinds of JSON values that messages tell apart. A message names a kind
and never the value itself. -/
inductive Kind where
  | null
  | boolean
  | number
  | string
  | array
  | object
  deriving DecidableEq, Repr

def Kind.name : Kind → String
  | .null => "null"
  | .boolean => "boolean"
  | .number => "number"
  | .string => "string"
  | .array => "array"
  | .object => "object"

/-- The kind of a value. Both `integer` and `double` are a `number`. -/
def kind : Json → Kind
  | .null => .null
  | .bool _ => .boolean
  | .integer _ => .number
  | .double _ => .number
  | .string _ => .string
  | .array _ => .array
  | .object _ => .object

def empty : Json := .object []

def singleton (name : String) (value : Json) : Json := .object [(name, value)]

end Json

end ListQuery
