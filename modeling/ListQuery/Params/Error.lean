import ListQuery.Json
import ListQuery.Text.Utf8

/-!
# Why there are no parameters

What is wrong with a query text or a JSON document from which no parameters can
be read, and how it is put in words.
-/

namespace ListQuery.Params

/-- Why parameters cannot be read. -/
inductive Error where
  /-- A key or a value of a query text, as it stands there, does not escape
  well-formed UTF-8. -/
  | badEncoding (part : String) (fault : Text.Utf8.Fault)
  /-- The JSON document is no object. -/
  | notAnObject (kind : Json.Kind)
  /-- The value of a key is, or holds, a value that has no text. -/
  | unsupported (key : String) (kind : Json.Kind)
  deriving DecidableEq, Repr

def Error.message : Error → String
  | .badEncoding part fault => s!"invalid percent-encoding in '{part}': {fault.message}"
  | .notAnObject kind => s!"query parameters must be a JSON object, got {kind.name}"
  | .unsupported key kind => s!"unsupported value for parameter '{key}': {kind.name}"

end ListQuery.Params
