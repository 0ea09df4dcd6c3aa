import ListQuery.Plan

/-!
# Notices

What is worth telling about the making of a plan: that there is no window, that
something the query says could not be used and what was taken for it, and that
the plan is made. A notice says nothing about values that have no meaning to
lose, such as an empty page or the page zero.
-/

namespace ListQuery

/-- Something to tell about the making of a plan. A notice has a level, a
message that is the same for all of its kind, and the fields that say what it is
about. -/
inductive Notice where
  /-- The query asks for all results. -/
  | unlimited
  /-- The text given for the page or the limit is no numeral, and the default is
  used. -/
  | malformedNumber (key text : String)
  /-- The word given for the connective names none, and clauses are joined by
  `and`. -/
  | unknownConnective (word : String)
  /-- A timestamp in the text is out of range, and the text stays a text. -/
  | misread (text : String)
  /-- The plan is made, from so many keys and with so many clauses. -/
  | planned (keys clauses : Nat)
  deriving DecidableEq, Repr

namespace Notice

/-! ### Wording -/

inductive Level where
  | debug
  | trace
  deriving DecidableEq, Repr

def Level.name : Level → String
  | .debug => "DEBUG"
  | .trace => "TRACE"

/-- The level of a notice: `debug` for what the query says of the whole result,
`trace` for single values and for the plan that is made. -/
def level : Notice → Level
  | .unlimited => .debug
  | .malformedNumber .. => .debug
  | .unknownConnective _ => .debug
  | .misread _ => .trace
  | .planned .. => .trace

/-- The notice in words, without what it is about. -/
def message : Notice → String
  | .unlimited => "pagination disabled by limit=null"
  | .malformedNumber .. => "non-numeric pagination value, using default"
  | .unknownConnective _ => "unsupported logical operator, using 'and'"
  | .misread _ => "timestamp-like value did not parse, keeping string"
  | .planned .. => "built query descriptor"

def fields : Notice → List (String × Json)
  | .unlimited => []
  | .malformedNumber key text => [("key", .string key), ("value", .string text)]
  | .unknownConnective word => [("value", .string word)]
  | .misread text => [("value", .string text)]
  | .planned keys clauses => [("keys", .integer keys), ("clauses", .integer clauses)]

/-! ### What a query gives notice of -/

/-- The notice that a reading of the page or the limit gives. -/
def ofReading (control : Control) : Window.Reading → Option Notice
  | .malformed text => some (.malformedNumber control.key text)
  | _ => none

/-- The notice that the word for the connective gives. -/
def ofConnective : Option String → Option Notice
  | none => none
  | some word => if (Connective.ofName? word).isNone then some (.unknownConnective word) else none

/-- The notice that a text of an operand gives. -/
def ofText (string : String) : Option Notice :=
  if Operand.isMisread string then some (.misread string) else none

end Notice

/-! ### Making a plan with its notices -/

/-- What is made, with the notices that its making gives, in order. It is the
monad in which `Window.ofParamsM` and `Filter.ofParamsM` are run to tell what
they do. -/
structure Noted (α : Type) where
  value : α
  notices : List Notice

namespace Noted

/-- What is made of what was made before gives its notices behind those of
before. -/
instance : Monad Noted where
  pure value := ⟨value, []⟩
  bind made next := ⟨(next made.value).value, made.notices ++ (next made.value).notices⟩

/-- Gives `notice`, if there is one, and nothing else. -/
def tell (notice : Option Notice) : Noted Unit := ⟨(), notice.toList⟩

end Noted

/-- `Window.read`, and a notice of what is no numeral. -/
def Window.readNoted (params : Params) (control : Control) : Noted Reading := do
  let reading := read (params.control? control)
  Noted.tell (Notice.ofReading control reading)
  return reading

/-- `Connective.ofControl`, and a notice of a word that names no connective. -/
def Connective.ofControlNoted (control : Option String) : Noted Connective := do
  Noted.tell (Notice.ofConnective control)
  return .ofControl control

/-- `Operand.ofText`, and a notice of a timestamp that is out of range. -/
def Operand.ofTextNoted (string : String) : Noted Operand := do
  Noted.tell (Notice.ofText string)
  return .ofText string

/-- `Plan.ofParams`, and the notices of its parts in the order in which they are
made: the window, the filter, and the plan as a whole. The order and the choice
of fields give none. -/
def Plan.ofParamsNoted (defaults : Defaults) (params : Params) : Noted Plan := do
  let window ←
    Window.ofParamsM (Noted.tell (some .unlimited)) (Window.readNoted params) defaults params
  let filter ← Filter.ofParamsM Connective.ofControlNoted Operand.ofTextNoted params
  Noted.tell (some (.planned params.size filter.clauses.length))
  return ⟨window, filter, SortKey.ofParams params, Selection.ofParams params⟩

/-- The notices that `Plan.ofParamsNoted` gives with a plan. They do not depend
on the defaults, so any can stand here. -/
def Notice.ofParams (params : Params) : List Notice := (Plan.ofParamsNoted .standard params).notices

end ListQuery
