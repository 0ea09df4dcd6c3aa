import ListQuery.Argument
import ListQuery.Json
import ListQuery.Operator
import ListQuery.Timestamp

/-!
# Operands

The typed values that the clauses of a filter compare with. An argument is first
taken as texts, in the form that its operator asks for (`ofArgument`), and then
the texts in it that spell null or hold a timestamp get their type
(`recognize`). Recognizing goes through lists and leaves every value that is no
text as it is, and `recognizeM` does the same with any means of spelling a text.
-/

namespace ListQuery

/-- A typed value. Texts are typed where a filter is made: one may become null
or an instant, and none becomes a number, whatever its digits are. -/
inductive Operand where
  | null
  | instant (moment : Instant)
  | number (value : Number.Binary64)
  | text (string : String)
  | list (items : List Operand)

namespace Operand

/-! ### Arguments as operands -/

/-- The parts of a text between its commas. -/
def commaParts (text : String) : List String := (text.toList.splitOn ',').map String.ofList

/-- The operand that an argument is in the given form, all of it `text` still.
Only a single string is cut at its commas: a list stays the list that it was. -/
def ofArgument : OperandForm → Argument → Operand
  | .verbatim, .one string => .text string
  | .commaList, .one string => .list ((commaParts string).map .text)
  | _, .many strings => .list (strings.map .text)

/-- The operands of a `list`, one by one, or the operand itself. -/
def elements : Operand → List Operand
  | .list items => items
  | operand => [operand]

/-! ### Texts that have a type -/

/-- The value of a text of which `Timestamp.read` says this: the instant, or the
text when it names none. A text with a malformed timestamp in it is a text like
any other. -/
def ofReading (string : String) : Timestamp.Reading → Operand
  | .instant moment => .instant moment
  | _ => .text string

/-- The value that a text spells: `null`, the instant of a timestamp in it, or
the text. The word for null is exact, and a timestamp may stand anywhere. -/
def ofText (string : String) : Operand :=
  if string = "null" then .null else ofReading string (Timestamp.read string.toList)

mutual

/-- Gives every `text` in an operand the type that it spells (`ofText`). What is
no text stays, and so does the shape of a list. -/
def recognize : Operand → Operand
  | .text string => ofText string
  | .list items => .list (recognizeAll items)
  | operand => operand

/-- `recognize` on every operand of a list. -/
def recognizeAll : List Operand → List Operand
  | [] => []
  | item :: rest => recognize item :: recognizeAll rest

end

theorem recognizeAll_eq_map (items : List Operand) : recognizeAll items = items.map recognize := by
  induction items with
  | nil => rfl
  | cons item rest ih => simp [recognizeAll, ih]

/-- `isMisread string` is true if the text stays one although a timestamp stands
in it. Such texts are what `Notice.misread` warns of. -/
def isMisread (string : String) : Bool := Timestamp.read string.toList = .malformed

section Program

variable {m : Type → Type} [Monad m] (spell : String → m Operand)

mutual

/-- `recognize` as a program: it runs `spell` on the texts in an operand, from
the first to the last, and puts what that returns in their places. -/
def recognizeM : Operand → m Operand
  | .text string => spell string
  | .list items => .list <$> recognizeAllM items
  | operand => pure operand

/-- `recognizeAll` as a program. -/
def recognizeAllM : List Operand → m (List Operand)
  | [] => pure []
  | item :: rest => do
    let first ← recognizeM item
    let others ← recognizeAllM rest
    return first :: others

end

end Program

/-! ### Operands as JSON -/

mutual

/-- An operand as a JSON value: an instant as its timestamp, every other value
as itself. The form of `toJsonAll` is that of `recognizeAll`, so that the two
can be followed side by side. -/
def toJson : Operand → Json
  | .null => .null
  | .instant moment => .string (String.ofList moment.text)
  | .number value => .double value
  | .text string => .string string
  | .list items => .array (toJsonAll items)

/-- `toJson` on every operand of a list. -/
def toJsonAll : List Operand → List Json
  | [] => []
  | item :: rest => toJson item :: toJsonAll rest

end

end Operand

end ListQuery
