/-!
# Arguments

What a query gives for one parameter: a single string, or a list of strings when
the parameter is repeated or comes from a JSON array. A list of one string is
not a single string: only a single one is cut at its commas where a list is
asked for.
-/

namespace ListQuery

/-- The strings given for a parameter. The two cases are kept apart for a list
of one string: an operator that asks for a list cuts `one` at its commas and
takes `many` as it is. -/
inductive Argument where
  | one (text : String)
  | many (texts : List String)
  deriving DecidableEq, Repr

namespace Argument

def texts : Argument → List String
  | .one text => [text]
  | .many texts => texts

/-- The string given last; `none` for an empty list. -/
def last? (argument : Argument) : Option String := argument.texts.getLast?

/-- The argument with one string more behind it. It is `many` from then on,
whatever it was: a parameter that comes twice has the strings of both. -/
def push (argument : Argument) (text : String) : Argument := .many (argument.texts ++ [text])

theorem texts_push (argument : Argument) (text : String) :
    (argument.push text).texts = argument.texts ++ [text] := rfl

theorem last?_push (argument : Argument) (text : String) :
    (argument.push text).last? = some text := by
  simp [last?, texts_push]

end Argument

end ListQuery
