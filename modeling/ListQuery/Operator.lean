/-!
# Operators

The operators that a filter can name behind the last dot of its key. An operator
has a name (`Operator.name`), found again by `Operator.ofName?`, and says in
which form it takes its operand: a membership test takes a list, which a single
string gives by its commas.
-/

namespace ListQuery

/-- The comparisons that a clause carries as a `symbol`. -/
inductive Comparison where
  | notEqual
  | contains
  | less
  | lessOrEqual
  | greater
  | greaterOrEqual
  deriving DecidableEq, Repr

def Comparison.symbol : Comparison → String
  | .notEqual => "!="
  | .contains => "contains"
  | .less => "<"
  | .lessOrEqual => "<="
  | .greater => ">"
  | .greaterOrEqual => ">="

/-- How an argument is taken as the operand of an operator. A list that is given
as one is a list in either form. -/
inductive OperandForm where
  /-- Each string as it is. -/
  | verbatim
  /-- A single string as a list of the parts between its commas. -/
  | commaList
  deriving DecidableEq, Repr

/-- What the path of a filter can be compared by. Equality and membership stand
apart, since a clause shows them by its operand and not by a symbol. -/
inductive Operator where
  | equals
  | compare (comparison : Comparison)
  | isIn
  deriving DecidableEq, Repr

namespace Operator

/-- The operators, every one of them (`mem_all`). -/
def all : List Operator :=
  [.equals, .compare .notEqual, .compare .contains, .compare .less, .compare .lessOrEqual,
   .compare .greater, .compare .greaterOrEqual, .isIn]

def name : Operator → String
  | .equals => "eq"
  | .compare .notEqual => "ne"
  | .compare .contains => "contains"
  | .compare .less => "lt"
  | .compare .lessOrEqual => "lte"
  | .compare .greater => "gt"
  | .compare .greaterOrEqual => "gte"
  | .isIn => "in"

/-- The operator whose `name` this is; names are in lower case, and no other
word is one. -/
def ofName? (name : String) : Option Operator := all.find? fun operator => operator.name == name

/-- The symbol of an operator; `equals` and `isIn` have none. -/
def symbol? : Operator → Option String
  | .compare comparison => some comparison.symbol
  | _ => none

/-- The form in which an operator takes its operand. -/
def form : Operator → OperandForm
  | .isIn => .commaList
  | _ => .verbatim

theorem mem_all (operator : Operator) : operator ∈ all := by
  cases operator with
  | equals => decide
  | compare comparison => cases comparison <;> decide
  | isIn => decide

/-- An operator is found by its name, and so no two of them have the same one.
With `name_of_ofName?` the names and the operators are the same thing. -/
theorem ofName?_name (operator : Operator) : ofName? operator.name = some operator := by
  cases operator with
  | equals => rfl
  | compare comparison => cases comparison <;> rfl
  | isIn => rfl

theorem name_of_ofName? {name : String} {operator : Operator} (h : ofName? name = some operator) :
    operator.name = name := by
  simpa using List.find?_some h

end Operator

end ListQuery
