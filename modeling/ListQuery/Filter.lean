import ListQuery.Operand
import ListQuery.Params
import ListQuery.Target

/-!
# Filters

The filter of a query is a list of clauses and the connective that joins them.
Every parameter that is no control gives the clauses of its key
(`Filter.ofArgument`), and these stand in the order of the parameters: a
membership test gives one clause for the whole list, every other operator one
clause for each string. Clauses keep the order and the number of what they come
from. `Filter.ofParamsM` makes the same filter as a program, which can be run
with something to tell and with something that may fail.
-/

namespace ListQuery

/-- How the clauses of a filter are joined. -/
inductive Connective where
  | and
  | or
  deriving DecidableEq, Repr

namespace Connective

def name : Connective → String
  | .and => "and"
  | .or => "or"

/-- The connective that a word names, letter by letter. -/
def ofName? (name : String) : Option Connective :=
  if name = "and" then some .and else if name = "or" then some .or else none

/-- The connective that a query asks for; without one that it names, clauses are
joined by `and`. -/
def ofControl (control : Option String) : Connective := (control.bind ofName?).getD .and

end Connective

namespace Filter

/-- What a clause asks of its field. A list stands in a test for membership only
as the list of its operands, so `oneOf` is not a comparison with a list. -/
inductive Test where
  | equals (operand : Operand)
  | compare (comparison : Comparison) (operand : Operand)
  | oneOf (operands : List Operand)

/-- A test on one field. -/
structure Clause where
  field : String
  test : Test

/-- The test as a JSON value: an object names the comparison, and without one a
list asks for membership and anything else for equality. -/
def Test.toJson : Test → Json
  | .equals operand => operand.toJson
  | .compare comparison operand => .singleton comparison.symbol operand.toJson
  | .oneOf operands => .array (operands.map Operand.toJson)

/-- A clause as a JSON value: its test under the name of its field. -/
def Clause.toJson (clause : Clause) : Json := .singleton clause.field clause.test.toJson

/-- The operand of a parameter, before `recognize` gives its texts types. The
operator of the key says in which form it is taken. -/
def operand (key : String) (argument : Argument) : Operand :=
  .ofArgument (Target.ofKey key).operator.form argument

/-- The clauses that compare the path of `target` with `operands`, as its
operator asks for: one clause for all of them if it is a membership test, and
one for each otherwise. -/
def clausesOf (target : Target) (operands : List Operand) : List Clause :=
  match target.operator with
  | .isIn => [⟨target.path, .oneOf operands⟩]
  | .equals => operands.map fun operand => ⟨target.path, .equals operand⟩
  | .compare comparison => operands.map fun operand => ⟨target.path, .compare comparison operand⟩

/-- The clauses that a parameter gives. `recognize` gives types before the
operand is taken apart, so that a list and a single string are typed alike. -/
def ofArgument (key : String) (argument : Argument) : List Clause :=
  clausesOf (Target.ofKey key) (operand key argument).recognize.elements

end Filter

/-- The clauses of a query, and what joins them. -/
structure Filter where
  connective : Connective
  clauses : List Filter.Clause

namespace Filter

/-- The filter that parameters ask for: the clauses of every one of
`params.filters`, in order. -/
def ofParams (params : Params) : Filter where
  connective := .ofControl (params.control? .connective)
  clauses := params.filters.flatMap fun (key, argument) => ofArgument key argument

/-- `ofParams` as a program, which names the connective and spells the texts of
operands by its own means, the texts in the order of the clauses. It is what the
notices and the offsets are told of. -/
def ofParamsM {m : Type → Type} [Monad m] (connective : Option String → m Connective)
    (spell : String → m Operand) (params : Params) : m Filter := do
  let connective ← connective (params.control? .connective)
  let clauses ← params.filters.mapM fun (key, argument) => do
    let operand ← (operand key argument).recognizeM spell
    return clausesOf (Target.ofKey key) operand.elements
  return ⟨connective, clauses.flatten⟩

def isEmpty (filter : Filter) : Bool := filter.clauses.isEmpty

/-- The connective of a filter that has clauses to join. A filter without any
gives `none`, whatever the query asked for. -/
def connective? (filter : Filter) : Option Connective :=
  if filter.isEmpty then none else some filter.connective

/-- The filter as a JSON value: the list of its clauses under the name of its
connective. -/
def toJson (filter : Filter) : Json :=
  match filter.connective? with
  | none => .empty
  | some connective => .singleton connective.name (.array (filter.clauses.map Clause.toJson))

end Filter

end ListQuery
