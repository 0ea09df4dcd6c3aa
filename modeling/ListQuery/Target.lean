import ListQuery.Operator
import ListQuery.Text.Cut
import ListQuery.Text.Lowercase

/-!
# What the key of a filter names

The key of a filter is a path of names between dots, with the name of an
operator behind the last dot if the filter asks for one. The letter case of that
name does not matter. A key without such a suffix asks for equality, and all of
it is the path.
-/

namespace ListQuery

/-- A path into a record and the `Operator` to compare with. Two keys that name
the same target ask for the same thing, however they are spelled. -/
structure Target where
  path : String
  operator : Operator
  deriving DecidableEq, Repr

namespace Target

/-- The path and the operator behind its last dot, when that is what a key is.
Only one suffix is taken off, so what is left may end in the name of an operator
too. -/
def suffixed? (key : String) : Option Target := do
  let (path, suffix) ← Text.splitLast (· == '.') key.toList
  let operator ← Operator.ofName? (String.ofList (Text.lowercase suffix))
  return ⟨String.ofList path, operator⟩

/-- What a key names. The name of an operator behind the last dot is taken off
by `suffixed?`; without one the whole key is the path, and the operator is
`equals`. -/
def ofKey (key : String) : Target := (suffixed? key).getD ⟨key, .equals⟩

/-- The names of a path, between its dots. -/
def segments (target : Target) : List String :=
  (target.path.toList.splitOn '.').map String.ofList

example : ofKey "person.age.GTE" = ⟨"person.age", .compare .greaterOrEqual⟩ := by decide +kernel
example : ofKey "a.eq.like" = ⟨"a.eq.like", .equals⟩ := by decide +kernel

end Target

end ListQuery
