import ListQuery.Argument
import ListQuery.OrderedMap

/-!
# Query parameters

The parameters of a query, each key with its argument, in the order in which the
keys came in. Five keys are reserved: they steer paging, sorting, the grouping
of filters and the choice of fields, and of their strings only the last counts.
Every other key is a filter.
-/

namespace ListQuery

/-- The parameters of a query: an `Argument` for each key. -/
abbrev Params := OrderedMap Argument

/-! ### Reserved keys -/

/-- The keys that are not filters. Each steers one part of a plan, and the plan
knows them by these names only. -/
inductive Control where
  | page
  | limit
  | sort
  | connective
  | fields
  deriving DecidableEq, Repr

namespace Control

def all : List Control := [.page, .limit, .sort, .connective, .fields]

def key : Control → String
  | .page => "page"
  | .limit => "limit"
  | .sort => "sort"
  | .connective => "_op"
  | .fields => "_fields"

end Control

namespace Params

/-- The key is, letter by letter, that of a control. A control with an operator
behind it, as in `page.$gt`, is a filter. -/
def isReserved (key : String) : Bool := Control.all.any fun control => control.key == key

/-! ### Parameters one by one -/

/-- Gives one more string for `key`. The first one stands alone, and every later
one makes a list of what was given before (`Argument.push`). The key keeps its
place. -/
def append (params : Params) (key text : String) : Params :=
  params.alter key fun
    | none => .one text
    | some argument => argument.push text

/-- The parameters that result from one `append` after the other, as a query
text does with its segments. -/
def ofPairs (pairs : List (String × String)) : Params :=
  pairs.foldl (fun params (key, text) => append params key text) OrderedMap.empty

/-- The string given last for `key`. -/
def last? (params : Params) (key : String) : Option String :=
  (params.get? key).bind Argument.last?

/-- The string that counts for a control: the one given last. -/
def control? (params : Params) (control : Control) : Option String := last? params control.key

/-- The parameters that are filters, in order. They are the entries that are
left when those with an `isReserved` key are taken out. -/
def filters (params : Params) : List (String × Argument) :=
  params.entries.filter fun (key, _) => !isReserved key

theorem isReserved_key (control : Control) : isReserved control.key = true := by
  cases control <;> decide

/-- The string that counts is the last text of the argument of the key, whether
one or several are given. So `control?` can be read without `last?`. -/
theorem control?_eq_some_iff {params : Params} {control : Control} {text : String} :
    params.control? control = some text ↔
      ∃ argument front, params.get? control.key = some argument ∧
        argument.texts = front ++ [text] := by
  simp only [control?, last?, Option.bind_eq_some_iff, Argument.last?, List.getLast?_eq_some_iff,
    exists_and_left]

theorem last?_append_self (params : Params) (key text : String) :
    last? (append params key text) key = some text := by
  rw [last?, append, OrderedMap.get?_alter_self]
  cases params.get? key with
  | none => rfl
  | some argument => exact argument.last?_push text

theorem last?_append_of_ne (params : Params) {key other : String} (text : String)
    (h : other ≠ key) : last? (append params key text) other = last? params other := by
  rw [last?, append, OrderedMap.get?_alter_of_ne _ _ h, last?]

end Params

end ListQuery
