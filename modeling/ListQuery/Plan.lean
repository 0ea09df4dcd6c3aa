import ListQuery.Filter
import ListQuery.Selection
import ListQuery.SortKey
import ListQuery.Window

/-!
# Query plans

What the parameters of a query ask of a list of records: a window on it, a
filter, an order and a choice of fields. Each part comes from keys of its own,
and no key has a part in two of them.
-/

namespace ListQuery

/-- What a query asks of a list of records. Three of its parts may be missing,
and the filter may be without clauses. -/
structure Plan where
  window : Option Window
  filter : Filter
  sort : Option (List SortKey)
  selection : Option (List String)

namespace Plan

/-- The plan that parameters ask for, each part of it from keys of its own:
those of the controls, and all others for the filter (`params.filters`). -/
def ofParams (defaults : Defaults) (params : Params) : Plan where
  window := Window.ofParams defaults params
  filter := .ofParams params
  sort := SortKey.ofParams params
  selection := Selection.ofParams params

/-- The plan as a JSON value. A part that is `none` is left out; the filter is
always there. -/
def toJson (plan : Plan) : Json :=
  let window := plan.window.map fun window => ("pagination", window.toJson)
  let sort := plan.sort.map fun keys => ("sort", Json.array (keys.map SortKey.toJson))
  let selection := plan.selection.map fun names => ("select", Json.array (names.map Json.string))
  .object (window.toList ++ [("where", plan.filter.toJson)] ++ sort.toList ++ selection.toList)

end Plan

end ListQuery
