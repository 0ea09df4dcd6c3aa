import ListQuery.Json

/-!
# Equality of JSON values

Two objects are the same value when the same names have the same values in them,
in whatever order their members stand (`Json.Same`). What follows takes such an
equality apart: the kinds of the two values agree, and so do the members of an
object and the items of an array.
-/

namespace ListQuery.Json

/-- `json.IsScalar` says that the value is neither an array nor an object. Only
scalars are texts of a query. -/
def IsScalar (json : Json) : Prop := json.kind ≠ .array ∧ json.kind ≠ .object

/-- The value of a name in an object. If the name is repeated, its last member
counts, as everywhere that objects are read. -/
def member? (members : List (String × Json)) (name : String) : Option Json :=
  members.reverse.lookup name

@[simp] theorem member?_singleton (name other : String) (value : Json) :
    member? [(name, value)] other = if other == name then some value else none := by
  rw [member?, List.reverse_singleton, List.lookup_cons, List.lookup_nil]
  cases other == name <;> rfl

theorem mem_of_member? {members : List (String × Json)} {name : String} {value : Json}
    (h : member? members name = some value) : (name, value) ∈ members := by
  obtain ⟨front, back, hsplit, _⟩ := List.lookup_eq_some_iff.mp h
  rw [← List.mem_reverse, hsplit]
  simp

/-- `Same` is equality of JSON values: scalars are equal as they are, arrays
item by item, and objects name by name in whatever order their members stand.
The two kinds of numbers are never equal. -/
inductive Same : Json → Json → Prop where
  | null : Same .null .null
  | bool (value : Bool) : Same (.bool value) (.bool value)
  | integer (value : Int) : Same (.integer value) (.integer value)
  | double (value : Number.Binary64) : Same (.double value) (.double value)
  | string (value : String) : Same (.string value) (.string value)
  | array {items items' : List Json} (hlength : items.length = items'.length)
      (hitems : ∀ (i : Nat) (h : i < items.length) (h' : i < items'.length),
        Same items[i] items'[i]) :
      Same (.array items) (.array items')
  | object {members members' : List (String × Json)}
      (hmembers : ∀ name, Option.Rel Same (member? members name) (member? members' name)) :
      Same (.object members) (.object members')

namespace Same

theorem kind_eq {json json' : Json} (h : Same json json') : json.kind = json'.kind := by
  cases h <;> rfl

theorem string_inj {value value' : String} (h : Same (.string value) (.string value')) :
    value = value' := by
  cases h
  rfl

theorem integer_inj {value value' : Int} (h : Same (.integer value) (.integer value')) :
    value = value' := by
  cases h
  rfl

/-- Objects that are the `Same` have such values under every name, or no value
in both of them. -/
theorem member {members members' : List (String × Json)}
    (h : Same (.object members) (.object members')) (name : String) :
    Option.Rel Same (member? members name) (member? members' name) := by
  cases h with
  | object hmembers => exact hmembers name

/-- The values of a name in two objects that are the `Same` are the same. -/
theorem of_member? {members members' : List (String × Json)} {name : String} {value value' : Json}
    (h : Same (.object members) (.object members')) (hvalue : member? members name = some value)
    (hvalue' : member? members' name = some value') : Same value value' := by
  have hmember := h.member name
  rw [hvalue, hvalue'] at hmember
  cases hmember with
  | some hsame => exact hsame

/-- A name stands in both of two objects that are the `Same`, or in none. So a
part that is left out of a document is left out of every equal one. -/
theorem isSome_member?_eq {members members' : List (String × Json)}
    (h : Same (.object members) (.object members')) (name : String) :
    (member? members name).isSome = (member? members' name).isSome := by
  have hmember := h.member name
  generalize member? members name = value, member? members' name = value' at hmember
  cases hmember <;> rfl

/-- A `singleton` is the `Same` as another only if its name is, and its value.
The name is found where it has to stand in the other object. -/
theorem singleton_inj {name name' : String} {value value' : Json}
    (h : Same (.singleton name value) (.singleton name' value')) :
    name = name' ∧ Same value value' := by
  have hname : name = name' := by
    have hsome := h.isSome_member?_eq name
    simpa using hsome
  subst hname
  have hvalue : ∀ value : Json, member? [(name, value)] name = some value := by simp
  exact ⟨rfl, h.of_member? (hvalue value) (hvalue value')⟩

/-- Arrays are told apart when the values of their items are. The hypothesis is
for the items of `xs` and `ys` only, so that it can be proved along a
recursion. -/
theorem array_map_inj {α : Type} {f : α → Json} {xs ys : List α}
    (h : Same (.array (xs.map f)) (.array (ys.map f)))
    (hf : ∀ x ∈ xs, ∀ y ∈ ys, Same (f x) (f y) → x = y) : xs = ys := by
  cases h with
  | array hlength hitems =>
    rw [List.length_map, List.length_map] at hlength
    apply List.ext_getElem hlength
    intro i hi hi'
    have hsame := hitems i (by simpa using hi) (by simpa using hi')
    rw [List.getElem_map, List.getElem_map] at hsame
    exact hf _ (List.getElem_mem hi) _ (List.getElem_mem hi') hsame

/-- Optional values are told apart when `f` tells apart what they hold. -/
theorem option_map_inj {α : Type} {f : α → Json} {x y : Option α}
    (h : Option.Rel Same (x.map f) (y.map f)) (hf : ∀ a b, Same (f a) (f b) → a = b) : x = y := by
  cases x with
  | none =>
    cases y with
    | none => rfl
    | some b => exact absurd h (by nofun)
  | some a =>
    cases y with
    | none => exact absurd h (by nofun)
    | some b =>
      cases h with
      | some hsame => rw [hf a b hsame]

protected theorem refl (json : Json) : Same json json := by
  cases json with
  | null => exact .null
  | bool value => exact .bool value
  | integer value => exact .integer value
  | double value => exact .double value
  | string value => exact .string value
  | array items =>
    -- the items are smaller than the array, and so are the values of an object below
    apply Same.array rfl
    intro i h _
    have hsize := List.sizeOf_lt_of_mem (List.getElem_mem h)
    exact Same.refl items[i]
  | object members =>
    apply Same.object
    intro name
    cases hmember : member? members name with
    | none => exact .none
    | some value =>
      have hsize := List.sizeOf_lt_of_mem (mem_of_member? hmember)
      exact .some (Same.refl value)
termination_by json
decreasing_by
  · rw [Json.array.sizeOf_spec]
    omega
  · rw [Prod.mk.sizeOf_spec] at hsize
    rw [Json.object.sizeOf_spec]
    omega

end Same

end ListQuery.Json
