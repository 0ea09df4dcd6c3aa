import ListQuery.Proofs.Filter.Clauses
import ListQuery.Proofs.Operand

/-!
# What is left when the texts of an operand are typed

Lists may be nested to any depth, and typing goes through all of them.

* **`induction`** — over operands, a list after its items.
* **`shape`**, **`leaves`** — how lists are nested in an operand, and what
  stands in them. Typing keeps the one and types the other leaf by leaf.
* **`recognize_text_eq_self_iff`** — the crux: the texts that spell nothing but
  themselves.
* **`recognize_normal`** — the headline: what is typed once is typed for good,
  and what there is nothing to type in.
-/

namespace ListQuery

namespace Operand

/-! ## Nested lists -/

/-- Induction over operands, a list after its items. `Operand.rec` has a second
motive, for lists of operands, and this one does without. -/
@[elab_as_elim]
theorem induction {motive : Operand → Prop} (null : motive .null)
    (instant : ∀ moment, motive (.instant moment)) (number : ∀ value, motive (.number value))
    (text : ∀ string, motive (.text string))
    (list : ∀ items, (∀ item ∈ items, motive item) → motive (.list items)) :
    ∀ operand, motive operand
  | .null => null
  | .instant moment => instant moment
  | .number value => number value
  | .text string => text string
  | .list items => list items fun item _ => induction null instant number text list item

/-- How lists are nested: a `leaf` in none of its own, or a `list` of shapes.
What the leaves are is left out. -/
inductive Shape where
  | leaf
  | list (items : List Shape)

mutual

/-- How lists are nested in an operand. -/
def shape : Operand → Shape
  | .list items => .list (shapeAll items)
  | _ => .leaf

/-- How lists are nested in each operand of a list. -/
def shapeAll : List Operand → List Shape
  | [] => []
  | item :: rest => shape item :: shapeAll rest

end

mutual

/-- What stands in the lists of an operand, in order. -/
def leaves : Operand → List Operand
  | .list items => leavesAll items
  | operand => [operand]

/-- What stands in a list of operands and in the lists among them, in order. -/
def leavesAll : List Operand → List Operand
  | [] => []
  | item :: rest => leaves item ++ leavesAll rest

end

theorem shapeAll_eq_map (items : List Operand) : shapeAll items = items.map shape := by
  induction items with
  | nil => rfl
  | cons item rest ih => rw [shapeAll, ih, List.map_cons]

theorem leavesAll_eq_flatMap (items : List Operand) : leavesAll items = items.flatMap leaves := by
  induction items with
  | nil => rfl
  | cons item rest ih => rw [leavesAll, ih, List.flatMap_cons]

theorem recognize_list (items : List Operand) :
    (Operand.list items).recognize = .list (items.map recognize) := by
  rw [recognize, recognizeAll_eq_map]

theorem shape_list (items : List Operand) :
    (Operand.list items).shape = .list (items.map shape) := by
  rw [shape, shapeAll_eq_map]

theorem leaves_list (items : List Operand) :
    (Operand.list items).leaves = items.flatMap leaves := by
  rw [leaves, leavesAll_eq_flatMap]

/-! ## Typing keeps the nesting -/

/-- What `ofText` spells is no list, and so typing opens no list where there was
none. -/
theorem ofText_ne_list (string : String) (items : List Operand) : ofText string ≠ .list items := by
  rcases ofText_cases string with h | ⟨_, _, h⟩ | ⟨_, h⟩ <;> rw [h] <;> nofun

theorem shape_of_ne_list {operand : Operand} (h : ∀ items, operand ≠ .list items) :
    operand.shape = .leaf := by
  cases operand with
  | list items => exact absurd rfl (h items)
  | _ => rfl

theorem leaves_of_ne_list {operand : Operand} (h : ∀ items, operand ≠ .list items) :
    operand.leaves = [operand] := by
  cases operand with
  | list items => exact absurd rfl (h items)
  | _ => rfl

/-- `recognize` keeps the `shape` of an operand. Induction on the operand. -/
theorem shape_recognize (operand : Operand) : operand.recognize.shape = operand.shape := by
  induction operand using Operand.induction with
  | null => rfl
  | instant moment => rfl
  | number value => rfl
  | text string => exact shape_of_ne_list (ofText_ne_list string)
  | list items ih =>
    rw [recognize_list, shape_list, shape_list, List.map_map]
    exact congrArg Shape.list (List.map_congr_left ih)

/-- `recognize` goes leaf by leaf, so the `leaves` are as many as before and
stand where they stood. Induction on the operand. -/
theorem leaves_recognize (operand : Operand) :
    operand.recognize.leaves = operand.leaves.map recognize := by
  induction operand using Operand.induction with
  | null => rfl
  | instant moment => rfl
  | number value => rfl
  | text string => exact leaves_of_ne_list (ofText_ne_list string)
  | list items ih =>
    rw [recognize_list, leaves_list, leaves_list, List.flatMap_map, List.map_flatMap]
    exact List.flatMap_congr ih

/-- What is typed once is typed for good. Induction on the operand, with
`recognize_ofText` at its texts. -/
theorem recognize_recognize (operand : Operand) :
    operand.recognize.recognize = operand.recognize := by
  induction operand using Operand.induction with
  | null => rfl
  | instant moment => rfl
  | number value => rfl
  | text string => exact recognize_ofText string
  | list items ih =>
    rw [recognize_list, recognize_list, List.map_map]
    exact congrArg Operand.list (List.map_congr_left ih)

/-! ## Operands with nothing to type in them -/

/-- A text spells itself exactly if it is not `null` and the timestamp that
`IsLeftmost` in it, if there is one, names nothing. -/
theorem recognize_text_eq_self_iff {string : String} :
    (Operand.text string).recognize = .text string ↔
      string ≠ "null" ∧ ¬ ∃ t : Timestamp, t.IsLeftmost string.toList ∧ t.InRange := by
  constructor
  · intro h
    refine ⟨?_, ?_⟩
    · rintro rfl
      nomatch h
    · rintro ⟨t, ht, hrange⟩
      rw [recognize_text_of_isLeftmost ht, if_pos hrange] at h
      nomatch h
  · rintro ⟨hnull, hnone⟩
    cases hfind : Timestamp.find? string.toList with
    | none => exact recognize_text_of_find?_eq_none hfind hnull
    | some t =>
      have ht := Timestamp.find?_eq_some_iff.mp hfind
      rw [recognize_text_of_isLeftmost ht, if_neg fun hrange => hnone ⟨t, ht, hrange⟩]

/-- `recognize` leaves an operand as it is exactly if all texts among its
`leaves` spell themselves. Induction on the operand. -/
theorem recognize_eq_self_iff (operand : Operand) :
    operand.recognize = operand ↔
      ∀ string, .text string ∈ operand.leaves → (Operand.text string).recognize = .text string := by
  induction operand using Operand.induction with
  | null => exact iff_of_true rfl fun _ h => nomatch List.mem_singleton.mp h
  | instant moment => exact iff_of_true rfl fun _ h => nomatch List.mem_singleton.mp h
  | number value => exact iff_of_true rfl fun _ h => nomatch List.mem_singleton.mp h
  | text string => simp [leaves]
  | list items ih =>
    have hitems : items.map recognize = items ↔ ∀ item ∈ items, item.recognize = item := by
      simpa using List.map_inj_left (l := items) (f := recognize) (g := id)
    rw [recognize_list, Operand.list.injEq, hitems, leaves_list]
    simp only [List.mem_flatMap]
    constructor
    · rintro h string ⟨item, hitem, hstring⟩
      exact (ih item hitem).mp (h item hitem) string hstring
    · exact fun h item hitem =>
        (ih item hitem).mpr fun string hstring => h string ⟨item, hitem, hstring⟩

/-- **What is typed once is typed for good.** `recognize` changes nothing the
second time. It keeps the `shape` of an operand and goes leaf by leaf, where
nulls, numbers and instants stay. It changes nothing in an operand exactly if no
text in it is null, and none has a leftmost timestamp whose fields are
`InRange`. -/
theorem recognize_normal (operand : Operand) :
    operand.recognize.recognize = operand.recognize ∧
    operand.recognize.shape = operand.shape ∧
    operand.recognize.leaves = operand.leaves.map recognize ∧
    (∀ (i : Nat) (leaf : Operand), operand.leaves[i]? = some leaf →
      (leaf = .null ∨ (∃ value, leaf = .number value) ∨ ∃ moment, leaf = .instant moment) →
        operand.recognize.leaves[i]? = some leaf) ∧
    (operand.recognize = operand ↔ ∀ string, .text string ∈ operand.leaves →
      string ≠ "null" ∧ ¬ ∃ t : Timestamp, t.IsLeftmost string.toList ∧ t.InRange) := by
  refine ⟨recognize_recognize operand, shape_recognize operand, leaves_recognize operand,
    fun i leaf hleaf hkind => ?_, ?_⟩
  · have hsame : leaf.recognize = leaf := by
      rcases hkind with rfl | ⟨_, rfl⟩ | ⟨_, rfl⟩ <;> rfl
    rw [leaves_recognize, List.getElem?_map, hleaf, Option.map_some, hsame]
  · rw [recognize_eq_self_iff]
    exact forall₂_congr fun _ _ => recognize_text_eq_self_iff

/-- `recognize_normal` at lists in a list, with a text that has a timestamp
behind one that is out of range. -/
theorem recognize_normal_nested :
    let settled : Operand := .list [.null, .list [.text "NULL", .instant ⟨0⟩], .list [],
      .text "2017-13-01T00:00:00.000Z 2017-12-01T00:00:00.000Z"]
    let given : Operand := .list [.text "null",
      .list [.text "NULL", .text "1970-01-01T00:00:00.000Z"],
      .list [], .text "2017-13-01T00:00:00.000Z 2017-12-01T00:00:00.000Z"]
    given.recognize = settled ∧ settled.recognize = settled ∧ settled.shape = given.shape := by
  intro settled given
  obtain ⟨htwice, hshape, -⟩ := recognize_normal given
  have hgiven : given.recognize = settled := rfl
  rw [hgiven] at htwice hshape
  exact ⟨hgiven, htwice, hshape⟩

end Operand

end ListQuery
