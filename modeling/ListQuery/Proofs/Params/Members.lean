import ListQuery.Params.Document
import ListQuery.Proofs.Json
import ListQuery.Proofs.OrderedMap
import ListQuery.Proofs.Traversal

/-!
# The members of a document

Which documents give parameters, and what is blamed when a document gives none.

* **`Json.Settles`** — the members of an object that count: every name once,
  where it first stands and with its last value.
* **`HasText`**, **`Gives`**, **`Blames`** — the text of a scalar, the argument
  of a value, and the kind of what keeps a value from having one.
* **`argumentOf_eq_ok_iff`**, **`argumentOf_eq_error_iff`** — the inner
  traversal, over the items of one value.
* **`ofJson_exact`** — the headline, with the outer traversal over the members.
-/

namespace ListQuery

/-! ## The members that count -/

namespace Json

/-- `Settles members entries` says that `entries` are the members of an object
that count, in order: every name once, where it first stands and with its last
value. -/
structure Settles (members entries : List (String × Json)) : Prop where
  keys : entries.map Prod.fst = (members.map Prod.fst).eraseDups
  values : ∀ entry ∈ entries, member? members entry.1 = some entry.2

variable {members entries : List (String × Json)}

/-- `OrderedMap.ofList` has the entries that count: they `Settles` the
members. -/
theorem settles_ofList (members : List (String × Json)) :
    Settles members (OrderedMap.ofList members).entries where
  keys := OrderedMap.keys_ofList members
  values := by
    intro entry hentry
    rw [← OrderedMap.get?_of_mem hentry]
    exact (OrderedMap.get?_ofList members entry.1).symm

/-- The entries that `Settles` members are the same, names and values. The names
stand in an order that the members give, and each has one value. -/
theorem Settles.unique {entries' : List (String × Json)} (h : Settles members entries)
    (h' : Settles members entries') : entries = entries' := by
  have hlength : entries.length = entries'.length := by
    simpa using congrArg List.length (h.keys.trans h'.keys.symm)
  refine List.ext_getElem hlength fun i hi hi' => ?_
  have hkey : entries[i].1 = entries'[i].1 := by
    simpa [hi, hi'] using congrArg (fun keys => keys[i]?) (h.keys.trans h'.keys.symm)
  have hvalue := h.values _ (List.getElem_mem hi)
  rw [hkey, h'.values _ (List.getElem_mem hi'), Option.some.injEq] at hvalue
  exact Prod.ext hkey hvalue.symm

theorem settles_iff : Settles members entries ↔ entries = (OrderedMap.ofList members).entries := by
  constructor
  · exact fun h => h.unique (settles_ofList members)
  · rintro rfl
    exact settles_ofList members

/-- `json.IsPlain` says that the value is a scalar, or an array of scalars. The
array may be empty, and it may not hold an array. -/
def IsPlain : Json → Prop
  | .array items => ∀ item ∈ items, item.IsScalar
  | json => json.IsScalar

end Json

namespace Params

/-! ## The argument of one value -/

/-- `HasText json text` says that this is the text of the scalar. A double
without a numeral has that of null. -/
inductive HasText : Json → String → Prop where
  | null : HasText .null "null"
  | yes : HasText (.bool true) "true"
  | no : HasText (.bool false) "false"
  | integer (value : Int) : HasText (.integer value) (toString value)
  | double {value : Number.Binary64} {numeral : List Char} (h : value.numeral? = some numeral) :
      HasText (.double value) (String.ofList numeral)
  | noNumeral {value : Number.Binary64} (h : value.numeral? = none) :
      HasText (.double value) "null"
  | string (text : String) : HasText (.string text) text

/-- `Gives json argument` says that this is the argument of the value. A scalar
gives a single string, and an array a list, of whatever length. -/
inductive Gives : Json → Argument → Prop where
  | scalar {json : Json} {text : String} (h : HasText json text) : Gives json (.one text)
  | array {items : List Json} {texts : List String} (h : List.Forall₂ HasText items texts) :
      Gives (.array items) (.many texts)

/-- `Blames json kind` says that this is the kind of what keeps the value from
giving an argument. An object is that itself, and in an array it is the first
item that is no scalar. -/
inductive Blames : Json → Json.Kind → Prop where
  | object (members : List (String × Json)) : Blames (.object members) .object
  | item {front back : List Json} {item : Json} (hfront : ∀ earlier ∈ front, earlier.IsScalar)
      (hitem : ¬ item.IsScalar) : Blames (.array (front ++ item :: back)) item.kind

variable {json : Json} {kind : Json.Kind}

/-- `scalarText` gives the text that a scalar `HasText`, and nothing for what is
no scalar. -/
theorem scalarText_eq_ok_iff {text : String} : scalarText json = .ok text ↔ HasText json text := by
  constructor
  · -- scalar by scalar
    intro h
    cases json with
    | null =>
      cases h
      exact .null
    | bool value =>
      cases h
      cases value
      · exact .no
      · exact .yes
    | integer value =>
      rw [scalarText, Except.ok.injEq, Number.ofList_integerNumeral] at h
      exact h ▸ .integer value
    | double value =>
      rw [scalarText, Except.ok.injEq] at h
      subst h
      cases hnumeral : value.numeral? with
      | none => exact .noNumeral hnumeral
      | some numeral => exact .double hnumeral
    | string text =>
      cases h
      exact .string text
    | array items => cases h
    | object members => cases h
  · intro h
    cases h with
    | integer value => rw [scalarText, Number.ofList_integerNumeral]
    | double h => simp only [scalarText, h, Option.map_some, Option.getD_some]
    | noNumeral h => simp only [scalarText, h, Option.map_none, Option.getD_none]
    | _ => rfl

/-- `scalarText` fails on what is no scalar, with its kind, and never on a
scalar. -/
theorem scalarText_eq_error_iff :
    scalarText json = .error kind ↔ ¬ json.IsScalar ∧ kind = json.kind := by
  cases json with
  | array items => simp [scalarText, Json.IsScalar, Json.kind, eq_comm]
  | object members => simp [scalarText, Json.IsScalar, Json.kind, eq_comm]
  | _ => simp [scalarText, Json.IsScalar, Json.kind]

theorem exists_scalarText_iff : (∃ text, scalarText json = .ok text) ↔ json.IsScalar := by
  rw [← not_iff_not, ← exists_error_iff]
  simp only [scalarText_eq_error_iff, exists_and_left, exists_eq, and_true]

/-- `argumentOf` gives a single string for what is no array, if any. -/
theorem argumentOf_of_ne_array (h : ∀ items, json ≠ .array items) :
    argumentOf json = (scalarText json).map .one := by
  cases json with
  | array items => exact absurd rfl (h items)
  | _ => rfl

/-- `argumentOf` gives what a value `Gives`. An array is read item by item, and
anything else as a scalar. -/
theorem argumentOf_eq_ok_iff {argument : Argument} :
    argumentOf json = .ok argument ↔ Gives json argument := by
  by_cases harray : ∃ items, json = .array items
  · obtain ⟨items, rfl⟩ := harray
    show (items.mapM scalarText).map _ = _ ↔ _
    simp only [map_eq_ok_iff, mapM_eq_ok_iff, scalarText_eq_ok_iff]
    constructor
    · rintro ⟨texts, htexts, rfl⟩
      exact .array htexts
    · rintro (⟨⟨⟩⟩ | ⟨htexts⟩)
      exact ⟨_, htexts, rfl⟩
  · rw [argumentOf_of_ne_array fun items heq => harray ⟨items, heq⟩]
    simp only [map_eq_ok_iff, scalarText_eq_ok_iff]
    constructor
    · rintro ⟨text, htext, rfl⟩
      exact .scalar htext
    · rintro (⟨htext⟩ | ⟨_⟩)
      · exact ⟨_, htext, rfl⟩
      · exact absurd ⟨_, rfl⟩ harray

/-- `argumentOf` fails with the kind that a value `Blames`, that of its first
item with a fault if it is an array. -/
theorem argumentOf_eq_error_iff : argumentOf json = .error kind ↔ Blames json kind := by
  by_cases harray : ∃ items, json = .array items
  · obtain ⟨items, rfl⟩ := harray
    show _ <$> items.mapM scalarText = _ ↔ _
    simp only [map_eq_error_iff, mapM_eq_error_iff, exists_scalarText_iff, scalarText_eq_error_iff]
    constructor
    · rintro ⟨front, item, back, rfl, hfront, hitem, rfl⟩
      exact .item hfront hitem
    · rintro (⟨⟩ | ⟨hfront, hitem⟩)
      exact ⟨_, _, _, rfl, hfront, hitem, rfl⟩
  · rw [argumentOf_of_ne_array fun items heq => harray ⟨items, heq⟩]
    show _ <$> scalarText json = _ ↔ _
    rw [map_eq_error_iff, scalarText_eq_error_iff]
    constructor
    · rintro ⟨hscalar, rfl⟩
      cases json with
      | object members => exact .object members
      | array items => exact absurd ⟨_, rfl⟩ harray
      | _ => exact absurd (by simp [Json.IsScalar, Json.kind]) hscalar
    · rintro (⟨members⟩ | ⟨_, _⟩)
      · exact ⟨fun hscalar => hscalar.2 rfl, rfl⟩
      · exact absurd ⟨_, rfl⟩ harray

/-- `argumentOf` gives an argument exactly if the value `IsPlain`. -/
theorem exists_argumentOf_iff : (∃ argument, argumentOf json = .ok argument) ↔ json.IsPlain := by
  by_cases harray : ∃ items, json = .array items
  · obtain ⟨items, rfl⟩ := harray
    show (∃ argument, (items.mapM scalarText).map _ = _) ↔ _
    simp only [map_eq_ok_iff, Json.IsPlain, ← exists_scalarText_iff, ← exists_mapM_eq_ok_iff]
    exact ⟨fun ⟨_, texts, htexts, _⟩ => ⟨texts, htexts⟩,
      fun ⟨texts, htexts⟩ => ⟨_, texts, htexts, rfl⟩⟩
  · have hplain : json.IsPlain ↔ json.IsScalar := by
      cases json with
      | array items => exact absurd ⟨_, rfl⟩ harray
      | _ => rfl
    rw [argumentOf_of_ne_array fun items heq => harray ⟨items, heq⟩, hplain,
      ← exists_scalarText_iff]
    simp only [map_eq_ok_iff]
    exact ⟨fun ⟨_, text, htext, _⟩ => ⟨text, htext⟩, fun ⟨text, htext⟩ => ⟨_, text, htext, rfl⟩⟩

/-! ## All members -/

theorem ofMember_eq_ok_iff {member : String × Json} {entry : String × Argument} :
    ofMember member = .ok entry ↔ entry.1 = member.1 ∧ Gives member.2 entry.2 := by
  obtain ⟨key, argument⟩ := entry
  rw [← argumentOf_eq_ok_iff, ofMember]
  cases argumentOf member.2 <;> simp [eq_comm]

/-- `ofMember` fails with the name of the member and the kind that its value
`Blames`. -/
theorem ofMember_eq_error_iff {member : String × Json} {error : Error} :
    ofMember member = .error error ↔
      ∃ kind, Blames member.2 kind ∧ error = .unsupported member.1 kind := by
  simp only [← argumentOf_eq_error_iff, ofMember]
  cases argumentOf member.2 <;> simp [eq_comm]

theorem exists_ofMember_iff {member : String × Json} :
    (∃ entry, ofMember member = .ok entry) ↔ member.2.IsPlain := by
  rw [← exists_argumentOf_iff, ofMember]
  cases argumentOf member.2 <;> simp

/-- `ofJson` refuses a document with `notAnObject` and its kind exactly if it is
no object. What is wrong with a member of an object is another error. -/
theorem ofJson_eq_notAnObject_iff :
    ofJson json = .error (.notAnObject kind) ↔ json.kind ≠ .object ∧ kind = json.kind := by
  cases json with
  | object members =>
    refine iff_of_false (fun h => ?_) fun h => h.1 rfl
    obtain ⟨front, member, back, -, -, hmember⟩ := mapM_eq_error_iff.mp (map_eq_error_iff.mp h)
    obtain ⟨_, -, herror⟩ := ofMember_eq_error_iff.mp hmember
    cases herror
  | _ => simp [ofJson, Json.kind, eq_comm]

variable {members : List (String × Json)}

theorem exists_ofJson_iff :
    (∃ params, ofJson (.object members) = .ok params) ↔
      ∀ entry ∈ (OrderedMap.ofList members).entries, entry.2.IsPlain := by
  simp only [← exists_ofMember_iff, ← exists_mapM_eq_ok_iff, ofJson]
  cases (OrderedMap.ofList members).entries.mapM ofMember <;> simp [Functor.map, Except.map]

/-- The parameters of `ofJson` are as many as the members that count, and stand
in their order. Since the names differ already, nothing is left out once
more. -/
theorem ofJson_eq_ok_iff {params : Params} :
    ofJson (.object members) = .ok params ↔
      List.Forall₂ (fun member entry => entry.1 = member.1 ∧ Gives member.2 entry.2)
        (OrderedMap.ofList members).entries params.entries := by
  simp only [← ofMember_eq_ok_iff, ← mapM_eq_ok_iff]
  show (((OrderedMap.ofList members).entries.mapM ofMember).map _ = _) ↔ _
  rw [map_eq_ok_iff]
  constructor
  · rintro ⟨entries, hentries, rfl⟩
    have hkeys : entries.map Prod.fst = (OrderedMap.ofList members).keys := by
      simp only [mapM_eq_ok_iff, ofMember_eq_ok_iff] at hentries
      -- every entry has the key of its member, one by one
      rw [OrderedMap.keys, ← List.forall₂_eq_eq_eq, List.forall₂_map_left_iff,
        List.forall₂_map_right_iff]
      exact hentries.flip.imp fun _ _ h => h.1
    have hnodup : (entries.map Prod.fst).Nodup := hkeys ▸ (OrderedMap.ofList members).nodup_keys
    rw [hentries, OrderedMap.entries_ofList hnodup]
  · exact fun h => ⟨_, h, OrderedMap.ofList_entries params⟩

/-- `ofJson` blames the first member that is not `IsPlain`, among those that
count. Those in front of it are plain, and those behind it can be anything. -/
theorem ofJson_eq_error_iff {error : Error} :
    ofJson (.object members) = .error error ↔
      ∃ front key value back kind,
        (OrderedMap.ofList members).entries = front ++ (key, value) :: back ∧
          (∀ entry ∈ front, entry.2.IsPlain) ∧ Blames value kind ∧
            error = .unsupported key kind := by
  rw [ofJson, map_eq_error_iff, mapM_eq_error_iff]
  simp only [exists_ofMember_iff, ofMember_eq_error_iff]
  constructor
  · rintro ⟨front, ⟨key, value⟩, back, hsplit, hfront, kind, hblames, herror⟩
    exact ⟨front, key, value, back, kind, hsplit, hfront, hblames, herror⟩
  · rintro ⟨front, key, value, back, kind, hsplit, hfront, hblames, herror⟩
    exact ⟨front, (key, value), back, hsplit, hfront, kind, hblames, herror⟩

/-- **The parameters of a document.** `ofJson` refuses a document that is no
object with its kind. An object gives parameters when each of the members that
count (`Settles`) `IsPlain`, and then these are its parameters, in order. Else
the first of them that is not is blamed, whatever the members behind it are. -/
theorem ofJson_exact :
    (∀ json kind, ofJson json = .error (.notAnObject kind) ↔
      json.kind ≠ .object ∧ kind = json.kind) ∧
    ∀ members, ∃ entries, (∀ other, Json.Settles members other ↔ other = entries) ∧
      ((∃ params, ofJson (.object members) = .ok params) ↔ ∀ entry ∈ entries, entry.2.IsPlain) ∧
      (∀ params, ofJson (.object members) = .ok params ↔
        List.Forall₂ (fun member entry => entry.1 = member.1 ∧ Gives member.2 entry.2) entries
          params.entries) ∧
      ∀ error, ofJson (.object members) = .error error ↔
        ∃ front key value back kind, entries = front ++ (key, value) :: back ∧
          (∀ entry ∈ front, entry.2.IsPlain) ∧ Blames value kind ∧ error = .unsupported key kind :=
  ⟨fun _ _ => ofJson_eq_notAnObject_iff, fun members => ⟨(OrderedMap.ofList members).entries,
    fun _ => Json.settles_iff, exists_ofJson_iff, fun _ => ofJson_eq_ok_iff,
    fun _ => ofJson_eq_error_iff⟩⟩

/-- The bad value of a name that comes once more is not blamed, and of two bad
items the first is. -/
example : ofJson (.object [("a", .object []), ("b", .array [.null, .array [], .object []]),
    ("c", .object []), ("a", .array [])]) = .error (.unsupported "b" .array) := by
  rfl

end Params

end ListQuery
