import ListQuery.Params.Document
import ListQuery.Proofs.Json
import ListQuery.Proofs.OrderedMap
import ListQuery.Proofs.Traversal

/-!
# What a document gives for a key

A document gives parameters when each of its values can be given, and the last
value of a name counts. **`exists_ofJson`** says this member by member, without
the list that is made of them.
-/

namespace ListQuery.Params

/-- What `argumentOf` gives, or an argument without strings if it gives none. As
a total function it can be mapped over the members. -/
def given (json : Json) : Argument :=
  match argumentOf json with
  | .ok argument => argument
  | .error _ => .many []

theorem given_of_argumentOf {json : Json} {argument : Argument}
    (h : argumentOf json = .ok argument) : given json = argument := by
  rw [given, h]

theorem ofMember_of_argumentOf {member : String × Json} {argument : Argument}
    (h : argumentOf member.2 = .ok argument) :
    ofMember member = .ok (member.1, given member.2) := by
  rw [ofMember, h, given_of_argumentOf h]

/-- **What a document gives for a key**: if `argumentOf` reads the last value of
every name, `ofJson` gives each name what its last value gives. What the values
before it are does not matter. -/
theorem exists_ofJson {members : List (String × Json)}
    (h : ∀ name value, Json.member? members name = some value →
      ∃ argument, argumentOf value = .ok argument) :
    ∃ params : Params, ofJson (.object members) = .ok params ∧
      ∀ name value argument, Json.member? members name = some value →
        argumentOf value = .ok argument → params.get? name = some argument := by
  have hmember : ∀ name, (OrderedMap.ofList members).get? name = Json.member? members name :=
    OrderedMap.get?_ofList members
  have hresults : (OrderedMap.ofList members).entries.mapM ofMember =
      .ok ((OrderedMap.ofList members).entries.map fun member => (member.1, given member.2)) := by
    refine mapM_eq_ok_map fun member hmem => ?_
    have hget := OrderedMap.get?_of_mem hmem
    rw [hmember] at hget
    obtain ⟨argument, hargument⟩ := h _ _ hget
    exact ofMember_of_argumentOf hargument
  -- the members have different names already, so making a map of them keeps them all
  have hkeys : (((OrderedMap.ofList members).entries.map fun member =>
      (member.1, given member.2)).map Prod.fst).Nodup := by
    rw [List.map_map]
    exact (OrderedMap.ofList members).nodup_keys
  refine ⟨_, by rw [ofJson, hresults]; rfl, fun name value argument hvalue hargument => ?_⟩
  rw [← hmember] at hvalue
  have hmem := List.mem_map_of_mem (f := fun member : String × Json => (member.1, given member.2))
    (OrderedMap.mem_of_get? hvalue)
  rw [← OrderedMap.entries_ofList hkeys, given_of_argumentOf hargument] at hmem
  exact OrderedMap.get?_of_mem hmem

end ListQuery.Params
