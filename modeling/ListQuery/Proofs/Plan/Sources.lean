import ListQuery.Params.Document
import ListQuery.Proofs.Json
import ListQuery.Proofs.Params.QueryText
import ListQuery.Proofs.Params.Replay
import ListQuery.Proofs.Traversal

/-!
# Plans from documents and from query texts

The same parameters can be given as a JSON object or as a query text that
repeats the key for every item of an array. A document makes a list of an array
with one item, and a query text a single string.

* **`entries_ofJson`**, **`entries_ofPairs`** — what the two make of a flat
  object: an entry for each member, with the same strings.
* **`ofParams_eq_iff_of_sameTexts`** — controls read nothing but strings, so
  only the clauses can differ.
* **`block_many_singleton_eq_iff`** — the crux: a list of one string and that
  string give different clauses only to a membership test, and only if there is
  a comma to cut at.
* **`flatMap_eq_flatMap_iff`** — blocks of the same keys have the same lengths,
  so no clause of one key can make up for a difference in another.
* **`ofParams_document_eq_iff`** — the headline.
-/

namespace ListQuery

/-! ## Flat documents -/

namespace Json

/-- `json.IsFlat` says that the value is a scalar, or an array of scalars that
is not empty. These are the values that a query text can give by repeating a
key. -/
def IsFlat : Json → Prop
  | .array items => items ≠ [] ∧ ∀ item ∈ items, item.IsScalar
  | json => json.IsScalar

end Json

namespace Params

/-- The string form of a scalar, which is what `scalarText` gives and by which a
query text gives the same value. It is only asked for scalars. -/
def scalarForm (json : Json) : String :=
  match scalarText json with
  | .ok text => text
  | .error _ => ""

/-- The strings of a value: those of its items if it is an array. -/
def forms : Json → List String
  | .array items => items.map scalarForm
  | json => [scalarForm json]

/-- The keys and strings of an object in order, a pair for each of the `forms`
of a value. A query text for them repeats the key for the items of an array. -/
def documentPairs (members : List (String × Json)) : List (String × String) :=
  members.flatMap fun member => (forms member.2).map fun text => (member.1, text)

/-- What a document makes of a value: `many` strings of every array, also of one
with a single item. -/
def written : Json → Argument
  | .array items => .many (items.map scalarForm)
  | json => .one (scalarForm json)

theorem scalarText_of_isScalar {json : Json} (h : json.IsScalar) :
    scalarText json = .ok (scalarForm json) := by
  cases json with
  | array items => exact absurd rfl h.1
  | object members => exact absurd rfl h.2
  | _ => rfl

/-- `argumentOf` gives what is `written` for a flat value. -/
theorem argumentOf_of_isFlat {json : Json} (h : json.IsFlat) :
    argumentOf json = .ok (written json) := by
  cases json with
  | array items =>
    rw [argumentOf, mapM_eq_ok_map fun item hitem => scalarText_of_isScalar (h.2 item hitem)]
    rfl
  | object members => exact absurd rfl h.2
  | _ => rfl

theorem ofMember_of_isFlat {member : String × Json} (h : member.2.IsFlat) :
    ofMember member = .ok (member.1, written member.2) := by
  rw [ofMember, argumentOf_of_isFlat h]

/-- `ofJson` gives a flat object an entry for each member, in order. With
different names nothing is overwritten. -/
theorem entries_ofJson {members : List (String × Json)} (hkeys : (members.map Prod.fst).Nodup)
    (hflat : ∀ member ∈ members, member.2.IsFlat) :
    ∃ params : Params, ofJson (.object members) = .ok params ∧
      params.entries = members.map fun member => (member.1, written member.2) := by
  refine ⟨_, ?_, OrderedMap.entries_ofList (by simpa [Function.comp_def] using hkeys)⟩
  rw [ofJson, OrderedMap.entries_ofList hkeys,
    mapM_eq_ok_map fun member hmember => ofMember_of_isFlat (hflat member hmember)]
  rfl

/-! ## Strings for one key after the other -/

/-- `append` for the key that came in last puts the string behind its strings,
and its entry stays the last one. -/
theorem entries_append_last {params : Params} {front : List (String × Argument)} {key : String}
    {argument : Argument} (h : params.entries = front ++ [(key, argument)])
    (hkey : key ∉ front.map Prod.fst) (text : String) :
    (params.append key text).entries = front ++ [(key, argument.push text)] := by
  show alterEntries key _ params.entries = _
  rw [h, alterEntries_append hkey, alterEntries, if_pos rfl]

/-- `append` of strings for the key that came in last puts them behind its
strings. Induction on the strings. -/
theorem entries_foldl_append_last {params : Params} {front : List (String × Argument)}
    {key : String} {argument : Argument} (h : params.entries = front ++ [(key, argument)])
    (hkey : key ∉ front.map Prod.fst) (texts : List String) :
    (texts.foldl (fun params text => params.append key text) params).entries =
      front ++ [(key, texts.foldl Argument.push argument)] := by
  induction texts generalizing params argument with
  | nil => exact h
  | cons text rest ih => exact ih (entries_append_last h hkey text)

/-- `append` of strings for a new key gives it one entry behind all others: the
first string makes the entry, and the others go into it. -/
theorem entries_foldl_append_new {params : Params} {key : String} (hkey : key ∉ params.keys)
    {texts : List String} (hne : texts ≠ []) :
    (texts.foldl (fun params text => params.append key text) params).entries =
      params.entries ++ [(key, .collected texts)] := by
  obtain ⟨text, rest, rfl⟩ := List.exists_cons_of_ne_nil hne
  rw [← Argument.foldl_push_one, List.foldl_cons]
  exact entries_foldl_append_last (OrderedMap.entries_alter_of_not_mem hkey _) hkey rest

theorem forms_ne_nil {json : Json} (h : json.IsFlat) : forms json ≠ [] := by
  cases json with
  | array items => simpa [forms] using h.1
  | _ => exact List.cons_ne_nil _ _

/-- `append` of the `documentPairs` of new members gives them an entry each,
behind all others. Induction on the members. -/
theorem entries_foldl_documentPairs (params : Params) {members : List (String × Json)}
    (hkeys : (params.keys ++ members.map Prod.fst).Nodup)
    (hflat : ∀ member ∈ members, member.2.IsFlat) :
    ((documentPairs members).foldl
        (fun params pair => params.append pair.1 pair.2) params).entries =
      params.entries ++
        members.map fun member => (member.1, Argument.collected (forms member.2)) := by
  -- member by member: the strings of one make the entry that stands behind those in front of it
  induction members generalizing params with
  | nil => simp [documentPairs]
  | cons member rest ih =>
    obtain ⟨hmember, hrest⟩ := List.forall_mem_cons.mp hflat
    have hnew : member.1 ∉ params.keys := fun hmem =>
      (List.nodup_append.mp hkeys).2.2 member.1 hmem member.1 (by simp) rfl
    have hentries := entries_foldl_append_new hnew (forms_ne_nil hmember)
    rw [documentPairs, List.flatMap_cons, List.foldl_append, List.foldl_map]
    generalize (forms member.2).foldl (fun params text => params.append member.1 text) params =
      built at hentries
    have hbuilt : built.keys = params.keys ++ [member.1] := by
      rw [OrderedMap.keys, hentries, List.map_append]
      rfl
    have hall := ih built (by rw [hbuilt]; simpa using hkeys) hrest
    rw [hentries] at hall
    simpa [documentPairs] using hall

/-- `ofPairs` gives an entry for each member of a flat object, in order. -/
theorem entries_ofPairs {members : List (String × Json)} (hkeys : (members.map Prod.fst).Nodup)
    (hflat : ∀ member ∈ members, member.2.IsFlat) :
    (ofPairs (documentPairs members)).entries =
      members.map fun member => (member.1, Argument.collected (forms member.2)) :=
  entries_foldl_documentPairs OrderedMap.empty hkeys hflat

theorem texts_written (json : Json) : (written json).texts = forms json := by
  cases json <;> rfl

/-! ## Parameters with the same strings -/

/-- `SameTexts params params'` says that the parameters have the same keys, in
the same order and with the same strings. They may differ in which arguments are
lists. -/
def SameTexts (params params' : Params) : Prop :=
  params.entries.map (fun entry => (entry.1, entry.2.texts)) =
    params'.entries.map fun entry => (entry.1, entry.2.texts)

/-- `lookup` of the strings of a key gives those of its argument. Induction on
the entries. -/
theorem lookup_map_texts (entries : List (String × Argument)) (key : String) :
    (entries.map fun entry => (entry.1, entry.2.texts)).lookup key =
      (entries.lookup key).map Argument.texts := by
  induction entries with
  | nil => rfl
  | cons entry rest ih =>
    rw [List.map_cons, List.lookup_cons, List.lookup_cons]
    cases key == entry.1 with
    | true => rfl
    | false => exact ih

/-- `last?` is the same for parameters with `SameTexts`, so no control sees
which arguments are lists. -/
theorem last?_eq_of_texts {params params' : Params} (h : SameTexts params params') (key : String) :
    params.last? key = params'.last? key := by
  have hlast : ∀ params : Params, params.last? key =
      ((params.entries.map fun entry => (entry.1, entry.2.texts)).lookup key).bind
        List.getLast? := by
    intro params
    rw [lookup_map_texts, last?, OrderedMap.get?]
    cases params.entries.lookup key <;> rfl
  rw [hlast, hlast, h]

end Params

/-! ## Clauses block by block -/

/-- `flatMap` with two functions agrees exactly when the blocks do, if these
have the same lengths. Induction on the items. -/
theorem flatMap_eq_flatMap_iff {α β : Type} {f g : α → List β} {items : List α}
    (h : ∀ x ∈ items, (f x).length = (g x).length) :
    items.flatMap f = items.flatMap g ↔ ∀ x ∈ items, f x = g x := by
  induction items with
  | nil => simp
  | cons x rest ih =>
    obtain ⟨hx, hrest⟩ := List.forall_mem_cons.mp h
    rw [List.flatMap_cons, List.flatMap_cons, List.forall_mem_cons, ← ih hrest]
    constructor
    · exact fun heq => List.append_inj heq hx
    · rintro ⟨hfirst, hothers⟩
      rw [hfirst, hothers]

namespace Argument

theorem listed_one_of_not_mem {text : String} (h : ',' ∉ text.toList) :
    (Argument.one text).listed = [text] := by
  rw [listed, Operand.commaParts, List.splitOn_eq_singleton h]
  simp

/-- A string with a comma lists more than one. -/
theorem one_lt_length_listed_one {text : String} (h : ',' ∈ text.toList) :
    1 < (Argument.one text).listed.length := by
  obtain ⟨front, back, hsplit⟩ := List.append_of_mem h
  have hfront := List.length_pos_iff.mpr (List.splitOn_ne_nil ',' front)
  have hback := List.length_pos_iff.mpr (List.splitOn_ne_nil ',' back)
  rw [listed, Operand.commaParts, hsplit, List.splitOn_append_cons_self, List.length_map,
    List.length_append]
  omega

end Argument

namespace Filter

/-- Arguments with the same strings give a `block` of the same length, single
strings and lists alike. So a difference in one block cannot be made up for in
another. -/
theorem length_block_eq_of_texts {key : String} {argument argument' : Argument}
    (h : argument.texts = argument'.texts) :
    (block key argument).length = (block key argument').length := by
  unfold block
  split
  · rfl
  · simp only [List.length_map, h]

/-- A list of one string gives the `block` that the string does, unless a
membership test cuts it. -/
theorem block_many_singleton_eq_iff {key text : String} :
    block key (.many [text]) = block key (.one text) ↔
      ¬ ((Target.ofKey key).operator = .isIn ∧ ',' ∈ text.toList) := by
  by_cases hin : (Target.ofKey key).operator = .isIn
  · rw [block, block, if_pos hin, if_pos hin]
    by_cases hcomma : ',' ∈ text.toList
    · -- one operand against at least two
      have hlength := Argument.one_lt_length_listed_one hcomma
      refine iff_of_false (fun heq => ?_) fun h => h ⟨hin, hcomma⟩
      simp only [List.cons.injEq, Clause.mk.injEq, Test.oneOf.injEq, true_and, and_true] at heq
      have hcount := congrArg List.length heq
      rw [List.length_map, List.length_map] at hcount
      exact absurd (hcount ▸ hlength) (by simp [Argument.listed])
    · refine iff_of_true ?_ fun h => hcomma h.2
      rw [Argument.listed_one_of_not_mem hcomma]
      rfl
  · refine iff_of_true ?_ fun h => hin h.1
    rw [block, block, if_neg hin, if_neg hin]
    rfl

end Filter

namespace Params

/-- What is `written` for a value is `collected` from its `forms`, unless it is
an array with one item only. -/
theorem written_eq_collected {json : Json} (h : ∀ item, json ≠ .array [item]) :
    written json = .collected (forms json) := by
  cases json with
  | array items =>
    match items with
    | [] => rfl
    | [item] => exact absurd rfl (h item)
    | _ :: _ :: _ => rfl
  | _ => rfl

end Params

namespace Filter

open Params (written forms scalarForm)

/-- A document and a query text give a different `block` only where a membership
test cuts the one item of an array. -/
theorem block_written_eq_iff {key : String} {json : Json} :
    block key (written json) = block key (.collected (forms json)) ↔
      ¬ ∃ item, json = .array [item] ∧ (Target.ofKey key).operator = .isIn ∧
        ',' ∈ (scalarForm item).toList := by
  by_cases halone : ∃ item, json = .array [item]
  · obtain ⟨item, rfl⟩ := halone
    refine block_many_singleton_eq_iff.trans (not_congr ⟨fun h => ⟨item, rfl, h⟩, ?_⟩)
    rintro ⟨other, heq, h⟩
    cases heq
    exact h
  · rw [Params.written_eq_collected fun item heq => halone ⟨item, heq⟩]
    exact iff_of_true rfl fun ⟨item, heq, _⟩ => halone ⟨item, heq⟩

/-- The clauses of parameters that are made member by member are the `block`s of
the members. -/
theorem clauses_of_entries_eq_map {params : Params} {members : List (String × Json)}
    {f : Json → Argument} (h : params.entries = members.map fun member => (member.1, f member.2)) :
    (ofParams params).clauses =
      (members.filter fun member => !Params.isReserved member.1).flatMap fun member =>
        block member.1 (f member.2) := by
  rw [clauses_eq_flatMap_block, Params.filters, h, List.filter_map, List.flatMap_map]
  rfl

end Filter

/-! ## Plans -/

namespace Plan

open Params (written forms scalarForm documentPairs SameTexts)
open Params.QueryText (EncodesQuery EncodesSegment reservedInKey reservedInValue)

/-- `ofParams` gives the same plan for parameters with `SameTexts` exactly if
the clauses are the same, since all other parts are steered by controls. -/
theorem ofParams_eq_iff_of_sameTexts (defaults : Defaults) {params params' : Params}
    (h : SameTexts params params') :
    ofParams defaults params = ofParams defaults params' ↔
      (Filter.ofParams params).clauses = (Filter.ofParams params').clauses := by
  refine ⟨fun heq => congrArg (fun plan => plan.filter.clauses) heq, fun hclauses => ?_⟩
  apply eq_of_agree
  intro part
  exact agree_of_controls defaults (fun control _ => Params.last?_eq_of_texts h control.key)
    fun _ => hclauses

/-- **Plans from a document and from a query text.** A flat document, and any
text that `EncodesQuery` its `documentPairs`, ask for the same plan unless a
membership test lists a single string that has a comma; and they give the same
parameters if no array has only one item. -/
theorem ofParams_document_eq_iff {members : List (String × Json)} {text : String}
    (hkeys : (members.map Prod.fst).Nodup) (hflat : ∀ member ∈ members, member.2.IsFlat)
    (htext : EncodesQuery (documentPairs members) text.toList) :
    ∃ fromDocument fromText,
      Params.ofJson (.object members) = .ok fromDocument ∧
      Params.ofQueryText text = .ok fromText ∧
      (∀ defaults, ofParams defaults fromDocument = ofParams defaults fromText ↔
        ¬ ∃ key item, (key, Json.array [item]) ∈ members ∧ Params.isReserved key = false ∧
          (Target.ofKey key).operator = .isIn ∧ ',' ∈ (scalarForm item).toList) ∧
      ((∀ key item, (key, Json.array [item]) ∉ members) → fromDocument = fromText) := by
  obtain ⟨fromDocument, hdocument, hwritten⟩ := Params.entries_ofJson hkeys hflat
  have hcollected := Params.entries_ofPairs hkeys hflat
  generalize hfromText : Params.ofPairs (documentPairs members) = fromText at hcollected
  have hread : Params.ofQueryText text = .ok fromText := by
    rw [Params.ofQueryText, Params.QueryText.pairs_of_encodes htext, ← hfromText]
    rfl
  refine ⟨fromDocument, fromText, hdocument, hread, fun defaults => ?_, fun hmany => ?_⟩
  · -- the clauses are compared block by block
    have hsame : SameTexts fromDocument fromText := by
      simp [SameTexts, hwritten, hcollected, Params.texts_written, Argument.texts_collected]
    rw [ofParams_eq_iff_of_sameTexts defaults hsame, Filter.clauses_of_entries_eq_map hwritten,
      Filter.clauses_of_entries_eq_map (f := fun json => .collected (forms json)) hcollected,
      flatMap_eq_flatMap_iff fun member _ => Filter.length_block_eq_of_texts (by
        rw [Params.texts_written, Argument.texts_collected])]
    simp only [List.mem_filter, Filter.block_written_eq_iff]
    constructor
    · rintro h ⟨key, item, hmem, hfilter, hcut⟩
      exact h (key, .array [item]) ⟨hmem, by simp [hfilter]⟩ ⟨item, rfl, hcut⟩
    · rintro h ⟨key, json⟩ ⟨hmem, hfilter⟩ ⟨item, hjson, hcut⟩
      subst hjson
      exact h ⟨key, item, hmem, by simpa using hfilter, hcut⟩
  · -- without such arrays even the arguments are the same
    apply OrderedMap.ext
    rw [hwritten, hcollected]
    apply List.map_congr_left
    intro member hmember
    rw [Params.written_eq_collected fun item heq => hmany member.1 item (heq ▸ hmember)]

/-- `ofParams_document_eq_iff` at a list of one string that a membership test
cuts when it stands alone, and a control that is given twice. -/
theorem ofParams_document_ne_cut :
    ∃ fromDocument fromText,
      Params.ofJson (.object [("tags.in", .array [.string "a,b"]),
        ("page", .array [.integer 2, .null])]) = .ok fromDocument ∧
      Params.ofQueryText "tags.in=a,b&page=2&page=null" = .ok fromText ∧
      ∀ defaults, ofParams defaults fromDocument ≠ ofParams defaults fromText := by
  have hflat : ∀ member ∈ [("tags.in", Json.array [.string "a,b"]),
      ("page", .array [.integer 2, .null])], member.2.IsFlat := by
    simp [Json.IsFlat, Json.IsScalar, Json.kind]
  have hsegment : ∀ {key text : String}, (∀ c ∈ key.toList, c ∉ '%' :: reservedInKey) →
      (∀ c ∈ text.toList, c ∉ '%' :: reservedInValue) →
      EncodesSegment (key, text) (key.toList ++ '=' :: text.toList) :=
    fun hkey htext => .assigned (Text.Percent.encodes_self hkey) (Text.Percent.encodes_self htext)
  have htext : EncodesQuery [("tags.in", "a,b"), ("page", "2"), ("page", "null")]
      "tags.in=a,b&page=2&page=null".toList :=
    .unmarked
      (.cons (hsegment (by simp [reservedInKey, reservedInValue]) (by simp [reservedInValue]))
        (.cons (hsegment (by simp [reservedInKey, reservedInValue]) (by simp [reservedInValue]))
          (.cons (hsegment (by simp [reservedInKey, reservedInValue]) (by simp [reservedInValue]))
            .nil)))
      (by decide)
  obtain ⟨fromDocument, fromText, hdocument, hread, hplans, -⟩ :=
    ofParams_document_eq_iff (by decide) hflat htext
  refine ⟨fromDocument, fromText, hdocument, hread, fun defaults heq => ?_⟩
  exact (hplans defaults).mp heq
    ⟨"tags.in", .string "a,b", List.mem_cons_self, by decide, by decide +kernel, by decide⟩

end Plan

end ListQuery
