import ListQuery.Proofs.Plan.Spelling
import ListQuery.Proofs.Text.Split

/-!
# The two forms of a membership test

A membership test takes its list as one text with commas, or as a list of texts
that no comma divides.

* **`Argument.listed_joined`** — where no text has a comma, the joined text
  lists them again.
* **`Argument.length_lt_length_listed_joined`** — the crux for the other case:
  every comma that a text brings along makes one part more.
* **`clauses_joined`** — the headline: when the two forms give the same clause,
  and that cutting at commas undoes joining with them.
-/

namespace ListQuery

/-! ## Texts and their commas -/

namespace Argument

/-- The texts with commas between them, as a single argument. -/
def joined (texts : List String) : Argument := .one (",".intercalate texts)

variable {texts : List String}

theorem toList_intercalate_comma (texts : List String) :
    (",".intercalate texts).toList = [','].intercalate (texts.map String.toList) := by
  rw [String.toList_intercalate]
  rfl

/-- Where no text has a comma, `joined` lists them again. Without any text it
would list the empty one, which is why there has to be one. -/
theorem listed_joined (hne : texts ≠ []) (h : ∀ text ∈ texts, ',' ∉ text.toList) :
    (joined texts).listed = texts := by
  have hcut : ([','].intercalate (texts.map String.toList)).splitOn ',' = texts.map String.toList :=
    List.splitOn_intercalate ',' (List.forall_mem_map.mpr h) (by simpa using hne)
  rw [joined, listed, Operand.commaParts, toList_intercalate_comma, hcut]
  simp [Function.comp_def]

/-- If a text has a comma, `joined` lists more than there are: it has the commas
in between, and those that the texts bring along. The length alone tells the two
forms apart, so the texts need not be compared. -/
theorem length_lt_length_listed_joined {text : String} (htext : text ∈ texts)
    (hcomma : ',' ∈ text.toList) : texts.length < (joined texts).listed.length := by
  have hmem : text.toList ∈ texts.map String.toList := List.mem_map_of_mem htext
  have hcount := Text.count_intercalate ',' (List.ne_nil_of_mem hmem)
  have hpositive : 0 < (texts.map String.toList).flatten.count ',' :=
    List.count_pos_iff.mpr (List.mem_flatten.mpr ⟨_, hmem, hcomma⟩)
  rw [List.length_map] at hcount
  rw [joined, listed, Operand.commaParts, List.length_map, Text.length_splitOn,
    toList_intercalate_comma]
  omega

end Argument

/-! ## Membership tests -/

namespace Filter

/-- `ofArgument` gives one clause for a membership test, with an operand for
each text that it `listed`. -/
theorem ofArgument_of_suffixed {path key : String} (h : Target.Suffixed ⟨path, .isIn⟩ key)
    (argument : Argument) :
    ofArgument key argument = [⟨path, .oneOf (argument.listed.map .ofText)⟩] := by
  rw [ofArgument_eq_block, block, Target.ofKey_of_suffixed h]
  rfl

/-- Where `insert` puts one argument of a membership test in the place of
another, the one clause in the place of the other is all that changes. -/
theorem clauses_insert_of_suffixed {params : Params} {path key : String} {argument : Argument}
    (h : Target.Suffixed ⟨path, .isIn⟩ key) (hget : params.get? key = some argument)
    (argument' : Argument) :
    ∃ front back,
      (ofParams params).clauses =
        front ++ [⟨path, .oneOf (argument.listed.map .ofText)⟩] ++ back ∧
      (ofParams (params.insert key argument')).clauses =
        front ++ [⟨path, .oneOf (argument'.listed.map .ofText)⟩] ++ back := by
  have hkey := Plan.not_isReserved_of_suffixed h
  have hblock : ∀ argument, block key argument = [⟨path, .oneOf (argument.listed.map .ofText)⟩] :=
    fun argument =>
      (ofArgument_eq_block key argument).symm.trans (ofArgument_of_suffixed h argument)
  have hget' : (params.insert key argument').get? key = some argument' :=
    OrderedMap.get?_alter_self params key _
  obtain ⟨front, back, hclauses, hinsert, -⟩ := clauses_alter params key fun _ => argument'
  refine ⟨front, back, ?_, ?_⟩
  · rw [hclauses, ofEntries_entry hkey, share, hget, Option.map_some, hblock]
    rfl
  · rw [OrderedMap.insert, hinsert, ofEntries_entry hkey, ← OrderedMap.insert, share, hget',
      Option.map_some, hblock]
    rfl

/-- **The two forms of a membership test.** `ofArgument` gives one clause for a
list of texts and for the text that joins them with commas. If no text has a
comma both clauses are the same: the operands are what the texts spell one by
one, and no text is trimmed or left out. If one has a comma, the joined text
lists more than the list does. Wherever the argument stands among others, the
clause in its place is all that changes. `commaParts` undoes joining with
commas, and joining undoes `commaParts`. -/
theorem clauses_joined :
    (∀ (path key : String) (texts : List String), Target.Suffixed ⟨path, .isIn⟩ key → texts ≠ [] →
      ∃ joined listed,
        ofArgument key (.one (",".intercalate texts)) = [⟨path, .oneOf joined⟩] ∧
        ofArgument key (.many texts) = [⟨path, .oneOf listed⟩] ∧
        listed = texts.map (fun text => (Operand.text text).recognize) ∧
        ((∀ text ∈ texts, ',' ∉ text.toList) → joined = listed) ∧
        ((∃ text ∈ texts, ',' ∈ text.toList) → joined.length ≠ listed.length) ∧
        ∀ params : Params, params.get? key = some (.one (",".intercalate texts)) →
          ∃ front back, (ofParams params).clauses = front ++ [⟨path, .oneOf joined⟩] ++ back ∧
            (ofParams (params.insert key (.many texts))).clauses =
              front ++ [⟨path, .oneOf listed⟩] ++ back) ∧
    (∀ texts : List String, texts ≠ [] → (∀ text ∈ texts, ',' ∉ text.toList) →
      Operand.ofArgument .commaList (.one (",".intercalate texts)) = .list (texts.map .text)) ∧
    ∀ string : String, ∃ parts : List String,
      Operand.ofArgument .commaList (.one string) = .list (parts.map .text) ∧
      (∀ part ∈ parts, ',' ∉ part.toList) ∧ parts.length = string.toList.count ',' + 1 ∧
      ",".intercalate parts = string := by
  refine ⟨fun path key texts hkey hne => ?_, fun texts hne htexts => ?_, fun string => ?_⟩
  · -- the two forms of one test
    refine ⟨_, _, ofArgument_of_suffixed hkey (.joined texts),
      ofArgument_of_suffixed hkey (.many texts), rfl, fun htexts => ?_, ?_,
      fun params hget => clauses_insert_of_suffixed hkey hget (.many texts)⟩
    · rw [Argument.listed_joined hne htexts]
      rfl
    · rintro ⟨text, htext, hcomma⟩
      have hlt := Argument.length_lt_length_listed_joined htext hcomma
      rw [List.length_map, List.length_map]
      exact Nat.ne_of_gt hlt
  · -- cutting what was joined
    have hparts : Operand.commaParts (",".intercalate texts) = texts :=
      Argument.listed_joined hne htexts
    rw [Operand.ofArgument, hparts]
  · -- joining what was cut
    refine ⟨Operand.commaParts string, rfl, fun _ => Text.not_mem_of_mem_pieces, ?_,
      Text.intercalate_pieces rfl string⟩
    rw [Operand.commaParts, List.length_map, Text.length_splitOn]

/-- `clauses_joined` at a list with an empty text, spaces, a null and a
timestamp in it, and at one that has a comma. -/
theorem clauses_joined_mixed :
    Target.Suffixed ⟨"tags", .isIn⟩ "tags.IN" ∧
    (∃ listed,
      ofArgument "tags.IN" (.one " a,,null,2017-02-31T00:00:00.000Z") = [⟨"tags", .oneOf listed⟩] ∧
      ofArgument "tags.IN" (.many [" a", "", "null", "2017-02-31T00:00:00.000Z"]) =
        [⟨"tags", .oneOf listed⟩] ∧
      listed = [.text " a", .text "", .null, .instant ⟨1488499200000⟩]) ∧
    ∃ joined listed, ofArgument "tags.IN" (.one "a,b,c") = [⟨"tags", .oneOf joined⟩] ∧
      ofArgument "tags.IN" (.many ["a,b", "c"]) = [⟨"tags", .oneOf listed⟩] ∧
      joined.length ≠ listed.length := by
  have hkey : Target.Suffixed ⟨"tags", .isIn⟩ "tags.IN" := ⟨"IN".toList, by decide, by decide⟩
  obtain ⟨hforms, -⟩ := clauses_joined
  obtain ⟨joined, listed, hone, hmany, hlisted, hequal, -⟩ :=
    hforms "tags" "tags.IN" [" a", "", "null", "2017-02-31T00:00:00.000Z"] hkey (by decide)
  obtain ⟨joined', listed', hone', hmany', -, -, hlength, -⟩ :=
    hforms "tags" "tags.IN" ["a,b", "c"] hkey (by decide)
  refine ⟨hkey, ⟨listed, ?_, hmany, ?_⟩, joined', listed', hone', hmany',
    hlength ⟨"a,b", by decide, by decide⟩⟩
  · rw [← hequal (by decide)]
    exact hone
  · rw [hlisted]
    rfl

end Filter

end ListQuery
