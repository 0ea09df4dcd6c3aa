import Mathlib.Data.List.Forall2
import ListQuery.Proofs.Text.Listed
import ListQuery.Proofs.Text.Space
import ListQuery.Proofs.Text.Split
import ListQuery.Selection

/-!
# Fields as they are written

What may be written for the names of fields, and which names can be read at all.

* **`Normal`** — what every name has that is read.
* **`ofPart_of_pads`**, **`normal_ofPart`**, **`exists_parts`** — one name: it
  is read from itself with white space around it, what is read is normal, and
  nothing that is normal is left out.
* **`ofParams_selects`** — the headline: all names between commas. The empty
  name on its own is the corner: it has to be written as white space.
-/

namespace ListQuery.Selection

open Text (Pads)

/-- `Normal name` says what every name has that is read: white space on neither
side of it, and no comma in it. -/
structure Normal (name : String) : Prop where
  trimmed : Text.Trimmed name.toList
  comma_not_mem : ',' ∉ name.toList

variable {params : Params} {name : String} {names : List String} {part : List Char}
  {parts : List (List Char)}

/-! ## One name -/

/-- A normal name is read again from itself with white space around it: `trim`
takes the white space off, and nothing of the name, which is trimmed already. -/
theorem ofPart_of_pads (h : Normal name) (hpads : Pads name.toList part) : ofPart part = name := by
  rw [ofPart, hpads.trim_eq h.trimmed, String.ofList_toList]

/-- White space alone is read as the empty name, since `""` is `Normal` and
white space pads it. -/
theorem ofPart_of_isSpace (h : ∀ c ∈ part, Text.isSpace c = true) : ofPart part = "" := by
  have hnormal : Normal "" := ⟨⟨by simp, by simp⟩, by simp⟩
  exact ofPart_of_pads hnormal ⟨part, [], h, List.forall_mem_nil _, by simp⟩

/-- What is read from a part without commas is normal: it is trimmed by `trim`,
and trimming brings in no comma that the part does not have. -/
theorem normal_ofPart (h : ',' ∉ part) : Normal (ofPart part) where
  trimmed := by
    rw [ofPart, String.toList_ofList]
    exact Text.trimmed_trim part
  comma_not_mem := by
    rw [ofPart, String.toList_ofList]
    exact fun hmem => h (Text.mem_of_mem_trim hmem)

/-! ## All names -/

/-- `ofPart` reads `Normal` names from what `Pads` them, one by one, and none of
the parts has a comma in it, so that splitting the text gives just these parts
back. Induction along both lists. -/
theorem map_ofPart_of_pads (h : List.Forall₂ (fun name part => Pads name.toList part) names parts)
    (hnames : ∀ name ∈ names, Normal name) :
    parts.map ofPart = names ∧ ∀ part ∈ parts, ',' ∉ part := by
  induction h with
  | nil => exact ⟨rfl, List.forall_mem_nil _⟩
  | cons hpads _ ih =>
    obtain ⟨hname, hrest⟩ := List.forall_mem_cons.mp hnames
    obtain ⟨hmap, hparts⟩ := ih hrest
    rw [List.map_cons, ofPart_of_pads hname hpads, hmap]
    exact ⟨rfl, List.forall_mem_cons.mpr ⟨hpads.comma_not_mem hname.comma_not_mem, hparts⟩⟩

/-- All `Normal` names are read from some parts of which none is empty: white
space stands in front of every name. Without it a single empty name would be an
empty text, and that selects nothing at all. -/
theorem exists_parts (hnames : ∀ name ∈ names, Normal name) :
    ∃ parts : List (List Char),
      parts.map ofPart = names ∧ ∀ part ∈ parts, part ≠ [] ∧ ',' ∉ part := by
  have hspace : ∀ c ∈ [' '], Text.isSpace c = true := List.forall_mem_singleton.mpr (by decide)
  have hpads : ∀ name : String, Pads name.toList (' ' :: name.toList) :=
    fun name => ⟨[' '], [], hspace, List.forall_mem_nil _, by simp⟩
  refine ⟨names.map fun name => ' ' :: name.toList, ?_, ?_⟩
  · rw [List.map_map]
    refine (List.map_congr_left fun name hname => ?_).trans (List.map_id names)
    exact ofPart_of_pads (hnames name hname) (hpads name)
  · rintro part hpart
    obtain ⟨name, hname, rfl⟩ := List.mem_map.mp hpart
    exact ⟨List.cons_ne_nil _ _, (hpads name).comma_not_mem (hnames name hname).comma_not_mem⟩

/-- **Which fields are selected.** `ofParams` reads `Normal` names from what
`Pads` them with commas between, but for the empty name on its own. What is read
is one `Normal` name for each part, of which there is one more than there are
commas, and all such lists of names are read from some text, whatever else the
parameters are. No names are read where there is no text or an empty one, and
nowhere else: white space alone is the empty name. -/
theorem ofParams_selects :
    (∀ (params : Params) (names : List String) (parts : List (List Char)),
      names ≠ [] → names ≠ [""] → (∀ name ∈ names, Normal name) →
      List.Forall₂ (fun name part => Pads name.toList part) names parts →
      params.control? .fields = some (String.ofList ([','].intercalate parts)) →
        ofParams params = some names) ∧
    (∀ (params : Params) (names : List String), ofParams params = some names →
      ∃ text, params.control? .fields = some text ∧ names.length = text.toList.count ',' + 1 ∧
        ∀ name ∈ names, Normal name) ∧
    (∀ names : List String, names ≠ [] → (∀ name ∈ names, Normal name) →
      ∃ text, ∀ params : Params, ofParams (params.append Control.fields.key text) = some names) ∧
    (∀ params : Params, ofParams params = none ↔
      params.control? .fields = none ∨ params.control? .fields = some "") ∧
    ∀ (params : Params) (text : String), params.control? .fields = some text → text ≠ "" →
      (∀ c ∈ text.toList, Text.isSpace c = true) → ofParams params = some [""] := by
  refine ⟨?_, ?_, ?_, fun params => ?_, ?_⟩
  · -- the parts are what splitting gives, unless there is but an empty one
    intro params names parts hne hblank hnames hpads htext
    obtain ⟨rfl, hparts⟩ := map_ofPart_of_pads hpads hnames
    have hpartsNe : parts ≠ [] := fun hnil => hne (by rw [hnil, List.map_nil])
    have hpartsBlank : parts ≠ [[]] := by
      rintro rfl
      exact hblank (by decide)
    rw [ofParams, htext, Text.listed?_intercalate hpartsNe hpartsBlank hparts]
  · intro params names h
    obtain ⟨text, htext, -, rfl⟩ := Text.listed?_eq_some_iff.mp h
    refine ⟨text, htext, by rw [List.length_map, Text.length_splitOn], ?_⟩
    rintro name hname
    obtain ⟨part, hpart, rfl⟩ := List.mem_map.mp hname
    exact normal_ofPart (Text.not_mem_of_mem_splitOn hpart)
  · -- the text of the parts is appended last, so it is the one that is read
    intro names hne hnames
    obtain ⟨parts, rfl, hparts⟩ := exists_parts hnames
    have hpartsNe : parts ≠ [] := fun hnil => hne (by rw [hnil, List.map_nil])
    have hpartsBlank : parts ≠ [[]] := by
      rintro rfl
      exact (hparts [] List.mem_cons_self).1 rfl
    refine ⟨String.ofList ([','].intercalate parts), fun params => ?_⟩
    have hlast : (params.append Control.fields.key _).control? .fields = _ :=
      Params.last?_append_self params Control.fields.key (String.ofList ([','].intercalate parts))
    rw [ofParams, hlast,
      Text.listed?_intercalate hpartsNe hpartsBlank fun part hpart => (hparts part hpart).2]
  · rw [ofParams, Text.listed?_eq_none_iff]
  · -- white space has no comma in it, so it is one part, and nothing is left of that
    intro params text htext hne hspace
    rw [ofParams, htext, Text.listed?_of_ne_empty hne,
      List.splitOn_eq_singleton (Text.comma_not_mem_of_isSpace hspace), List.map_singleton,
      ofPart_of_isSpace hspace]

/-- `ofParams_selects` at a name with white space within it, one that is
repeated and an empty one at the end. -/
theorem ofParams_selects_repeated :
    ofParams (Params.ofPairs [("_fields", "\u3000a b,a b\t ,\u2003")]) =
      some ["a b", "a b", ""] := by
  have hfirst : Pads "a b".toList "\u3000a b".toList :=
    ⟨['\u3000'], [], List.forall_mem_singleton.mpr (by decide), List.forall_mem_nil _, by decide⟩
  have hsecond : Pads "a b".toList "a b\t ".toList :=
    ⟨[], ['\t', ' '], List.forall_mem_nil _, List.all_eq_true.mp (by decide), by decide⟩
  have hlast : Pads "".toList "\u2003".toList :=
    ⟨['\u2003'], [], List.forall_mem_singleton.mpr (by decide), List.forall_mem_nil _, by decide⟩
  have hname : Normal (ofPart "a b".toList) := normal_ofPart (by decide)
  have hempty : Normal (ofPart []) := normal_ofPart (by decide)
  have hnormal : ∀ name ∈ [ofPart "a b".toList, ofPart "a b".toList, ofPart []], Normal name := by
    simp only [List.forall_mem_cons]
    exact ⟨hname, hname, hempty, List.forall_mem_nil _⟩
  exact ofParams_selects.1 _ _ _ (by decide) (by decide) hnormal
    (.cons hfirst (.cons hsecond (.cons hlast .nil))) (by decide)

end ListQuery.Selection
