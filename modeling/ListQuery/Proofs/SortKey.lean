import Mathlib.Data.List.Forall2
import ListQuery.Proofs.Text.Listed
import ListQuery.Proofs.Text.Lowercase
import ListQuery.Proofs.Text.Space
import ListQuery.Proofs.Text.Split
import ListQuery.SortKey

/-!
# Sort keys as they are written

What may be written for a sort key, and which sort keys can be read at all.

* **`Renders`** — a part that is written for a key: the field with its direction
  behind it, or the field alone if it is ascending and does not itself end like
  one with a direction (`EndsInDirection`).
* **`Normal`** — what every key has that is read.
* **`directed?_eq_some_iff`** — the direction behind a field, told by where the
  part is cut.
* **`ofPart_of_renders`**, **`normal_ofPart`**, **`exists_part`** — the crux:
  one part.
* **`ofParams_exact`** — the headline: all parts between commas.
-/

namespace ListQuery

/-! ## Words for a direction -/

namespace Direction

/-- `direction.IsNamedBy word` says that the word is the name of the direction,
in any case of its letters. -/
def IsNamedBy (direction : Direction) (word : List Char) : Prop :=
  word.map Char.toLower = direction.name.toList.map Char.toLower

instance (direction : Direction) (word : List Char) : Decidable (direction.IsNamedBy word) :=
  inferInstanceAs (Decidable (_ = _))

variable {direction : Direction} {word : List Char}

/-- `ofWord?` reads a word as a direction exactly if the direction `IsNamedBy`
it. The two names differ in small letters, so no word is read as both. -/
theorem ofWord?_eq_some_iff : ofWord? word = some direction ↔ direction.IsNamedBy word := by
  have hascending : Direction.ascending.name.toList.map Char.toLower = "asc".toList := by decide
  have hdescending : Direction.descending.name.toList.map Char.toLower = "desc".toList := by decide
  rw [ofWord?, IsNamedBy]
  split
  · next h =>
    rw [h]
    cases direction <;> decide
  · next hnot =>
    split
    · next h =>
      rw [h]
      cases direction <;> decide
    · next hnot' =>
      cases direction <;> simp only [hascending, hdescending, hnot, hnot', reduceCtorEq]

/-- No letter of such a word is white space or a comma. Its small letters are
those of `asc` and `desc`, so the word is in ASCII, and there all is decided. -/
theorem of_mem_word (h : direction.IsNamedBy word) {c : Char} (hc : c ∈ word) :
    Text.isSpace c = false ∧ c ≠ ',' := by
  have hname : ∀ x ∈ direction.name.toList.map Char.toLower,
      x ∈ "descasc".toList ∧ x.toNat < 128 := by
    have hall : ((direction.name.toList.map Char.toLower).all
        fun x => x ∈ "descasc".toList ∧ x.toNat < 128) = true := by
      cases direction <;> decide
    exact fun x hx => of_decide_eq_true (List.all_eq_true.mp hall x hx)
  have hmem := (hname c.toLower (h ▸ List.mem_map_of_mem hc)).1
  have hascii := Text.ascii_of_map_toLower (fun x hx => (hname x hx).2) h c hc
  have hall : ∀ code < 0x80, (Char.ofNat code).toLower ∈ "descasc".toList →
      Text.isSpace (Char.ofNat code) = false ∧ Char.ofNat code ≠ ',' := by
    decide +kernel
  revert hmem
  exact Text.of_ascii hascii hall

theorem ne_nil_of_isNamedBy (h : direction.IsNamedBy word) : word ≠ [] := by
  rintro rfl
  cases direction <;> exact absurd h (by decide)

end Direction

namespace SortKey

/-! ## Directions behind fields -/

/-- `EndsInDirection text` says that the text ends in white space and a word for
a direction. A field that does so cannot be written alone, as its last word
would be read as the direction. -/
def EndsInDirection (text : List Char) : Prop :=
  ∃ front c word direction, text = front ++ c :: word ∧ Text.isSpace c = true ∧
    Direction.IsNamedBy direction word

variable {key : SortKey} {part : List Char}

/-- `directed?` reads a field with a direction behind it where white space
stands in front of the word for that direction. The field is what is in front of
this, trimmed. The word has no white space in it, so `splitLast` cuts right
there. -/
theorem directed?_eq_some_iff :
    directed? part = some key ↔
      ∃ front c word, part = front ++ c :: word ∧ Text.isSpace c = true ∧
        key.direction.IsNamedBy word ∧ key.field = String.ofList (Text.trim front) := by
  rw [directed?]
  constructor
  · intro h
    obtain ⟨⟨front, word⟩, hcut, h⟩ := Option.bind_eq_some_iff.mp h
    obtain ⟨direction, hword, h⟩ := Option.bind_eq_some_iff.mp h
    cases h
    obtain ⟨c, hc, hpart, -⟩ := Text.eq_append_of_splitLast hcut
    exact ⟨front, c, word, hpart, hc, Direction.ofWord?_eq_some_iff.mp hword, rfl⟩
  · rintro ⟨front, c, word, rfl, hc, hword, hfield⟩
    have hcut := Text.splitLast_append front hc fun x hx => (Direction.of_mem_word hword hx).1
    rw [hcut]
    show (Direction.ofWord? word).bind _ = _
    rw [Direction.ofWord?_eq_some_iff.mpr hword, Option.bind_some, ← hfield]
    rfl

/-- `directed?` fails exactly on what does not `EndsInDirection`. -/
theorem directed?_eq_none_iff : directed? part = none ↔ ¬ EndsInDirection part := by
  rw [Option.eq_none_iff_forall_ne_some]
  constructor
  · rintro h ⟨front, c, word, direction, hpart, hc, hword⟩
    exact h ⟨_, direction⟩ (directed?_eq_some_iff.mpr ⟨front, c, word, hpart, hc, hword, rfl⟩)
  · intro h key hkey
    obtain ⟨front, c, word, hpart, hc, hword, -⟩ := directed?_eq_some_iff.mp hkey
    exact h ⟨front, c, word, key.direction, hpart, hc, hword⟩

/-! ## Rendering -/

/-- `key.Normal` says what every sort key has that is read: white space on
neither side of its field, no comma in it, and no direction but the ascending
one behind nothing. -/
structure Normal (key : SortKey) : Prop where
  trimmed : Text.Trimmed key.field.toList
  comma_not_mem : ',' ∉ key.field.toList
  ascending : key.field = "" → key.direction = .ascending

/-- `Renders key part` says that the part is written for the key, with white
space wherever it does not matter: the field and a word for the direction, or an
ascending field alone that does not read as one with a direction. -/
inductive Renders (key : SortKey) : List Char → Prop where
  | directed {front gap word back : List Char} (hfront : ∀ c ∈ front, Text.isSpace c = true)
      (hgap : ∀ c ∈ gap, Text.isSpace c = true) (hne : gap ≠ [])
      (hword : key.direction.IsNamedBy word) (hback : ∀ c ∈ back, Text.isSpace c = true) :
      Renders key (front ++ (key.field.toList ++ gap ++ word) ++ back)
  | plain {front back : List Char} (hfront : ∀ c ∈ front, Text.isSpace c = true)
      (hdirection : key.direction = .ascending) (hplain : ¬ EndsInDirection key.field.toList)
      (hback : ∀ c ∈ back, Text.isSpace c = true) :
      Renders key (front ++ key.field.toList ++ back)

theorem Renders.ne_nil (h : Renders key part) (hne : key.field ≠ "") : part ≠ [] := by
  rintro rfl
  generalize hpart : ([] : List Char) = part at h
  cases h <;> simp_all

/-- What `Renders` a key has no comma unless the field has one, since neither
white space nor a word for a direction has any. -/
theorem Renders.comma_not_mem (h : Renders key part) (hkey : ',' ∉ key.field.toList) :
    ',' ∉ part := by
  cases h with
  | @directed front gap word back hfront hgap _ hword hback =>
    simp only [List.mem_append, not_or]
    have hwordComma : ',' ∉ word := fun hmem => (Direction.of_mem_word hword hmem).2 rfl
    exact ⟨⟨Text.comma_not_mem_of_isSpace hfront,
      ⟨hkey, Text.comma_not_mem_of_isSpace hgap⟩, hwordComma⟩,
      Text.comma_not_mem_of_isSpace hback⟩
  | plain hfront _ _ hback =>
    simp only [List.mem_append, not_or]
    exact ⟨⟨Text.comma_not_mem_of_isSpace hfront, hkey⟩, Text.comma_not_mem_of_isSpace hback⟩

/-! ## One part -/

theorem ofPart_of_directed? (h : directed? (Text.trim part) = some key) : ofPart part = key := by
  rw [ofPart, h]
  rfl

/-- `ofPart` on a part that does not `EndsInDirection`: all of it is the field,
in ascending order. -/
theorem ofPart_of_plain (h : ¬ EndsInDirection (Text.trim part)) :
    ofPart part = ⟨String.ofList (Text.trim part), .ascending⟩ := by
  rw [ofPart, directed?_eq_none_iff.mpr h]
  rfl

/-- A field with a direction behind it is `Trimmed` as a whole, whatever stands
between the two. -/
theorem trimmed_append_word {field word : List Char} {direction : Direction}
    (hfield : Text.Trimmed field) (hne : field ≠ []) (gap : List Char)
    (hword : direction.IsNamedBy word) :
    Text.Trimmed (field ++ gap ++ word) := by
  constructor
  · intro c hc
    rw [List.append_assoc, List.head?_append_of_ne_nil _ hne] at hc
    exact hfield.1 c hc
  · intro c hc
    rw [List.getLast?_append_of_ne_nil _ (Direction.ne_nil_of_isNamedBy hword)] at hc
    exact (Direction.of_mem_word hword (List.mem_of_mem_getLast? hc)).1

/-- `directed?` takes off all white space between the field and the direction,
not only the one character where `splitLast` cuts. -/
theorem directed?_append_word {gap word : List Char} (hkey : Text.Trimmed key.field.toList)
    (hgap : ∀ c ∈ gap, Text.isSpace c = true) (hne : gap ≠ [])
    (hword : key.direction.IsNamedBy word) :
    directed? (key.field.toList ++ gap ++ word) = some key := by
  obtain ⟨pad, c, rfl⟩ := (List.eq_nil_or_concat' gap).resolve_left hne
  obtain ⟨hpad, hc⟩ := List.forall_mem_append.mp hgap
  have htrim : Text.trim ([] ++ key.field.toList ++ pad) = key.field.toList :=
    Text.trim_append (List.forall_mem_nil _) hpad hkey
  refine directed?_eq_some_iff.mpr
    ⟨key.field.toList ++ pad, c, word, by simp, hc c (List.mem_singleton_self c), hword, ?_⟩
  rw [← List.nil_append key.field.toList, htrim, String.ofList_toList]

/-- A key is read again from whatever is written for it, in both of the ways
that `Renders` has. -/
theorem ofPart_of_renders (hkey : Text.Trimmed key.field.toList) (hne : key.field ≠ "")
    (h : Renders key part) : ofPart part = key := by
  cases h with
  | @directed front gap word back hfront hgap hgapNe hword hback =>
    have hfield : key.field.toList ≠ [] := fun hnil => hne (String.toList_eq_nil_iff.mp hnil)
    have htrim := Text.trim_append hfront hback (trimmed_append_word hkey hfield gap hword)
    refine ofPart_of_directed? ?_
    rw [htrim, directed?_append_word hkey hgap hgapNe hword]
  | @plain front back hfront hdirection hplain hback =>
    have htrim := Text.trim_append hfront hback hkey
    rw [ofPart_of_plain (htrim.symm ▸ hplain), htrim, String.ofList_toList, ← hdirection]

/-- White space alone is not what a `Trimmed` text starts with, so something is
left of what stands in front of a direction. -/
theorem trim_ne_nil_of_trimmed {front rest : List Char} {c : Char}
    (h : Text.Trimmed (front ++ c :: rest)) (hc : Text.isSpace c = true) :
    Text.trim front ≠ [] := by
  intro hnil
  cases front with
  | nil =>
    rw [h.1 c rfl] at hc
    cases hc
  | cons x xs =>
    have hx := Text.isSpace_of_trim_eq_nil hnil List.mem_cons_self
    rw [h.1 x rfl] at hx
    cases hx

/-- Whatever is written, the key of `ofPart` is `Normal`. A field that is empty
has no direction behind it, as the white space in front of the direction would
have been trimmed off. -/
theorem normal_ofPart (h : ',' ∉ part) : (ofPart part).Normal := by
  have htrimmed := Text.trimmed_trim part
  cases hdirected : directed? (Text.trim part) with
  | none =>
    rw [ofPart_of_plain (directed?_eq_none_iff.mp hdirected)]
    refine ⟨?_, ?_, fun _ => rfl⟩
    · simpa using htrimmed
    · simpa using fun hmem => h (Text.mem_of_mem_trim hmem)
  | some key =>
    rw [ofPart_of_directed? hdirected]
    obtain ⟨front, c, word, hpart, hc, -, hfield⟩ := directed?_eq_some_iff.mp hdirected
    refine ⟨?_, ?_, fun hempty => ?_⟩
    · rw [hfield, String.toList_ofList]
      exact Text.trimmed_trim front
    · rw [hfield, String.toList_ofList]
      intro hmem
      have hfront : ',' ∈ Text.trim part :=
        hpart ▸ List.mem_append_left _ (Text.mem_of_mem_trim hmem)
      exact h (Text.mem_of_mem_trim hfront)
    · rw [hpart] at htrimmed
      refine absurd ?_ (trim_ne_nil_of_trimmed htrimmed hc)
      rw [← String.toList_ofList (l := Text.trim front), ← hfield, hempty]
      rfl

/-- Every `Normal` key is read from some part that is not empty: the field with
its direction written out, or white space for the key without a field. -/
theorem exists_part (h : key.Normal) : ∃ part, part ≠ [] ∧ ',' ∉ part ∧ ofPart part = key := by
  by_cases hempty : key.field = ""
  · -- nothing at all may be no part, but white space is one
    refine ⟨[' '], by simp, by decide, ?_⟩
    obtain ⟨field, direction⟩ := key
    cases hempty
    cases h.ascending rfl
    decide
  · have hgap : ∀ c ∈ [' '], Text.isSpace c = true := List.forall_mem_singleton.mpr (by decide)
    have hrenders :
        Renders key ([] ++ (key.field.toList ++ [' '] ++ key.direction.name.toList) ++ []) :=
      .directed (List.forall_mem_nil _) hgap (by decide) rfl (List.forall_mem_nil _)
    exact ⟨_, hrenders.ne_nil hempty, hrenders.comma_not_mem h.comma_not_mem,
      ofPart_of_renders h.trimmed hempty hrenders⟩

/-! ## All parts -/

variable {params : Params} {keys : List SortKey} {parts : List (List Char)}

theorem ofParams_of_text {text : String} (h : params.control? .sort = some text) (hne : text ≠ "") :
    ofParams params = some ((text.toList.splitOn ',').map ofPart) := by
  rw [ofParams, h, Text.listed?_of_ne_empty hne]

theorem ofParams_eq_none_iff :
    ofParams params = none ↔ params.control? .sort = none ∨ params.control? .sort = some "" := by
  rw [ofParams, Text.listed?_eq_none_iff]

/-- `ofParams` reads parts without commas one by one when commas are between
them. -/
theorem ofParams_of_parts (hne : parts ≠ []) (hparts : ∀ part ∈ parts, part ≠ [] ∧ ',' ∉ part)
    (h : params.control? .sort = some (String.ofList ([','].intercalate parts))) :
    ofParams params = some (parts.map ofPart) := by
  have hblank : parts ≠ [[]] := by
    rintro rfl
    exact (hparts [] (List.mem_singleton_self _)).1 rfl
  rw [ofParams, h, Text.listed?_intercalate hne hblank fun part hpart => (hparts part hpart).2]

/-- `ofPart` reads keys with a field from whatever `Renders` them, one by one,
and the parts are not empty and without commas. Induction along both lists. -/
theorem map_ofPart_of_renders (h : List.Forall₂ Renders keys parts)
    (hkeys : ∀ key ∈ keys, key.Normal ∧ key.field ≠ "") :
    parts.map ofPart = keys ∧ ∀ part ∈ parts, part ≠ [] ∧ ',' ∉ part := by
  induction h with
  | nil => exact ⟨rfl, List.forall_mem_nil _⟩
  | cons hrenders _ ih =>
    obtain ⟨⟨hkey, hne⟩, hrest⟩ := List.forall_mem_cons.mp hkeys
    obtain ⟨hmap, hparts⟩ := ih hrest
    rw [List.map_cons, ofPart_of_renders hkey.trimmed hne hrenders, hmap]
    have hpart := And.intro (hrenders.ne_nil hne) (hrenders.comma_not_mem hkey.comma_not_mem)
    exact ⟨rfl, List.forall_mem_cons.mpr ⟨hpart, hparts⟩⟩

/-- All `Normal` keys are read from some parts, each by `exists_part`. -/
theorem exists_parts (hkeys : ∀ key ∈ keys, key.Normal) :
    ∃ parts : List (List Char),
      parts.map ofPart = keys ∧ ∀ part ∈ parts, part ≠ [] ∧ ',' ∉ part := by
  induction keys with
  | nil => exact ⟨[], rfl, List.forall_mem_nil _⟩
  | cons key rest ih =>
    obtain ⟨hkey, hrest⟩ := List.forall_mem_cons.mp hkeys
    obtain ⟨part, hne, hcomma, hpart⟩ := exists_part hkey
    obtain ⟨parts, hmap, hparts⟩ := ih hrest
    exact ⟨part :: parts, by rw [List.map_cons, hpart, hmap],
      List.forall_mem_cons.mpr ⟨⟨hne, hcomma⟩, hparts⟩⟩

/-- **How sort keys are written and read.** `ofParams` reads sort keys with a
field from whatever `Renders` them, with commas between the parts. What is read
is one `Normal` key for each part, of which there is one more than there are
commas, and all such lists of keys are read from some text, whatever else the
parameters are. No keys are read where there is no text or an empty one, and
nowhere else. -/
theorem ofParams_exact :
    (∀ (params : Params) (keys : List SortKey) (parts : List (List Char)), keys ≠ [] →
      (∀ key ∈ keys, key.Normal ∧ key.field ≠ "") → List.Forall₂ Renders keys parts →
      params.control? .sort = some (String.ofList ([','].intercalate parts)) →
        ofParams params = some keys) ∧
    (∀ (params : Params) (keys : List SortKey), ofParams params = some keys →
      ∃ text, params.control? .sort = some text ∧ keys.length = text.toList.count ',' + 1 ∧
        ∀ key ∈ keys, key.Normal) ∧
    (∀ keys : List SortKey, keys ≠ [] → (∀ key ∈ keys, key.Normal) →
      ∃ text, ∀ params : Params, ofParams (params.append Control.sort.key text) = some keys) ∧
    ∀ params : Params, ofParams params = none ↔
      params.control? .sort = none ∨ params.control? .sort = some "" := by
  refine ⟨?_, ?_, ?_, fun _ => ofParams_eq_none_iff⟩
  · -- what is written for the keys is read again
    intro params keys parts hne hkeys hrenders htext
    obtain ⟨hmap, hparts⟩ := map_ofPart_of_renders hrenders hkeys
    have hpartsNe : parts ≠ [] := by
      rintro rfl
      exact hne hmap.symm
    rw [ofParams_of_parts hpartsNe hparts htext, hmap]
  · -- what is read comes from the parts of some text
    intro params keys h
    have hsome : ¬ (params.control? .sort = none ∨ params.control? .sort = some "") := by
      rw [← ofParams_eq_none_iff, h]
      simp
    rw [not_or] at hsome
    obtain ⟨text, htext⟩ := Option.ne_none_iff_exists'.mp hsome.1
    rw [ofParams_of_text htext fun hempty => hsome.2 (hempty ▸ htext), Option.some.injEq] at h
    subst h
    refine ⟨text, htext, by rw [List.length_map, Text.length_splitOn], ?_⟩
    rintro key hkey
    obtain ⟨part, hpart, rfl⟩ := List.mem_map.mp hkey
    exact normal_ofPart (Text.not_mem_of_mem_splitOn hpart)
  · -- and every list of normal keys is read from some text
    intro keys hne hkeys
    obtain ⟨parts, hmap, hparts⟩ := exists_parts hkeys
    have hpartsNe : parts ≠ [] := by
      rintro rfl
      exact hne hmap.symm
    refine ⟨String.ofList ([','].intercalate parts), fun params => ?_⟩
    rw [ofParams_of_parts hpartsNe hparts (Params.last?_append_self ..), hmap]

/-- `ofParams_exact` at a field that looks like one with a direction behind
it. -/
theorem ofParams_exact_padded :
    ofParams (Params.ofPairs [("sort", "\u3000a DESC \tAsc,b")]) =
      some [⟨"a DESC", .ascending⟩, ⟨"b", .ascending⟩] := by
  have hspace : ∀ c ∈ ['\u3000'], Text.isSpace c = true :=
    List.forall_mem_singleton.mpr (by decide)
  have hgap : ∀ c ∈ [' ', '\t'], Text.isSpace c = true :=
    List.all_eq_true.mp (show ([' ', '\t'].all Text.isSpace) = true from by decide)
  have hfirst : Renders ⟨"a DESC", .ascending⟩
      (['\u3000'] ++ ("a DESC".toList ++ [' ', '\t'] ++ "Asc".toList) ++ []) :=
    .directed hspace hgap (by decide) (by decide) (List.forall_mem_nil _)
  have hsecond : Renders ⟨"b", .ascending⟩ ([] ++ "b".toList ++ []) :=
    .plain (List.forall_mem_nil _) rfl (directed?_eq_none_iff.mp (by decide))
      (List.forall_mem_nil _)
  have hnormal : ∀ key ∈ [ofPart "a DESC ASC".toList, ofPart ['b']],
      key.Normal ∧ key.field ≠ "" := by
    simp only [List.forall_mem_cons]
    exact ⟨⟨normal_ofPart (by decide), by decide⟩, ⟨normal_ofPart (by decide), by decide⟩,
      List.forall_mem_nil _⟩
  exact ofParams_exact.1 _ _ _ (by decide) hnormal (.cons hfirst (.cons hsecond .nil)) (by decide)

end SortKey

end ListQuery
