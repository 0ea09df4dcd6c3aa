import ListQuery.Text.Listed

/-!
# What a text lists between commas

Sort keys and selections are both read by `listed?`, so that what texts list is
told once for both.

* **`listed?_eq_none_iff`**, **`listed?_eq_some_iff`** — when something is
  listed, and what.
* **`listed?_intercalate`** — parts that are joined are read one by one, unless
  there is but an empty one.
-/

namespace ListQuery.Text

variable {α : Type} {read : List Char → α} {text : Option String}

/-- `listed?` can cut out the parts first and `read` them then, so how they are
read does not matter to where they are cut. -/
theorem listed?_eq_map (read : List Char → α) (text : Option String) :
    listed? read text = (listed? id text).map (List.map read) := by
  cases text with
  | none => rfl
  | some string =>
    simp only [listed?, Option.map_some, Option.bind_eq_bind, Option.bind_some]
    split
    · rfl
    · rw [Option.map_some, List.map_id]

/-- `listed?` of a text that is not empty gives all its parts, be they empty
themselves. -/
theorem listed?_of_ne_empty {string : String} (h : string ≠ "") :
    listed? read (some string) = some ((string.toList.splitOn ',').map read) := by
  have hempty : ¬ string.toList.isEmpty = true := by simpa using h
  exact if_neg hempty

/-- `listed?` gives nothing exactly if there is no text or an empty one. -/
theorem listed?_eq_none_iff : listed? read text = none ↔ text = none ∨ text = some "" := by
  cases text with
  | none => simp [listed?]
  | some string =>
    by_cases hempty : string = ""
    · rw [hempty]
      exact iff_of_true rfl (.inr rfl)
    · rw [listed?_of_ne_empty hempty]
      simp [hempty]

/-- What `listed?` gives are the parts of some text that is not empty, one by
one. -/
theorem listed?_eq_some_iff {items : List α} :
    listed? read text = some items ↔
      ∃ string, text = some string ∧ string ≠ "" ∧
        items = (string.toList.splitOn ',').map read := by
  constructor
  · intro h
    have hsome : ¬ (text = none ∨ text = some "") := by
      intro hnone
      rw [listed?_eq_none_iff.mpr hnone] at h
      cases h
    rw [not_or] at hsome
    obtain ⟨string, rfl⟩ := Option.ne_none_iff_exists'.mp hsome.1
    have hne : string ≠ "" := fun hempty => hsome.2 (hempty ▸ rfl)
    rw [listed?_of_ne_empty hne, Option.some.injEq] at h
    exact ⟨string, rfl, hne, h.symm⟩
  · rintro ⟨string, rfl, hne, rfl⟩
    exact listed?_of_ne_empty hne

/-- `listed?` reads parts without commas one by one when commas are between
them, unless there is but an empty one: then nothing is written, and nothing is
listed. -/
theorem listed?_intercalate {parts : List (List Char)} (hne : parts ≠ []) (hblank : parts ≠ [[]])
    (hparts : ∀ part ∈ parts, ',' ∉ part) :
    listed? read (some (String.ofList ([','].intercalate parts))) = some (parts.map read) := by
  have hsplit : ([','].intercalate parts).splitOn ',' = parts :=
    List.splitOn_intercalate ',' hparts hne
  have htext : String.ofList ([','].intercalate parts) ≠ "" := by
    intro hempty
    -- the empty text has one part, and that is empty
    have hnil : [','].intercalate parts = [] := by simpa using hempty
    rw [hnil, List.splitOn_nil] at hsplit
    exact hblank hsplit.symm
  rw [listed?_of_ne_empty htext, String.toList_ofList, hsplit]

end ListQuery.Text
