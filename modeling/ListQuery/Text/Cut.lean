/-!
# Cutting text in two

Text is cut at its first separator (`before`, `after`) or at the last character
of a class (`splitLast`). The separator itself belongs to neither half. Both
cuts are pinned down by where the text is cut: no separator stands in front of
the first one (`before_append_sep`, `after_append_sep`), and none behind the
last one (`splitLast_append`, `eq_append_of_splitLast`). Cutting at every
separator is `List.splitOn`.
-/

namespace ListQuery.Text

/-! ### At the first separator -/

/-- The text in front of the first `sep`; all of it when there is none. With
`after` this is how a segment is cut at its equals sign. -/
def before (sep : Char) (text : List Char) : List Char := text.takeWhile (· != sep)

/-- The text behind the first `sep`; nothing when there is none. A second `sep`
stays in it. -/
def after (sep : Char) (text : List Char) : List Char := (text.dropWhile (· != sep)).drop 1

theorem bne_of_not_mem {sep : Char} {text : List Char} (h : sep ∉ text) :
    ∀ c ∈ text, (c != sep) = true := by
  intro c hc
  simpa using fun heq : c = sep => h (heq ▸ hc)

/-- `before` gives back the text that was put in front of a separator, as long
as none stands in it. -/
theorem before_append_sep {sep : Char} {text : List Char} (h : sep ∉ text) (rest : List Char) :
    before sep (text ++ sep :: rest) = text := by
  rw [before, List.takeWhile_append_of_pos (bne_of_not_mem h)]
  simp

theorem after_append_sep {sep : Char} {text : List Char} (h : sep ∉ text) (rest : List Char) :
    after sep (text ++ sep :: rest) = rest := by
  rw [after, List.dropWhile_append_of_pos (bne_of_not_mem h)]
  simp

theorem before_of_not_mem {sep : Char} {text : List Char} (h : sep ∉ text) :
    before sep text = text := by
  rw [← List.append_nil text, before, List.takeWhile_append_of_pos (bne_of_not_mem h)]
  simp

theorem after_of_not_mem {sep : Char} {text : List Char} (h : sep ∉ text) :
    after sep text = [] := by
  rw [← List.append_nil text, after, List.dropWhile_append_of_pos (bne_of_not_mem h)]
  simp

/-! ### At the last separator -/

/-- The text in front of the last character in the class `isSep` and the text
behind it; nothing when no character is in the class. The rest of the text is
cut first, so that a later character of the class goes before an earlier one. -/
def splitLast (isSep : Char → Bool) : List Char → Option (List Char × List Char)
  | [] => none
  | c :: rest =>
    match splitLast isSep rest with
    | some (front, back) => some (c :: front, back)
    | none => if isSep c then some ([], rest) else none

/-- A text cannot be cut exactly if none of its characters is in the class.
Induction on the text. -/
theorem splitLast_eq_none_iff {isSep : Char → Bool} {text : List Char} :
    splitLast isSep text = none ↔ ∀ c ∈ text, isSep c = false := by
  induction text with
  | nil => simp [splitLast]
  | cons c rest ih =>
    cases h : splitLast isSep rest with
    | some halves =>
      have hrest : ¬ ∀ c ∈ rest, isSep c = false := fun hall => by simp [ih.mpr hall] at h
      simp_all [splitLast]
    | none =>
      have hrest := ih.mp h
      by_cases hc : isSep c <;> simp_all [splitLast]

/-- The last character in the class is the one with none behind it: `splitLast`
cuts a text there, whatever stands in front. Induction on what stands in
front. -/
theorem splitLast_append {isSep : Char → Bool} {back : List Char} {c : Char} (front : List Char)
    (hc : isSep c = true) (hback : ∀ x ∈ back, isSep x = false) :
    splitLast isSep (front ++ c :: back) = some (front, back) := by
  induction front with
  | nil => simp [splitLast, splitLast_eq_none_iff.mpr hback, hc]
  | cons a front ih => simp [splitLast, ih]

/-- The converse of `splitLast_append`: where the text is cut stands a character
of the class, and none stands behind it. Induction on the text, as `splitLast`
goes. -/
theorem eq_append_of_splitLast {isSep : Char → Bool} {text front back : List Char}
    (h : splitLast isSep text = some (front, back)) :
    ∃ c, isSep c = true ∧ text = front ++ c :: back ∧ ∀ x ∈ back, isSep x = false := by
  induction text generalizing front with
  | nil => simp [splitLast] at h
  | cons a rest ih =>
    unfold splitLast at h
    split at h
    · next front' back' hrest =>
      obtain ⟨rfl, rfl⟩ : a :: front' = front ∧ back' = back := by simpa using h
      obtain ⟨c, hc, rfl, hback⟩ := ih hrest
      exact ⟨c, hc, rfl, hback⟩
    · next hrest =>
      split at h
      · next ha =>
        obtain ⟨rfl, rfl⟩ : [] = front ∧ rest = back := by simpa using h
        exact ⟨a, ha, rfl, splitLast_eq_none_iff.mp hrest⟩
      · simp at h

end ListQuery.Text
