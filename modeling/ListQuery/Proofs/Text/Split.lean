/-!
# Cutting text at every separator

What `List.splitOn` gives: pieces without the separator, one more than there are
separators, and each of them a stretch of the text.
-/

namespace ListQuery.Text

variable {sep : Char} {text piece : List Char}

/-- No piece of `splitOn` holds the separator. Induction on the text, whose
first character either ends an empty piece or goes to the first piece of the
rest. -/
theorem not_mem_of_mem_splitOn (h : piece ∈ text.splitOn sep) : sep ∉ piece := by
  induction text generalizing piece with
  | nil =>
    rw [List.splitOn_nil, List.mem_singleton] at h
    simp [h]
  | cons c rest ih =>
    rw [List.splitOn_cons_eq_if_modifyHead] at h
    split at h
    · rcases List.mem_cons.mp h with rfl | h
      · simp
      · exact ih h
    · next hc =>
      -- the character goes to the first piece of the rest, and it is no separator
      cases hrest : rest.splitOn sep with
      | nil => exact absurd hrest (List.splitOn_ne_nil sep rest)
      | cons first pieces =>
        rw [hrest] at h ih
        rcases List.mem_cons.mp h with rfl | h
        · rw [List.mem_cons, not_or]
          exact ⟨fun heq => hc (by simp [heq]), ih List.mem_cons_self⟩
        · exact ih (List.mem_cons_of_mem first h)

/-- `splitOn` gives one piece more than there are separators. Induction on the
text. -/
theorem length_splitOn (sep : Char) (text : List Char) :
    (text.splitOn sep).length = text.count sep + 1 := by
  induction text with
  | nil => simp
  | cons c rest ih =>
    rw [List.splitOn_cons_eq_if_modifyHead, List.count_cons]
    split <;> simp [ih]

/-- `intercalate` adds a separator less than there are pieces to those that the
pieces bring along. Induction on the pieces. -/
theorem count_intercalate (sep : Char) {pieces : List (List Char)} (h : pieces ≠ []) :
    ([sep].intercalate pieces).count sep + 1 = pieces.flatten.count sep + pieces.length := by
  induction pieces with
  | nil => exact absurd rfl h
  | cons first rest ih =>
    by_cases hrest : rest = []
    · simp [hrest]
    · have hcount := ih hrest
      simp only [List.intercalate_cons_of_ne_nil hrest, List.count_append,
        List.count_singleton_self, List.flatten_cons, List.length_cons]
      omega

/-- Every piece is a stretch of what `intercalate` makes of them. Induction on
the pieces. -/
theorem infix_intercalate (sep : Char) {pieces : List (List Char)} (h : piece ∈ pieces) :
    piece <:+: [sep].intercalate pieces := by
  induction pieces with
  | nil => exact absurd h List.not_mem_nil
  | cons first rest ih =>
    by_cases hrest : rest = []
    · subst hrest
      rw [List.mem_singleton.mp h]
      exact ⟨[], [], by simp⟩
    · rw [List.intercalate_cons_of_ne_nil hrest]
      rcases List.mem_cons.mp h with rfl | h
      · exact ⟨[], [sep] ++ [sep].intercalate rest, by simp⟩
      · exact (ih h).trans ⟨first ++ [sep], [], by simp⟩

/-! ## Texts of pieces -/

theorem not_mem_of_mem_pieces {text piece : String}
    (h : piece ∈ (text.toList.splitOn sep).map String.ofList) : sep ∉ piece.toList := by
  obtain ⟨chars, hchars, rfl⟩ := List.mem_map.mp h
  rw [String.toList_ofList]
  exact not_mem_of_mem_splitOn hchars

/-- `intercalate` makes the text again of the pieces that `splitOn` gives, so a
text is determined by its pieces. -/
theorem intercalate_pieces {joint : String} (hjoint : joint.toList = [sep]) (text : String) :
    joint.intercalate ((text.toList.splitOn sep).map String.ofList) = text := by
  have hpieces : ((text.toList.splitOn sep).map String.ofList).map String.toList =
      text.toList.splitOn sep := by
    simp [Function.comp_def]
  rw [← String.toList_inj, String.toList_intercalate, hjoint, hpieces, List.intercalate_splitOn]

end ListQuery.Text
