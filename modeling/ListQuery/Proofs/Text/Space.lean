import ListQuery.Text.Space

/-!
# What trimming takes off

A text is what trimming leaves with white space on both sides
(`exists_eq_append_trim`), so a text of which nothing is left is white space
(`isSpace_of_trim_eq_nil`).
-/

namespace ListQuery.Text

variable {text : List Char} {c : Char}

/-- A text is what `trim` leaves of it, with white space on both sides. -/
theorem exists_eq_append_trim (text : List Char) :
    ∃ front back, (∀ c ∈ front, isSpace c = true) ∧ (∀ c ∈ back, isSpace c = true) ∧
      text = front ++ trim text ++ back := by
  have hspace : ∀ text : List Char, ∀ c ∈ text.takeWhile isSpace, isSpace c = true :=
    fun text c hc => List.all_eq_true.mp List.all_takeWhile c hc
  refine ⟨text.takeWhile isSpace, ((trimStart text).reverse.takeWhile isSpace).reverse, hspace text,
    fun c hc => hspace _ c (List.mem_reverse.mp hc), ?_⟩
  rw [List.append_assoc, trim, trimEnd, ← List.reverse_append, List.takeWhile_append_dropWhile,
    List.reverse_reverse, trimStart, List.takeWhile_append_dropWhile]

theorem mem_of_mem_trim (h : c ∈ trim text) : c ∈ text := by
  obtain ⟨front, back, -, -, htext⟩ := exists_eq_append_trim text
  rw [htext]
  exact List.mem_append_left _ (List.mem_append_right _ h)

theorem isSpace_of_trim_eq_nil (h : trim text = []) (hc : c ∈ text) : isSpace c = true := by
  obtain ⟨front, back, hfront, hback, htext⟩ := exists_eq_append_trim text
  rw [h, List.append_nil] at htext
  rw [htext] at hc
  exact (List.mem_append.mp hc).elim (hfront c) (hback c)

theorem comma_not_mem_of_isSpace (h : ∀ c ∈ text, isSpace c = true) : ',' ∉ text :=
  fun hmem => absurd (h _ hmem) (by decide)

/-! ## Padding -/

/-- `Pads text padded` says that `padded` is the text with white space around
it, or without. All forms of white space will do that `isSpace` knows. -/
def Pads (text padded : List Char) : Prop :=
  ∃ front back, (∀ c ∈ front, isSpace c = true) ∧ (∀ c ∈ back, isSpace c = true) ∧
    padded = front ++ text ++ back

variable {padded : List Char}

theorem pads_self (text : List Char) : Pads text text :=
  ⟨[], [], List.forall_mem_nil _, List.forall_mem_nil _, (List.append_nil _).symm⟩

/-- `trim` takes off all padding, and leaves a `Trimmed` text as it is. -/
theorem Pads.trim_eq (hpads : Pads text padded) (h : Trimmed text) : trim padded = text := by
  obtain ⟨front, back, hfront, hback, rfl⟩ := hpads
  exact trim_append hfront hback h

theorem Pads.comma_not_mem (hpads : Pads text padded) (h : ',' ∉ text) : ',' ∉ padded := by
  obtain ⟨front, back, hfront, hback, rfl⟩ := hpads
  simp only [List.mem_append, not_or]
  exact ⟨⟨comma_not_mem_of_isSpace hfront, h⟩, comma_not_mem_of_isSpace hback⟩

end ListQuery.Text
