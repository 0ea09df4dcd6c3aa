/-!
# White space

The characters with the Unicode property White_Space, and trimming by them. What
`trim` leaves has no white space at either end (`trimmed_trim`), and of a text
that has padding around it `trim` takes off exactly the padding (`trim_append`).
-/

namespace ListQuery.Text

/-- The stretches of code points with the property White_Space, ascending. -/
def spaceRanges : List (Nat × Nat) :=
  [(0x09, 0x0D), (0x20, 0x20), (0x85, 0x85), (0xA0, 0xA0), (0x1680, 0x1680), (0x2000, 0x200A),
   (0x2028, 0x2029), (0x202F, 0x202F), (0x205F, 0x205F), (0x3000, 0x3000)]

/-- The code point of `c` lies in one of these stretches, both ends included. -/
def inRanges (ranges : List (Nat × Nat)) (c : Char) : Bool :=
  ranges.any fun (first, last) => first ≤ c.toNat && c.toNat ≤ last

/-- The character has the property White_Space. There are 25 such characters. -/
def isSpace (c : Char) : Bool := inRanges spaceRanges c

def trimStart (text : List Char) : List Char := text.dropWhile isSpace

def trimEnd (text : List Char) : List Char := (text.reverse.dropWhile isSpace).reverse

/-- The text without the white space at its two ends: `trimStart` and then
`trimEnd`. What stands within it stays. -/
def trim (text : List Char) : List Char := trimEnd (trimStart text)

/-- `Trimmed text` says that the text neither starts nor ends with white
space. -/
def Trimmed (text : List Char) : Prop :=
  (∀ c, text.head? = some c → isSpace c = false) ∧ ∀ c, text.getLast? = some c → isSpace c = false

/-! ### What trimming takes off -/

theorem dropWhile_eq_self_of_head {p : Char → Bool} {text : List Char}
    (h : ∀ c, text.head? = some c → p c = false) : text.dropWhile p = text := by
  cases text with
  | nil => rfl
  | cons c rest => simp [h c rfl]

theorem trimStart_append {pad text : List Char} (hpad : ∀ c ∈ pad, isSpace c = true)
    (h : ∀ c, text.head? = some c → isSpace c = false) : trimStart (pad ++ text) = text := by
  rw [trimStart, List.dropWhile_append_of_pos hpad, dropWhile_eq_self_of_head h]

/-- White space behind a text that ends with none is taken off, and no more than
that. It is `trimStart_append` read from the end. -/
theorem trimEnd_append {pad text : List Char} (hpad : ∀ c ∈ pad, isSpace c = true)
    (h : ∀ c, text.getLast? = some c → isSpace c = false) : trimEnd (text ++ pad) = text := by
  rw [trimEnd, List.reverse_append,
    List.dropWhile_append_of_pos (fun c hc => hpad c (List.mem_reverse.mp hc)),
    dropWhile_eq_self_of_head (by simpa using h), List.reverse_reverse]

/-- Trimming takes off exactly the white space around a trimmed text. A text of
white space only is the case `text = []`. -/
theorem trim_append {front text back : List Char} (hfront : ∀ c ∈ front, isSpace c = true)
    (hback : ∀ c ∈ back, isSpace c = true) (h : Trimmed text) :
    trim (front ++ text ++ back) = text := by
  cases text with
  | nil =>
    have hall : ∀ c ∈ front ++ back, isSpace c = true := by
      intro c hc
      exact (List.mem_append.mp hc).elim (hfront c) (hback c)
    have hnil : trimStart (front ++ back ++ []) = [] := trimStart_append hall (by simp)
    simp only [List.append_nil] at hnil
    simp [trim, trimEnd, hnil]
  | cons c rest =>
    have hstart : trimStart (front ++ (c :: rest) ++ back) = (c :: rest) ++ back := by
      rw [List.append_assoc]
      exact trimStart_append hfront (by simpa using h.1)
    rw [trim, hstart, trimEnd_append hback h.2]

/-- What is left has no white space at either end. Its first character is that
of `trimStart text`, of which `trim text` is the front. -/
theorem trimmed_trim (text : List Char) : Trimmed (trim text) := by
  have hstart : ∀ c, (trimStart text).head? = some c → isSpace c = false := by
    intro c hc
    have := List.head?_dropWhile_not isSpace text
    rw [trimStart] at hc
    simpa [hc] using this
  constructor
  · intro c hc
    obtain ⟨pad, hpad⟩ : trim text <+: trimStart text := by
      simpa [trim, trimEnd] using List.reverse_prefix.mpr
        (List.dropWhile_suffix (l := (trimStart text).reverse) isSpace)
    exact hstart c (by rw [← hpad, List.head?_append, hc]; rfl)
  · intro c hc
    have := List.head?_dropWhile_not isSpace (trimStart text).reverse
    rw [trim, trimEnd, List.getLast?_reverse] at hc
    simpa [hc] using this

end ListQuery.Text
