import Mathlib.Data.List.Forall2
import ListQuery.Proofs.Timestamp

/-!
# The leftmost timestamp in a text

Which timestamp a search finds, said without the search: the one that stands
behind the fewest characters.

* **`HasShape`**, **`hasShape_iff`** — a text has the shape if some fields are
  written so. Equally many digits for the same number are the same digits
  (`eq_of_ofDigitChars_eq`), so the fields that are read are written back as
  they stood.
* **`find?_eq_some_iff`**, **`find?_eq_none_iff`** — the search finds the
  leftmost timestamp, or there is none anywhere.
-/

namespace ListQuery

open Text

-- A power of natural numbers is `Nat.pow`, whatever other instances are at hand.
attribute [local instance (high)] instPowNat

namespace Timestamp

/-! ## Digits and the number that they stand for -/

theorem isDigit_inj {c c' : Char} (h : c.isDigit = true) (h' : c'.isDigit = true)
    (heq : c.toNat - '0'.toNat = c'.toNat - '0'.toNat) : c = c' := by
  have hc := Char.isDigit_iff_toNat.mp h
  have hc' := Char.isDigit_iff_toNat.mp h'
  apply Char.toNat_inj.mp
  omega

/-- Digits are determined by how many they are and by what `Nat.ofDigitChars`
makes of them, whatever stands in front of them. Induction on the digits from
the last one. -/
theorem eq_of_ofDigitChars_eq {digits digits' : List Char} {init init' : Nat}
    (hdigits : ∀ c ∈ digits, c.isDigit = true) (hdigits' : ∀ c ∈ digits', c.isDigit = true)
    (hlength : digits.length = digits'.length)
    (h : Nat.ofDigitChars 10 digits init = Nat.ofDigitChars 10 digits' init') :
    digits = digits' ∧ init = init' := by
  induction digits generalizing digits' init init' with
  | nil =>
    obtain rfl := List.length_eq_zero_iff.mp hlength.symm
    exact ⟨rfl, h⟩
  | cons c rest ih =>
    obtain ⟨c', rest', rfl⟩ := List.exists_cons_of_length_eq_add_one hlength.symm
    obtain ⟨hc, hrest⟩ := List.forall_mem_cons.mp hdigits
    obtain ⟨hc', hrest'⟩ := List.forall_mem_cons.mp hdigits'
    rw [Nat.ofDigitChars_cons, Nat.ofDigitChars_cons] at h
    obtain ⟨rfl, hhead⟩ := ih hrest hrest' (by simpa using hlength) h
    -- the remainder and the quotient by ten tell the digit from what is in front of it
    have hle := (Char.isDigit_iff_toNat.mp hc).2
    have hle' := (Char.isDigit_iff_toNat.mp hc').2
    simp only [Char.reduceToNat] at hle hle' hhead
    have hcc : c = c' := isDigit_inj hc hc' (by simp only [Char.reduceToNat]; omega)
    exact ⟨by rw [hcc], by omega⟩

/-- `zeroPadded` writes what digits are read as with these digits, so reading a
field loses nothing of it. -/
theorem zeroPadded_ofDigitChars {digits : List Char} (h : ∀ c ∈ digits, c.isDigit = true)
    (hne : 0 < digits.length) (hlt : Nat.ofDigitChars 10 digits 0 < 10 ^ digits.length) :
    zeroPadded digits.length (Nat.ofDigitChars 10 digits 0) = digits :=
  (eq_of_ofDigitChars_eq (fun _ => isDigit_of_mem_zeroPadded) h (length_zeroPadded_of_lt hne hlt)
    (ofDigitChars_zeroPadded _ _)).1

/-! ## The texts of the shape -/

/-- `HasShape window` says that the text has the `shape` of a timestamp: it is
as long, and each of its characters `fits` its place. -/
def HasShape (window : List Char) : Prop :=
  List.Forall₂ (fun place c => fits place c = true) shape window

instance : DecidablePred HasShape := fun window =>
  inferInstanceAs (Decidable (List.Forall₂ (fun place c => fits place c = true) shape window))

/-- A text `startsWith` some places exactly if it has a window in front that
fits them, one by one. Induction on the places. -/
theorem startsWith_iff {places text : List Char} :
    startsWith places text = true ↔
      ∃ window, List.Forall₂ (fun place c => fits place c = true) places window ∧
        window <+: text := by
  induction places generalizing text with
  | nil => exact iff_of_true rfl ⟨[], .nil, List.nil_prefix⟩
  | cons place places ih =>
    cases text with
    | nil =>
      refine iff_of_false (by simp [startsWith]) ?_
      rintro ⟨window, hwindow, hbegin⟩
      rw [List.prefix_nil.mp hbegin] at hwindow
      cases hwindow
    | cons c rest =>
      rw [startsWith, Bool.and_eq_true, ih]
      constructor
      · rintro ⟨hc, window, hwindow, hbegin⟩
        exact ⟨c :: window, .cons hc hwindow, List.cons_prefix_cons.mpr ⟨rfl, hbegin⟩⟩
      · rintro ⟨window, hwindow, hbegin⟩
        cases hwindow with
        | cons hc hrest =>
          obtain ⟨rfl, hbehind⟩ := List.cons_prefix_cons.mp hbegin
          exact ⟨hc, _, hrest, hbehind⟩

theorem startsWith_shape_iff {text : List Char} :
    startsWith shape text = true ↔ ∃ window, HasShape window ∧ window <+: text :=
  startsWith_iff

theorem length_of_hasShape {window : List Char} (h : HasShape window) : window.length = 24 := by
  unfold HasShape at h
  rw [← h.length_eq]
  decide

/-- Where `width` places for digits come first, as many digits do, and what is
behind them fits the other places. Induction on `width`. -/
theorem exists_digits_of_startsWith {width : Nat} {places text : List Char}
    (h : startsWith (List.replicate width 'd' ++ places) text = true) :
    ∃ digits rest, text = digits ++ rest ∧ digits.length = width ∧
      (∀ c ∈ digits, c.isDigit = true) ∧ startsWith places rest = true := by
  induction width generalizing text with
  | zero => exact ⟨[], text, rfl, rfl, by simp, h⟩
  | succ width ih =>
    cases text with
    | nil => exact absurd h (by simp [List.replicate_succ, startsWith])
    | cons c rest =>
      rw [List.replicate_succ, List.cons_append, startsWith, Bool.and_eq_true] at h
      obtain ⟨digits, back, rfl, rfl, hdigits, hback⟩ := ih h.2
      have hdigit : c.isDigit = true := by simpa [fits] using h.1
      exact ⟨c :: digits, back, rfl, rfl, List.forall_mem_cons.mpr ⟨hdigit, hdigits⟩, hback⟩

/-- A field and the character behind it, as `zeroPadded` writes the number that
its digits stand for. No place for a digit may come next, as the field would go
on there. -/
theorem exists_field_of_startsWith {width : Nat} (hwidth : 0 < width) {sep : Char}
    (hsep : sep ≠ 'd') {places text : List Char}
    (h : startsWith (List.replicate width 'd' ++ sep :: places) text = true) :
    ∃ n rest, n < 10 ^ width ∧ text = zeroPadded width n ++ sep :: rest ∧
      startsWith places rest = true := by
  have hlt := ofDigitChars_lt width 0 h
  obtain ⟨digits, behind, rfl, rfl, hdigits, hbehind⟩ := exists_digits_of_startsWith h
  rw [List.take_left, Nat.zero_add, Nat.one_mul] at hlt
  cases behind with
  | nil => exact absurd hbehind (by simp [startsWith])
  | cons c rest =>
    rw [startsWith, Bool.and_eq_true, fits, if_neg hsep] at hbehind
    refine ⟨_, rest, hlt, ?_, hbehind.2⟩
    rw [zeroPadded_ofDigitChars hdigits hwidth hlt, eq_of_beq hbehind.1]

/-- A text that starts with the `shape` starts with the `text` of some fields
that fit, which are put together field by field. -/
theorem exists_text_of_startsWith {text : List Char} (h : startsWith shape text = true) :
    ∃ (t : Timestamp) (back : List Char), t.Fits ∧ text = t.text ++ back := by
  rw [shape_eq] at h
  obtain ⟨year, _, hyear, rfl, h1⟩ := exists_field_of_startsWith (by decide) (by decide) h
  obtain ⟨month, _, hmonth, rfl, h2⟩ := exists_field_of_startsWith (by decide) (by decide) h1
  obtain ⟨day, _, hday, rfl, h3⟩ := exists_field_of_startsWith (by decide) (by decide) h2
  obtain ⟨hour, _, hhour, rfl, h4⟩ := exists_field_of_startsWith (by decide) (by decide) h3
  obtain ⟨minute, _, hminute, rfl, h5⟩ := exists_field_of_startsWith (by decide) (by decide) h4
  obtain ⟨second, _, hsecond, rfl, h6⟩ := exists_field_of_startsWith (by decide) (by decide) h5
  obtain ⟨millisecond, back, hmillisecond, rfl, _⟩ :=
    exists_field_of_startsWith (by decide) (by decide) h6
  refine ⟨⟨year, month, day, hour, minute, second, millisecond⟩, back,
    ⟨hyear, hmonth, hday, hhour, hminute, hsecond, hmillisecond⟩, ?_⟩
  simp [Timestamp.text]

theorem length_text {t : Timestamp} (h : t.Fits) : t.text.length = 24 := by
  simp [text, length_zeroPadded_of_lt, h.year, h.month, h.day, h.hour, h.minute, h.second,
    h.millisecond]

/-- The texts that `HasShape` are the `text` of the fields that fit: the fields
that are read from such a text are written back as they stood. -/
theorem hasShape_iff {window : List Char} :
    HasShape window ↔ ∃ t : Timestamp, t.Fits ∧ t.text = window := by
  constructor
  · intro h
    have hstarts := startsWith_shape_iff.mpr ⟨window, h, List.prefix_rfl⟩
    obtain ⟨t, back, hfits, htext⟩ := exists_text_of_startsWith hstarts
    -- the text of the fields is as long as the shape, so nothing is left
    have hlength := congrArg List.length htext
    rw [length_of_hasShape h, List.length_append, length_text hfits] at hlength
    have hback : back = [] := List.length_eq_zero_iff.mp (by omega)
    exact ⟨t, hfits, by rw [htext, hback, List.append_nil]⟩
  · rintro ⟨t, hfits, rfl⟩
    obtain ⟨window, hwindow, hbegin⟩ := startsWith_shape_iff.mp (startsWith_text hfits)
    have hlength : window.length = t.text.length := by
      rw [length_of_hasShape hwindow, length_text hfits]
    rwa [hbegin.eq_of_length hlength] at hwindow

/-! ## The search -/

/-- `t.IsLeftmost text` says that the timestamp stands in the text, and that
nothing of the shape stands behind fewer characters. -/
def IsLeftmost (t : Timestamp) (text : List Char) : Prop :=
  t.Fits ∧ ∃ front back, text = front ++ t.text ++ back ∧
    ∀ front' window back', HasShape window → text = front' ++ window ++ back' →
      front.length ≤ front'.length

/-- In a text that starts with the `shape`, the timestamp that `IsLeftmost` is
the one that it starts with. -/
theorem isLeftmost_iff_of_startsWith {text : List Char} (h : startsWith shape text = true)
    {t : Timestamp} : IsLeftmost t text ↔ t.Fits ∧ t.text <+: text := by
  constructor
  · rintro ⟨hfits, front, back, htext, hleast⟩
    obtain ⟨window, hwindow, behind, hbehind⟩ := startsWith_shape_iff.mp h
    have hfront : front = [] :=
      List.length_eq_zero_iff.mp (Nat.le_zero.mp (hleast [] window behind hwindow hbehind.symm))
    exact ⟨hfits, back, by rw [htext, hfront, List.nil_append]⟩
  · rintro ⟨hfits, back, htext⟩
    exact ⟨hfits, [], back, by rw [List.nil_append, htext], fun _ _ _ _ _ => Nat.zero_le _⟩

/-- A character at which nothing of the `shape` begins can be taken off: every
window of the shape stands behind it. -/
theorem isLeftmost_cons_iff {c : Char} {rest : List Char}
    (h : ¬ startsWith shape (c :: rest) = true) {t : Timestamp} :
    IsLeftmost t (c :: rest) ↔ IsLeftmost t rest := by
  -- nothing of the shape stands at the very start, so there is a character in front of all
  have hcons : ∀ front window back, HasShape window → c :: rest = front ++ window ++ back →
      ∃ front', front = c :: front' ∧ rest = front' ++ window ++ back := by
    intro front window back hwindow htext
    cases front with
    | nil => exact absurd (startsWith_shape_iff.mpr ⟨window, hwindow, back, htext.symm⟩) h
    | cons d front' =>
      obtain ⟨rfl, hrest⟩ := List.cons_eq_cons.mp htext
      exact ⟨front', rfl, hrest⟩
  constructor
  · rintro ⟨hfits, front, back, htext, hleast⟩
    obtain ⟨front, rfl, hrest⟩ :=
      hcons front t.text back (hasShape_iff.mpr ⟨t, hfits, rfl⟩) htext
    refine ⟨hfits, front, back, hrest, fun front' window back' hwindow htext' => ?_⟩
    exact Nat.le_of_succ_le_succ (hleast (c :: front') window back' hwindow (by rw [htext']; rfl))
  · rintro ⟨hfits, front, back, hrest, hleast⟩
    refine ⟨hfits, c :: front, back, by rw [hrest]; rfl,
      fun front' window back' hwindow htext => ?_⟩
    obtain ⟨front', rfl, hrest'⟩ := hcons front' window back' hwindow htext
    exact Nat.succ_le_succ (hleast front' window back' hwindow hrest')

/-- **The search finds the leftmost timestamp**: `find?` gives the one that
`IsLeftmost`, and no other. Induction on the text. -/
theorem find?_eq_some_iff {text : List Char} {t : Timestamp} :
    find? text = some t ↔ IsLeftmost t text := by
  induction text with
  | nil =>
    -- no timestamp is empty
    refine iff_of_false (by simp [find?]) ?_
    rintro ⟨hfits, front, back, htext, -⟩
    have hlength := congrArg List.length htext
    rw [List.length_append, List.length_append, length_text hfits, List.length_nil] at hlength
    omega
  | cons c rest ih =>
    rw [find?]
    split
    · next hstarts =>
      rw [isLeftmost_iff_of_startsWith hstarts, Option.some_inj]
      constructor
      · rintro rfl
        obtain ⟨t, back, hfits, htext⟩ := exists_text_of_startsWith hstarts
        rw [htext, ofChars_text_append hfits]
        exact ⟨hfits, List.prefix_append _ _⟩
      · rintro ⟨hfits, back, htext⟩
        rw [← htext, ofChars_text_append hfits]
    · next hstarts => rw [isLeftmost_cons_iff hstarts, ih]

/-- `find?` finds nothing exactly if nothing that `HasShape` stands in the text.
Induction on the text. -/
theorem find?_eq_none_iff {text : List Char} :
    find? text = none ↔ ∀ window, HasShape window → ¬ window <:+: text := by
  induction text with
  | nil =>
    refine iff_of_true rfl fun window hwindow hwithin => ?_
    have hlength := length_of_hasShape hwindow
    rw [List.infix_nil.mp hwithin] at hlength
    exact absurd hlength (by decide)
  | cons c rest ih =>
    rw [find?]
    split
    · next hstarts =>
      obtain ⟨window, hwindow, hbegin⟩ := startsWith_shape_iff.mp hstarts
      exact iff_of_false (Option.some_ne_none _) fun h => h window hwindow hbegin.isInfix
    · next hstarts =>
      rw [ih]
      refine forall₂_congr fun window hwindow => not_congr ?_
      rw [List.infix_cons_iff, or_iff_right]
      exact fun hbegin => hstarts (startsWith_shape_iff.mpr ⟨window, hwindow, hbegin⟩)

/-- Where anything of the shape stands, one timestamp `IsLeftmost`: the one that
`find?` finds. -/
theorem existsUnique_isLeftmost {window text : List Char} (h : HasShape window)
    (hwithin : window <:+: text) : ∃! t, IsLeftmost t text := by
  cases hfind : find? text with
  | none => exact absurd hwithin (find?_eq_none_iff.mp hfind window h)
  | some t =>
    refine ⟨t, find?_eq_some_iff.mp hfind, fun t' ht' => ?_⟩
    have hsame := hfind.symm.trans (find?_eq_some_iff.mpr ht')
    exact (Option.some.inj hsame).symm

end Timestamp

end ListQuery
