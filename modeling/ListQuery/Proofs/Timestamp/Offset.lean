import ListQuery.Proofs.Text.Offset
import ListQuery.Proofs.Timestamp.Leftmost
import ListQuery.Proofs.Timestamp.Value
import ListQuery.Timestamp.Offset

/-!
# Timestamps by their offsets

The program that searches the bytes of a text for a timestamp, and cuts out of
them what it finds, reads what the text says and never stops.

* **`position?_eq_some_iff`** — the crux: the first window of the shape among
  the bytes is the leftmost timestamp among the characters, since it is all
  ASCII.
* **`fields?_eq`** — every field of a window is a number.
* **`parse_text`** — no day is counted from before the first one.
* **`readByOffset_eq`** — so the program reads what stands in the text.
-/

namespace ListQuery

open Text Calendar
open Utf8 (encode)

-- A power of natural numbers is `Nat.pow`, whatever other instances are at hand.
attribute [local instance (high)] instPowNat

namespace Timestamp

/-! ## The search for a window -/

/-- `FitsAt bytes start` says that a window of the shape stands among the bytes
at the offset, all 24 bytes of it. -/
def FitsAt (bytes : List UInt8) (start : Nat) : Prop :=
  start + 24 ≤ bytes.length ∧ fitsShape ((bytes.drop start).take 24) = true

variable {text window : List Char} {bytes : List UInt8} {start : Nat} {t : Timestamp}

theorem length_encode_shape : (encode shape).length = 24 := by decide

/-- `position?` finds the first offset that a window `FitsAt`. Windows are
numbered by their offsets, so nothing has to be counted again. -/
theorem position?_eq_some_iff_fitsAt :
    position? bytes = some start ↔
      FitsAt bytes start ∧ ∀ earlier < start, ¬ FitsAt bytes earlier := by
  simp only [position?, length_encode_shape, List.findIdx?_eq_some_iff_getElem, windows,
    List.length_map, List.length_range, List.getElem_map, List.getElem_range, FitsAt]
  constructor
  · rintro ⟨hlt, hfits, hearlier⟩
    exact ⟨⟨by omega, hfits⟩, fun earlier hlt' hfits' => hearlier earlier hlt' hfits'.2⟩
  · rintro ⟨⟨hle, hfits⟩, hearlier⟩
    exact ⟨by omega, hfits, fun earlier hlt hfits' => hearlier earlier hlt ⟨by omega, hfits'⟩⟩

theorem position?_eq_none_iff_fitsAt : position? bytes = none ↔ ∀ start, ¬ FitsAt bytes start := by
  simp only [position?, length_encode_shape, List.findIdx?_eq_none_iff, windows,
    List.forall_mem_map, List.mem_range, FitsAt, not_and, Bool.not_eq_true]
  exact ⟨fun h start hle => h start (by omega), fun h start hlt => h start (by omega)⟩

/-! ## Windows of bytes and windows of characters -/

/-- A byte fits a place exactly if the character with its number does, so what
is known of `HasShape` can be used for bytes. -/
theorem fits_ofByte (place byte : UInt8) :
    fits (ofByte place) (ofByte byte) = fitsByte place byte := by
  have hplace : ofByte place = 'd' ↔ place = 0x64 := @ofByte_inj place 0x64
  have hdigit : (ofByte byte).isDigit = (0x30 ≤ byte && byte ≤ 0x39) := by
    rw [Bool.eq_iff_iff, Char.isDigit_iff_toNat, toNat_ofByte]
    simp [UInt8.le_iff_toNat_le]
  have hequal : (ofByte byte == ofByte place) = (byte == place) := by
    rw [Bool.eq_iff_iff, beq_iff_eq, beq_iff_eq, ofByte_inj]
  simp only [fits, fitsByte, hplace, hdigit, hequal]

/-- `fitsShape` holds of 24 bytes exactly if the characters with their numbers
`HasShape`. -/
theorem hasShape_map_ofByte_iff :
    HasShape (bytes.map ofByte) ↔ bytes.length = 24 ∧ fitsShape bytes = true := by
  have hshape : shape = (encode shape).map ofByte := by decide
  rw [HasShape, hshape, List.forall₂_map_left_iff, List.forall₂_map_right_iff, List.forall₂_iff_zip,
    length_encode_shape, eq_comm]
  simp only [fits_ofByte, fitsShape, List.all_eq_true, Prod.forall]

/-- The `text` of a timestamp is all ASCII, whatever its fields: it is made of
digits and of the characters between them. -/
theorem ascii_text (t : Timestamp) : ∀ c ∈ t.text, c.toNat < 0x80 := by
  have hdigits : ∀ width n, ∀ c ∈ zeroPadded width n, c.toNat < 0x80 := by
    intro width n c hc
    have hle := (Char.isDigit_iff_toNat.mp (isDigit_of_mem_zeroPadded hc)).2
    simp only [Char.reduceToNat] at hle
    omega
  intro c hc
  simp only [text, List.mem_append, List.mem_singleton] at hc
  rcases hc with (((((((((((((h | rfl) | h) | rfl) | h) | rfl) | h) | rfl) | h) | rfl) | h) | rfl) |
    h) | rfl) <;> first | exact hdigits _ _ c h | decide

theorem ascii_of_hasShape (h : HasShape window) : ∀ c ∈ window, c.toNat < 0x80 := by
  obtain ⟨t, -, rfl⟩ := hasShape_iff.mp h
  exact ascii_text t

theorem fitsShape_encode (h : HasShape window) :
    (encode window).length = 24 ∧ fitsShape (encode window) = true := by
  rw [← hasShape_map_ofByte_iff, map_ofByte_encode (ascii_of_hasShape h)]
  exact h

/-- Bytes that `fitsShape` accepts are the encoding of a window, namely of the
characters with their numbers (`ofByte`). -/
theorem exists_encode_of_fitsShape (hlength : bytes.length = 24) (h : fitsShape bytes = true) :
    ∃ window, HasShape window ∧ encode window = bytes := by
  have hshape := hasShape_map_ofByte_iff.mpr ⟨hlength, h⟩
  refine ⟨bytes.map ofByte, hshape, ?_⟩
  exact List.map_injective_iff.mpr (fun _ _ => ofByte_inj.mp)
    (map_ofByte_encode (ascii_of_hasShape hshape))

/-- A window stands among the bytes only where it stands among the characters,
behind as many bytes. It is the encoding of a text in ASCII, and that cannot
stand across characters, by `exists_of_encode_eq_append`. -/
theorem fitsAt_iff :
    FitsAt (encode text) start ↔
      ∃ front window back, text = front ++ window ++ back ∧ HasShape window ∧
        byteLength front = start := by
  constructor
  · rintro ⟨hle, hfits⟩
    have hlength : (((encode text).drop start).take 24).length = 24 := by
      rw [List.length_take, List.length_drop]
      omega
    obtain ⟨window, hwindow, hbytes⟩ := exists_encode_of_fitsShape hlength hfits
    have hsplit : encode text =
        (encode text).take start ++ encode window ++ ((encode text).drop start).drop 24 := by
      rw [hbytes, List.append_assoc, List.take_append_drop, List.take_append_drop]
    have hne : window ≠ [] := by
      rintro rfl
      exact absurd (length_of_hasShape hwindow) (by decide)
    obtain ⟨front, back, htext, hfront, -⟩ := exists_of_encode_eq_append hsplit hne
    refine ⟨front, window, back, htext, hwindow, ?_⟩
    rw [byteLength, hfront, List.length_take_of_le (by omega)]
  · rintro ⟨front, window, back, rfl, hwindow, rfl⟩
    obtain ⟨hlength, hfits⟩ := fitsShape_encode hwindow
    rw [FitsAt, Utf8.encode_append, Utf8.encode_append, byteLength, List.append_assoc,
      List.drop_left, ← hlength, List.take_left]
    refine ⟨?_, hfits⟩
    rw [List.length_append, List.length_append]
    omega

/-- `IsLeftmostAt t text start` says that the timestamp is the leftmost one in
the text, and that it stands behind so many bytes. -/
def IsLeftmostAt (t : Timestamp) (text : List Char) (start : Nat) : Prop :=
  t.Fits ∧ ∃ front back, text = front ++ t.text ++ back ∧ byteLength front = start ∧
    ∀ front' window back', HasShape window → text = front' ++ window ++ back' →
      front.length ≤ front'.length

theorem IsLeftmostAt.isLeftmost (h : IsLeftmostAt t text start) : IsLeftmost t text := by
  obtain ⟨hfits, front, back, htext, -, hleast⟩ := h
  exact ⟨hfits, front, back, htext, hleast⟩

/-- `slice?` cuts the timestamp out by its offset and the offset 24 bytes behind
it. -/
theorem IsLeftmostAt.slice? (h : IsLeftmostAt t text start) :
    Text.slice? text start (start + 24) = some t.text := by
  obtain ⟨hfits, front, back, rfl, rfl, -⟩ := h
  refine slice?_eq_some_iff.mpr ⟨front, back, rfl, rfl, ?_⟩
  rw [byteLength_append, byteLength_of_ascii (ascii_text t), length_text hfits]

/-- `position?` finds among the bytes the timestamp that is the leftmost among
the characters: of two fronts of a text the one with fewer bytes has fewer
characters. -/
theorem position?_eq_some_iff :
    position? (encode text) = some start ↔ ∃ t, IsLeftmostAt t text start := by
  have hfronts : ∀ front window back : List Char, front <+: front ++ window ++ back :=
    fun front window back => ⟨window ++ back, by simp⟩
  rw [position?_eq_some_iff_fitsAt]
  constructor
  · rintro ⟨hstart, hearlier⟩
    obtain ⟨front, window, back, htext, hwindow, hfront⟩ := fitsAt_iff.mp hstart
    obtain ⟨t, hfits, rfl⟩ := hasShape_iff.mp hwindow
    refine ⟨t, hfits, front, back, htext, hfront, fun front' window back' hwindow htext' => ?_⟩
    -- what stands behind fewer bytes would be found earlier
    refine length_le_of_byteLength_le (htext ▸ hfronts front t.text back)
      (htext' ▸ hfronts front' window back') (Nat.not_lt.mp fun hlt => ?_)
    exact hearlier _ (hfront ▸ hlt) (fitsAt_iff.mpr ⟨front', window, back', htext', hwindow, rfl⟩)
  · rintro ⟨t, hfits, front, back, htext, hfront, hleast⟩
    have hwindow : HasShape t.text := hasShape_iff.mpr ⟨t, hfits, rfl⟩
    refine ⟨fitsAt_iff.mpr ⟨front, t.text, back, htext, hwindow, hfront⟩,
      fun earlier hlt hearlier => ?_⟩
    obtain ⟨front', window, back', htext', hwindow', rfl⟩ := fitsAt_iff.mp hearlier
    have hle := byteLength_le_of_length_le (htext ▸ hfronts front t.text back)
      (htext' ▸ hfronts front' window back') (hleast front' window back' hwindow' htext')
    omega

/-- `position?` finds nothing among the bytes exactly if `find?` finds nothing
among the characters. -/
theorem position?_eq_none_iff : position? (encode text) = none ↔ find? text = none := by
  rw [position?_eq_none_iff_fitsAt, find?_eq_none_iff]
  simp only [fitsAt_iff]
  constructor
  · rintro h window hwindow ⟨front, back, htext⟩
    exact h _ ⟨front, window, back, htext.symm, hwindow, rfl⟩
  · rintro h start ⟨front, window, back, htext, hwindow, -⟩
    exact h window hwindow ⟨front, back, htext.symm⟩

end Timestamp

/-! ## The fields of a window -/

/-- `readNatural32` reads digits as their number, if it fits 32 bits. A sign may
stand in front of a number, but no digit is one. -/
theorem Number.readNatural32_of_digits {digits : List Char} (h : ∀ c ∈ digits, c.isDigit = true)
    (hne : digits ≠ []) (hlt : Nat.ofDigitChars 10 digits 0 < UInt32.size) :
    readNatural32 digits = .ok (Nat.ofDigitChars 10 digits 0) := by
  obtain ⟨c, rest, rfl⟩ := List.exists_cons_of_ne_nil hne
  have hplus : c ≠ '+' := by
    rintro rfl
    exact absurd (h '+' List.mem_cons_self) (by decide)
  rw [readNatural32]
  · exact appendDigits_of_le h (Nat.le_sub_one_of_lt hlt)
  · exact fun hnil => absurd hnil (List.cons_ne_nil c rest)
  · exact fun _ hsign => hplus (List.head_eq_of_cons_eq hsign)

namespace Timestamp

variable {window : List Char}

/-- `field?` gives the number of a field where the shape asks for digits. Four
digits are not too many for 32 bits. -/
theorem field?_eq (h : HasShape window) (start width : Nat) (hwidth : 0 < width)
    (hwidth' : width ≤ 4) (hplaces : (shape.drop start).take width = List.replicate width 'd') :
    field? window start (start + width) = some (field window start width) := by
  have hstarts := startsWith_shape_iff.mpr ⟨window, h, List.prefix_rfl⟩
  have hlt : field window start width < UInt32.size := by
    refine Nat.lt_of_lt_of_le (field_lt hstarts hplaces) ?_
    exact Nat.le_trans (Nat.pow_le_pow_right (by decide) hwidth') (by decide)
  have hdrop := startsWith_drop start hstarts
  rw [← List.take_append_drop width (shape.drop start), hplaces] at hdrop
  obtain ⟨digits, back, hsplit, rfl, hdigits, -⟩ := exists_digits_of_startsWith hdrop
  have hwindow : window = window.take start ++ digits ++ back := by
    rw [List.append_assoc, ← hsplit, List.take_append_drop]
  -- in ASCII the digits stand behind as many bytes as characters
  have hascii := ascii_of_hasShape h
  have hfront : (window.take start).length = start := by
    have hlength := congrArg List.length hsplit
    rw [List.length_drop, List.length_append] at hlength
    exact List.length_take_of_le (by omega)
  rw [hwindow] at hascii
  obtain ⟨hcut, -⟩ := List.forall_mem_append.mp hascii
  have hslice : slice? window start (start + digits.length) = some digits := by
    refine slice?_eq_some_iff.mpr ⟨window.take start, back, hwindow, ?_, ?_⟩
    · rw [byteLength_of_ascii (List.forall_mem_append.mp hcut).1, hfront]
    · rw [byteLength_of_ascii hcut, List.length_append, hfront]
  have hfield : field window start digits.length = Nat.ofDigitChars 10 digits 0 := by
    rw [field, hsplit, List.take_left]
  rw [hfield] at hlt ⊢
  rw [field?, hslice, Option.bind_some,
    Number.readNatural32_of_digits hdigits (List.length_pos_iff.mp hwidth) hlt]
  rfl

/-- Every field of a window is a number, and it is the one that `ofChars`
reads. -/
theorem fields?_eq (h : HasShape window) : fields? window = some (ofChars window) := by
  have hyear : field? window 0 4 = _ := field?_eq h 0 4 (by decide) (by decide) (by decide)
  have hmonth : field? window 5 7 = _ := field?_eq h 5 2 (by decide) (by decide) (by decide)
  have hday : field? window 8 10 = _ := field?_eq h 8 2 (by decide) (by decide) (by decide)
  have hhour : field? window 11 13 = _ := field?_eq h 11 2 (by decide) (by decide) (by decide)
  have hminute : field? window 14 16 = _ := field?_eq h 14 2 (by decide) (by decide) (by decide)
  have hsecond : field? window 17 19 = _ := field?_eq h 17 2 (by decide) (by decide) (by decide)
  have hmillisecond : field? window 20 23 = _ :=
    field?_eq h 20 3 (by decide) (by decide) (by decide)
  rw [fields?, hyear, hmonth, hday, hhour, hminute, hsecond, hmillisecond]
  rfl

theorem fields?_text {t : Timestamp} (h : t.Fits) : fields? t.text = some t := by
  rw [fields?_eq (hasShape_iff.mpr ⟨t, h, rfl⟩), ofChars_text h]

/-! ## Reading -/

/-- `parse` reads the fields of a window as their instant if they are `InRange`.
A day in range is not before the first one, so the days before it can be
counted. -/
theorem parse_text (years : Years) {t : Timestamp} (h : t.Fits) :
    parse years t.text = .ok (if t.InRange then some t.instant else none) := by
  rw [parse, fields?_text h]
  by_cases hrange : t.InRange
  · have hday : 1 ≤ t.day := hrange.2.1.1
    have hbefore : ((t.day - 1 : Nat) : Int) = t.day - 1 := by omega
    have hinstant := years.instant?_eq_some h hrange
    simp only [if_pos hrange, Trap.subtract, if_pos hday, ← hinstant, Years.instant?, ← hbefore]
    rfl
  · simp only [if_neg hrange]

/-- **What is found among the bytes is what the text says**: `readByOffset`
never stops and gives what `read` gives, in a calendar with any years. -/
theorem readByOffset_eq (years : Years) (text : List Char) :
    readByOffset years text = .ok (read text) := by
  unfold readByOffset Timestamp.read
  cases hposition : position? (encode text) with
  | none => rw [position?_eq_none_iff.mp hposition]
  | some start =>
    -- the window is cut out of the text without a trap, and its fields are read
    obtain ⟨t, ht⟩ := position?_eq_some_iff.mp hposition
    have hslice : slice text start (start + (encode shape).length) = .ok t.text := by
      rw [length_encode_shape]
      exact slice_eq_ok_iff.mpr ht.slice?
    simp only [hslice, find?_eq_some_iff.mpr ht.isLeftmost, bind, Except.bind,
      parse_text years ht.1]
    split <;> rfl

end Timestamp

end ListQuery
