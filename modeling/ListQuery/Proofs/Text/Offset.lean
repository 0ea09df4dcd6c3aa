import ListQuery.Proofs.Text.Utf8.Fault
import ListQuery.Text.Cut
import ListQuery.Text.Offset

/-!
# Offsets into a text

Where a text can be cut, told by its characters (`IsBoundary`), and what is cut
out of it, told without bytes. Both rest on the fact that a byte shows whether a
character begins at it.

* **`exists_of_encode_eq_cons`** — a byte that continues no character begins
  one.
* **`exists_of_encode_eq_append`** — the crux: the bytes of a text stand among
  those of another one only where the text itself stands.
* **`atBoundary_iff`** — the byte at an offset tells whether a text can be cut
  there.
* **`slice?_eq_some_iff`**, **`cut_append`** — what is cut out of a text, and a
  text cut in two.
* **`lastOffset?_eq`** — the offset of the last character of a class.
-/

namespace ListQuery

namespace Text

open Utf8 (encode)

/-! ## Lengths in bytes -/

/-- `IsBoundary text offset` says that the text can be cut behind so many bytes:
they are those of some of its characters in front. -/
def IsBoundary (text : List Char) (offset : Nat) : Prop :=
  ∃ front back, text = front ++ back ∧ byteLength front = offset

variable {text front back window : List Char} {start stop offset : Nat}

theorem byteLength_append (front back : List Char) :
    byteLength (front ++ back) = byteLength front + byteLength back := by
  rw [byteLength, Utf8.encode_append, List.length_append, byteLength, byteLength]

theorem byteLength_cons (c : Char) (rest : List Char) :
    byteLength (c :: rest) = c.utf8Size + byteLength rest := by
  rw [byteLength, Utf8.encode_cons, List.length_append, String.length_utf8EncodeChar, byteLength]

/-- A text has no more characters than bytes, as `Char.utf8Size` is positive.
Induction on the text. -/
theorem length_le_byteLength (text : List Char) : text.length ≤ byteLength text := by
  induction text with
  | nil => exact Nat.zero_le _
  | cons c rest ih =>
    have hsize := c.utf8Size_pos
    rw [List.length_cons, byteLength_cons]
    omega

theorem eq_nil_of_byteLength (h : byteLength text = 0) : text = [] :=
  List.length_eq_zero_iff.mp (Nat.le_zero.mp (h ▸ length_le_byteLength text))

/-- Of two fronts of a text, the one with the greater `byteLength` has more
characters. -/
theorem length_le_of_byteLength_le {front' : List Char} (hfront : front <+: text)
    (hfront' : front' <+: text) (h : byteLength front ≤ byteLength front') :
    front.length ≤ front'.length := by
  rcases List.prefix_or_prefix_of_prefix hfront hfront' with hle | ⟨more, rfl⟩
  · exact hle.length_le
  · rw [byteLength_append] at h
    obtain rfl : more = [] := eq_nil_of_byteLength (by omega)
    rw [List.append_nil]

/-- Of two fronts of a text, the one with more characters has the greater
`byteLength`. -/
theorem byteLength_le_of_length_le {front' : List Char} (hfront : front <+: text)
    (hfront' : front' <+: text) (h : front.length ≤ front'.length) :
    byteLength front ≤ byteLength front' := by
  obtain ⟨more, rfl⟩ := List.prefix_of_prefix_length_le hfront hfront' h
  rw [byteLength_append]
  exact Nat.le_add_right _ _

/-! ## ASCII -/

/-- The character with the number of a byte, which `encode` gives back in
ASCII. -/
def ofByte (byte : UInt8) : Char := Char.ofNat byte.toNat

theorem toNat_ofByte (byte : UInt8) : (ofByte byte).toNat = byte.toNat := by
  have hlt := byte.toNat_lt
  have hvalid : byte.toNat.isValidChar := .inl (by omega)
  rw [ofByte, Char.ofNat, dif_pos hvalid]
  rfl

theorem ofByte_inj {byte other : UInt8} : ofByte byte = ofByte other ↔ byte = other := by
  rw [← Char.toNat_inj, toNat_ofByte, toNat_ofByte, UInt8.toNat_inj]

/-- `encode` writes a text in ASCII with one byte for each character, and
`ofByte` reads these back. Induction on the text. -/
theorem map_ofByte_encode (h : ∀ c ∈ text, c.toNat < 0x80) : (encode text).map ofByte = text := by
  induction text with
  | nil => rfl
  | cons c rest ih =>
    obtain ⟨hc, hrest⟩ := List.forall_mem_cons.mp h
    have hbytes : String.utf8EncodeChar c = [UInt8.ofNat c.toNat] := by
      have hle : c.val.toNat ≤ 0x7F := Nat.le_of_lt_succ hc
      rw [String.utf8EncodeChar]
      simp only [hle, if_pos]
      rfl
    have hchar : ofByte (UInt8.ofNat c.toNat) = c := by
      rw [← Char.toNat_inj, toNat_ofByte, Utf8.toNat_ofNat (by omega)]
    rw [Utf8.encode_cons, List.map_append, ih hrest, hbytes, List.map_singleton, hchar]
    rfl

theorem byteLength_of_ascii (h : ∀ c ∈ text, c.toNat < 0x80) : byteLength text = text.length := by
  have hlength := congrArg List.length (map_ofByte_encode h)
  rwa [List.length_map] at hlength

/-! ## Where characters begin -/

/-- A byte that is no `continuation` begins a character, so the text can be cut
in front of it. Induction on the text: the byte is the first of the first
character, or it stands behind all bytes of that one, since these others
continue it. -/
theorem exists_of_encode_eq_cons {before behind : List UInt8} {byte : UInt8}
    (h : encode text = before ++ byte :: behind) (hbyte : Utf8.continuation.contains byte = false) :
    ∃ front back, text = front ++ back ∧ encode front = before ∧ encode back = byte :: behind := by
  induction text generalizing before with
  | nil => exact absurd h.symm (by simp [encode])
  | cons c rest ih =>
    cases before with
    | nil => exact ⟨[], c :: rest, rfl, rfl, h⟩
    | cons first before =>
      rw [Utf8.encode_cons, List.cons_append] at h
      obtain ⟨lead, others, hc, -⟩ := Utf8.exists_lead c
      rw [hc, List.cons_append, List.cons.injEq] at h
      obtain ⟨rfl, h⟩ := h
      -- the byte is behind the first character, as the other bytes of that one continue it
      rcases List.append_eq_append_iff.mp h with ⟨more, rfl, hrest⟩ | ⟨more, hothers, hrest⟩
      · obtain ⟨front, back, rfl, rfl, hback⟩ := ih hrest
        exact ⟨c :: front, back, rfl, by rw [Utf8.encode_cons, hc, List.cons_append], hback⟩
      · cases more with
        | nil =>
          -- the first character ends right in front of the byte
          rw [List.append_nil] at hothers
          rw [List.nil_append] at hrest
          exact ⟨[c], rest, rfl, by rw [Utf8.encode_cons, hc, hothers]; simp [encode], hrest.symm⟩
        | cons next more =>
          obtain ⟨rfl, -⟩ := List.cons_eq_cons.mp hrest
          have hmem : byte ∈ others := hothers ▸ List.mem_append_right _ List.mem_cons_self
          rw [Utf8.continuation_of_mem_tail hc byte hmem] at hbyte
          cases hbyte

/-- The bytes of a text stand among those of another one only where the text
itself stands: no character begins within another one. What stands behind the
window has to be the encoding of a text again, by
`Utf8.wellFormed_of_append`. -/
theorem exists_of_encode_eq_append {before behind : List UInt8}
    (h : encode text = before ++ encode window ++ behind) (hne : window ≠ []) :
    ∃ front back, text = front ++ window ++ back ∧ encode front = before ∧
      encode back = behind := by
  obtain ⟨c, rest, rfl⟩ := List.exists_cons_of_ne_nil hne
  obtain ⟨byte, bytes, hc, hbyte⟩ := Utf8.exists_lead c
  have hcons : encode text = before ++ byte :: (bytes ++ encode rest ++ behind) := by
    rw [h, Utf8.encode_cons, hc]
    simp
  obtain ⟨front, behindFront, rfl, hfront, hbehind⟩ := exists_of_encode_eq_cons hcons hbyte
  have hsplit : encode behindFront = encode (c :: rest) ++ behind := by
    rw [hbehind, Utf8.encode_cons, hc]
    simp
  obtain ⟨back, rfl⟩ := Utf8.wellFormed_of_append ⟨behindFront, hsplit.symm⟩
  rw [← Utf8.encode_append] at hsplit
  refine ⟨front, back, ?_, hfront, rfl⟩
  rw [Utf8.encode_inj hsplit, List.append_assoc]

/-! ## Cutting -/

/-- `atBoundary` tells by one byte what `IsBoundary` says of the whole text:
behind all bytes the text can be cut, and elsewhere where the byte continues no
character. -/
theorem atBoundary_iff : atBoundary (encode text) offset = true ↔ IsBoundary text offset := by
  constructor
  · intro h
    unfold atBoundary at h
    split at h
    · next byte hbyte =>
      obtain ⟨hlt, rfl⟩ := List.getElem?_eq_some_iff.mp hbyte
      have hsplit : encode text = (encode text).take offset ++
          (encode text)[offset] :: (encode text).drop (offset + 1) := by
        rw [← List.drop_eq_getElem_cons hlt, List.take_append_drop]
      obtain ⟨front, back, htext, hfront, -⟩ := exists_of_encode_eq_cons hsplit (by simpa using h)
      exact ⟨front, back, htext, by rw [byteLength, hfront, List.length_take_of_le hlt.le]⟩
    · exact ⟨text, [], (List.append_nil text).symm, (beq_iff_eq.mp h).symm⟩
  · rintro ⟨front, back, rfl, rfl⟩
    rw [atBoundary, Utf8.encode_append, byteLength, List.getElem?_append_right (Nat.le_refl _),
      Nat.sub_self]
    cases back with
    | nil => simp [encode]
    | cons c rest =>
      obtain ⟨byte, bytes, hc, hbyte⟩ := Utf8.exists_lead c
      simp [Utf8.encode_cons, hc, hbyte]

instance (text : List Char) (offset : Nat) : Decidable (IsBoundary text offset) :=
  decidable_of_iff _ atBoundary_iff

/-- `slice?` cuts out what stands between two offsets, and nothing else: the
text can be cut at both, and the window is what stands there. -/
theorem slice?_eq_some_iff :
    slice? text start stop = some window ↔
      ∃ front back, text = front ++ window ++ back ∧ byteLength front = start ∧
        byteLength (front ++ window) = stop := by
  have hslice : ∀ front window back : List Char,
      Utf8.decode (((encode (front ++ window ++ back)).drop (byteLength front)).take
        (byteLength (front ++ window) - byteLength front)) = .ok window := by
    intro front window back
    rw [byteLength_append, Nat.add_sub_cancel_left, Utf8.encode_append, Utf8.encode_append,
      List.append_assoc]
    simp only [byteLength, List.drop_left, List.take_left, Utf8.decode_encode]
  simp only [slice?, atBoundary_iff]
  constructor
  · intro h
    split at h
    · next hcut =>
      obtain ⟨hle, ⟨front, rest, htext, rfl⟩, ⟨whole, back, rfl, rfl⟩⟩ := hcut
      -- the shorter front is the front of the longer one
      have hlength :=
        length_le_of_byteLength_le ⟨rest, htext.symm⟩ (List.prefix_append whole back) hle
      obtain ⟨cut, rfl⟩ :=
        List.prefix_of_prefix_length_le ⟨rest, htext.symm⟩ (List.prefix_append whole back) hlength
      rw [hslice] at h
      obtain rfl := Option.some.inj h
      exact ⟨front, back, rfl, rfl, rfl⟩
    · cases h
  · rintro ⟨front, back, rfl, rfl, rfl⟩
    rw [hslice, if_pos]
    · rfl
    · refine ⟨?_, ⟨front, window ++ back, by simp, rfl⟩, ⟨front ++ window, back, rfl, rfl⟩⟩
      rw [byteLength_append]
      exact Nat.le_add_right _ _

theorem isBoundary_of_slice? (h : slice? text start stop = some window) :
    IsBoundary text start ∧ IsBoundary text stop := by
  obtain ⟨front, back, rfl, rfl, rfl⟩ := slice?_eq_some_iff.mp h
  exact ⟨⟨front, window ++ back, by simp, rfl⟩, ⟨front ++ window, back, rfl, rfl⟩⟩

/-- The slice that stops the program where it cannot be cut gives what `slice?`
gives. -/
theorem slice_eq_ok_iff :
    slice text start stop = .ok window ↔ slice? text start stop = some window := by
  rw [slice]
  cases slice? text start stop <;> simp

theorem slice_front (front back : List Char) :
    slice (front ++ back) 0 (byteLength front) = .ok front :=
  slice_eq_ok_iff.mpr (slice?_eq_some_iff.mpr ⟨[], back, rfl, rfl, rfl⟩)

theorem slice_back (front back : List Char) :
    slice (front ++ back) (byteLength front) (byteLength (front ++ back)) = .ok back :=
  slice_eq_ok_iff.mpr (slice?_eq_some_iff.mpr ⟨front, [], by simp, rfl, rfl⟩)

/-- `cut` behind the front of a text gives this front and what is behind it, and
never a trap. -/
theorem cut_append (front back : List Char) :
    cut (front ++ back) (byteLength front) = .ok (front, back) := by
  rw [cut, slice_front, slice_back]
  rfl

/-! ## The last character of a class -/

/-- The offset of the last character of a class is the number of bytes in front
of where `splitLast` cuts. Induction on the text. -/
theorem lastOffset?_eq (isSep : Char → Bool) (text : List Char) :
    lastOffset? isSep text = (splitLast isSep text).map fun halves => byteLength halves.1 := by
  induction text with
  | nil => rfl
  | cons c rest ih =>
    rw [lastOffset?, ih, splitLast]
    cases splitLast isSep rest with
    | some halves => simp [byteLength_cons]
    | none => cases isSep c <;> rfl

/-- At the offset of `lastOffset?` the text can be cut, and something is left
behind it. -/
theorem lastOffset?_bounds {isSep : Char → Bool} (h : lastOffset? isSep text = some offset) :
    IsBoundary text offset ∧ offset < byteLength text := by
  rw [lastOffset?_eq] at h
  obtain ⟨⟨front, back⟩, hcut, rfl⟩ := Option.map_eq_some_iff.mp h
  obtain ⟨c, -, rfl, -⟩ := eq_append_of_splitLast hcut
  have hsize := c.utf8Size_pos
  refine ⟨⟨front, c :: back, rfl, rfl⟩, ?_⟩
  -- the character at the offset has a byte at least
  show byteLength front < byteLength (front ++ c :: back)
  rw [byteLength_append, byteLength_cons]
  omega

/-- The second of four bytes does not begin a character. -/
example : slice? "a😀b".toList 1 5 = some ['😀'] ∧ slice? "a😀b".toList 2 5 = none := by
  decide +kernel

end Text

end ListQuery
