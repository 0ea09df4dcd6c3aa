import ListQuery.Proofs.Text.Utf8

/-!
# Well-formed UTF-8

Bytes are well-formed when they are the encoding of a text (`WellFormed`), and
these are the bytes that can be read (`decode_eq_ok_iff`).

* **`Leads`** — the four lengths of a character, by its leading byte, with what
  the narrowed range of the second byte keeps out.
* **`exists_utf8EncodeChar`** — the crux: a leading byte with bytes in the
  ranges that it asks for behind it is the encoding of a character.
* **`exists_lead`**, **`continuation_of_mem_tail`** — the first byte of a
  character begins one, and the others only go on with it.
* **`exists_fits_of_decodeFrom`** — reading finishes a character that is begun
  only by such bytes.
* **`eq_encode_of_decodeFrom`** — both together, by induction on the number of
  bytes.
-/

namespace ListQuery.Text.Utf8

/-! ## Leading bytes -/

/-- `Leads byte ranges` says which ranges a leading byte asks for. The range of
a second byte lies within `continuation`, and is narrower after four of the
leading bytes. -/
inductive Leads (byte : UInt8) : List ByteRange → Prop where
  | one (h : byte.toNat < 0x80) : Leads byte []
  | two (h : 0xC2 ≤ byte.toNat) (h' : byte.toNat < 0xE0) : Leads byte [continuation]
  | three {second : ByteRange} (h : 0xE0 ≤ byte.toNat) (h' : byte.toNat < 0xF0)
      (hfirst : 0x80 ≤ second.first) (hlast : second.last ≤ 0xBF)
      (hlow : byte.toNat = 0xE0 → 0xA0 ≤ second.first)
      (hsurrogate : byte.toNat = 0xED → second.last ≤ 0x9F) : Leads byte [second, continuation]
  | four {second : ByteRange} (h : 0xF0 ≤ byte.toNat) (h' : byte.toNat ≤ 0xF4)
      (hfirst : 0x80 ≤ second.first) (hlast : second.last ≤ 0xBF)
      (hlow : byte.toNat = 0xF0 → 0x90 ≤ second.first)
      (hhigh : byte.toNat = 0xF4 → second.last ≤ 0x8F) :
      Leads byte [second, continuation, continuation]

/-- The table gives the ranges that `Leads` says. -/
theorem leads_of_lead? {byte : UInt8} {start : Nat} {ranges : List ByteRange}
    (h : lead? byte = some (start, ranges)) : Leads byte ranges := by
  simp only [lead?] at h
  -- row by row through the table
  split at h
  · next h1 =>
    cases h
    exact .one h1
  split at h
  · cases h
  split at h
  · next h1 h2 h3 =>
    cases h
    exact .two (by omega) h3
  split at h
  · next h4 =>
    cases h
    exact .three (by omega) (by omega) (show 0x80 ≤ 0xA0 by omega) (show 0xBF ≤ 0xBF by omega)
      (fun _ => show 0xA0 ≤ 0xA0 by omega) (by omega)
  split at h
  · next h5 =>
    cases h
    exact .three (by omega) (by omega) (show 0x80 ≤ 0x80 by omega) (show 0x9F ≤ 0xBF by omega)
      (by omega) (fun _ => show 0x9F ≤ 0x9F by omega)
  split at h
  · next h6 =>
    cases h
    exact .three (by omega) h6 (show 0x80 ≤ 0x80 by omega) (show 0xBF ≤ 0xBF by omega)
      (by omega) (by omega)
  split at h
  · next h7 =>
    cases h
    exact .four (by omega) (by omega) (show 0x80 ≤ 0x90 by omega) (show 0xBF ≤ 0xBF by omega)
      (fun _ => show 0x90 ≤ 0x90 by omega) (by omega)
  split at h
  · next h8 =>
    cases h
    exact .four (by omega) (by omega) (show 0x80 ≤ 0x80 by omega) (show 0xBF ≤ 0xBF by omega)
      (by omega) (by omega)
  split at h
  · next h9 =>
    cases h
    exact .four (by omega) (by omega) (show 0x80 ≤ 0x80 by omega) (show 0x8F ≤ 0xBF by omega)
      (by omega) (fun _ => show 0x8F ≤ 0x8F by omega)
  · cases h

/-! ## The character of bytes in their ranges -/

/-- Every number up to the last code point, but for the surrogates, is that of a
`Char`. -/
theorem exists_toNat_eq {n : Nat} (h : n < 0x110000) (hsurrogate : n < 0xD800 ∨ 0xDFFF < n) :
    ∃ c : Char, c.val.toNat = n := by
  have hvalid : n.isValidChar := by
    unfold Nat.isValidChar
    omega
  refine ⟨Char.ofNat n, ?_⟩
  rw [Char.ofNat, dif_pos hvalid]
  rfl

theorem ofNat_of_toNat_eq (byte : UInt8) {n : Nat} (h : byte.toNat = n) : UInt8.ofNat n = byte := by
  rw [← h, UInt8.ofNat_toNat]

theorem bounds_of_contains {range : ByteRange} {byte : UInt8} (h : range.contains byte = true) :
    range.first ≤ byte.toNat ∧ byte.toNat ≤ range.last := by
  simpa only [ByteRange.contains, Bool.and_eq_true, decide_eq_true_eq] using h

theorem continuation_bounds {byte : UInt8} (h : continuation.contains byte = true) :
    0x80 ≤ byte.toNat ∧ byte.toNat ≤ 0xBF := bounds_of_contains h

/-- The first byte of a character is no `continuation`, so that it shows where a
character begins. -/
theorem exists_lead (c : Char) :
    ∃ byte bytes, String.utf8EncodeChar c = byte :: bytes ∧ continuation.contains byte = false := by
  obtain ⟨byte, bytes, _, _, hbytes, hlead, -, -⟩ := fits_utf8EncodeChar c
  refine ⟨byte, bytes, hbytes, Bool.eq_false_iff.mpr fun hcontains => ?_⟩
  have hbounds := continuation_bounds hcontains
  cases leads_of_lead? hlead <;> omega

/-- All ranges that a byte `Leads` lie within that of `continuation`. -/
theorem Leads.bounds {byte : UInt8} {ranges : List ByteRange} (h : Leads byte ranges) :
    ∀ range ∈ ranges, 0x80 ≤ range.first ∧ range.last ≤ 0xBF := by
  have hall : 0x80 ≤ continuation.first ∧ continuation.last ≤ 0xBF := by decide
  cases h with
  | one => simp
  | two => simpa using hall
  | three _ _ hfirst hlast => simpa using ⟨⟨hfirst, hlast⟩, hall⟩
  | four _ _ hfirst hlast => simpa using ⟨⟨hfirst, hlast⟩, hall⟩

/-- Bytes in ranges within that of `continuation` continue a character.
Induction along the bytes. -/
theorem Fits.continuation_of_mem {ranges : List ByteRange} {bytes : List UInt8}
    (h : Fits ranges bytes)
    (hranges : ∀ range ∈ ranges, 0x80 ≤ range.first ∧ range.last ≤ 0xBF) :
    ∀ byte ∈ bytes, continuation.contains byte = true := by
  induction h with
  | nil => exact List.forall_mem_nil _
  | @cons range byte ranges bytes hbyte _ ih =>
    obtain ⟨⟨hfirst, hlast⟩, hrest⟩ := List.forall_mem_cons.mp hranges
    have hbounds := bounds_of_contains hbyte
    refine List.forall_mem_cons.mpr ⟨?_, ih hrest⟩
    rw [← UInt8.ofNat_toNat (x := byte)]
    exact contains_ofNat byte.toNat_lt (Nat.le_trans hfirst hbounds.1)
      (Nat.le_trans hbounds.2 hlast)

/-- Every other byte of a character is a `continuation`. -/
theorem continuation_of_mem_tail {c : Char} {byte : UInt8} {bytes : List UInt8}
    (h : String.utf8EncodeChar c = byte :: bytes) :
    ∀ other ∈ bytes, continuation.contains other = true := by
  obtain ⟨first, others, _, ranges, hbytes, hlead, hfits, -⟩ := fits_utf8EncodeChar c
  obtain ⟨rfl, rfl⟩ := List.cons_eq_cons.mp (h.symm.trans hbytes)
  exact hfits.continuation_of_mem (leads_of_lead? hlead).bounds

/-- A byte that `Leads` and bytes that `Fits` its ranges encode a character. The
cases are the four lengths; the narrowed range of the second byte is what makes
the payload a code point of that length. -/
theorem exists_utf8EncodeChar {byte : UInt8} {bytes : List UInt8} {ranges : List ByteRange}
    (hleads : Leads byte ranges) (hfits : Fits ranges bytes) :
    ∃ c, String.utf8EncodeChar c = byte :: bytes := by
  cases hleads with
  | one h =>
    cases hfits
    obtain ⟨c, hc⟩ := exists_toNat_eq (n := byte.toNat) (by omega) (by omega)
    refine ⟨c, ?_⟩
    simp only [String.utf8EncodeChar, hc]
    rw [if_pos (by omega), ofNat_of_toNat_eq _ rfl]
  | two h h' =>
    obtain _ | @⟨_, a, _, _, ha, _ | _⟩ := hfits
    have ha := continuation_bounds ha
    obtain ⟨c, hc⟩ := exists_toNat_eq (n := byte.toNat % 0x20 * 0x40 + a.toNat % 0x40)
      (by omega) (by omega)
    refine ⟨c, ?_⟩
    simp only [String.utf8EncodeChar, hc]
    rw [if_neg (by omega), if_pos (by omega), ofNat_of_toNat_eq byte (by omega),
      ofNat_of_toNat_eq a (by omega)]
  | three h h' hfirst hlast hlow hsurrogate =>
    obtain _ | @⟨_, a, _, _, ha, _ | @⟨_, b, _, _, hb, _ | _⟩⟩ := hfits
    have ha := bounds_of_contains ha
    have hb := continuation_bounds hb
    -- the range of the second byte keeps the code point from two bytes and from the surrogates
    obtain ⟨c, hc⟩ := exists_toNat_eq
      (n := (byte.toNat % 0x10 * 0x40 + a.toNat % 0x40) * 0x40 + b.toNat % 0x40)
      (by omega) (by omega)
    refine ⟨c, ?_⟩
    simp only [String.utf8EncodeChar, hc]
    rw [if_neg (by omega), if_neg (by omega), if_pos (by omega),
      ofNat_of_toNat_eq byte (by omega), ofNat_of_toNat_eq a (by omega),
      ofNat_of_toNat_eq b (by omega)]
  | four h h' hfirst hlast hlow hhigh =>
    obtain _ | @⟨_, a, _, _, ha, _ | @⟨_, b, _, _, hb, _ | @⟨_, c, _, _, hc, _ | _⟩⟩⟩ := hfits
    have ha := bounds_of_contains ha
    have hb := continuation_bounds hb
    have hc := continuation_bounds hc
    -- here it keeps the code point from three bytes and within the last one
    obtain ⟨d, hd⟩ := exists_toNat_eq
      (n := ((byte.toNat % 0x08 * 0x40 + a.toNat % 0x40) * 0x40 + b.toNat % 0x40) * 0x40 +
        c.toNat % 0x40) (by omega) (by omega)
    refine ⟨d, ?_⟩
    simp only [String.utf8EncodeChar, hd]
    rw [if_neg (by omega), if_neg (by omega), if_neg (by omega),
      ofNat_of_toNat_eq byte (by omega), ofNat_of_toNat_eq a (by omega),
      ofNat_of_toNat_eq b (by omega), ofNat_of_toNat_eq c (by omega)]

/-! ## Reading -/

/-- `decodeFrom` finishes a character that is begun only by bytes that `Fits`
the ranges due next and later. Induction on the ranges that are due later. -/
theorem exists_fits_of_decodeFrom {later : List ByteRange} {bytes : List UInt8} {text : List Char} :
    ∀ {count start : Nat} {next : ByteRange} {index : Nat},
      decodeFrom index (some ⟨count, start, next, later⟩) bytes = .ok text →
        ∃ read rest, bytes = read ++ rest ∧ Fits (next :: later) read := by
  -- on the ranges that are due later, as in `decodeFrom_some_append`
  induction later generalizing bytes with
  | nil =>
    intro count start next index h
    cases bytes with
    | nil => cases h
    | cons byte rest =>
      rw [decodeFrom] at h
      split at h
      · next hbyte => exact ⟨[byte], rest, rfl, .cons hbyte .nil⟩
      · cases h
  | cons range later ih =>
    intro count start next index h
    cases bytes with
    | nil => cases h
    | cons byte rest =>
      rw [decodeFrom] at h
      split at h
      · next hbyte =>
        obtain ⟨read, rest, rfl, hfits⟩ := ih h
        exact ⟨byte :: read, rest, rfl, .cons hbyte hfits⟩
      · cases h

/-- Bytes that `decodeFrom` can read start with the encoding of a character, if
there are any. -/
theorem exists_utf8EncodeChar_append {byte : UInt8} {bytes : List UInt8} {index : Nat}
    {text : List Char} (h : decodeFrom index none (byte :: bytes) = .ok text) :
    ∃ c rest, byte :: bytes = String.utf8EncodeChar c ++ rest := by
  rw [decodeFrom] at h
  split at h
  · cases h
  · next payload hlead =>
    obtain ⟨c, hc⟩ := exists_utf8EncodeChar (leads_of_lead? hlead) .nil
    exact ⟨c, bytes, by rw [hc]; rfl⟩
  · next payload next later hlead =>
    obtain ⟨read, rest, rfl, hfits⟩ := exists_fits_of_decodeFrom h
    obtain ⟨c, hc⟩ := exists_utf8EncodeChar (leads_of_lead? hlead) hfits
    exact ⟨c, rest, by rw [hc]; rfl⟩

/-- Bytes that `decodeFrom` reads as a text are `encode` of it. By recursion on
their number, character by character. -/
theorem eq_encode_of_decodeFrom {index : Nat} {bytes : List UInt8} {text : List Char}
    (h : decodeFrom index none bytes = .ok text) : bytes = encode text := by
  match bytes with
  | [] =>
    cases h
    rfl
  | byte :: bytes =>
    obtain ⟨c, rest, hsplit⟩ := exists_utf8EncodeChar_append h
    have hlength : rest.length ≤ bytes.length := by
      have hcount := congrArg List.length hsplit
      rw [List.length_cons, List.length_append, String.length_utf8EncodeChar] at hcount
      have := c.utf8Size_pos
      omega
    -- the character is read off, so the text is that character and what is read behind it
    rw [hsplit, decodeFrom_utf8EncodeChar] at h
    cases hrest : decodeFrom (index + (String.utf8EncodeChar c).length) none rest with
    | error fault =>
      rw [hrest] at h
      cases h
    | ok tail =>
      rw [hrest] at h
      cases h
      rw [hsplit, encode_cons, eq_encode_of_decodeFrom hrest]
termination_by bytes.length

/-- `WellFormed bytes` says that the bytes encode a text. -/
def WellFormed (bytes : List UInt8) : Prop := ∃ text, bytes = encode text

/-- **The bytes that `decode` reads as a text are `encode` of it**, and no
others. -/
theorem decode_eq_ok_iff {bytes : List UInt8} {text : List Char} :
    decode bytes = .ok text ↔ bytes = encode text := by
  constructor
  · exact eq_encode_of_decodeFrom
  · rintro rfl
    exact decode_encode text

theorem wellFormed_iff {bytes : List UInt8} :
    WellFormed bytes ↔ ∃ text, decode bytes = .ok text := by
  simp only [WellFormed, decode_eq_ok_iff]

theorem not_wellFormed_iff {bytes : List UInt8} :
    ¬ WellFormed bytes ↔ ∃ fault, decode bytes = .error fault := by
  rw [wellFormed_iff]
  cases decode bytes <;> simp

end ListQuery.Text.Utf8
