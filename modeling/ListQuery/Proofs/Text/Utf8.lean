import ListQuery.Text.Utf8

/-!
# Reading UTF-8 back

What `encode` writes, `decode` reads:

* **`fits_utf8EncodeChar`** — the bytes of a character, against the table of
  leading bytes. The first byte leads, the others lie in the ranges that it asks
  for, and the payloads of all of them make up the code point.
* **`decodeFrom_some_append`** — the transport: a character that is begun is
  finished by bytes in the ranges that are due, and the reading goes on behind
  them.
* **`decode_encode`** — both together, by induction on the characters.
-/

namespace ListQuery.Text.Utf8

/-! ## The bytes of one character -/

/-- `Fits ranges bytes` says that the bytes lie, one by one, in the given
ranges, as many as there are of these. -/
inductive Fits : List ByteRange → List UInt8 → Prop where
  | nil : Fits [] []
  | cons {range : ByteRange} {byte : UInt8} {ranges : List ByteRange} {bytes : List UInt8}
      (hbyte : range.contains byte = true) (h : Fits ranges bytes) :
      Fits (range :: ranges) (byte :: bytes)

/-- The payload `start` with the six low bits of every byte behind it. The
leading byte of a character gives the payload to start with. -/
def payload (start : Nat) (bytes : List UInt8) : Nat :=
  bytes.foldl (fun sum byte => sum * 0x40 + byte.toNat % 0x40) start

theorem toNat_ofNat {n : Nat} (h : n < 0x100) : (UInt8.ofNat n).toNat = n := by
  rw [UInt8.toNat_ofNat']
  omega

theorem contains_ofNat {range : ByteRange} {n : Nat} (hbyte : n < 0x100) (hfirst : range.first ≤ n)
    (hlast : n ≤ range.last) : range.contains (UInt8.ofNat n) = true := by
  simp [ByteRange.contains, toNat_ofNat hbyte, hfirst, hlast]

theorem toNat_mod_continuation (n : Nat) :
    (UInt8.ofNat (n % 0x40 + 0x80)).toNat % 0x40 = n % 0x40 := by
  rw [toNat_ofNat (by omega)]
  omega

theorem continuation_contains (n : Nat) :
    continuation.contains (UInt8.ofNat (n % 0x40 + 0x80)) = true :=
  contains_ofNat (by omega) (show 0x80 ≤ _ by omega) (show _ ≤ 0xBF by omega)

/-- The code points of a `Char`: up to the last one, without the surrogates. -/
theorem toNat_bounds (c : Char) : c.toNat < 0x110000 ∧ (c.toNat < 0xD800 ∨ 0xDFFF < c.toNat) := by
  rcases c.valid with h | h
  · have : c.toNat < 0xD800 := h
    omega
  · have : 0xDFFF < c.toNat ∧ c.toNat < 0x110000 := h
    omega

/-- The three bytes of a code point fit the table `lead?`. The second of them
lies in a range that is narrowed where two bytes would do and where surrogates
begin. -/
theorem fits_three {v : Nat} (hlow : 0x7FF < v) (hhigh : v ≤ 0xFFFF)
    (hsurrogate : v < 0xD800 ∨ 0xDFFF < v) :
    ∃ range, lead? (UInt8.ofNat (v / 0x1000 % 0x10 + 0xE0)) =
        some (v / 0x1000, [range, continuation]) ∧
      range.contains (UInt8.ofNat (v / 0x40 % 0x40 + 0x80)) = true := by
  have hpayload : (v / 0x1000 % 0x10 + 0xE0) % 0x10 = v / 0x1000 := by omega
  simp only [lead?, toNat_ofNat (show v / 0x1000 % 0x10 + 0xE0 < 0x100 by omega), hpayload]
  rw [if_neg (by omega), if_neg (by omega), if_neg (by omega)]
  -- 0xE0 and 0xED have rows of their own in the table, all other leading bytes share one
  by_cases hfirst : v / 0x1000 = 0
  · rw [if_pos (by omega)]
    exact ⟨⟨0xA0, 0xBF⟩, rfl, contains_ofNat (by omega) (show 0xA0 ≤ _ by omega)
      (show _ ≤ 0xBF by omega)⟩
  by_cases hlast : v / 0x1000 = 0xD
  · rw [if_neg (by omega), if_pos (by omega)]
    exact ⟨⟨0x80, 0x9F⟩, rfl, contains_ofNat (by omega) (show 0x80 ≤ _ by omega)
      (show _ ≤ 0x9F by omega)⟩
  · rw [if_neg (by omega), if_neg (by omega), if_pos (by omega)]
    exact ⟨continuation, rfl, continuation_contains _⟩

/-- The four bytes of a code point fit the table `lead?`. The second of them
lies in a range that is narrowed where three bytes would do and beyond
U+10FFFF. -/
theorem fits_four {v : Nat} (hlow : 0xFFFF < v) (hhigh : v < 0x110000) :
    ∃ range, lead? (UInt8.ofNat (v / 0x40000 % 0x08 + 0xF0)) =
        some (v / 0x40000, [range, continuation, continuation]) ∧
      range.contains (UInt8.ofNat (v / 0x1000 % 0x40 + 0x80)) = true := by
  have hpayload : (v / 0x40000 % 0x08 + 0xF0) % 0x08 = v / 0x40000 := by omega
  simp only [lead?, toNat_ofNat (show v / 0x40000 % 0x08 + 0xF0 < 0x100 by omega), hpayload]
  rw [if_neg (by omega), if_neg (by omega), if_neg (by omega), if_neg (by omega),
    if_neg (by omega), if_neg (by omega)]
  -- 0xF0 and 0xF4 have rows of their own in the table, those between them share one
  by_cases hfirst : v / 0x40000 = 0
  · rw [if_pos (by omega)]
    exact ⟨⟨0x90, 0xBF⟩, rfl, contains_ofNat (by omega) (show 0x90 ≤ _ by omega)
      (show _ ≤ 0xBF by omega)⟩
  by_cases hlast : v / 0x40000 = 4
  · rw [if_neg (by omega), if_neg (by omega), if_pos (by omega)]
    exact ⟨⟨0x80, 0x8F⟩, rfl, contains_ofNat (by omega) (show 0x80 ≤ _ by omega)
      (show _ ≤ 0x8F by omega)⟩
  · rw [if_neg (by omega), if_pos (by omega)]
    exact ⟨continuation, rfl, continuation_contains _⟩

/-- The first byte of a character leads it, the others lie in the ranges that
the first one asks for, and the payloads of all of them make up the code point.
The cases are the four lengths that `String.utf8EncodeChar` tells apart. -/
theorem fits_utf8EncodeChar (c : Char) :
    ∃ byte bytes start ranges, String.utf8EncodeChar c = byte :: bytes ∧
      lead? byte = some (start, ranges) ∧ Fits ranges bytes ∧ payload start bytes = c.toNat := by
  have hbounds := toNat_bounds c
  fun_cases String.utf8EncodeChar c with
  | case1 v h1 =>
    have hv : v = c.toNat := rfl
    refine ⟨_, [], v, [], rfl, ?_, .nil, rfl⟩
    simp only [lead?, toNat_ofNat (show v < 0x100 by omega)]
    rw [if_pos (by omega)]
  | case2 v h1 h2 =>
    have hv : v = c.toNat := rfl
    have hpayload : (v / 64 % 0x20 + 0xC0) % 0x20 = v / 0x40 := by omega
    refine ⟨_, _, v / 0x40, [continuation], rfl, ?_, .cons (continuation_contains _) .nil, ?_⟩
    · simp only [lead?, toNat_ofNat (show v / 64 % 0x20 + 0xC0 < 0x100 by omega), hpayload]
      rw [if_neg (by omega), if_neg (by omega), if_pos (by omega)]
    · simp only [payload, List.foldl, toNat_mod_continuation]
      omega
  | case3 v h1 h2 h3 =>
    have hv : v = c.toNat := rfl
    obtain ⟨range, hlead, hsecond⟩ := fits_three (v := v) (by omega) h3 (by omega)
    refine ⟨_, _, _, _, rfl, hlead, .cons hsecond (.cons (continuation_contains _) .nil), ?_⟩
    simp only [payload, List.foldl, toNat_mod_continuation]
    omega
  | case4 v h1 h2 h3 =>
    have hv : v = c.toNat := rfl
    obtain ⟨range, hlead, hsecond⟩ := fits_four (v := v) (by omega) (by omega)
    refine ⟨_, _, _, _, rfl, hlead,
      .cons hsecond (.cons (continuation_contains _) (.cons (continuation_contains _) .nil)), ?_⟩
    simp only [payload, List.foldl, toNat_mod_continuation]
    omega

/-! ## The transport: bytes in the ranges that are due finish a character -/

/-- `decodeFrom` finishes a character that is begun by bytes that lie in the
ranges due next and later, and goes on behind them. Induction on the ranges that
are due later. -/
theorem decodeFrom_some_append {later : List ByteRange} {bytes : List UInt8} (rest : List UInt8) :
    ∀ {count start : Nat} {next : ByteRange}, Fits (next :: later) bytes → ∀ index : Nat,
      decodeFrom index (some ⟨count, start, next, later⟩) (bytes ++ rest) =
        (Char.ofNat (payload start bytes) :: ·) <$>
          decodeFrom (index + count + bytes.length) none rest := by
  -- a byte in the next range makes the first of the later ones the next
  induction later generalizing bytes with
  | nil =>
    intro count start next hfits index
    cases hfits with
    | cons hbyte h =>
      cases h
      simp [decodeFrom, hbyte, payload]
  | cons range later ih =>
    intro count start next hfits index
    cases hfits with
    | @cons _ byte _ bytes hbyte h =>
      simp only [List.cons_append, decodeFrom, hbyte, if_pos]
      rw [ih h index]
      simp [payload, Nat.add_assoc, Nat.add_comm, Nat.add_left_comm]

/-- `decodeFrom` reads the bytes of a character as that character, and goes on
behind them. -/
theorem decodeFrom_utf8EncodeChar (c : Char) (rest : List UInt8) (index : Nat) :
    decodeFrom index none (String.utf8EncodeChar c ++ rest) =
      (c :: ·) <$> decodeFrom (index + (String.utf8EncodeChar c).length) none rest := by
  obtain ⟨byte, bytes, start, ranges, hbytes, hlead, hfits, hpayload⟩ := fits_utf8EncodeChar c
  rw [hbytes, List.cons_append, decodeFrom, hlead]
  cases hfits with
  | nil =>
    -- a character of one byte: nothing is due, and the payload is the code point
    have hc : Char.ofNat start = c := by rw [show start = c.toNat from hpayload, Char.ofNat_toNat]
    simp [hc]
  | cons hbyte h =>
    simp only
    rw [decodeFrom_some_append rest (.cons hbyte h) index, hpayload, Char.ofNat_toNat]
    simp [Nat.add_assoc, Nat.add_comm]

theorem encode_cons (c : Char) (text : List Char) :
    encode (c :: text) = String.utf8EncodeChar c ++ encode text := List.flatMap_cons

theorem encode_append (front back : List Char) :
    encode (front ++ back) = encode front ++ encode back :=
  List.flatMap_append

/-- **What is written is read back**: `decode` inverts `encode`. Induction on
the text, from any place on. -/
theorem decode_encode (text : List Char) : decode (encode text) = .ok text := by
  -- the reading counts bytes, but the text does not depend on where it starts to count
  suffices h : ∀ index, decodeFrom index none (encode text) = .ok text from h 0
  induction text with
  | nil => exact fun _ => rfl
  | cons c text ih =>
    intro index
    rw [encode_cons, decodeFrom_utf8EncodeChar, ih]
    rfl

theorem encode_inj {text text' : List Char} (h : encode text = encode text') : text = text' :=
  Except.ok.inj ((decode_encode text).symm.trans (h ▸ decode_encode text'))

end ListQuery.Text.Utf8
