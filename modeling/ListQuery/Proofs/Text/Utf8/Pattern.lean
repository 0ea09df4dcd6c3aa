import ListQuery.Proofs.Text.Utf8.Fault

/-!
# Numbers that no character has

The patterns of UTF-8 have room for more numbers than there are characters
(`Pattern`): those that fewer bytes would do for, the surrogates, and those
beyond the last character. **`not_wellFormed_of_forbidden`** — none of these can
be read, wherever it stands.
-/

namespace ListQuery.Text.Utf8

/-- `Pattern n bytes` says that a pattern of UTF-8 writes the number in these
bytes, whether or not a character has it. With two bytes there is room for 11
bits, with three for 16, with four for 21. -/
inductive Pattern (n : Nat) : List UInt8 → Prop where
  | two (h : n < 0x800) :
      Pattern n [UInt8.ofNat (0xC0 + n / 0x40), UInt8.ofNat (0x80 + n % 0x40)]
  | three (h : n < 0x10000) :
      Pattern n [UInt8.ofNat (0xE0 + n / 0x1000), UInt8.ofNat (0x80 + n / 0x40 % 0x40),
        UInt8.ofNat (0x80 + n % 0x40)]
  | four (h : n < 0x200000) :
      Pattern n [UInt8.ofNat (0xF0 + n / 0x40000), UInt8.ofNat (0x80 + n / 0x1000 % 0x40),
        UInt8.ofNat (0x80 + n / 0x40 % 0x40), UInt8.ofNat (0x80 + n % 0x40)]

/-- `Forbidden n length` says that the number is not to be written in so many
bytes: fewer would do for it, or no character has it. -/
inductive Forbidden (n : Nat) : Nat → Prop where
  | overlongTwo (h : n < 0x80) : Forbidden n 2
  | overlongThree (h : n < 0x800) : Forbidden n 3
  | overlongFour (h : n < 0x10000) : Forbidden n 4
  | surrogate {length : Nat} (h : 0xD800 ≤ n) (h' : n ≤ 0xDFFF) : Forbidden n length
  | beyond {length : Nat} (h : 0x10FFFF < n) : Forbidden n length

variable {n : Nat} {byte : UInt8} {bytes : List UInt8}

/-- What is `WellFormed` starts with a byte that `Leads` and bytes in the ranges
that it asks for, as the text that it encodes starts with a character. -/
theorem WellFormed.exists_leads (h : WellFormed (byte :: bytes)) :
    ∃ ranges read rest, Leads byte ranges ∧ bytes = read ++ rest ∧ Fits ranges read := by
  obtain ⟨_ | ⟨c, text⟩, htext⟩ := h
  · cases htext
  · obtain ⟨first, others, start, ranges, hbytes, hlead, hfits, -⟩ := fits_utf8EncodeChar c
    rw [encode_cons, hbytes, List.cons_append, List.cons.injEq] at htext
    obtain ⟨rfl, rfl⟩ := htext
    exact ⟨ranges, others, encode text, leads_of_lead? hlead, rfl, hfits⟩

/-- A number that is `Forbidden` in so many bytes cannot be read from its
`Pattern`, whatever stands behind. One case for each length of a pattern. -/
theorem not_wellFormed_of_pattern (hpattern : Pattern n bytes) (hn : Forbidden n bytes.length)
    (back : List UInt8) : ¬ WellFormed (bytes ++ back) := by
  intro h
  -- the leading byte tells the pattern, and the range of the second one keeps the number out
  cases hpattern with
  | two hlt =>
    obtain ⟨ranges, read, rest, hleads, -, -⟩ := h.exists_leads
    have hfirst : (UInt8.ofNat (0xC0 + n / 0x40)).toNat = 0xC0 + n / 0x40 := toNat_ofNat (by omega)
    -- no number of two bytes is a surrogate or beyond the last one
    have hsmall : n < 0x80 := by
      cases hn <;> omega
    cases hleads <;> omega
  | three hlt =>
    obtain ⟨ranges, read, rest, hleads, hread, hfits⟩ := h.exists_leads
    have hfirst : (UInt8.ofNat (0xE0 + n / 0x1000)).toNat = 0xE0 + n / 0x1000 :=
      toNat_ofNat (by omega)
    have hsecond : (UInt8.ofNat (0x80 + n / 0x40 % 0x40)).toNat = 0x80 + n / 0x40 % 0x40 :=
      toNat_ofNat (by omega)
    have hbad : n < 0x800 ∨ 0xD800 ≤ n ∧ n ≤ 0xDFFF := by
      cases hn <;> omega
    cases hleads with
    | three _ _ _ _ hlow hsurrogate =>
      cases hfits with
      | cons hbyte _ =>
        obtain ⟨rfl, -⟩ := List.cons_eq_cons.mp hread
        have hbounds := bounds_of_contains hbyte
        omega
    | _ => omega
  | four hlt =>
    obtain ⟨ranges, read, rest, hleads, hread, hfits⟩ := h.exists_leads
    have hfirst : (UInt8.ofNat (0xF0 + n / 0x40000)).toNat = 0xF0 + n / 0x40000 :=
      toNat_ofNat (by omega)
    have hsecond : (UInt8.ofNat (0x80 + n / 0x1000 % 0x40)).toNat = 0x80 + n / 0x1000 % 0x40 :=
      toNat_ofNat (by omega)
    have hbad : n < 0x10000 ∨ 0x10FFFF < n := by
      cases hn <;> omega
    cases hleads with
    | four _ _ _ _ hlow hhigh =>
      cases hfits with
      | cons hbyte _ =>
        obtain ⟨rfl, -⟩ := List.cons_eq_cons.mp hread
        have hbounds := bounds_of_contains hbyte
        omega
    | _ => omega

/-- **A `Forbidden` number is read nowhere**, whatever text stands in front of
its `Pattern` and whatever bytes behind. -/
theorem not_wellFormed_of_forbidden (hpattern : Pattern n bytes) (hn : Forbidden n bytes.length)
    (front : List Char) (back : List UInt8) : ¬ WellFormed (encode front ++ bytes ++ back) := by
  rw [List.append_assoc]
  exact fun h => not_wellFormed_of_pattern hpattern hn back (wellFormed_of_append h)

end ListQuery.Text.Utf8
