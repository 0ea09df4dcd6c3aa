import ListQuery.Proofs.Text.Percent
import ListQuery.Proofs.Text.Utf8.WellFormed

/-!
# The bytes of an escaped text

Every text stands for bytes (`StandsFor`), whether or not these encode a text:
its escapes for a byte each, its plus signs for spaces and every other character
for its own encoding. A percent sign that begins no escape is such a character.

* **`standsFor_iff`** — these are the bytes that decoding reads, although it
  takes plus signs for spaces in a pass of its own before it looks for escapes.
* **`wellFormed_of_asciiEscapes`** — escapes of ASCII bytes leave the encoding
  of every other character as it is.
-/

namespace ListQuery.Text.Percent

/-! ## Reading from the front -/

/-- `StandsFor code bytes` says which bytes the text stands for: an escape for
its byte, a plus sign for a space, and every other character for its own
encoding. A percent sign that begins no escape is such a character. -/
inductive StandsFor : List Char → List UInt8 → Prop where
  | nil : StandsFor [] []
  | escape {byte : UInt8} {high low : Char} {code : List Char} {bs : List UInt8}
      (hhigh : HexDigit (byte.toNat / 16) high) (hlow : HexDigit (byte.toNat % 16) low)
      (h : StandsFor code bs) : StandsFor ('%' :: high :: low :: code) (byte :: bs)
  | plus {code : List Char} {bs : List UInt8} (h : StandsFor code bs) :
      StandsFor ('+' :: code) (String.utf8EncodeChar ' ' ++ bs)
  | literal {c : Char} {code : List Char} {bs : List UInt8} (hplus : c ≠ '+')
      (hpercent : c = '%' → ¬ StartsWithByte code) (h : StandsFor code bs) :
      StandsFor (c :: code) (String.utf8EncodeChar c ++ bs)

theorem not_startsWithByte_spaced {text : List Char} (h : ¬ StartsWithByte text) :
    ¬ StartsWithByte (spaced text) :=
  fun hspaced => h (startsWithByte_of_spaced hspaced)

/-- A character that is no plus sign and begins no escape stands for itself,
also when `spaced` has taken plus signs for spaces behind it. -/
theorem bytes_spaced_literal {c : Char} {code : List Char} (hplus : c ≠ '+')
    (hpercent : c = '%' → ¬ StartsWithByte code) :
    bytes (spaced (c :: code)) = String.utf8EncodeChar c ++ bytes (spaced code) := by
  rw [spaced_cons, if_neg hplus]
  by_cases hc : c = '%'
  · subst hc
    exact bytes_percent (not_startsWithByte_spaced (hpercent rfl))
  · exact bytes_cons_of_ne hc _

/-- An escape stands for its byte, also when `spaced` has taken plus signs for
spaces behind it. -/
theorem bytes_spaced_escape {byte : UInt8} {high low : Char} (code : List Char)
    (hhigh : HexDigit (byte.toNat / 16) high) (hlow : HexDigit (byte.toNat % 16) low) :
    bytes (spaced ('%' :: high :: low :: code)) = byte :: bytes (spaced code) := by
  have hescapes : Escapes [byte] ['%', high, low] := .cons hhigh hlow .nil
  rw [show '%' :: high :: low :: code = ['%', high, low] ++ code from rfl,
    spaced_escapes_append hescapes, bytes_escapes_append hescapes]
  rfl

/-- The bytes that a text `StandsFor` are those that `bytes` reads once it is
`spaced`. Induction along the text, with one case for each of the four ways in
which it can begin. -/
theorem bytes_spaced_of_standsFor {code : List Char} {bs : List UInt8} (h : StandsFor code bs) :
    bytes (spaced code) = bs := by
  induction h with
  | nil => rfl
  | escape hhigh hlow _ ih => rw [bytes_spaced_escape _ hhigh hlow, ih]
  | plus _ ih => rw [spaced_cons, if_pos rfl, bytes_cons_of_ne (by decide), ih]
  | literal hplus hpercent _ ih => rw [bytes_spaced_literal hplus hpercent, ih]

theorem exists_byte {m n : Nat} (hm : m < 16) (hn : n < 16) :
    ∃ byte : UInt8, byte.toNat / 16 = m ∧ byte.toNat % 16 = n := by
  refine ⟨UInt8.ofNat (16 * m + n), ?_⟩
  rw [Utf8.toNat_ofNat (by omega)]
  omega

/-- Every text `StandsFor` some bytes: what is no escape stands for itself. By
recursion on the text, which an escape shortens by three characters. -/
theorem exists_standsFor (code : List Char) : ∃ bs, StandsFor code bs := by
  match code with
  | [] => exact ⟨[], .nil⟩
  | c :: rest =>
    by_cases hplus : c = '+'
    · subst hplus
      obtain ⟨bs, h⟩ := exists_standsFor rest
      exact ⟨_, .plus h⟩
    by_cases hescape : c = '%' ∧ StartsWithByte rest
    · obtain ⟨rfl, hbyte⟩ := hescape
      match rest, hbyte with
      | high :: low :: rest, ⟨⟨m, hhigh⟩, n, hlow⟩ =>
        obtain ⟨byte, rfl, rfl⟩ := exists_byte hhigh.1 hlow.1
        obtain ⟨bs, h⟩ := exists_standsFor rest
        exact ⟨_, .escape hhigh hlow h⟩
    · obtain ⟨bs, h⟩ := exists_standsFor rest
      exact ⟨_, .literal hplus (fun hc hbyte => hescape ⟨hc, hbyte⟩) h⟩
termination_by code.length

/-- `StandsFor` says what decoding reads: `spaced` first and `bytes` then give
the bytes that the text stands for, and there are no others. -/
theorem standsFor_iff {code : List Char} {bs : List UInt8} :
    StandsFor code bs ↔ bytes (spaced code) = bs := by
  constructor
  · exact bytes_spaced_of_standsFor
  · rintro rfl
    obtain ⟨bs, h⟩ := exists_standsFor code
    rwa [bytes_spaced_of_standsFor h]

/-! ## Escapes of ASCII bytes -/

/-- `AsciiEscapes text` says that every escape in the text is that of an ASCII
byte, whether or not decoding reads it as an escape. -/
def AsciiEscapes (text : List Char) : Prop :=
  ∀ front high low back m n, text = front ++ '%' :: high :: low :: back →
    HexDigit m high → HexDigit n low → 16 * m + n < 0x80

/-- A stretch of a text with `AsciiEscapes` has no other escapes than the
text. -/
theorem AsciiEscapes.of_infix {part text : List Char} (h : AsciiEscapes text)
    (hpart : part <:+: text) : AsciiEscapes part := by
  obtain ⟨before, behind, rfl⟩ := hpart
  rintro front high low back m n rfl
  exact h (before ++ front) high low (back ++ behind) m n (by simp)

theorem utf8EncodeChar_of_lt {byte : UInt8} (h : byte.toNat < 0x80) :
    ∃ c, String.utf8EncodeChar c = [byte] :=
  Utf8.exists_utf8EncodeChar (.one h) .nil

theorem wellFormed_append {c : Char} {bs : List UInt8} (h : Utf8.WellFormed bs) :
    Utf8.WellFormed (String.utf8EncodeChar c ++ bs) := by
  obtain ⟨text, rfl⟩ := h
  exact ⟨c :: text, (Utf8.encode_cons c text).symm⟩

/-- A text with `AsciiEscapes` stands for bytes that are `WellFormed`, since an
ASCII byte is a character of its own. Induction along the text. -/
theorem wellFormed_of_asciiEscapes {code : List Char} {bs : List UInt8} (h : StandsFor code bs)
    (hascii : AsciiEscapes code) : Utf8.WellFormed bs := by
  induction h with
  | nil => exact ⟨[], rfl⟩
  | @escape byte high low code bs hhigh hlow _ ih =>
    have hbyte := hascii [] high low code _ _ rfl hhigh hlow
    have hlt : byte.toNat < 0x80 := by omega
    obtain ⟨c, hc⟩ := utf8EncodeChar_of_lt hlt
    have hrest := ih (hascii.of_infix ⟨['%', high, low], [], by simp⟩)
    rw [← List.singleton_append, ← hc]
    exact wellFormed_append hrest
  | plus _ ih => exact wellFormed_append (ih (hascii.of_infix ⟨['+'], [], by simp⟩))
  | @literal c _ _ _ _ _ ih => exact wellFormed_append (ih (hascii.of_infix ⟨[c], [], by simp⟩))

end ListQuery.Text.Percent
