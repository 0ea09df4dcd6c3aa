import ListQuery.Proofs.Text.Utf8
import ListQuery.Text.Percent

/-!
# Reading percent-encodings back

A text has many encodings. `Encodes` relates a text to all of them, and decoding
is its inverse:

* **`HexDigit`**, **`Escapes`**, **`Encodes`** — what may be written for a
  digit, for bytes and for a text. Which characters must be escaped is a
  parameter, as a key and a value differ in it.
* **`not_mem_of_encodes`** — a character that must be escaped stands nowhere in
  an encoding, so nothing is cut there.
* **`bytes_spaced`** — an encoding stands for the UTF-8 bytes of its text, by
  induction on the encoding. The crux is a percent sign that stands for itself:
  the two characters behind it are no byte, and taking the plus signs for spaces
  does not turn them into one.
* **`decode_of_encodes`** — so decoding gives the text.
-/

namespace ListQuery.Text.Percent

/-! ## The encodings of a text -/

/-- `HexDigit n c` says that the character is the digit of a number below
sixteen; a letter may be written in either case. -/
def HexDigit (n : Nat) (c : Char) : Prop := n < 16 ∧ c.toLower = Nat.digitChar n

instance (n : Nat) (c : Char) : Decidable (HexDigit n c) :=
  inferInstanceAs (Decidable (n < 16 ∧ c.toLower = Nat.digitChar n))

/-- `StartsWithByte text` says that the text starts with two hexadecimal digits,
so that a percent sign in front of it begins an escape. -/
def StartsWithByte : List Char → Prop
  | high :: low :: _ => (∃ m, HexDigit m high) ∧ ∃ n, HexDigit n low
  | _ => False

/-- `Escapes bytes code` says that the code is made of the escapes of the bytes:
for each of them a percent sign and its two digits, letters in whatever case. -/
inductive Escapes : List UInt8 → List Char → Prop where
  | nil : Escapes [] []
  | cons {byte : UInt8} {bytes : List UInt8} {high low : Char} {code : List Char}
      (hhigh : HexDigit (byte.toNat / 16) high) (hlow : HexDigit (byte.toNat % 16) low)
      (h : Escapes bytes code) : Escapes (byte :: bytes) ('%' :: high :: low :: code)

/-- `Encodes reserved text code` says that the code is an encoding of the text.
Every character may be `escaped`, byte by byte, and one that is not reserved may
stand for itself (`literal`); a percent sign only where the encoding does not go
on with two hexadecimal digits. A space may also be written as a plus sign
(`plus`). -/
inductive Encodes (reserved : List Char) : List Char → List Char → Prop where
  | nil : Encodes reserved [] []
  | literal {c : Char} {text code : List Char} (hreserved : c ∉ reserved)
      (hpercent : c = '%' → ¬ StartsWithByte code) (h : Encodes reserved text code) :
      Encodes reserved (c :: text) (c :: code)
  | plus {text code : List Char} (h : Encodes reserved text code) :
      Encodes reserved (' ' :: text) ('+' :: code)
  | escaped {c : Char} {text escapes code : List Char}
      (hescapes : Escapes (String.utf8EncodeChar c) escapes) (h : Encodes reserved text code) :
      Encodes reserved (c :: text) (escapes ++ code)

/-! ## Digits -/

/-- On ASCII the digits of a base are those whose small letters `Nat.digitChar`
writes. Beyond ASCII there are none, by `digitValue?_lt` and `HexDigit.lt`. -/
theorem digitValue?_ofNat : ∀ k < 128, ∀ n < 16,
    digitValue? (Char.ofNat k) = some n ↔ (Char.ofNat k).toLower = Nat.digitChar n := by
  decide +kernel

theorem le_iff_toNat_le {a b : Char} : a ≤ b ↔ a.toNat ≤ b.toNat := by
  rw [Char.le_def, UInt32.le_iff_toNat_le]
  rfl

/-- What `digitValue?` reads is in ASCII, and its value is below sixteen. -/
theorem digitValue?_lt {c : Char} {n : Nat} (h : digitValue? c = some n) :
    n < 16 ∧ c.toNat < 128 := by
  simp only [digitValue?, le_iff_toNat_le, Char.reduceToNat] at h
  split at h
  · have := Option.some.inj h
    omega
  split at h
  · have := Option.some.inj h
    omega
  split at h
  · have := Option.some.inj h
    omega
  · simp at h

theorem toNat_digitChar_lt : ∀ n < 16, (Nat.digitChar n).toNat < 128 := by decide

/-- A `HexDigit` is in ASCII: its small letter is, and what changes in lower
case is a capital of ASCII. -/
theorem HexDigit.lt {n : Nat} {c : Char} (h : HexDigit n c) : c.toNat < 128 := by
  have hlower : c.toLower.toNat < 128 := by
    rw [h.2]
    exact toNat_digitChar_lt n h.1
  -- only a capital changes in lower case, and it is ASCII anyway
  by_cases hcapital : c.val ≥ 'A'.val ∧ c.val ≤ 'Z'.val
  · have hz : c.toNat ≤ 'Z'.toNat := hcapital.2
    simp only [Char.reduceToNat] at hz
    omega
  · have hsame : c.toLower = c := dif_neg hcapital
    rwa [hsame] at hlower

/-- `digitValue?` reads a `HexDigit` as its number, and nothing else as a
number. -/
theorem digitValue?_eq_some_iff {c : Char} {n : Nat} : digitValue? c = some n ↔ HexDigit n c := by
  constructor
  · intro h
    obtain ⟨hn, hc⟩ := digitValue?_lt h
    refine ⟨hn, ?_⟩
    have hiff := digitValue?_ofNat c.toNat hc n hn
    rw [Char.ofNat_toNat] at hiff
    exact hiff.mp h
  · intro h
    have hiff := digitValue?_ofNat c.toNat h.lt n h.1
    rw [Char.ofNat_toNat] at hiff
    exact hiff.mpr h.2

/-! ## Bytes -/

theorem not_hexDigit {c : Char} (h : digitValue? c = none) (n : Nat) : ¬ HexDigit n c := by
  rw [← digitValue?_eq_some_iff, h]
  nofun

theorem exists_hexDigit_iff {c : Char} : (∃ n, HexDigit n c) ↔ (digitValue? c).isSome := by
  simp only [← digitValue?_eq_some_iff, Option.isSome_iff_exists]

instance : DecidablePred StartsWithByte
  | high :: low :: _ =>
    decidable_of_iff ((digitValue? high).isSome ∧ (digitValue? low).isSome)
      (and_congr exists_hexDigit_iff exists_hexDigit_iff).symm
  | [_] => isFalse not_false
  | [] => isFalse not_false

/-- `byte?` reads the two digits of a byte as that byte: the first stands for
sixteens. -/
theorem byte?_of_hexDigit {byte : UInt8} {high low : Char} (hhigh : HexDigit (byte.toNat / 16) high)
    (hlow : HexDigit (byte.toNat % 16) low) : byte? high low = some byte := by
  have hsum : 16 * (byte.toNat / 16) + byte.toNat % 16 = byte.toNat := by omega
  simp only [byte?, digitValue?_eq_some_iff.mpr hhigh, digitValue?_eq_some_iff.mpr hlow,
    Option.bind_eq_bind, Option.bind_some, hsum, UInt8.ofNat_toNat]
  rfl

/-- `byte?` fails on two characters of which one is no digit. -/
theorem byte?_eq_none {high low : Char} {rest : List Char}
    (h : ¬ StartsWithByte (high :: low :: rest)) : byte? high low = none := by
  cases hhigh : digitValue? high with
  | none => simp [byte?, hhigh]
  | some m =>
    cases hlow : digitValue? low with
    | none => simp [byte?, hhigh, hlow]
    | some n =>
      exact absurd ⟨⟨m, digitValue?_eq_some_iff.mp hhigh⟩, n, digitValue?_eq_some_iff.mp hlow⟩ h

theorem bytes_cons_of_ne {c : Char} (h : c ≠ '%') (rest : List Char) :
    bytes (c :: rest) = String.utf8EncodeChar c ++ bytes rest := by
  rw [bytes]
  exact fun _ _ _ hc _ => h hc

/-- For `bytes` a percent sign without two digits behind it stands for itself,
also at the end of the text or with one character behind it. -/
theorem bytes_percent {rest : List Char} (h : ¬ StartsWithByte rest) :
    bytes ('%' :: rest) = String.utf8EncodeChar '%' ++ bytes rest := by
  match rest with
  | [] => rfl
  | [_] => rw [bytes]; simp
  | high :: low :: rest => rw [bytes, byte?_eq_none h]

/-- `bytes` reads `Escapes` as the bytes that they are of, whatever is behind.
Induction on the escapes. -/
theorem bytes_escapes_append {bs : List UInt8} {escapes : List Char} (h : Escapes bs escapes)
    (rest : List Char) : bytes (escapes ++ rest) = bs ++ bytes rest := by
  induction h with
  | nil => rfl
  | cons hhigh hlow _ ih =>
    rw [List.cons_append, List.cons_append, List.cons_append, bytes,
      byte?_of_hexDigit hhigh hlow]
    simp [ih]

/-! ## Plus signs -/

theorem spaced_cons (c : Char) (text : List Char) :
    spaced (c :: text) = (if c = '+' then ' ' else c) :: spaced text := rfl

/-- `Escapes` have no plus sign in them, so `spaced` leaves them alone.
Induction on the escapes. -/
theorem spaced_escapes_append {bs : List UInt8} {escapes : List Char} (h : Escapes bs escapes)
    (rest : List Char) : spaced (escapes ++ rest) = escapes ++ spaced rest := by
  -- a digit is no plus sign
  have hplus : ∀ {c : Char} {n : Nat}, HexDigit n c → (if c = '+' then ' ' else c) = c := by
    intro c n hc
    exact if_neg fun heq => not_hexDigit (by decide) n (heq ▸ hc)
  induction h with
  | nil => rfl
  | cons hhigh hlow _ ih =>
    simp only [List.cons_append, spaced_cons, hplus hhigh, hplus hlow, ih]
    rfl

/-- `spaced` makes no byte of two characters that are none: neither a plus sign
nor a space is a digit. -/
theorem startsWithByte_of_spaced {text : List Char} (h : StartsWithByte (spaced text)) :
    StartsWithByte text := by
  -- a space that was a plus sign is no digit, so digits were digits before
  have hspace : ∀ {c : Char} {n : Nat}, HexDigit n (if c = '+' then ' ' else c) → HexDigit n c := by
    intro c n hc
    split at hc
    · exact absurd hc (not_hexDigit (by decide) n)
    · exact hc
  match text with
  | [] => exact h
  | [_] => exact h
  | high :: low :: text =>
    obtain ⟨⟨m, hhigh⟩, n, hlow⟩ := h
    exact ⟨⟨m, hspace hhigh⟩, n, hspace hlow⟩

/-! ## The round trip -/

/-- A text in which nothing has to be escaped `Encodes` itself. Induction on the
text; what has to be escaped includes the percent sign here. -/
theorem encodes_self {reserved text : List Char} (h : ∀ c ∈ text, c ∉ '%' :: reserved) :
    Encodes reserved text text := by
  induction text with
  | nil => exact .nil
  | cons c rest ih =>
    obtain ⟨hc, hrest⟩ := List.forall_mem_cons.mp h
    rw [List.mem_cons, not_or] at hc
    exact .literal hc.2 (fun heq => absurd heq hc.1) (ih hrest)

/-- A `reserved` character stands nowhere in an encoding, unless escapes are
made of it. So an encoding is never cut at such a character. Induction on the
encoding. -/
theorem not_mem_of_encodes {reserved text code : List Char} (h : Encodes reserved text code)
    {c : Char} (hc : c ∈ reserved) (hpercent : c ≠ '%') (hplus : c ≠ '+')
    (hdigit : digitValue? c = none) : c ∉ code := by
  -- escapes are made of percent signs and digits, and the character is neither
  have hescapes : ∀ {bs : List UInt8} {escapes : List Char}, Escapes bs escapes → c ∉ escapes := by
    intro bs escapes h
    induction h with
    | nil => simp
    | @cons byte _ high low _ hhigh hlow _ ih =>
      have hne : ∀ {d : Char} {n : Nat}, HexDigit n d → c ≠ d := by
        rintro d n hd rfl
        exact not_hexDigit hdigit n hd
      simp only [List.mem_cons, not_or]
      exact ⟨hpercent, hne hhigh, hne hlow, ih⟩
  induction h with
  | nil => simp
  | literal hreserved _ _ ih =>
    rw [List.mem_cons, not_or]
    exact ⟨fun heq => hreserved (heq ▸ hc), ih⟩
  | plus _ ih =>
    rw [List.mem_cons, not_or]
    exact ⟨hplus, ih⟩
  | escaped hesc _ ih =>
    rw [List.mem_append, not_or]
    exact ⟨hescapes hesc, ih⟩

/-- An encoding stands for the UTF-8 bytes of its text. Induction on the
encoding: every constructor of `Encodes` adds the bytes of one character. -/
theorem bytes_spaced {reserved text code : List Char} (hplus : '+' ∈ reserved)
    (h : Encodes reserved text code) : bytes (spaced code) = Utf8.encode text := by
  induction h with
  | nil => rfl
  | @literal c text code hreserved hpercent _ ih =>
    -- a plus sign is never literal, so spacing leaves the character alone
    have hc : c ≠ '+' := fun heq => hreserved (heq ▸ hplus)
    rw [spaced_cons, if_neg hc, Utf8.encode_cons, ← ih]
    by_cases hself : c = '%'
    · subst hself
      -- the text behind the sign has to be spaced before it can be asked about its first digits
      exact bytes_percent fun hbyte => hpercent rfl (startsWithByte_of_spaced hbyte)
    · exact bytes_cons_of_ne hself _
  | plus _ ih =>
    rw [spaced_cons, if_pos rfl, Utf8.encode_cons, ← ih]
    exact bytes_cons_of_ne (by decide) _
  | escaped hescapes _ ih =>
    rw [spaced_escapes_append hescapes, bytes_escapes_append hescapes, ih, Utf8.encode_cons]

/-- **Every encoding of a text is decoded to it** by `decode`, if plus signs in
the text are escaped. -/
theorem decode_of_encodes {reserved text code : List Char} (hplus : '+' ∈ reserved)
    (h : Encodes reserved text code) : decode code = .ok text := by
  rw [decode, bytes_spaced hplus h, Utf8.decode_encode]

end ListQuery.Text.Percent
