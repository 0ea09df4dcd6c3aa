import Mathlib.Data.List.Forall2
import ListQuery.Number.Numeral
import ListQuery.Proofs.Text.Lowercase
import ListQuery.Proofs.Text.Percent
import ListQuery.Text.Space

/-!
# The grammar of numerals

The texts of a numeral, said without reading any of them, and that exactly these
are read.

* **`Sign`**, **`Mantissa`**, **`Exponent`**, **`Spells`** — what may be written
  for each part of a numeral, and for all of it.
* **`decimal?_eq_some_iff`** — digits end where something else starts, so a
  decimal numeral falls apart in one way only.
* **`signed?_eq`** — what doubles are read from elsewhere, and the characters
  that are left of it, come to decimal numerals and the one word `Infinity`.
* **`read?_eq_signed?`** — nothing that starts like a numeral in another base is
  a decimal one.
* **`read?_eq_some_iff`** — the headline: reading is the inverse of spelling.
-/

namespace ListQuery.Number

open Text.Percent (HexDigit)

/-- The letters that announce a base. -/
def Radix.letters : Radix → List Char
  | .hexadecimal => ['x', 'X']
  | .octal => ['o', 'O']
  | .binary => ['b', 'B']

/-- `ofLetter?` announces the base that has the letter among its `letters`, and
no other one. -/
theorem Radix.ofLetter?_eq_some_iff {letter : Char} {base : Radix} :
    ofLetter? letter = some base ↔ letter ∈ base.letters := by
  unfold ofLetter?
  split
  · next h => rcases h with rfl | rfl <;> cases base <;> decide
  split
  · next h => rcases h with rfl | rfl <;> cases base <;> decide
  split
  · next h => rcases h with rfl | rfl <;> cases base <;> decide
  · next hx ho hb => cases base <;> simp_all [letters]

namespace Numeral

/-! ## What spells a numeral -/

/-- `Sign negative text` says what spells a sign: nothing or a plus, or a minus
if the number is negative. -/
inductive Sign : Bool → List Char → Prop where
  | absent : Sign false []
  | plus : Sign false ['+']
  | minus : Sign true ['-']

/-- `Digits text` says that the text is made of decimal digits. It may be
empty. -/
def Digits (text : List Char) : Prop := ∀ c ∈ text, c.isDigit = true

/-- `Mantissa whole fraction text` says what spells the digits in front of the
point and those behind it. The point may be left out if there are none behind
it, and there is a digit somewhere. -/
inductive Mantissa : List Char → List Char → List Char → Prop where
  | whole {whole : List Char} (hwhole : Digits whole) (hne : whole ≠ []) : Mantissa whole [] whole
  | point {whole fraction : List Char} (hwhole : Digits whole) (hfraction : Digits fraction)
      (hne : whole ≠ [] ∨ fraction ≠ []) : Mantissa whole fraction (whole ++ '.' :: fraction)

/-- What spells an exponent: nothing if it is zero, or `e` in either case and
the number, with an optional sign of its own. -/
inductive Exponent : Int → List Char → Prop where
  | absent : Exponent 0 []
  | present {letter : Char} {negative : Bool} {sign digits : List Char}
      (hletter : letter = 'e' ∨ letter = 'E') (hsign : Sign negative sign) (hdigits : Digits digits)
      (hne : digits ≠ []) :
      Exponent (if negative then -(Nat.ofDigitChars 10 digits 0 : Int)
        else Nat.ofDigitChars 10 digits 0) (letter :: (sign ++ digits))

/-- `numeral.Spells text` says what spells a numeral. `infinity` and `decimal`
have an optional sign, and `radix` has none. No rule is for `nan`, which no text
spells. -/
inductive Spells : Numeral → List Char → Prop where
  | infinity {negative : Bool} {sign : List Char} (hsign : Sign negative sign) :
      Spells (.infinity negative) (sign ++ "Infinity".toList)
  | decimal {negative : Bool} {sign whole fraction mantissa tail : List Char} {exponent : Int}
      (hsign : Sign negative sign) (hmantissa : Mantissa whole fraction mantissa)
      (hexponent : Exponent exponent tail) :
      Spells (.decimal negative
        ⟨Nat.ofDigitChars 10 (whole ++ fraction) 0, exponent - fraction.length⟩)
        (sign ++ (mantissa ++ tail))
  | radix {base : Radix} {letter : Char} {values : List Nat} {digits : List Char}
      (hletter : letter ∈ base.letters) (hne : digits ≠ [])
      (hdigits : List.Forall₂ (fun n c => HexDigit n c ∧ n < base.size) values digits) :
      Spells (.radix base values) ('0' :: letter :: digits)

/-! ## Signs -/

/-- A text is a sign, or none, and what `takeSign` leaves of it. -/
theorem exists_sign (text : List Char) :
    ∃ sign, Sign (takeSign text).1 sign ∧ text = sign ++ (takeSign text).2 := by
  rw [takeSign.eq_def]
  split
  · exact ⟨['+'], .plus, rfl⟩
  · exact ⟨['-'], .minus, rfl⟩
  · exact ⟨[], .absent, rfl⟩

/-- `Unsigned text` says that the text has no sign in front, so that `takeSign`
takes nothing off. -/
def Unsigned (text : List Char) : Prop := text.head? ≠ some '+' ∧ text.head? ≠ some '-'

/-- `takeSign` takes off the sign that was put in front of a text without one.
Of two signs it takes off the first only, which is why the text must have
none. -/
theorem takeSign_append {negative : Bool} {sign text : List Char} (hsign : Sign negative sign)
    (h : Unsigned text) : takeSign (sign ++ text) = (negative, text) := by
  cases hsign with
  | plus => rfl
  | minus => rfl
  | absent =>
    rw [List.nil_append, takeSign.eq_def]
    split
    · exact absurd rfl h.1
    · exact absurd rfl h.2
    · rfl

/-- A text that starts with a digit is `Unsigned`. -/
theorem unsigned_of_head_isDigit {c : Char} (h : c.isDigit = true) (rest : List Char) :
    Unsigned (c :: rest) := by
  constructor
  · intro heq
    rw [Option.some.inj heq] at h
    exact absurd h (by decide)
  · intro heq
    rw [Option.some.inj heq] at h
    exact absurd h (by decide)

/-! ## Digits -/

/-- `Digits` end where something else starts. With this every stretch of digits
in a numeral is found again. -/
theorem span_digits {digits rest : List Char} (hdigits : Digits digits)
    (hrest : ∀ c, rest.head? = some c → c.isDigit = false) :
    (digits ++ rest).takeWhile Char.isDigit = digits ∧
      (digits ++ rest).dropWhile Char.isDigit = rest := by
  rw [List.takeWhile_append_of_pos hdigits, List.dropWhile_append_of_pos hdigits]
  refine ⟨?_, Text.dropWhile_eq_self_of_head hrest⟩
  cases rest with
  | nil => simp
  | cons c rest => simp [hrest c rfl]

theorem digits_takeWhile (text : List Char) : Digits (text.takeWhile Char.isDigit) :=
  fun _ hc => List.all_eq_true.mp List.all_takeWhile _ hc

/-- `natural?` reads one digit or more as their number, and nothing else. -/
theorem natural?_eq_some_iff {text : List Char} {n : Nat} :
    natural? text = some n ↔ (Digits text ∧ text ≠ []) ∧ n = Nat.ofDigitChars 10 text 0 := by
  rw [natural?]
  split
  · next h =>
    refine iff_of_false (by nofun) fun ⟨⟨hdigits, hne⟩, _⟩ => ?_
    have hall : text.all Char.isDigit = true := List.all_eq_true.mpr hdigits
    simp [hall, hne] at h
  · next h =>
    have hdigits : Digits text ∧ text ≠ [] := by
      simp at h
      exact ⟨fun c hc => h.2 c hc, h.1⟩
    rw [Option.some_inj]
    exact ⟨fun heq => ⟨hdigits, heq.symm⟩, fun heq => heq.2.symm⟩

/-- `Text.digitValues?` reads digits of a base as their values, one by one.
Induction on the digits. -/
theorem digitValues?_eq_some_iff {base : Nat} {digits : List Char} {values : List Nat} :
    Text.digitValues? base digits = some values ↔
      List.Forall₂ (fun n c => HexDigit n c ∧ n < base) values digits := by
  have hdigit : ∀ {c : Char} {n : Nat},
      (Text.digitValue? c).filter (· < base) = some n ↔ HexDigit n c ∧ n < base := by
    intro c n
    rw [Option.filter_eq_some_iff, Text.Percent.digitValue?_eq_some_iff, decide_eq_true_iff]
  rw [Text.digitValues?]
  induction digits generalizing values with
  | nil => simp [eq_comm]
  | cons c rest ih =>
    rw [List.mapM_cons, List.forall₂_cons_right_iff]
    simp only [Option.bind_eq_bind, Option.bind_eq_some_iff, Option.pure_def, Option.some_inj,
      hdigit, ih]
    constructor
    · rintro ⟨n, hn, values, hvalues, rfl⟩
      exact ⟨n, values, hn, hvalues, rfl⟩
    · rintro ⟨n, values, hn, hvalues, rfl⟩
      exact ⟨n, hn, values, hvalues, rfl⟩

/-! ## Decimal numerals -/

theorem exponent?_cons {letter : Char} (h : letter = 'e' ∨ letter = 'E') (rest : List Char) :
    exponent? (letter :: rest) = (natural? (takeSign rest).2).map
      fun n : Nat => if (takeSign rest).1 then -(n : Int) else n := by
  rw [exponent?, if_pos h]
  cases hn : natural? (takeSign rest).2 <;> simp [hn]

/-- `exponent?` reads exactly what spells an `Exponent`. -/
theorem exponent?_eq_some_iff {text : List Char} {exponent : Int} :
    exponent? text = some exponent ↔ Exponent exponent text := by
  constructor
  · intro h
    cases text with
    | nil =>
      obtain rfl : 0 = exponent := Option.some.inj h
      exact .absent
    | cons letter rest =>
      by_cases hletter : letter = 'e' ∨ letter = 'E'
      · rw [exponent?_cons hletter] at h
        obtain ⟨n, hn, rfl⟩ := Option.map_eq_some_iff.mp h
        obtain ⟨⟨hdigits, hne⟩, rfl⟩ := natural?_eq_some_iff.mp hn
        obtain ⟨sign, hsign, hrest⟩ := exists_sign rest
        have hpresent := Exponent.present hletter hsign hdigits hne
        rwa [← hrest] at hpresent
      · rw [exponent?, if_neg hletter] at h
        cases h
  · intro h
    cases h with
    | absent => rfl
    | @present letter negative sign digits hletter hsign hdigits hne =>
      obtain ⟨c, back, rfl⟩ := List.exists_cons_of_ne_nil hne
      have hc := unsigned_of_head_isDigit (hdigits c List.mem_cons_self) back
      rw [exponent?_cons hletter, takeSign_append hsign hc,
        natural?_eq_some_iff.mpr ⟨⟨hdigits, hne⟩, rfl⟩]
      rfl

/-- An `Exponent` does not start with a digit or a point, so the mantissa ends
where it was put together with the exponent. -/
theorem head_of_exponent {exponent : Int} {tail : List Char} (h : Exponent exponent tail) {c : Char}
    (hc : tail.head? = some c) : c.isDigit = false ∧ c ≠ '.' := by
  cases h with
  | absent => cases hc
  | present hletter =>
    obtain rfl := Option.some.inj hc
    rcases hletter with rfl | rfl <;> decide

/-- `decimal?` cuts a numeral with a point at the point, and where the digits
behind it end. What spells its parts is not asked here. -/
theorem decimal?_point {whole fraction tail : List Char} (hwhole : Digits whole)
    (hfraction : Digits fraction) (htail : ∀ c, tail.head? = some c → c.isDigit = false) :
    decimal? (whole ++ '.' :: (fraction ++ tail)) =
      if whole.isEmpty && fraction.isEmpty then none
      else (exponent? tail).map fun exponent =>
        ⟨Nat.ofDigitChars 10 (whole ++ fraction) 0, exponent - fraction.length⟩ := by
  have hpoint : ∀ c, ('.' :: (fraction ++ tail)).head? = some c → c.isDigit = false := by
    intro c hc
    rw [← Option.some.inj hc]
    decide
  have hspan := span_digits hwhole hpoint
  have hspan' := span_digits hfraction htail
  rw [decimal?, hspan.1, hspan.2]
  simp only [hspan'.1, hspan'.2]

/-- `decimal?` cuts a numeral without a point where its digits end. -/
theorem decimal?_whole {whole rest : List Char} (hwhole : Digits whole)
    (hrest : ∀ c, rest.head? = some c → c.isDigit = false ∧ c ≠ '.') :
    decimal? (whole ++ rest) =
      if whole.isEmpty then none
      else (exponent? rest).map fun exponent => ⟨Nat.ofDigitChars 10 whole 0, exponent⟩ := by
  have hspan := span_digits hwhole fun c hc => (hrest c hc).1
  rw [decimal?, hspan.1, hspan.2]
  cases rest with
  | nil => simp
  | cons c rest =>
    have hc := (hrest c rfl).2
    simp [hc]

/-- Every text is a stretch of `Digits` and what starts with no digit. This is
how a text that is read is taken apart. -/
theorem exists_digits (text : List Char) :
    ∃ digits rest, text = digits ++ rest ∧ Digits digits ∧
      ∀ c, rest.head? = some c → c.isDigit = false := by
  refine ⟨_, _, (List.takeWhile_append_dropWhile (p := Char.isDigit)).symm,
    digits_takeWhile text, ?_⟩
  intro c hc
  have hnot := List.head?_dropWhile_not Char.isDigit text
  simpa [hc] using hnot

/-- `decimal?` reads exactly what spells a `Mantissa` and an `Exponent` behind
it, since a text falls apart into these in one way only. -/
theorem decimal?_eq_some_iff {text : List Char} {d : Decimal} :
    decimal? text = some d ↔
      ∃ whole fraction mantissa tail exponent, Mantissa whole fraction mantissa ∧
        Exponent exponent tail ∧ text = mantissa ++ tail ∧
        d = ⟨Nat.ofDigitChars 10 (whole ++ fraction) 0, exponent - fraction.length⟩ := by
  constructor
  · intro h
    obtain ⟨whole, rest, rfl, hwhole, hrest⟩ := exists_digits text
    -- the digits in front end at a point or else at the exponent
    by_cases hpoint : rest.head? = some '.'
    · obtain ⟨behind, rfl⟩ := List.head?_eq_some_iff.mp hpoint
      obtain ⟨fraction, tail, rfl, hfraction, htail⟩ := exists_digits behind
      rw [decimal?_point hwhole hfraction htail] at h
      split at h
      · cases h
      · next hne =>
        obtain ⟨exponent, hexponent, rfl⟩ := Option.map_eq_some_iff.mp h
        have hany : whole ≠ [] ∨ fraction ≠ [] := by
          rw [← not_and_or]
          simpa using hne
        exact ⟨whole, fraction, _, tail, exponent, .point hwhole hfraction hany,
          exponent?_eq_some_iff.mp hexponent, by simp, rfl⟩
    · have hrest' : ∀ c, rest.head? = some c → c.isDigit = false ∧ c ≠ '.' :=
        fun c hc => ⟨hrest c hc, fun heq => hpoint (heq ▸ hc)⟩
      rw [decimal?_whole hwhole hrest'] at h
      split at h
      · cases h
      · next hne =>
        obtain ⟨exponent, hexponent, rfl⟩ := Option.map_eq_some_iff.mp h
        exact ⟨whole, [], whole, rest, exponent, .whole hwhole (by simpa using hne),
          exponent?_eq_some_iff.mp hexponent, rfl, by simp⟩
  · rintro ⟨whole, fraction, mantissa, tail, exponent, hmantissa, hexponent, rfl, rfl⟩
    have htail := fun c (hc : tail.head? = some c) => head_of_exponent hexponent hc
    cases hmantissa with
    | whole hwhole hne =>
      rw [decimal?_whole hwhole htail, if_neg (by simpa using hne),
        exponent?_eq_some_iff.mpr hexponent]
      simp
    | point hwhole hfraction hne =>
      rw [List.append_assoc, List.cons_append,
        decimal?_point hwhole hfraction fun c hc => (htail c hc).1,
        if_neg (by simpa [imp_iff_not_or] using hne), exponent?_eq_some_iff.mpr hexponent]
      rfl

/-! ## The characters of decimal numerals -/

theorem isDecimalChar_of_isDigit {c : Char} (h : c.isDigit = true) : isDecimalChar c = true := by
  rw [isDecimalChar, h, Bool.true_or]

theorem isDecimalChar_of_mem_sign {negative : Bool} {sign : List Char} (h : Sign negative sign) :
    ∀ c ∈ sign, isDecimalChar c = true := by
  cases h <;> simp [isDecimalChar]

/-- A decimal numeral has no other characters than `isDecimalChar` knows. -/
theorem isDecimalChar_of_mem {negative : Bool} {sign whole fraction mantissa tail : List Char}
    {exponent : Int} (hsign : Sign negative sign) (hmantissa : Mantissa whole fraction mantissa)
    (hexponent : Exponent exponent tail) :
    ∀ c ∈ sign ++ (mantissa ++ tail), isDecimalChar c = true := by
  have hmem : ∀ c ∈ mantissa, isDecimalChar c = true := by
    intro c hc
    cases hmantissa with
    | whole hwhole => exact isDecimalChar_of_isDigit (hwhole c hc)
    | point hwhole hfraction =>
      rcases List.mem_append.mp hc with hc | hc
      · exact isDecimalChar_of_isDigit (hwhole c hc)
      · rcases List.mem_cons.mp hc with rfl | hc
        · rfl
        · exact isDecimalChar_of_isDigit (hfraction c hc)
  have htail : ∀ c ∈ tail, isDecimalChar c = true := by
    intro c hc
    cases hexponent with
    | absent => cases hc
    | present hletter hsign hdigits =>
      rcases List.mem_cons.mp hc with rfl | hc
      · rcases hletter with rfl | rfl <;> rfl
      · rcases List.mem_append.mp hc with hc | hc
        · exact isDecimalChar_of_mem_sign hsign c hc
        · exact isDecimalChar_of_isDigit (hdigits c hc)
  intro c hc
  rcases List.mem_append.mp hc with hc | hc
  · exact isDecimalChar_of_mem_sign hsign c hc
  · exact (List.mem_append.mp hc).elim (hmem c) (htail c)

/-- `isDecimalChar` holds of the small letter of a character that it holds of.
Beyond ASCII there is nothing to show, and below it there are 128 characters. -/
theorem isDecimalChar_toLower {c : Char} (h : isDecimalChar c = true) :
    isDecimalChar c.toLower = true := by
  by_cases hc : c.toNat < 0x80
  · have hall : ∀ code < 0x80, isDecimalChar (Char.ofNat code) = true →
        isDecimalChar (Char.ofNat code).toLower = true := by
      decide +kernel
    revert h
    exact Text.of_ascii hc hall
  · rwa [Text.toLower_of_le (Nat.not_lt.mp hc)]

/-- A text of `isDecimalChar` alone is in no letter case a word that has any
other character. The words for infinity and for no number all have one. -/
theorem map_toLower_ne {text word : List Char} (h : text.all isDecimalChar = true)
    (hword : word.all isDecimalChar = false) : text.map Char.toLower ≠ word := by
  rintro rfl
  have hall : (text.map Char.toLower).all isDecimalChar = true := by
    rw [List.all_map, List.all_eq_true]
    exact fun c hc => isDecimalChar_toLower (List.all_eq_true.mp h c hc)
  rw [hall] at hword
  cases hword

/-- What `decimal?` reads passes `isDecimalChar`, so the test takes no decimal
numeral away. -/
theorem all_isDecimalChar_of_decimal? {text : List Char} {d : Decimal}
    (h : decimal? text = some d) : text.all isDecimalChar = true := by
  obtain ⟨whole, fraction, mantissa, tail, exponent, hmantissa, hexponent, rfl, -⟩ :=
    decimal?_eq_some_iff.mp h
  exact List.all_eq_true.mpr (isDecimalChar_of_mem .absent hmantissa hexponent)

/-- **What the characters leave of the doubles.** Behind the characters of
decimal numerals, the many words for infinity and for no number are gone:
`signed?` reads a decimal numeral or the one word `Infinity`. This is the one
place where the two parts of `signed?` meet. -/
theorem signed?_eq (text : List Char) :
    signed? text =
      if (takeSign text).2 = "Infinity".toList then some (.infinity (takeSign text).1)
      else (decimal? (takeSign text).2).map (.decimal (takeSign text).1) := by
  unfold signed? double?
  generalize takeSign text = taken
  obtain ⟨negative, unsigned⟩ := taken
  dsimp only
  split
  · rfl
  split
  · next hall =>
    rw [if_neg (map_toLower_ne hall (by decide)), if_neg]
    exact not_or.mpr ⟨map_toLower_ne hall (by decide), map_toLower_ne hall (by decide)⟩
  · next hall =>
    cases hdecimal : decimal? unsigned with
    | none => rfl
    | some d => exact absurd (all_isDecimalChar_of_decimal? hdecimal) hall

/-! ## All numerals -/

theorem unsigned_of_mantissa {whole fraction mantissa : List Char}
    (h : Mantissa whole fraction mantissa) (tail : List Char) : Unsigned (mantissa ++ tail) := by
  cases h with
  | whole hwhole hne =>
    obtain ⟨c, rest, rfl⟩ := List.exists_cons_of_ne_nil hne
    exact unsigned_of_head_isDigit (hwhole c List.mem_cons_self) _
  | point hwhole =>
    cases whole with
    | nil => exact ⟨by simp, by simp⟩
    | cons c rest => exact unsigned_of_head_isDigit (hwhole c List.mem_cons_self) _

/-- What stands behind a sign is the word `Infinity` or a decimal numeral. -/
theorem signed?_append {negative : Bool} {sign text : List Char} (hsign : Sign negative sign)
    (h : Unsigned text) :
    signed? (sign ++ text) =
      if text = "Infinity".toList then some (.infinity negative)
      else (decimal? text).map (.decimal negative) := by
  rw [signed?_eq, takeSign_append hsign h]

/-- What is read as a numeral in base ten spells it. The sign is put back, and
the rest is taken apart by `decimal?_eq_some_iff`. -/
theorem spells_of_signed? {text : List Char} {numeral : Numeral} (h : signed? text = some numeral) :
    numeral.Spells text := by
  obtain ⟨sign, hsign, htext⟩ := exists_sign text
  rw [signed?_eq] at h
  generalize takeSign text = taken at h hsign htext
  subst htext
  split at h
  · next hword =>
    rw [← Option.some.inj h, hword]
    exact .infinity hsign
  · obtain ⟨d, hd, rfl⟩ := Option.map_eq_some_iff.mp h
    obtain ⟨whole, fraction, mantissa, tail, exponent, hmantissa, hexponent, htext, rfl⟩ :=
      decimal?_eq_some_iff.mp hd
    rw [htext]
    exact .decimal hsign hmantissa hexponent

/-- `read?` is `signed?` on a text without any letter that announces a base,
also if it starts with a zero. -/
theorem read?_eq_signed? {text : List Char}
    (h : ∀ letter ∈ text, Radix.ofLetter? letter = none) : read? text = signed? text := by
  unfold read?
  split
  · next letter digits => rw [h letter (by simp)]
  · rfl

/-- `ofLetter?` takes no character of a decimal numeral for that of a base. So a
decimal numeral that starts with a zero is not taken for one in another base. -/
theorem ofLetter?_of_isDecimalChar {c : Char} (h : isDecimalChar c = true) :
    Radix.ofLetter? c = none := by
  rw [Option.eq_none_iff_forall_ne_some]
  intro base hbase
  have hletters : (base.letters.all fun c => !isDecimalChar c) = true := by
    cases base <;> decide
  -- so a letter that announces a base is no such character
  have hc := List.all_eq_true.mp hletters c (Radix.ofLetter?_eq_some_iff.mp hbase)
  rw [h] at hc
  exact absurd hc (by decide)

theorem ofLetter?_of_mem_infinity {negative : Bool} {sign : List Char}
    (hsign : Sign negative sign) :
    ∀ c ∈ sign ++ "Infinity".toList, Radix.ofLetter? c = none := by
  have hword : ("Infinity".toList.all fun c => (Radix.ofLetter? c).isNone) = true := by decide
  intro c hc
  rcases List.mem_append.mp hc with hc | hc
  · exact ofLetter?_of_isDecimalChar (isDecimalChar_of_mem_sign hsign c hc)
  · exact Option.isNone_iff_eq_none.mp (List.all_eq_true.mp hword c hc)

/-- **Reading is the inverse of spelling**: `read?` gives the numeral that a
text `Spells`, and every text that spells a numeral is read. -/
theorem read?_eq_some_iff {text : List Char} {numeral : Numeral} :
    read? text = some numeral ↔ numeral.Spells text := by
  constructor
  · intro h
    rw [read?.eq_def] at h
    split at h
    · next letter digits =>
      split at h
      · -- a zero and the letter of a base
        next base hbase =>
        rw [radixDigits?] at h
        split at h
        · cases h
        · next hne =>
          obtain ⟨values, hvalues, rfl⟩ := Option.map_eq_some_iff.mp h
          exact .radix (Radix.ofLetter?_eq_some_iff.mp hbase) (by simpa using hne)
            (digitValues?_eq_some_iff.mp hvalues)
      · exact spells_of_signed? h
    · exact spells_of_signed? h
  · intro h
    cases h with
    | infinity hsign =>
      rw [read?_eq_signed? (ofLetter?_of_mem_infinity hsign),
        signed?_append hsign ⟨by decide, by decide⟩, if_pos rfl]
    | decimal hsign hmantissa hexponent =>
      have hplain := isDecimalChar_of_mem hsign hmantissa hexponent
      rw [read?_eq_signed? fun c hc => ofLetter?_of_isDecimalChar (hplain c hc),
        signed?_append hsign (unsigned_of_mantissa hmantissa _), if_neg,
        decimal?_eq_some_iff.mpr ⟨_, _, _, _, _, hmantissa, hexponent, rfl, rfl⟩]
      · rfl
      · -- the word has letters that no decimal numeral has
        intro heq
        have hi := hplain 'I' (List.mem_append_right _ (by rw [heq]; decide))
        exact absurd hi (by decide)
    | radix hletter hne hdigits =>
      rw [read?, Radix.ofLetter?_eq_some_iff.mpr hletter]
      simp only [radixDigits?, digitValues?_eq_some_iff.mpr hdigits]
      simp [hne]

/-- What is not a number is read from no text: `signed?` takes no word for
it. -/
theorem read?_ne_nan (text : List Char) : read? text ≠ some .nan :=
  fun h => nomatch read?_eq_some_iff.mp h

theorem read?_eq_none_iff {text : List Char} :
    read? text = none ↔ ¬ ∃ numeral : Numeral, numeral.Spells text := by
  simp only [← read?_eq_some_iff, ← Option.isSome_iff_exists, Option.not_isSome_iff_eq_none]

end Numeral

end ListQuery.Number
