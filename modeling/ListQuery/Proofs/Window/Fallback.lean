import ListQuery.Proofs.Number.Value
import ListQuery.Proofs.Text.Lowercase
import ListQuery.Proofs.Window

/-!
# Where the default is used

A page or a limit falls back to its default where the query gives no number for
it, and the ways in which it can give none are few.

* **`Foreign`**, **`not_spells_of_foreign`** — what looks like a number
  elsewhere is none here, by the characters that a numeral is made of.
* **`Useless`** — the ways in which what is given for a page or a limit gives no
  number.
* **`used_eq_default_iff`** — the crux: there are no other ways, since a number
  that is used is never taken from the default.
* **`ofParams_fallback`** — the headline, for windows.
-/

namespace ListQuery

namespace Number.Numeral

open Text.Percent (HexDigit)

/-! ## What is no numeral -/

/-- The characters of numerals in any base. Letters and digits are those of
ASCII alone, as `Char.isAlphanum` knows no others. -/
def isNumeralChar (c : Char) : Bool := c.isAlphanum || ['.', '+', '-'].contains c

/-- `Foreign text` says that the text looks like a number elsewhere, but is none
here: it has a separator or a digit of another script in it (`char`), is a name
of infinity or of what is no number (`word`), or has a sign in front of a base
(`radix`). -/
inductive Foreign : List Char → Prop where
  | char {text : List Char} {c : Char} (hmem : c ∈ text) (hc : isNumeralChar c = false) :
      Foreign text
  | word {negative : Bool} {sign word : List Char} (hsign : Sign negative sign)
      (hword : word.map Char.toLower ∈ ["inf", "nan", "infinity"].map String.toList)
      (hne : word ≠ "Infinity".toList) : Foreign (sign ++ word)
  | radix {negative : Bool} {sign : List Char} {base : Radix} {letter : Char} {digits : List Char}
      (hsign : Sign negative sign) (hne : sign ≠ []) (hletter : letter ∈ base.letters) :
      Foreign (sign ++ '0' :: letter :: digits)

theorem isNumeralChar_of_isDecimalChar {c : Char} (h : isDecimalChar c = true) :
    isNumeralChar c = true := by
  rw [isDecimalChar, Bool.or_eq_true] at h
  rcases h with h | h
  · simp [isNumeralChar, Char.isAlphanum, h]
  · have hall : (['.', 'e', 'E', '+', '-'].all isNumeralChar) = true := by decide
    exact List.all_eq_true.mp hall c (by simpa using h)

theorem isNumeralChar_of_hexDigit {n : Nat} {c : Char} (h : HexDigit n c) :
    isNumeralChar c = true := by
  have hall : ∀ code < 128, ∀ n < 16,
      HexDigit n (Char.ofNat code) → isNumeralChar (Char.ofNat code) = true := by
    decide +kernel
  have hc := hall c.toNat h.lt n h.1
  rw [Char.ofNat_toNat] at hc
  exact hc h

theorem isNumeralChar_of_mem_digits {size : Nat} {values : List Nat} {digits : List Char}
    (h : List.Forall₂ (fun n c => HexDigit n c ∧ n < size) values digits) :
    ∀ c ∈ digits, isNumeralChar c = true := by
  induction h with
  | nil => nofun
  | cons hdigit _ ih => exact List.forall_mem_cons.mpr ⟨isNumeralChar_of_hexDigit hdigit.1, ih⟩

/-- A text that `Spells` a numeral has no other characters than `isNumeralChar`
knows. One case for each constructor of `Spells`. -/
theorem isNumeralChar_of_mem {numeral : Numeral} {text : List Char} (h : numeral.Spells text) :
    ∀ c ∈ text, isNumeralChar c = true := by
  intro c hc
  cases h with
  | infinity hsign =>
    rcases List.mem_append.mp hc with hc | hc
    · exact isNumeralChar_of_isDecimalChar (isDecimalChar_of_mem_sign hsign c hc)
    · have hall : ("Infinity".toList.all isNumeralChar) = true := by decide
      exact List.all_eq_true.mp hall c hc
  | decimal hsign hmantissa hexponent =>
    exact isNumeralChar_of_isDecimalChar (isDecimalChar_of_mem hsign hmantissa hexponent c hc)
  | @radix base letter values digits hletter hne hdigits =>
    rcases List.mem_cons.mp hc with rfl | hc
    · decide
    rcases List.mem_cons.mp hc with rfl | hc
    · have hall : (base.letters.all isNumeralChar) = true := by cases base <;> decide
      exact List.all_eq_true.mp hall c hletter
    · exact isNumeralChar_of_mem_digits hdigits c hc

theorem unsigned_radix (letter : Char) (digits : List Char) : Unsigned ('0' :: letter :: digits) :=
  unsigned_of_head_isDigit (by decide) _

/-- Behind a sign only a decimal numeral and the word `Infinity` are read, and a
decimal numeral has no character like the first of `rest`. `takeSign` tells that
no other sign can be cut off. -/
theorem not_spells_word {negative : Bool} {sign rest : List Char} {c : Char}
    (hsign : Sign negative sign) (hc : isDecimalChar c = false)
    (hne : c :: rest ≠ "Infinity".toList) :
    ¬ ∃ numeral : Numeral, numeral.Spells (sign ++ c :: rest) := by
  have hunsigned : Unsigned (c :: rest) := by
    have hhead : ∀ other, isDecimalChar other = true → (c :: rest).head? ≠ some other := by
      intro other hother heq
      rw [← Option.some.inj heq, hc] at hother
      cases hother
    exact ⟨hhead '+' rfl, hhead '-' rfl⟩
  rintro ⟨numeral, hspells⟩
  have hmem : c ∈ sign ++ c :: rest := List.mem_append_right _ List.mem_cons_self
  have htake := takeSign_append hsign hunsigned
  generalize sign ++ c :: rest = text at hspells hmem htake
  cases hspells with
  | infinity hsign' =>
    rw [takeSign_append hsign' ⟨by decide, by decide⟩] at htake
    exact hne (Prod.mk.inj htake).2.symm
  | decimal hsign' hmantissa hexponent =>
    rw [isDecimalChar_of_mem hsign' hmantissa hexponent c hmem] at hc
    cases hc
  | @radix base letter values digits hletter =>
    have htake' := takeSign_append .absent (unsigned_radix letter digits)
    rw [List.nil_append, htake] at htake'
    obtain ⟨rfl, -⟩ := List.cons_eq_cons.mp (Prod.mk.inj htake').2
    cases hc

/-- No numeral of `radix` has a sign in front of it. A text that begins with a
sign could be a decimal numeral still, but the letter of the base is no
character of one. -/
theorem not_spells_signed_radix {negative : Bool} {sign digits : List Char} {base : Radix}
    {letter : Char} (hsign : Sign negative sign) (hne : sign ≠ [])
    (hletter : letter ∈ base.letters) :
    ¬ ∃ numeral : Numeral, numeral.Spells (sign ++ '0' :: letter :: digits) := by
  rintro ⟨numeral, hspells⟩
  have hmem : letter ∈ sign ++ '0' :: letter :: digits := by simp
  have htake := takeSign_append hsign (unsigned_radix letter digits)
  have hhead : (sign ++ '0' :: letter :: digits).head? ≠ some '0' := by
    cases hsign with
    | absent => exact absurd rfl hne
    | plus => simp
    | minus => simp
  generalize sign ++ '0' :: letter :: digits = text at hspells hmem htake hhead
  cases hspells with
  | infinity hsign' =>
    rw [takeSign_append hsign' ⟨by decide, by decide⟩] at htake
    exact absurd (List.cons_eq_cons.mp (Prod.mk.inj htake).2).1 (by decide)
  | decimal hsign' hmantissa hexponent =>
    have hplain := isDecimalChar_of_mem hsign' hmantissa hexponent letter hmem
    have hnone := ofLetter?_of_isDecimalChar hplain
    rw [Radix.ofLetter?_eq_some_iff.mpr hletter] at hnone
    cases hnone
  | radix => exact hhead rfl

/-- No decimal numeral starts with an `i` or an `n` in either case, as the names
of infinity and of what is no number do. -/
theorem isDecimalChar_of_toLower {c : Char} (h : c.toLower = 'i' ∨ c.toLower = 'n') :
    isDecimalChar c = false := by
  rw [Bool.eq_false_iff]
  intro hc
  have hlower := isDecimalChar_toLower hc
  rcases h with h | h
  · rw [h] at hlower
    exact absurd hlower (by decide)
  · rw [h] at hlower
    exact absurd hlower (by decide)

/-- What is `Foreign` spells no numeral. One case for each constructor of
`Foreign`. -/
theorem not_spells_of_foreign {text : List Char} (h : Foreign text) :
    ¬ ∃ numeral : Numeral, numeral.Spells text := by
  cases h with
  | @char _ c hmem hc =>
    -- one character is enough, wherever it stands
    rintro ⟨numeral, hspells⟩
    rw [isNumeralChar_of_mem hspells c hmem] at hc
    cases hc
  | @word negative sign word hsign hword hne =>
    -- all of these words start with an i or an n
    have hhead : ∃ c rest, word = c :: rest ∧ (c.toLower = 'i' ∨ c.toLower = 'n') := by
      cases word with
      | nil => exact absurd hword (by decide)
      | cons c rest =>
        simp only [List.map_cons, List.map_nil, String.reduceToList, List.mem_cons,
          List.not_mem_nil, or_false, List.cons.injEq] at hword
        exact ⟨c, rest, rfl, by tauto⟩
    obtain ⟨c, rest, rfl, hc⟩ := hhead
    exact not_spells_word hsign (isDecimalChar_of_toLower hc) hne
  | radix hsign hne hletter => exact not_spells_signed_radix hsign hne hletter

end Number.Numeral

namespace Window

open Number (Numeral cutOff)

/-! ## What gives no number -/

/-- `Useless given` says that there is no number in what is given for a page or
a limit. Nothing is given (`missing`), or only white space (`blank`), or
something that is no numeral (`malformed`); or it is a numeral for infinity or
for a number that is rounded to it (`infinite`), or for one of which nothing is
left when its fraction is cut off (`fraction`). -/
inductive Useless : Option String → Prop where
  | missing : Useless none
  | blank {string : String} (h : Text.trim string.toList = []) : Useless (some string)
  | malformed {string : String}
      (h : ¬ ∃ numeral : Numeral, numeral.Spells (Text.trim string.toList)) : Useless (some string)
  | infinite {string : String} {numeral : Numeral} {negative : Bool}
      (h : numeral.Spells (Text.trim string.toList))
      (hvalue : numeral.value = .signed negative .infinite) : Useless (some string)
  | fraction {string : String} {numeral : Numeral} {x : ℚ}
      (h : numeral.Spells (Text.trim string.toList)) (hvalue : numeral.value.number? = some x)
      (hx : |x| < 1) : Useless (some string)

/-- A numeral without a `number?` is infinite, as no numeral stands for
`nan`. -/
theorem number?_value_eq_none {numeral : Numeral} {text : List Char} (hspells : numeral.Spells text)
    (h : numeral.value.number? = none) :
    ∃ negative, numeral.value = .signed negative .infinite := by
  have hsigned : ∃ negative magnitude, numeral.value = .signed negative magnitude := by
    cases hspells <;> exact ⟨_, _, rfl⟩
  obtain ⟨negative, magnitude, hvalue⟩ := hsigned
  rw [hvalue] at h
  cases magnitude with
  | finite => cases h
  | infinite => exact ⟨negative, hvalue⟩

/-- What is not `Useless` is a numeral for a number from one on, or up to minus
one, and `used` is this number, whatever the default. -/
theorem used_of_not_useless {params : Params} {control : Control}
    (h : ¬ Useless (params.control? control)) :
    ∃ string numeral x, params.control? control = some string ∧
      Numeral.Spells numeral (Text.trim string.toList) ∧ numeral.value.number? = some x ∧ 1 ≤ |x| ∧
      ∀ default, used params control default = Int64.ofIntClamp (cutOff x) := by
  cases hgiven : params.control? control with
  | none => exact absurd (hgiven ▸ .missing) h
  | some string =>
    rw [hgiven] at h
    -- each way of being useless is ruled out in turn
    have hspells : ∃ numeral : Numeral, numeral.Spells (Text.trim string.toList) := by
      by_contra hnone
      exact h (.malformed hnone)
    obtain ⟨numeral, hspells⟩ := hspells
    cases hvalue : numeral.value.number? with
    | none =>
      obtain ⟨negative, hinfinite⟩ := number?_value_eq_none hspells hvalue
      exact absurd (.infinite hspells hinfinite) h
    | some x =>
      have hx : ¬ |x| < 1 := fun hx => h (.fraction hspells hvalue hx)
      refine ⟨string, numeral, x, rfl, hspells, hvalue, not_lt.mp hx, fun default => ?_⟩
      rw [used_of_spells hgiven hspells, taken, hvalue, Option.map_some]
      exact if_neg fun hzero => hx (Number.cutOff_eq_zero_iff.mp hzero)

theorem used_of_blank {params : Params} {control : Control} {string : String}
    (hstring : params.control? control = some string) (h : Text.trim string.toList = [])
    (default : Int64) : used params control default = default := by
  rw [used, hstring, read, h]
  rfl

/-- `used` is the default, whatever that is, where what is given is `Useless`,
and nowhere else. A number that is used could not be two defaults. -/
theorem used_eq_default_iff {params : Params} {control : Control} :
    (∀ default, used params control default = default) ↔ Useless (params.control? control) := by
  constructor
  · intro h
    by_contra huseful
    obtain ⟨_, _, _, -, -, -, -, hused⟩ := used_of_not_useless huseful
    -- no number is two defaults
    have hsame : (0 : Int64) = 1 := (h 0).symm.trans ((hused 0).trans ((hused 1).symm.trans (h 1)))
    exact absurd hsame (by decide)
  · intro h default
    cases hgiven : params.control? control with
    | none => rw [used, hgiven]; rfl
    | some string =>
      rw [hgiven] at h
      cases h with
      | blank hblank => exact used_of_blank hgiven hblank default
      | malformed hnone =>
        by_cases hblank : Text.trim string.toList = []
        · exact used_of_blank hgiven hblank default
        · rw [used, hgiven, read_eq_malformed_iff.mpr ⟨string, rfl, rfl, hblank, hnone⟩]
          rfl
      | infinite hspells hvalue => rw [used_of_spells hgiven hspells, hvalue]; rfl
      | fraction hspells hvalue hx =>
        rw [used_of_spells hgiven hspells, taken, hvalue, Option.map_some]
        exact if_pos (Number.cutOff_eq_zero_iff.mpr hx)

/-! ## Windows -/

/-- **Where the default is used.** There is no window where the limit is `null`
letter by letter, and there nowhere else. Otherwise the page and the limit are
each the number of a numeral or the default, and the default for no other reason
than that what is given is of no use. What looks like a number elsewhere is of
no use. A decimal numeral has the value that is nearest to the number that it
writes. -/
theorem ofParams_fallback (params : Params) :
    (∀ defaults, ofParams defaults params = none ↔ params.control? .limit = some "null") ∧
    (params.control? .limit ≠ some "null" → ∀ defaults,
      ofParams defaults params =
        some ⟨used params .limit defaults.limit,
          skipped (used params .page defaults.page) (used params .limit defaults.limit)⟩) ∧
    ∀ control,
      ((∀ default, used params control default = default) ↔ Useless (params.control? control)) ∧
      (¬ Useless (params.control? control) →
        ∃ string numeral x, params.control? control = some string ∧
          Numeral.Spells numeral (Text.trim string.toList) ∧ numeral.value.number? = some x ∧
          1 ≤ |x| ∧ ∀ default, used params control default = Int64.ofIntClamp (cutOff x)) ∧
      ∀ string, params.control? control = some string →
        (Numeral.Foreign (Text.trim string.toList) → Useless (some string)) ∧
        ∀ v, Numeral.Writes (Text.trim string.toList) v →
          ∃ numeral : Numeral,
            numeral.Spells (Text.trim string.toList) ∧ numeral.value.IsNearest v := by
  refine ⟨fun _ => ofParams_eq_none_iff, ofParams_of_limited, fun control =>
    ⟨used_eq_default_iff, used_of_not_useless,
      fun string _ => ⟨fun hforeign => ?_, fun v hv => ?_⟩⟩⟩
  · exact .malformed (Numeral.not_spells_of_foreign hforeign)
  · obtain ⟨negative, d, hspells, rfl⟩ := Numeral.writes_iff.mp hv
    exact ⟨_, hspells, Numeral.isNearest_value negative d⟩

/-- `ofParams_fallback` at a page in base 16 and at a limit that is beyond all
doubles, of which only the last is read. -/
theorem ofParams_fallback_beyond :
    ∃ params : Params,
      params.entries = [("page", .one " 0x1F "), ("limit", .many ["5", "1e999"])] ∧
      (∀ defaults, ofParams defaults params =
        some ⟨defaults.limit, skipped (used params .page defaults.page) defaults.limit⟩) ∧
      ∃ x : ℚ, 1 ≤ |x| ∧ ∀ default, used params .page default = Int64.ofIntClamp (cutOff x) := by
  let params : Params := ⟨[("page", .one " 0x1F "), ("limit", .many ["5", "1e999"])], by decide⟩
  obtain ⟨-, hwindow, hcontrol⟩ := ofParams_fallback params
  have hspells : (Numeral.decimal false ⟨1, 999⟩).Spells (Text.trim "1e999".toList) :=
    Numeral.read?_eq_some_iff.mp (by decide +kernel)
  have hvalue : (Numeral.decimal false ⟨1, 999⟩).value = .signed false .infinite := by
    decide +kernel
  have hlimit : Useless (params.control? .limit) := .infinite hspells hvalue
  have hpage : ¬ Useless (params.control? .page) := by
    intro huseless
    exact absurd ((hcontrol .page).1.mpr huseless 0) (by decide +kernel)
  refine ⟨params, rfl, fun defaults => ?_, ?_⟩
  · rw [hwindow (by decide) defaults, (hcontrol .limit).1.mpr hlimit]
  · obtain ⟨_, _, x, -, -, -, hx, hused⟩ := (hcontrol .page).2.1 hpage
    exact ⟨x, hx, hused⟩

end Window

end ListQuery
