import ListQuery.Proofs.Number.Value
import ListQuery.Proofs.Text.Space
import ListQuery.Window

/-!
# Reading a page or a limit

What is said about a page or a limit depends on the text between its white space
alone. A text that spells a numeral has a number or is unusable
(`read_of_spells`), and any other is malformed unless it is empty
(`read_eq_malformed_iff`). A window is made of the numbers that are read, or of
the defaults in their place (`used`), and where a decimal numeral is read its
exact value decides (`used_of_asks`).
-/

namespace ListQuery.Window

open Number (Binary64 Numeral cutOff)

theorem ne_nil_of_spells {numeral : Numeral} {text : List Char} (h : numeral.Spells text) :
    text ≠ [] := by
  rintro rfl
  exact absurd (Numeral.read?_eq_some_iff.mpr h) (by nofun)

/-- `readingOf` gives a `usable` number for a numeral of which something is left
when `truncate?` cuts its fraction off, and that number is clamped by
`Int64.ofIntClamp`. -/
theorem readingOf_eq_usable_iff {text : List Char} {given : Option Numeral} {number : Int64} :
    readingOf text given = .usable number ↔
      ∃ numeral whole, given = some numeral ∧ numeral.value.truncate? = some whole ∧ whole ≠ 0 ∧
        Int64.ofIntClamp whole = number := by
  cases given with
  | none => simp [readingOf]
  | some numeral =>
    cases htruncate : numeral.value.truncate? with
    | none => simp [readingOf, htruncate]
    | some whole =>
      by_cases hwhole : whole = 0
      · simp [readingOf, htruncate, hwhole]
      · simp [readingOf, htruncate, hwhole]

/-- `read` on a text that spells a numeral between white space: `usable`, or
else `unusable`, where the numeral is infinite or nothing is left of it without
its fraction. It is never `malformed`. -/
theorem read_of_spells {string : String} {numeral : Numeral}
    (h : numeral.Spells (Text.trim string.toList)) :
    read (some string) =
      match numeral.value.truncate? with
      | none => .unusable
      | some whole => if whole = 0 then .unusable else .usable (Int64.ofIntClamp whole) := by
  have hne : ¬ (Text.trim string.toList).isEmpty = true := by
    simpa using ne_nil_of_spells h
  rw [read, Numeral.read?_eq_some_iff.mpr h]
  exact if_neg hne

/-- `read` gives `malformed` exactly for what spells no numeral once it is
trimmed, unless nothing is left of it. The text that is told is the trimmed
one. -/
theorem read_eq_malformed_iff {given : Option String} {text : String} :
    read given = .malformed text ↔
      ∃ string, given = some string ∧ text = String.ofList (Text.trim string.toList) ∧
        Text.trim string.toList ≠ [] ∧
        ¬ ∃ numeral : Numeral, numeral.Spells (Text.trim string.toList) := by
  constructor
  · intro h
    cases given with
    | none => cases h
    | some string =>
      have hspells : ¬ ∃ numeral : Numeral, numeral.Spells (Text.trim string.toList) := by
        rintro ⟨numeral, hnumeral⟩
        rw [read_of_spells hnumeral] at h
        split at h
        · cases h
        · split at h <;> cases h
      rw [read, Numeral.read?_eq_none_iff.mpr hspells] at h
      split at h
      · cases h
      · next hne => exact ⟨string, rfl, (Reading.malformed.inj h).symm, by simpa using hne, hspells⟩
  · rintro ⟨string, rfl, rfl, hne, hspells⟩
    rw [read, Numeral.read?_eq_none_iff.mpr hspells]
    exact if_neg (by simpa using hne)

/-! ## White space -/

/-- No character of a decimal numeral is white space. All of them lie between
`+` and `e` in ASCII, and no range of white space reaches in there. -/
theorem isSpace_of_isDecimalChar {c : Char} (h : Numeral.isDecimalChar c = true) :
    Text.isSpace c = false := by
  have hrange : 0x2B ≤ c.toNat ∧ c.toNat ≤ 0x65 := by
    rw [Numeral.isDecimalChar, Bool.or_eq_true] at h
    rcases h with h | h
    · simp only [Char.isDigit, Bool.and_eq_true, decide_eq_true_iff, ge_iff_le,
        UInt32.le_iff_toNat_le] at h
      have hcode : c.toNat = c.val.toNat := rfl
      simp only [Char.reduceVal, UInt32.reduceToNat] at h
      omega
    · have hall :
          (['.', 'e', 'E', '+', '-'].all fun c => 0x2B ≤ c.toNat ∧ c.toNat ≤ 0x65) = true := by
        decide
      simpa using List.all_eq_true.mp hall c (by simpa using h)
  simp only [Text.isSpace, Text.inRanges, Text.spaceRanges, List.any_cons, List.any_nil,
    Bool.or_false, Bool.or_eq_false_iff, Bool.and_eq_false_iff, decide_eq_false_iff_not]
  omega

/-- `trim` finds a decimal numeral again in `padded`, as the numeral neither
starts nor ends with white space (`isSpace_of_isDecimalChar`). -/
theorem trim_of_writes {text padded : List Char} {v : ℚ} (h : Numeral.Writes text v)
    (hpads : Text.Pads text padded) : Text.trim padded = text := by
  have htext : ∀ c ∈ text, Text.isSpace c = false := by
    intro c hc
    cases h with
    | intro hsign hmantissa hexponent =>
      exact isSpace_of_isDecimalChar (Numeral.isDecimalChar_of_mem hsign hmantissa hexponent c hc)
  exact hpads.trim_eq ⟨fun c hc => htext c (List.mem_of_mem_head? hc),
    fun c hc => htext c (List.mem_of_mem_getLast? hc)⟩

/-! ## The numbers that a window is made of -/

/-- `ofParams` gives no window exactly where the limit is `unlimited`. That word
is compared letter by letter, before anything is trimmed. -/
theorem ofParams_eq_none_iff {defaults : Defaults} {params : Params} :
    ofParams defaults params = none ↔ params.control? .limit = some unlimited := by
  rw [ofParams]
  split
  · next h => exact iff_of_true rfl h
  · next h => exact iff_of_false (by nofun) h

/-- Everywhere else the window is made of the numbers that are used: the limit
as it is, and what is skipped by `skipped`. -/
theorem ofParams_of_limited {params : Params} (h : params.control? .limit ≠ some unlimited)
    (defaults : Defaults) :
    ofParams defaults params =
      some ⟨used params .limit defaults.limit,
        skipped (used params .page defaults.page) (used params .limit defaults.limit)⟩ :=
  if_neg h

/-- The number that is taken from a double: `cutOff` of its number, clamped, or
the default where the double is infinite and where nothing is left of it. -/
def taken (double : Binary64) (default : Int64) : Int64 :=
  match double.number?.map cutOff with
  | none => default
  | some whole => if whole = 0 then default else Int64.ofIntClamp whole

/-- `taken` depends on `number?` alone, and so not on the sign of a zero. -/
theorem taken_congr {double other : Binary64} (h : double.number? = other.number?) :
    taken double = taken other := by
  funext default
  rw [taken, taken, h]

/-- `used` where a numeral is given: what is `taken` from `numeral.value`, for
the page and for the limit alike. -/
theorem used_of_spells {params : Params} {control : Control} {string : String} {numeral : Numeral}
    (hstring : params.control? control = some string)
    (h : numeral.Spells (Text.trim string.toList)) (default : Int64) :
    used params control default = taken numeral.value default := by
  rw [used, hstring, read_of_spells h, taken, Binary64.truncate?_eq]
  cases numeral.value.number?.map cutOff with
  | none => rfl
  | some whole =>
    show (if whole = 0 then Reading.unusable else Reading.usable _).getD default =
      if whole = 0 then default else _
    split <;> rfl

/-- `Asks params control v` says that a decimal numeral is given for the page or
the limit, with white space around it or without, and that `v` is the number
which it writes. -/
def Asks (params : Params) (control : Control) (v : ℚ) : Prop :=
  ∃ string text, params.control? control = some string ∧ Text.Pads text string.toList ∧
    Numeral.Writes text v

/-- What `Asks` for a number is not `unlimited`, since that word spells no
numeral. -/
theorem Asks.ne_unlimited {params : Params} {control : Control} {v : ℚ}
    (h : Asks params control v) : params.control? control ≠ some unlimited := by
  obtain ⟨string, text, hstring, hpads, hwrites⟩ := h
  rw [hstring]
  intro hword
  obtain rfl := Option.some.inj hword
  obtain rfl : unlimited.toList = text := by
    rw [← trim_of_writes hwrites hpads]
    decide
  obtain ⟨negative, d, hspells, -⟩ := Numeral.writes_iff.mp hwrites
  -- the word would have to be a numeral itself
  have hnone : Numeral.read? unlimited.toList = none := by decide
  rw [Numeral.read?_eq_some_iff.mpr hspells] at hnone
  cases hnone

/-- What is used for a decimal numeral is taken from the double nearest to what
it writes. Two doubles can be nearest, namely both zeros; `taken_congr` says
that they give the same. -/
theorem used_of_asks {params : Params} {control : Control} {v : ℚ} (h : Asks params control v)
    {double : Binary64} (hdouble : double.IsNearest v) (default : Int64) :
    used params control default = taken double default := by
  obtain ⟨string, text, hstring, hpads, hwrites⟩ := h
  have htrim := trim_of_writes hwrites hpads
  obtain ⟨negative, d, hspells, rfl⟩ := Numeral.writes_iff.mp hwrites
  rw [← htrim] at hspells
  rw [used_of_spells hstring hspells]
  exact congrFun (taken_congr ((Numeral.isNearest_value negative d).number?_congr hdouble)) default

end ListQuery.Window
