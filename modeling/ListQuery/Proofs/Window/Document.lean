import ListQuery.Proofs.Notice
import ListQuery.Proofs.Number.Notation
import ListQuery.Proofs.Params.Document
import ListQuery.Proofs.Window

/-!
# Numbers in a document

A document can give a page or a limit as a number, which is written as a text
and read again.

* **`Json.Denotes`** — the numbers that a document can hold.
* **`exists_read_of_denotes`** — the crux: the text of such a number is a
  decimal numeral, and what it denotes is the double nearest to the number.
* **`used_of_number`** — the headline: so that double decides what is used, and
  nothing is told about it.
-/

namespace ListQuery

open Number (Binary64 Numeral cutOff)

/-- `json.Denotes x` says that the value is a number of a document, and that `x`
is the number: an integer of 64 bits, with a sign or without, or a finite
double. -/
inductive Json.Denotes : Json → ℚ → Prop where
  | integer {n : Int} (hlow : -2 ^ 63 ≤ n) (hhigh : n < 2 ^ 64) : Denotes (.integer n) n
  | double {double : Binary64} {x : ℚ} (h : double.number? = some x) : Denotes (.double double) x

/-- `ReadAs text double` says that the text is a decimal numeral which is read
as this double. -/
def Number.Numeral.ReadAs (text : List Char) (double : Binary64) : Prop :=
  ∃ negative d, (decimal negative d).Spells text ∧ (decimal negative d).value = double

/-- `scalarText` writes a number as a decimal numeral that is `ReadAs` the
double nearest to it, and a double as a numeral for this very double. The double
is always finite. -/
theorem exists_read_of_denotes {json : Json} {x : ℚ} (h : json.Denotes x) :
    ∃ string double y, Params.scalarText json = .ok string ∧ Numeral.ReadAs string.toList double ∧
      double.IsNearest x ∧ double.number? = some y ∧
      ∀ other, json = .double other → double = other := by
  cases h with
  | @integer n hlow hhigh =>
    -- 64 bits are far from the end of doubles, so that the nearest one is finite
    obtain ⟨negative, d, hspells, hexact⟩ := Number.exists_spells_integerNumeral n
    have hnearest := Numeral.isNearest_value negative d
    generalize hvalue : (Numeral.decimal negative d).value = double at hnearest
    rw [hexact] at hnearest
    have hbound : |(n : ℚ)| ≤ 2 ^ 64 := by
      rw [abs_le]
      constructor
      · exact_mod_cast (show -2 ^ 64 ≤ n from by omega)
      · exact_mod_cast hhigh.le
    obtain ⟨y, hy⟩ := hnearest.exists_number? hbound
    refine ⟨String.ofList (Number.integerNumeral n), double, y, rfl, ⟨negative, d, ?_, hvalue⟩,
      hnearest, hy, fun other hother => ?_⟩
    · rwa [String.toList_ofList]
    · cases hother
  | @double double x hx =>
    obtain ⟨text, negative, d, htext, hspells, hvalue⟩ := Number.exists_spells_numeral? hx
    refine ⟨String.ofList text, double, x, ?_, ⟨negative, d, ?_, hvalue⟩,
      Binary64.isNearest_self hx, hx, fun other hother => Json.double.inj hother⟩
    · rw [Params.scalarText, htext]
      rfl
    · rwa [String.toList_ofList]

namespace Window

variable {params : Params} {control : Control} {string : String} {double : Binary64}

/-- A decimal numeral has no white space around it, so `trim` leaves it as it
is. -/
theorem spells_trim_of_readAs (h : Numeral.ReadAs string.toList double) :
    ∃ numeral : Numeral, numeral.Spells (Text.trim string.toList) ∧ numeral.value = double := by
  obtain ⟨negative, d, hspells, hvalue⟩ := h
  have htrim : Text.trim string.toList = string.toList :=
    trim_of_writes (Numeral.writes_iff.mpr ⟨negative, d, hspells, rfl⟩) (Text.pads_self _)
  exact ⟨_, htrim.symm ▸ hspells, hvalue⟩

/-- `used` for a string that is `ReadAs` a double: what is `taken` from this
double. -/
theorem used_of_readAs (hstring : params.control? control = some string)
    (h : Numeral.ReadAs string.toList double) (default : Int64) :
    used params control default = taken double default := by
  obtain ⟨numeral, hspells, rfl⟩ := spells_trim_of_readAs h
  exact used_of_spells hstring hspells default

/-- **A number in a document is used as the double nearest to it.** It is given
as a decimal numeral, which is read as that double, and as the double itself if
it is one. What is used is this double without its fraction and clamped, or the
default if nothing is left of it. The numeral never asks for all results: a
window has the number as its limit, and skips by it as its page unless the limit
is `null`. There is no notice of it. -/
theorem used_of_number {members : List (String × Json)} {control : Control} {json : Json} {x : ℚ}
    (hjson : Json.member? members control.key = some json) (hnumber : json.Denotes x)
    (hothers : ∀ name value, Json.member? members name = some value →
      ∃ argument, Params.argumentOf value = .ok argument) :
    ∃ params string double y,
      Params.ofJson (.object members) = .ok params ∧
      params.control? control = some string ∧ string ≠ unlimited ∧
      Numeral.ReadAs string.toList double ∧ double.IsNearest x ∧ double.number? = some y ∧
      (∀ other, json = .double other → double = other) ∧
      (∀ default, used params control default =
        if cutOff y = 0 then default else Int64.ofIntClamp (cutOff y)) ∧
      (control = .limit → ∀ defaults, ∃ skip, ofParams defaults params =
        some ⟨if cutOff y = 0 then defaults.limit else Int64.ofIntClamp (cutOff y), skip⟩) ∧
      (control = .page → params.control? .limit ≠ some unlimited → ∀ defaults, ∃ limit,
        ofParams defaults params = some ⟨limit,
          skipped (if cutOff y = 0 then defaults.page else Int64.ofIntClamp (cutOff y)) limit⟩) ∧
      (params.control? .limit ≠ some unlimited → ∀ defaults,
        ofParams defaults params =
          some ⟨used params .limit defaults.limit,
            skipped (used params .page defaults.page) (used params .limit defaults.limit)⟩) ∧
      ∀ text, .malformedNumber control.key text ∉ Notice.ofParams params := by
  obtain ⟨params, hparams, hget⟩ := Params.exists_ofJson hothers
  obtain ⟨string, double, y, hscalar, hread, hnearest, hy, hself⟩ := exists_read_of_denotes hnumber
  have hargument : Params.argumentOf json = .ok (.one string) := by
    cases hnumber <;> exact congrArg (Argument.one <$> ·) hscalar
  have hstring : params.control? control = some string := by
    rw [Params.control?, Params.last?, hget _ _ _ hjson hargument]
    rfl
  have hasks : ∃ v, Asks params control v := by
    obtain ⟨negative, d, hspells, -⟩ := hread
    exact ⟨_, string, _, hstring, Text.pads_self _,
      Numeral.writes_iff.mpr ⟨negative, d, hspells, rfl⟩⟩
  obtain ⟨v, hasks⟩ := hasks
  have hlimited := hasks.ne_unlimited
  have hused : ∀ default, used params control default =
      if cutOff y = 0 then default else Int64.ofIntClamp (cutOff y) := by
    intro default
    rw [used_of_readAs hstring hread, taken, hy]
    rfl
  refine ⟨params, string, double, y, hparams, hstring, fun hword => hlimited (hword ▸ hstring),
    hread, hnearest, hy, hself, hused, ?_, ?_, ofParams_of_limited, fun text hmem => ?_⟩
  · rintro rfl defaults
    exact ⟨_, by rw [ofParams_of_limited hlimited, hused]⟩
  · rintro rfl hlimit defaults
    exact ⟨_, by rw [ofParams_of_limited hlimit, hused]⟩
  · -- what there is a notice of spells no numeral, and this string does
    obtain ⟨other, hkey, given, hgiven, -, -, hnone⟩ := Notice.malformed_of_mem hmem
    rw [Control.key_inj hkey, hstring] at hgiven
    rw [← Option.some.inj hgiven] at hnone
    obtain ⟨numeral, hspells, -⟩ := spells_trim_of_readAs hread
    exact hnone ⟨numeral, hspells⟩

/-- `used_of_number` at a page beyond 64 bits, which is clamped, and a limit
with a fraction, which is cut off. The page is given twice, and the last value
counts. -/
theorem used_of_number_clamped :
    ∃ (representable : Number.Representable (5 * 2 ^ 1073)) (params : Params),
      Params.ofJson (.object [("page", .bool true), ("name.in", .array [.string "a", .null]),
        ("limit", .double (.signed false (.finite (5 * 2 ^ 1073) representable))),
        ("page", .integer (2 ^ 63))]) = .ok params ∧
      (∀ default, used params .limit default = 2) ∧
      (∀ default, used params .page default = Int64.maxValue) ∧
      (∀ defaults, ofParams defaults params = some ⟨2, Int64.maxValue⟩) ∧
      ∀ text, .malformedNumber "page" text ∉ Notice.ofParams params := by
  have hrepresentable : Number.Representable (5 * 2 ^ 1073) :=
    ⟨by decide +kernel, by decide +kernel⟩
  let double : Binary64 := .signed false (.finite (5 * 2 ^ 1073) hrepresentable)
  let members : List (String × Json) := [("page", .bool true),
    ("name.in", .array [.string "a", .null]), ("limit", .double double),
    ("page", .integer (2 ^ 63))]
  have hothers : ∀ name value, Json.member? members name = some value →
      ∃ argument, Params.argumentOf value = .ok argument := by
    intro name value hvalue
    have hmem := Json.mem_of_member? hvalue
    simp only [members, List.mem_cons, List.not_mem_nil, or_false, Prod.mk.injEq] at hmem
    rcases hmem with ⟨-, rfl⟩ | ⟨-, rfl⟩ | ⟨-, rfl⟩ | ⟨-, rfl⟩
    · exact ⟨_, rfl⟩
    · exact ⟨_, rfl⟩
    · exact ⟨_, rfl⟩
    · exact ⟨_, rfl⟩
  have hlimitLast : Json.member? members Control.limit.key = some (.double double) := rfl
  have hpageLast : Json.member? members Control.page.key = some (.integer (2 ^ 63)) := rfl
  have hexact : double.number? = some ((5 * 2 ^ 1073 : Nat) / Number.unitsPerOne : ℚ) := rfl
  obtain ⟨params, -, _, y, hparams, -, -, -, -, hy, hself, hlimit, hwindow, -⟩ :=
    used_of_number hlimitLast (.double hexact) hothers
  obtain ⟨_, -, _, z, hparams', -, -, -, hnearest, hz, -, hpage, -, -, hboth, hnotice⟩ :=
    used_of_number hpageLast (.integer (by decide) (by decide)) hothers
  obtain rfl := Except.ok.inj (hparams.symm.trans hparams')
  have htwo : cutOff y = 2 := by
    have hunits : 5 * 2 ^ 1073 / Number.unitsPerOne = 2 := by decide +kernel
    have htruncate : double.truncate? = some 2 := congrArg (fun n : Nat => some (n : Int)) hunits
    rw [Binary64.truncate?_eq, ← hself double rfl, hy] at htruncate
    exact Option.some.inj htruncate
  have hbeyond : cutOff z = 2 ^ 63 := by
    obtain ⟨other, hother⟩ := Binary64.exists_number?_natCast (show 1 ≤ 2 ^ 53 from by decide)
      (show 63 < 970 from by decide)
    have hz' := hnearest.number?_of_eq (by rw [hother]; norm_num)
    rw [hz] at hz'
    rw [Option.some.inj hz', Number.cutOff_intCast]
  have hlimitUsed : ∀ default, used params .limit default = 2 := by
    intro default
    rw [hlimit default, htwo, if_neg (by decide)]
    decide
  have hpageUsed : ∀ default, used params .page default = Int64.maxValue := by
    intro default
    rw [hpage default, hbeyond, if_neg (by decide)]
    decide
  refine ⟨hrepresentable, params, hparams, hlimitUsed, hpageUsed, fun defaults => ?_, hnotice⟩
  have hlimited : params.control? .limit ≠ some unlimited := by
    intro hnull
    obtain ⟨skip, hskip⟩ := hwindow rfl defaults
    rw [ofParams_eq_none_iff.mpr hnull] at hskip
    cases hskip
  rw [hboth hlimited, hlimitUsed, hpageUsed]
  decide

end Window

end ListQuery
