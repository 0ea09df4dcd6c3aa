import ListQuery.Proofs.Number.Radix

/-!
# Numerals in another base

What a numeral in base 16, 8 or 2 denotes, from the closed form of its digits.

* **`Radix.Denotes`** — the closed form in numbers: the double nearest to the
  digits that come to 2^53, times the base for every digit behind them, or
  infinity.
* **`denotes_value_radix`** — it is what a numeral denotes.
* **`value_radix`** — the headline: order is kept, decimal numerals below 2^53
  denote the same, and from there on what a numeral denotes need not be the
  double nearest to its number.
-/

namespace ListQuery.Number

-- A power of natural numbers is `Nat.pow`, whatever other instances are at hand.
attribute [local instance (high)] instPowNat

/-! ## Numbers of units -/

namespace Magnitude

theorem units_lt_iff {units : Nat} :
    (units : ℚ) / unitsPerOne < 2 ^ 1024 ↔ units < overflowUnits := by
  have htop : (2 ^ 1024 : ℚ) * unitsPerOne = overflowUnits := by
    rw [overflowUnits, Nat.pow_add, ← unitsPerOne, Nat.cast_mul, Nat.cast_pow]
    rfl
  rw [div_lt_iff₀ cast_unitsPerOne_pos, htop, Nat.cast_lt]

/-- What is `Precise`, fitting 53 bits, is its number as a magnitude, below
`2 ^ 1024`. It is not rounded, and from there on it is no number. -/
theorem number?_ofRatio {units : Nat} (h : Precise units) {x : ℚ} :
    (ofRatio units 1).number? = some x ↔ x < 2 ^ 1024 ∧ x = units / unitsPerOne := by
  rcases ofRatio_of_precise h with ⟨representable, hunits⟩ | ⟨hle, hunits⟩
  · rw [hunits, number?, Option.some_inj]
    constructor
    · rintro rfl
      exact ⟨units_lt_iff.mpr representable.1, rfl⟩
    · exact fun hx => hx.2.symm
  · rw [hunits, number?]
    refine iff_of_false (Option.some_ne_none x).symm ?_
    rintro ⟨hlt, rfl⟩
    exact absurd (units_lt_iff.mp hlt) (Nat.not_lt.mpr hle)

end Magnitude

/-! ## What digits denote -/

namespace Radix

/-- The `number` of the digits is rounded to the magnitude nearest to it. -/
theorem ofRatio_number_eq_iff {base : Radix} {digits : List Nat} {magnitude : Magnitude} :
    Magnitude.ofRatio (base.number digits * unitsPerOne) 1 = magnitude ↔
      magnitude.IsNearest (base.number digits) := by
  refine Magnitude.ofRatio_eq_iff Nat.one_pos ?_
  rw [Nat.cast_one, div_one, Nat.cast_mul]

/-- Digits that fill `2 ^ 53` are rounded to a number, which is far from the end
of the doubles: they come to no more than `base.size * 2 ^ 53`. -/
theorem Fills.number?_ofRatio {base : Radix} {front : List Nat} (h : base.Fills front)
    (hdigits : ∀ digit ∈ front, digit < base.size) :
    (Magnitude.ofRatio (base.number front * unitsPerOne) 1).number? =
      some ((roundUnits (base.number front * unitsPerOne) 1 : ℚ) / unitsPerOne) := by
  rw [← Magnitude.ofRatio_roundUnits, Magnitude.number?_ofRatio (precise_roundUnits _ _)]
  refine ⟨Magnitude.units_lt_iff.mpr ?_, rfl⟩
  calc roundUnits (base.number front * unitsPerOne) 1
      ≤ 2 ^ (53 : Nat) * base.size * unitsPerOne := h.roundUnits_le hdigits
    _ = 2 ^ (53 + base.bits + unitExponent) := by
        rw [base.size_eq, unitsPerOne, ← Nat.pow_add, ← Nat.pow_add]
    _ < overflowUnits := Nat.pow_lt_pow_right (by decide) (by cases base <;> decide)

/-- `Denotes base digits double` says which double digits denote. It is the
number that they stand for, if that is less than 2^53. Otherwise it is what the
digits that come to 2^53 are rounded to, times the base for every digit behind
them, or infinite if that is 2^1024 or more. -/
inductive Denotes (base : Radix) : List Nat → Binary64 → Prop where
  | exact {digits : List Nat} {double : Binary64} (h : base.number digits < 2 ^ 53)
      (hdouble : double.number? = some (base.number digits : ℚ)) : Denotes base digits double
  | scaled {front back : List Nat} {rounded : Magnitude} {x : ℚ} {double : Binary64}
      (h : base.Fills front) (hrounded : rounded.IsNearest (base.number front))
      (hx : rounded.number? = some x) (hfinite : x * base.size ^ back.length < 2 ^ 1024)
      (hdouble : double.number? = some (x * base.size ^ back.length)) :
      Denotes base (front ++ back) double
  | infinite {front back : List Nat} {rounded : Magnitude} {x : ℚ}
      (h : base.Fills front) (hrounded : rounded.IsNearest (base.number front))
      (hx : rounded.number? = some x) (hbeyond : 2 ^ 1024 ≤ x * base.size ^ back.length) :
      Denotes base (front ++ back) (.signed false .infinite)

end Radix

/-! ## What a numeral denotes -/

namespace Numeral

variable {base : Radix} {digits : List Nat} {text : List Char}

/-- The digits that a text `Spells` are digits of its base. -/
theorem lt_size_of_spells (h : (radix base digits).Spells text) :
    ∀ digit ∈ digits, digit < base.size := by
  cases h with
  | radix _ _ hdigits =>
    clear * - hdigits
    induction hdigits with
    | nil => nofun
    | cons hdigit _ ih => exact List.forall_mem_cons.mpr ⟨hdigit.2, ih⟩

/-- The double that digits denote has no sign, and the magnitude of the closed
form `units` of `ReadsAs`. -/
theorem value_radix_of_readsAs {units : Nat} (h : base.ReadsAs digits units)
    (hdigits : ∀ digit ∈ digits, digit < base.size) :
    (radix base digits).value = .signed false (.ofRatio units 1) :=
  congrArg (Binary64.signed false) (h.readDigits_eq hdigits)

/-- A numeral in another base is a number if the closed form of its digits is
below `2 ^ 1024`, and it is that number then. -/
theorem number?_value_radix {units : Nat} (h : base.ReadsAs digits units)
    (hdigits : ∀ digit ∈ digits, digit < base.size) {x : ℚ} :
    (radix base digits).value.number? = some x ↔ x < 2 ^ 1024 ∧ x = units / unitsPerOne := by
  rw [value_radix_of_readsAs h hdigits, ← Magnitude.number?_ofRatio h.precise]
  exact (Binary64.number?_signed_eq_some_iff).trans
    ⟨fun ⟨_, hv, hx⟩ => hx ▸ hv, fun hx => ⟨x, hx, rfl⟩⟩

/-- Below `2 ^ 53` the value of a numeral in another base is the `number` of its
digits, as it should be everywhere. -/
theorem number?_value_radix_of_lt (h : base.number digits < 2 ^ 53)
    (hdigits : ∀ digit ∈ digits, digit < base.size) :
    (radix base digits).value.number? = some (base.number digits : ℚ) := by
  have hunits :
      ((base.number digits * unitsPerOne : Nat) : ℚ) / unitsPerOne = base.number digits := by
    rw [Nat.cast_mul, mul_div_cancel_right₀ _ cast_unitsPerOne_pos.ne']
  rw [number?_value_radix (.exact h) hdigits, hunits]
  have hbound : (base.number digits : ℚ) < 2 ^ 53 := by exact_mod_cast h
  exact ⟨hbound.trans (pow_lt_pow_right₀ (by norm_num) (by norm_num)), rfl⟩

theorem isNearest_of_signed {x : ℚ} {magnitude : Magnitude}
    (h : (Binary64.signed false magnitude).IsNearest x) : magnitude.IsNearest x := by
  cases h with
  | positive _ h => exact h

/-- A numeral in another base denotes what the closed form says. The cases are
those of `ReadsAs`, and whether the result is finite. -/
theorem denotes_value_radix (hdigits : ∀ digit ∈ digits, digit < base.size) :
    base.Denotes digits (radix base digits).value := by
  obtain ⟨units, hreads⟩ := base.exists_readsAs digits
  cases hreads with
  | exact h => exact .exact h (number?_value_radix_of_lt h hdigits)
  | @scaled front back h =>
    have hrounded : (Magnitude.ofRatio (base.number front * unitsPerOne) 1).IsNearest _ :=
      Radix.ofRatio_number_eq_iff.mp rfl
    have hx := h.number?_ofRatio fun digit hdigit => hdigits digit (List.mem_append_left _ hdigit)
    have hunits : ((roundUnits (base.number front * unitsPerOne) 1 : ℚ) / unitsPerOne) *
        base.size ^ back.length =
          ((roundUnits (base.number front * unitsPerOne) 1 * base.size ^ back.length : Nat) : ℚ) /
            unitsPerOne := by
      rw [div_mul_eq_mul_div, Nat.cast_mul, Nat.cast_pow]
    by_cases hfinite : ((roundUnits (base.number front * unitsPerOne) 1 : ℚ) / unitsPerOne) *
        base.size ^ back.length < 2 ^ 1024
    · exact .scaled h hrounded hx hfinite
        ((number?_value_radix (.scaled back h) hdigits).mpr ⟨hfinite, hunits⟩)
    · have hbeyond : overflowUnits ≤
          roundUnits (base.number front * unitsPerOne) 1 * base.size ^ back.length := by
        rwa [hunits, Magnitude.units_lt_iff, Nat.not_lt] at hfinite
      rw [value_radix_of_readsAs (.scaled back h) hdigits,
        Magnitude.ofRatio_of_le (by rwa [Nat.div_one])]
      exact .infinite h hrounded hx (not_lt.mp hfinite)

/-- **What a numeral in another base denotes.** It is read as the number that
its digits stand for, if that is less than `2 ^ 53`, just as the decimal numeral
for it is. Otherwise the digits that come to `2 ^ 53` are rounded, and every
digit behind them, whichever it is, multiplies by the base: this is
`Radix.Denotes`. The order of the numbers is kept, but what they are rounded to
need not be found. -/
theorem value_radix :
    (∀ (base : Radix) (digits : List Nat) (text : List Char), (radix base digits).Spells text →
      read? text = some (radix base digits) ∧
      base.Denotes digits (radix base digits).value ∧
      (∀ front back back' text', digits = front ++ back → base.Fills front →
        (radix base (front ++ back')).Spells text' → back.length = back'.length →
          (radix base digits).value = (radix base (front ++ back')).value) ∧
      (∀ digits' text', (radix base digits').Spells text' →
        base.number digits ≤ base.number digits' →
          ∀ x', (radix base digits').value.number? = some x' →
            ∃ x, (radix base digits).value.number? = some x ∧ x ≤ x') ∧
      (base.number digits < 2 ^ 53 → ∀ text', Writes text' (base.number digits) →
        ∃ numeral, read? text' = some numeral ∧
          numeral.value.number? = (radix base digits).value.number?)) ∧
    ∃ digits, (radix .hexadecimal digits).Spells "0x200000000000011".toList ∧
      ¬ (radix .hexadecimal digits).value.IsNearest (Radix.hexadecimal.number digits) := by
  refine ⟨fun base digits text h => ?_, ?_⟩
  · have hdigits := lt_size_of_spells h
    refine ⟨read?_eq_some_iff.mpr h, denotes_value_radix hdigits, ?_, ?_, ?_⟩
    · -- the closed form has only the number of the digits behind in it
      rintro front back back' text' rfl hfills h' hlength
      rw [value_radix_of_readsAs (.scaled back hfills) hdigits,
        value_radix_of_readsAs (.scaled back' hfills) (lt_size_of_spells h'), hlength]
    · intro digits' text' h' hle x' hx'
      obtain ⟨units, hreads⟩ := base.exists_readsAs digits
      obtain ⟨units', hreads'⟩ := base.exists_readsAs digits'
      have hdigits' := lt_size_of_spells h'
      obtain ⟨hfinite, rfl⟩ := (number?_value_radix hreads' hdigits').mp hx'
      have hunits : (units : ℚ) / unitsPerOne ≤ units' / unitsPerOne :=
        div_le_div_of_nonneg_right (by exact_mod_cast hreads.mono hreads' hdigits hdigits' hle)
          cast_unitsPerOne_pos.le
      exact ⟨_, (number?_value_radix hreads hdigits).mpr ⟨hunits.trans_lt hfinite, rfl⟩, hunits⟩
    · -- both denote a number that is not rounded
      intro hlt text' hwrites
      obtain ⟨negative, d, hspells, hexact⟩ := writes_iff.mp hwrites
      have hnearest := isNearest_value negative d
      rw [← hexact] at hnearest
      have hvalue := number?_value_radix_of_lt hlt hdigits
      exact ⟨_, read?_eq_some_iff.mpr hspells, (hnearest.number?_of_eq hvalue).trans hvalue.symm⟩
  · -- 2^57 + 17 is nearer to 2^57 + 32 than to 2^57, and read as 2^57
    let digits := 2 :: List.replicate 12 0 ++ [1, 1]
    refine ⟨digits, read?_eq_some_iff.mp (by decide +kernel), fun hnearest => ?_⟩
    have hround := Radix.ofRatio_number_eq_iff.mpr (isNearest_of_signed hnearest)
    exact absurd hround (by decide +kernel)

/-- `value_radix` at two numerals that differ behind the digits which come to
2^53. -/
theorem value_radix_rounded :
    ∃ digits digits',
      read? "0x200000000000011".toList = some (radix .hexadecimal digits) ∧
      read? "0X20000000000001f".toList = some (radix .hexadecimal digits') ∧
      (radix .hexadecimal digits).value = (radix .hexadecimal digits').value := by
  let front := 2 :: List.replicate 12 0 ++ [1]
  have hspells : (radix .hexadecimal (front ++ [1])).Spells "0x200000000000011".toList :=
    read?_eq_some_iff.mp (by decide +kernel)
  have hspells' : (radix .hexadecimal (front ++ [15])).Spells "0X20000000000001f".toList :=
    read?_eq_some_iff.mp (by decide +kernel)
  have hfills : Radix.hexadecimal.Fills front := by
    refine ⟨by decide +kernel, fun shorter hshorter hne => ?_⟩
    obtain ⟨rest, hrest⟩ := (List.prefix_concat_iff.mp hshorter).resolve_left hne
    have hbefore : Radix.hexadecimal.number (2 :: List.replicate 12 0) < 2 ^ 53 := by decide +kernel
    rw [← hrest] at hbefore
    exact Nat.lt_of_le_of_lt (Radix.number_le_append shorter rest) hbefore
  obtain ⟨hread, -, hsame, -, -⟩ := value_radix.1 _ _ _ hspells
  obtain ⟨hread', -⟩ := value_radix.1 _ _ _ hspells'
  exact ⟨_, _, hread, hread', hsame front [1] [15] _ rfl hfills hspells' rfl⟩

end Numeral

end ListQuery.Number
