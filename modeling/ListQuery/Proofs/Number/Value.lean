import Mathlib.Data.Rat.Floor
import ListQuery.Proofs.Number.Grammar
import ListQuery.Proofs.Number.Nearest

/-!
# The numbers that doubles are

Doubles and decimals as exact numbers, and what it is for one to be the double
nearest to the other.

* **`Magnitude.IsNearest`**, **`Binary64.IsNearest`** — the nearest double, or
  infinity where the rounded number is beyond all doubles. Zero has two of them.
* **`Decimal.nearest_eq_iff`** — the crux: a decimal stands for the double
  nearest to its exact value, and its digits have no other say.
* **`IsNearest.mono`**, **`IsNearest.number?_intCast`**,
  **`IsNearest.exists_number?`** — rounding keeps the order, leaves whole
  numbers up to 2^53 alone and stays finite up to 2^64.
* **`Binary64.truncate?_eq`** — the fraction is cut off toward zero.
* **`Numeral.writes_iff`** — the number that a decimal numeral writes, told by
  its parts.
-/

namespace ListQuery.Number

-- A power of natural numbers is `Nat.pow`, whatever other instances are at hand.
attribute [local instance (high)] instPowNat

theorem unitsPerOne_pos : 0 < unitsPerOne := Nat.two_pow_pos _

theorem cast_unitsPerOne_pos : (0 : ℚ) < unitsPerOne := by exact_mod_cast unitsPerOne_pos

/-! ## Magnitudes -/

namespace Magnitude

/-- The number that a finite magnitude is. -/
def number? : Magnitude → Option ℚ
  | .finite units _ => some (units / unitsPerOne)
  | .infinite => none

theorem number?_zero : zero.number? = some 0 := by
  show some (((0 : Nat) : ℚ) / unitsPerOne) = some 0
  rw [Nat.cast_zero, zero_div]

/-- The magnitude is the nearest to `x`, a number from zero on. It is infinite
if the number is rounded to 2^1024 or more, by 53 bits without an upper end. -/
inductive IsNearest (x : ℚ) : Magnitude → Prop where
  | finite {units : Nat} (representable : Representable units)
      (h : RoundsTo (x * unitsPerOne) units) : IsNearest x (.finite units representable)
  | infinite {units : Nat} (hbeyond : overflowUnits ≤ units)
      (h : RoundsTo (x * unitsPerOne) units) : IsNearest x .infinite

/-- `ofRatio` rounds a quotient of units to the nearest magnitude, and there is
no other that `IsNearest` holds of. The quotient `num / den` need not be in
lowest terms, since only its value matters. -/
theorem ofRatio_eq_iff {x : ℚ} {num den : Nat} (hden : 0 < den)
    (hx : x * unitsPerOne = (num : ℚ) / den) {magnitude : Magnitude} :
    ofRatio num den = magnitude ↔ magnitude.IsNearest x := by
  have hround : ∀ {units : Nat}, RoundsTo (x * unitsPerOne) units ↔ roundUnits num den = units := by
    rw [hx]
    exact roundsTo_iff hden
  constructor
  · intro h
    rw [← h, ofRatio]
    split
    · exact .finite _ (hround.mpr rfl)
    · next hbeyond => exact .infinite (Nat.not_lt.mp hbeyond) (hround.mpr rfl)
  · intro h
    rw [ofRatio]
    cases h with
    | finite representable h =>
      obtain rfl := hround.mp h
      exact dif_pos representable.1
    | infinite hbeyond h =>
      obtain rfl := hround.mp h
      exact dif_neg (Nat.not_lt.mpr hbeyond)

/-- A magnitude is the nearest to its own number. -/
theorem isNearest_self {magnitude : Magnitude} {x : ℚ} (h : magnitude.number? = some x) :
    magnitude.IsNearest x := by
  cases magnitude with
  | infinite => cases h
  | finite units representable =>
    obtain rfl := Option.some.inj h
    refine .finite representable ?_
    rw [div_mul_cancel₀ _ cast_unitsPerOne_pos.ne']
    exact roundsTo_self representable.2

theorem number?_nonneg {magnitude : Magnitude} {x : ℚ} (h : magnitude.number? = some x) :
    0 ≤ x := by
  cases magnitude with
  | infinite => cases h
  | finite units representable =>
    obtain rfl := Option.some.inj h
    exact div_nonneg (Nat.cast_nonneg units) (Nat.cast_nonneg unitsPerOne)

variable {x y v w : ℚ} {magnitude other : Magnitude}

/-- Rounding keeps the order of numbers from zero on (`RoundsTo.mono`). -/
theorem IsNearest.mono (h : magnitude.IsNearest x) (h' : other.IsNearest y) (hxy : x ≤ y)
    (hv : magnitude.number? = some v) (hw : other.number? = some w) : v ≤ w := by
  have hunits := mul_le_mul_of_nonneg_right hxy cast_unitsPerOne_pos.le
  cases h with
  | infinite => cases hv
  | finite _ h =>
    cases h' with
    | infinite => cases hw
    | finite _ h' =>
      rw [← Option.some.inj hv, ← Option.some.inj hw]
      have hle := h.mono h' hunits
      exact div_le_div_of_nonneg_right (by exact_mod_cast hle) cast_unitsPerOne_pos.le

/-- The magnitudes nearest to one number are the same number. -/
theorem IsNearest.number?_congr (h : magnitude.IsNearest x) (h' : other.IsNearest x) :
    magnitude.number? = other.number? := by
  -- one rounded number is not below the end of the doubles and beyond it
  cases h with
  | finite representable h =>
    cases h' with
    | finite _ h' => rw [number?, number?, h.unique h']
    | infinite hbeyond h' => exact absurd representable.1 (Nat.not_lt.mpr (h.unique h' ▸ hbeyond))
  | infinite hbeyond h =>
    cases h' with
    | finite representable h' =>
      exact absurd representable.1 (Nat.not_lt.mpr (h'.unique h ▸ hbeyond))
    | infinite => rfl

/-- Rounding stays finite below a number `y` that is a double: it cannot get
past what is rounded to itself. -/
theorem IsNearest.exists_number?_of_le (h : magnitude.IsNearest x) (hxy : x ≤ y)
    (hy : other.number? = some y) : ∃ v, magnitude.number? = some v := by
  cases h with
  | finite => exact ⟨_, rfl⟩
  | infinite hbeyond h =>
    have hunits := mul_le_mul_of_nonneg_right hxy cast_unitsPerOne_pos.le
    cases isNearest_self hy with
    | infinite => cases hy
    | finite representable h' =>
      exact absurd representable.1 (Nat.not_lt.mpr (hbeyond.trans (h.mono h' hunits)))

/-- A whole number with a significand of 53 bits or less is a double, if it is
not too large. -/
theorem exists_number?_natCast {lead shift : Nat} (hlead : lead ≤ 2 ^ 53) (hshift : shift < 970) :
    ∃ magnitude : Magnitude, magnitude.number? = some ((lead * 2 ^ shift : Nat) : ℚ) := by
  have hunits : lead * 2 ^ shift * unitsPerOne = lead * 2 ^ (shift + unitExponent) := by
    rw [unitsPerOne, Nat.pow_add, Nat.mul_assoc]
  have hlt : lead * 2 ^ (shift + unitExponent) < overflowUnits := by
    calc lead * 2 ^ (shift + unitExponent)
        ≤ 2 ^ 53 * 2 ^ (shift + unitExponent) := Nat.mul_le_mul_right _ hlead
      _ = 2 ^ (53 + (shift + unitExponent)) := (Nat.pow_add ..).symm
      _ < overflowUnits := Nat.pow_lt_pow_right (by decide) (by unfold topExponent; omega)
  refine ⟨.finite _ ⟨hlt, precise_mul_two_pow hlead⟩, ?_⟩
  show some ((_ : ℚ) / _) = _
  rw [← hunits, Nat.cast_mul, mul_div_cancel_right₀ _ cast_unitsPerOne_pos.ne']

end Magnitude

/-! ## Decimals -/

namespace Decimal

/-- The number that a decimal is, `digits * 10 ^ exponent`, whatever the size of
its exponent. -/
def exact (d : Decimal) : ℚ := d.digits * 10 ^ d.exponent

theorem exact_nonneg (d : Decimal) : 0 ≤ d.exact :=
  mul_nonneg (Nat.cast_nonneg _) (zpow_nonneg (by norm_num) _)

/-- The `numerator` and the `denominator` of a decimal are its `exact` value in
units. Only one of the two powers of ten in them is not one. -/
theorem exact_mul_unitsPerOne (d : Decimal) :
    d.exact * unitsPerOne = (d.numerator : ℚ) / d.denominator := by
  rw [exact, numerator, denominator]
  generalize unitsPerOne = units
  obtain ⟨n, hn | hn⟩ := d.exponent.eq_nat_or_neg
  · rw [hn, Int.toNat_natCast, show (-(n : ℤ)).toNat = 0 from by omega, zpow_natCast]
    push_cast
    rw [div_one]
  · rw [hn, Int.neg_neg, Int.toNat_natCast, show (-(n : ℤ)).toNat = 0 from by omega, zpow_neg,
      zpow_natCast]
    push_cast
    field_simp

theorem nearest_eq_iff {d : Decimal} {magnitude : Magnitude} :
    d.nearest = magnitude ↔ magnitude.IsNearest d.exact := by
  rw [nearest_eq_ofRatio, Magnitude.ofRatio_eq_iff d.denominator_pos d.exact_mul_unitsPerOne]

/-- Decimals of the same `exact` value stand for the same magnitude, whatever
their digits. -/
theorem nearest_congr {d d' : Decimal} (h : d.exact = d'.exact) : d.nearest = d'.nearest := by
  rw [nearest_eq_iff, h, ← nearest_eq_iff]

end Decimal

/-! ## Signs -/

/-- The number `x`, or its opposite. The sign stands apart from the number, as
it does in a `Binary64` and in a numeral, since a zero can have one. -/
def withSign (negative : Bool) (x : ℚ) : ℚ := if negative then -x else x

theorem withSign_natAbs (n : ℤ) : withSign (decide (n < 0)) n.natAbs = n := by
  rw [withSign, Nat.cast_natAbs]
  split
  · next h => rw [abs_of_neg (of_decide_eq_true h), Int.cast_neg, neg_neg]
  · next h => rw [abs_of_nonneg (by simpa using h)]

/-! ## Doubles -/

/-- The whole number that is left of `x` when the fraction is cut off: the next
one toward zero, which is the floor from zero on and the ceiling below. -/
def cutOff (x : ℚ) : ℤ := if x < 0 then ⌈x⌉ else ⌊x⌋

theorem cutOff_of_nonneg {x : ℚ} (h : 0 ≤ x) : cutOff x = ⌊x⌋ := if_neg (not_lt.mpr h)

theorem cutOff_neg (x : ℚ) : cutOff (-x) = -cutOff x := by
  rcases lt_trichotomy x 0 with h | rfl | h
  · rw [cutOff, cutOff, if_neg (by linarith), if_pos h, Int.floor_neg]
  · simp [cutOff]
  · rw [cutOff, cutOff, if_pos (by linarith), if_neg (by linarith), Int.ceil_neg]

@[simp] theorem cutOff_intCast (n : ℤ) : cutOff n = n := by
  rw [cutOff, Int.ceil_intCast, Int.floor_intCast, ite_self]

/-- `cutOff` keeps the order, also across zero, where the floor and the ceiling
meet. -/
theorem cutOff_mono {x y : ℚ} (h : x ≤ y) : cutOff x ≤ cutOff y := by
  unfold cutOff
  split <;> split
  · exact Int.ceil_mono h
  · next hx hy => exact (Int.ceil_nonpos.mpr hx.le).trans (Int.floor_nonneg.mpr (not_lt.mp hy))
  · next hx hy => exact absurd (h.trans_lt hy) hx
  · exact Int.floor_mono h

/-- `cutOff` leaves nothing of the numbers between minus one and one. These are
the numbers that are of no use as a page or a limit. -/
theorem cutOff_eq_zero_iff {x : ℚ} : cutOff x = 0 ↔ |x| < 1 := by
  rw [abs_lt, cutOff]
  split
  · next h =>
    rw [Int.ceil_eq_zero_iff, Set.mem_Ioc]
    exact ⟨fun hx => ⟨hx.1, by linarith⟩, fun hx => ⟨hx.1, h.le⟩⟩
  · next h =>
    rw [Int.floor_eq_zero_iff, Set.mem_Ico]
    exact ⟨fun hx => ⟨by linarith [not_lt.mp h], hx.2⟩, fun hx => ⟨not_lt.mp h, hx.2⟩⟩

namespace Binary64

/-- The number that a finite double is. -/
def number? : Binary64 → Option ℚ
  | .signed negative magnitude => magnitude.number?.map (withSign negative)
  | .nan => none

theorem number?_signed_eq_some_iff {negative : Bool} {magnitude : Magnitude} {x : ℚ} :
    (signed negative magnitude).number? = some x ↔
      ∃ v, magnitude.number? = some v ∧ withSign negative v = x :=
  Option.map_eq_some_iff

/-- `truncate?` cuts the fraction off the number that a double is. From here on
a double is its number, and its units are not looked at any more. -/
theorem truncate?_eq (double : Binary64) : double.truncate? = double.number?.map cutOff := by
  cases double with
  | nan => rfl
  | signed negative magnitude =>
    cases magnitude with
    | infinite => rfl
    | finite units representable =>
      have hwhole : cutOff ((units : ℚ) / unitsPerOne) = ((units / unitsPerOne : Nat) : ℤ) := by
        rw [cutOff_of_nonneg (by positivity), Rat.floor_natCast_div_natCast, Int.natCast_div]
      cases negative with
      | false => exact congrArg some hwhole.symm
      | true =>
        show some _ = some (cutOff (-_))
        rw [cutOff_neg, hwhole]
        rfl

/-- The double is the nearest to `x`: its magnitude is, and it has the sign of
the number. Zero has two of them. -/
inductive IsNearest (x : ℚ) : Binary64 → Prop where
  | positive {magnitude : Magnitude} (hx : 0 ≤ x) (h : magnitude.IsNearest x) :
      IsNearest x (.signed false magnitude)
  | negative {magnitude : Magnitude} (hx : x ≤ 0) (h : magnitude.IsNearest (-x)) :
      IsNearest x (.signed true magnitude)

/-- A sign in front of the nearest `Magnitude` makes the nearest `Binary64`,
since rounding does not depend on the sign. -/
theorem isNearest_withSign {magnitude : Magnitude} {x : ℚ} (hx : 0 ≤ x) (h : magnitude.IsNearest x)
    (negative : Bool) : IsNearest (withSign negative x) (.signed negative magnitude) := by
  cases negative with
  | false => exact .positive hx h
  | true => exact .negative (neg_nonpos.mpr hx) (by rwa [withSign, if_pos rfl, neg_neg])

/-- A double is the nearest to its own number. -/
theorem isNearest_self {double : Binary64} {x : ℚ} (h : double.number? = some x) :
    double.IsNearest x := by
  cases double with
  | nan => cases h
  | signed negative magnitude =>
    obtain ⟨v, hv, rfl⟩ := number?_signed_eq_some_iff.mp h
    exact isNearest_withSign (Magnitude.number?_nonneg hv) (Magnitude.isNearest_self hv) negative

variable {x y v w : ℚ} {double other : Binary64}

/-- The doubles nearest to one number are the same number: they have its sign,
and if it is zero they are both zero. -/
theorem IsNearest.number?_congr (h : double.IsNearest x) (h' : other.IsNearest x) :
    double.number? = other.number? := by
  have hzero : ∀ {magnitude other : Magnitude}, x = 0 → magnitude.IsNearest x →
      other.IsNearest (-x) → (signed false magnitude).number? = (signed true other).number? := by
    rintro magnitude other rfl h h'
    rw [neg_zero] at h'
    have hself := Magnitude.isNearest_self Magnitude.number?_zero
    rw [number?, number?, h.number?_congr hself, h'.number?_congr hself, Magnitude.number?_zero]
    exact congrArg some neg_zero.symm
  cases h with
  | positive hx h =>
    cases h' with
    | positive _ h' => rw [number?, number?, h.number?_congr h']
    | negative hx' h' => exact hzero (le_antisymm hx' hx) h h'
  | negative hx h =>
    cases h' with
    | positive hx' h' => exact (hzero (le_antisymm hx hx') h' h).symm
    | negative _ h' => rw [number?, number?, h.number?_congr h']

/-- Rounding keeps the order. The cases are those of the two signs. -/
theorem IsNearest.mono (h : double.IsNearest x) (h' : other.IsNearest y) (hxy : x ≤ y)
    (hv : double.number? = some v) (hw : other.number? = some w) : v ≤ w := by
  cases h with
  | positive hx h =>
    cases h' with
    | positive _ h' =>
      obtain ⟨_, hmagnitude, rfl⟩ := number?_signed_eq_some_iff.mp hv
      obtain ⟨_, hmagnitude', rfl⟩ := number?_signed_eq_some_iff.mp hw
      exact h.mono h' hxy hmagnitude hmagnitude'
    | negative hy h' =>
      -- both numbers are zero, and so are both doubles
      obtain rfl : x = y := le_antisymm hxy (hy.trans hx)
      have hsame := (IsNearest.positive hx h).number?_congr (.negative hy h')
      rw [hv, hw] at hsame
      exact (Option.some.inj hsame).le
  | negative hx h =>
    obtain ⟨_, hmagnitude, rfl⟩ := number?_signed_eq_some_iff.mp hv
    cases h' with
    | positive _ h' =>
      obtain ⟨_, hmagnitude', rfl⟩ := number?_signed_eq_some_iff.mp hw
      exact (neg_nonpos.mpr (Magnitude.number?_nonneg hmagnitude)).trans
        (Magnitude.number?_nonneg hmagnitude')
    | negative _ h' =>
      obtain ⟨_, hmagnitude', rfl⟩ := number?_signed_eq_some_iff.mp hw
      exact neg_le_neg (h'.mono h (neg_le_neg hxy) hmagnitude' hmagnitude)

theorem IsNearest.number?_of_eq (h : double.IsNearest x) (hother : other.number? = some x) :
    double.number? = some x := by
  rw [h.number?_congr (isNearest_self hother), hother]

/-- A whole number with a significand of 53 bits or less is a double, if it is
not too large. -/
theorem exists_number?_natCast {lead shift : Nat} (hlead : lead ≤ 2 ^ 53) (hshift : shift < 970) :
    ∃ double : Binary64, double.number? = some ((lead * 2 ^ shift : Nat) : ℚ) := by
  obtain ⟨magnitude, hmagnitude⟩ := Magnitude.exists_number?_natCast hlead hshift
  exact ⟨signed false magnitude, number?_signed_eq_some_iff.mpr ⟨_, hmagnitude, rfl⟩⟩

/-- A whole number up to `2 ^ 53`, of either sign, is not rounded: it is a
double itself. -/
theorem IsNearest.number?_intCast {n : ℤ} (h : double.IsNearest n) (hn : |n| ≤ 2 ^ 53) :
    double.number? = some (n : ℚ) := by
  have hlead : n.natAbs ≤ 2 ^ 53 := by
    rw [Int.abs_eq_natAbs] at hn
    exact_mod_cast hn
  obtain ⟨magnitude, hmagnitude⟩ :=
    Magnitude.exists_number?_natCast hlead (show 0 < 970 from by decide)
  rw [Nat.pow_zero, Nat.mul_one] at hmagnitude
  have hsigned : (signed (decide (n < 0)) magnitude).number? = some (n : ℚ) := by
    rw [number?, hmagnitude, Option.map_some, withSign_natAbs]
  exact h.number?_of_eq hsigned

/-- Up to `2 ^ 64` rounding stays finite, and so everywhere where the `cutOff`
of the result can be a 64-bit integer. -/
theorem IsNearest.exists_number? (h : double.IsNearest x) (hx : |x| ≤ 2 ^ 64) :
    ∃ v, double.number? = some v := by
  obtain ⟨bound, hbound⟩ :=
    Magnitude.exists_number?_natCast (show 1 ≤ 2 ^ 53 from by decide) (show 64 < 970 from by decide)
  have hfinite : ∀ {magnitude : Magnitude} {v : ℚ} (negative : Bool), magnitude.IsNearest v →
      v ≤ 2 ^ 64 → ∃ w, (signed negative magnitude).number? = some w := by
    intro magnitude v negative h hv
    obtain ⟨w, hw⟩ := h.exists_number?_of_le (by push_cast; linarith) hbound
    exact ⟨_, number?_signed_eq_some_iff.mpr ⟨w, hw, rfl⟩⟩
  cases h with
  | positive _ h => exact hfinite false h ((le_abs_self x).trans hx)
  | negative _ h => exact hfinite true h ((neg_le_abs x).trans hx)

end Binary64

/-! ## Decimal numerals -/

namespace Numeral

/-- The `value` of a decimal numeral is the double nearest to its `exact` value
with the sign in front. -/
theorem isNearest_value (negative : Bool) (d : Decimal) :
    (decimal negative d).value.IsNearest (withSign negative d.exact) :=
  Binary64.isNearest_withSign d.exact_nonneg (Decimal.nearest_eq_iff.mp rfl) negative

/-- `Writes text v` says that the text is a decimal numeral and that `v` is the
number which it writes: the digits in front of the point and the fraction behind
it, times a power of ten. -/
inductive Writes : List Char → ℚ → Prop where
  | intro {negative : Bool} {sign whole fraction mantissa tail : List Char} {exponent : Int}
      (hsign : Sign negative sign) (hmantissa : Mantissa whole fraction mantissa)
      (hexponent : Exponent exponent tail) :
      Writes (sign ++ (mantissa ++ tail))
        (withSign negative
          ((Nat.ofDigitChars 10 whole 0 + Nat.ofDigitChars 10 fraction 0 / 10 ^ fraction.length) *
            10 ^ exponent))

/-- Shifting the point behind the last digit leaves the number alone, if the
exponent makes up for it. This is the value that `decimal?` gives to what it
reads. -/
theorem exact_ofDigitChars_append (whole fraction : List Char) (exponent : Int) :
    (⟨Nat.ofDigitChars 10 (whole ++ fraction) 0, exponent - fraction.length⟩ : Decimal).exact =
      (Nat.ofDigitChars 10 whole 0 + Nat.ofDigitChars 10 fraction 0 / 10 ^ fraction.length) *
        10 ^ exponent := by
  rw [Decimal.exact, Nat.ofDigitChars_append, Nat.ofDigitChars_eq_ofDigitChars_zero,
    zpow_sub₀ (by norm_num), zpow_natCast]
  push_cast
  field_simp

/-- A text `Writes` the exact value of the decimal that it spells, and nothing
else writes a number. -/
theorem writes_iff {text : List Char} {v : ℚ} :
    Writes text v ↔
      ∃ negative d, (decimal negative d).Spells text ∧ v = withSign negative d.exact := by
  constructor
  · rintro ⟨hsign, hmantissa, hexponent⟩
    exact ⟨_, _, .decimal hsign hmantissa hexponent, by rw [exact_ofDigitChars_append]⟩
  · rintro ⟨negative, d, hspells, rfl⟩
    cases hspells with
    | decimal hsign hmantissa hexponent =>
      rw [exact_ofDigitChars_append]
      exact .intro hsign hmantissa hexponent

end Numeral

end ListQuery.Number
