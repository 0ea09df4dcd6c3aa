import ListQuery.Number.Binary64

/-!
# Decimal numbers

A decimal number is a whole number times a power of ten, of any size, and stands
for the double nearest to it (`Decimal.nearest`). The power of ten is computed
only where it matters: numbers that are too large or too small for a double by
their exponent alone are infinite or zero without it, and that changes nothing
(`nearest_eq_ofRatio`).
-/

namespace ListQuery.Number

-- A power of natural numbers is `Nat.pow`, whatever other instances are at hand.
attribute [local instance (high)] instPowNat

/-- The number `digits * 10 ^ exponent`. The same number has many such forms,
and zeros behind the digits are not taken off. -/
structure Decimal where
  digits : Nat
  exponent : Int
  deriving DecidableEq, Repr

namespace Decimal

/-- The numerator of the number as a quotient of units. -/
def numerator (d : Decimal) : Nat := d.digits * 10 ^ d.exponent.toNat * unitsPerOne

/-- The denominator of the number as a quotient of units. -/
def denominator (d : Decimal) : Nat := 10 ^ (-d.exponent).toNat

/-- The double nearest to the number. A power of ten is at least the same power
of eight (`two_pow_le_ten_pow`), so a large exponent alone tells that a number
is beyond all doubles, and a large negative one that it is nearer to zero than
to the smallest of them. -/
def nearest (d : Decimal) : Magnitude :=
  if d.digits = 0 then .zero
  else if topExponent ≤ 3 * d.exponent.toNat then .infinite
  else if d.digits.log2 + unitExponent + 2 ≤ 3 * (-d.exponent).toNat then .zero
  else .ofRatio d.numerator d.denominator

theorem denominator_pos (d : Decimal) : 0 < d.denominator := Nat.pow_pos (by decide)

/-- A power of ten is at least the same power of eight. -/
theorem two_pow_le_ten_pow (n : Nat) : 2 ^ (3 * n) ≤ 10 ^ n := by
  rw [Nat.pow_mul]
  exact Nat.pow_le_pow_left (by decide) n

/-- A number with a digit and a large exponent is beyond all doubles. One digit
is enough, since the exponent alone makes a power of two that reaches
`overflowUnits`. -/
theorem overflowUnits_le_numerator {d : Decimal} (hdigits : d.digits ≠ 0)
    (h : topExponent ≤ 3 * d.exponent.toNat) : overflowUnits ≤ d.numerator := by
  have hpow : 2 ^ topExponent ≤ 10 ^ d.exponent.toNat :=
    Nat.le_trans (Nat.pow_le_pow_right (by decide) h) (two_pow_le_ten_pow _)
  have hle : 2 ^ topExponent ≤ d.digits * 10 ^ d.exponent.toNat :=
    Nat.le_trans hpow (Nat.le_mul_of_pos_left _ (Nat.pos_of_ne_zero hdigits))
  rw [overflowUnits, Nat.pow_add]
  exact Nat.mul_le_mul_right _ hle

/-- A number with a large negative exponent is less than half a unit. How large
depends on the number of its digits, which `Nat.log2` bounds. -/
theorem numerator_lt_half {d : Decimal}
    (h : d.digits.log2 + unitExponent + 2 ≤ 3 * (-d.exponent).toNat) :
    2 * d.numerator < d.denominator := by
  have hexp : d.exponent.toNat = 0 := by omega
  calc 2 * d.numerator
      = 2 * d.digits * unitsPerOne := by rw [numerator, hexp]; simp [Nat.mul_assoc]
    _ < 2 * 2 ^ (d.digits.log2 + 1) * unitsPerOne :=
      Nat.mul_lt_mul_of_pos_right (Nat.mul_lt_mul_of_pos_left Nat.lt_log2_self (by decide))
        (Nat.two_pow_pos _)
    _ = 2 ^ (d.digits.log2 + unitExponent + 2) := by
      rw [unitsPerOne, ← Nat.pow_succ', ← Nat.pow_add, show d.digits.log2 + 1 + 1 + unitExponent =
        d.digits.log2 + unitExponent + 2 by omega]
    _ ≤ 2 ^ (3 * (-d.exponent).toNat) := Nat.pow_le_pow_right (by decide) h
    _ ≤ d.denominator := two_pow_le_ten_pow _

/-- **The double is the one nearest to the exact value, whatever the exponent**:
the two short cuts of `nearest` give what the powers of ten would give. -/
theorem nearest_eq_ofRatio (d : Decimal) : d.nearest = .ofRatio d.numerator d.denominator := by
  unfold nearest
  split
  · next hzero =>
    refine (Magnitude.ofRatio_of_lt_half ?_).symm
    simpa [numerator, hzero] using d.denominator_pos
  split
  · next hdigits hexp =>
    have hone : d.denominator = 1 := by
      rw [denominator, show (-d.exponent).toNat = 0 by unfold topExponent at hexp; omega,
        Nat.pow_zero]
    refine (Magnitude.ofRatio_of_le ?_).symm
    rw [hone, Nat.div_one]
    exact overflowUnits_le_numerator hdigits hexp
  split
  · next hsmall => exact (Magnitude.ofRatio_of_lt_half (numerator_lt_half hsmall)).symm
  · rfl

end Decimal

end ListQuery.Number
