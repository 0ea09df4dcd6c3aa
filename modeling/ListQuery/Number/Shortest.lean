import ListQuery.Number.Decimal

/-!
# The shortest decimal of a double

Of the decimals whose nearest double is a given one, `shortest` finds one with
the fewest digits, and of these the one nearest to the double, an even last
digit winning a tie. On the grid of multiples of a power of ten only the two
neighbours of the double have to be tried, and the grids are tried from the
coarsest, that of the leading digit, to the finest. Seventeen digits always do;
the exact decimal expansion stands behind them, so that whatever is found reads
back (`readsBack_shortest`).
-/

namespace ListQuery.Number

-- A power of natural numbers is `Nat.pow`, whatever other instances are at hand.
attribute [local instance (high)] instPowNat

/-- The exact decimal expansion of a magnitude: a unit is 5^1074 times
10^-1074. -/
def expansion (units : Nat) : Decimal := ⟨units * 5 ^ unitExponent, -(unitExponent : Int)⟩

/-- `readsBack units d` is true if the double nearest to `d` is the one with so
many units. -/
def readsBack (units : Nat) (d : Decimal) : Bool :=
  match d.nearest with
  | .finite nearest _ => nearest == units
  | .infinite => false

/-- The two multiples of `10 ^ exponent` around a magnitude, the nearer one
first. A magnitude on the grid is the first of them. -/
def gridNeighbours (units : Nat) (exponent : Int) : List Decimal :=
  let num := units * 10 ^ (-exponent).toNat
  let den := unitsPerOne * 10 ^ exponent.toNat
  let nearer := divNearestEven num den
  let farther := if nearer = num / den then nearer + 1 else num / den
  [⟨nearer, exponent⟩, ⟨farther, exponent⟩]

/-- So many decimal places that even a single unit has a digit in them. -/
def amplePlaces : Nat := 400

/-- The least power of ten beyond a magnitude: the length of its whole part,
once it is scaled up so that even a single unit has one. -/
def magnitudeExponent (units : Nat) : Int :=
  (Nat.toDigits 10 (units * 10 ^ amplePlaces / unitsPerOne)).length - amplePlaces

/-- The decimal with the fewest digits that `readsBack` accepts: that of the
first grid with a neighbour that does. Zero has the digit 0. -/
def shortest (units : Nat) : Decimal :=
  if units = 0 then ⟨0, 0⟩
  else
    let grids := (List.range 17).map fun (k : Nat) => magnitudeExponent units - (k + 1)
    (grids.findSome? fun grid => (gridNeighbours units grid).find? (readsBack units)).getD
      (expansion units)

theorem divNearestEven_mul_self (n : Nat) {den : Nat} (h : 0 < den) :
    divNearestEven (n * den) den = n := by
  simp [divNearestEven, Nat.mul_div_cancel n h, h]

/-- A `Representable` number of units rounds to itself, since it is a multiple
of the step that it is rounded to. -/
theorem roundUnits_mul_self {units den : Nat} (h : Representable units) (hden : 0 < den) :
    roundUnits (units * den) den = units := by
  obtain ⟨k, hk⟩ := h.2
  have hstep : units * den / den = units := Nat.mul_div_cancel units hden
  have hpos : 0 < den * 2 ^ (units.log2 - 52) := Nat.mul_pos hden (Nat.two_pow_pos _)
  have hnum : units * den = k * (den * 2 ^ (units.log2 - 52)) := by
    conv => lhs; rw [hk]
    ac_rfl
  rw [roundUnits, hstep, hnum, divNearestEven_mul_self k hpos, Nat.mul_comm]
  exact hk.symm

theorem five_pow_mul_two_pow (n : Nat) : 5 ^ n * 2 ^ n = 10 ^ n := (Nat.mul_pow 5 2 n).symm

/-- The exact `expansion` has the value of the magnitude: so many units, over
its denominator. The twos of a unit cancel against those of the powers of
ten. -/
theorem numerator_expansion (units : Nat) :
    (expansion units).numerator = units * (expansion units).denominator := by
  simp only [Decimal.numerator, Decimal.denominator, expansion, unitsPerOne]
  generalize unitExponent = n
  rw [Int.neg_neg, Int.toNat_natCast, show (-(n : Int)).toNat = 0 by omega, Nat.pow_zero,
    Nat.mul_one, Nat.mul_assoc, five_pow_mul_two_pow]

/-- The double nearest to a magnitude that is one is that magnitude. So the
decimal with its exact value reads back, however many digits it has. -/
theorem ofRatio_mul_self {units den : Nat} (h : Representable units) (hden : 0 < den) :
    Magnitude.ofRatio (units * den) den = .finite units h := by
  have hround := roundUnits_mul_self h hden
  have hlt : roundUnits (units * den) den < overflowUnits := by
    rw [hround]
    exact h.1
  rw [Magnitude.ofRatio, dif_pos hlt]
  congr

theorem readsBack_expansion {units : Nat} (h : Representable units) :
    readsBack units (expansion units) = true := by
  rw [readsBack, Decimal.nearest_eq_ofRatio, numerator_expansion,
    ofRatio_mul_self h (expansion units).denominator_pos]
  exact beq_self_eq_true units

/-- **The shortest decimal reads back**: what a grid gives is tested, and where
none gives anything, the exact expansion stands in. -/
theorem readsBack_shortest {units : Nat} (h : Representable units) :
    readsBack units (shortest units) = true := by
  unfold shortest
  split
  · next hzero =>
    subst hzero
    simp [readsBack, Decimal.nearest, Magnitude.zero]
  · simp only
    cases hfound : List.findSome? _ _ with
    | none => exact readsBack_expansion h
    | some d =>
      obtain ⟨grid, _, hgrid⟩ := List.exists_of_findSome?_eq_some hfound
      exact List.find?_some (p := readsBack units) hgrid

end ListQuery.Number
