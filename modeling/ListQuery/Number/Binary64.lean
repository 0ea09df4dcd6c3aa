/-!
# Doubles

Double-precision numbers as exact values. A finite magnitude is a whole number
of units of 2^-1074, the smallest magnitude there is, and a double is a
magnitude that 53 significant bits can hold (`Representable`). Every operation
computes exactly and then rounds once, to the nearest double with ties to the
even neighbour (`Magnitude.ofRatio`); what rounds to 2^1024 or more is infinite.

That a rounded quotient is representable is part of the type, and
`dvd_roundUnits` is the proof that `Magnitude.ofRatio` carries. Rounding reaches
infinity exactly from where it should: nothing at or above 2^1024 stays finite
(`ofRatio_of_le`), and less than half a unit is zero (`ofRatio_of_lt_half`).
-/

namespace ListQuery.Number

-- A power of natural numbers is `Nat.pow`, whatever other instances are at hand.
attribute [local instance (high)] instPowNat

/-! ### Rounding to the nearest whole number -/

/-- The quotient `num / den` rounded to the nearest whole number, and to the
even one of two that are equally near. -/
def divNearestEven (num den : Nat) : Nat :=
  let quotient := num / den
  let twice := 2 * (num % den)
  if twice < den ∨ twice = den ∧ quotient % 2 = 0 then quotient else quotient + 1

/-- `divNearestEven` does not go below the quotient with its fraction cut
off. -/
theorem div_le_divNearestEven (num den : Nat) : num / den ≤ divNearestEven num den := by
  simp only [divNearestEven]
  split <;> omega

theorem divNearestEven_le (num den : Nat) : divNearestEven num den ≤ num / den + 1 := by
  simp only [divNearestEven]
  split <;> omega

theorem divNearestEven_of_lt_half {num den : Nat} (h : 2 * num < den) :
    divNearestEven num den = 0 := by
  have hlt : num < den := by omega
  simp [divNearestEven, Nat.mod_eq_of_lt hlt, h, Nat.div_eq_of_lt hlt]

/-! ### Which magnitudes are doubles -/

/-- A unit is `2 ^ -unitExponent`, the least double above zero. -/
def unitExponent : Nat := 1074

/-- So many units make the number one. -/
def unitsPerOne : Nat := 2 ^ unitExponent

/-- `2 ^ topExponent` is the least power of two that no double reaches. -/
def topExponent : Nat := 1024

/-- The number of units from which on a magnitude is infinite. -/
def overflowUnits : Nat := 2 ^ (topExponent + unitExponent)

theorem overflowUnits_pos : 0 < overflowUnits := Nat.two_pow_pos _

/-- A double can have the magnitude `units`: it is below `2 ^ 1024`, and the
bits below its 53 leading ones are all zero. Below `2 ^ 53` every whole number
of units is one. -/
def Representable (units : Nat) : Prop :=
  units < overflowUnits ∧ 2 ^ (units.log2 - 52) ∣ units

/-- A quotient of units rounded to 53 significant bits, or to whole units where
these are coarser: the least of the 53 bits is the `step` of which it becomes a
multiple. -/
def roundUnits (num den : Nat) : Nat :=
  let step := 2 ^ ((num / den).log2 - 52)
  divNearestEven num (den * step) * step

/-- A number of at most 53 bits, shifted by `s`, has only zeros below its 53
leading bits. The one number `k` with a 54th bit is a power of two. -/
theorem dvd_mul_two_pow {k s : Nat} (hk : k ≤ 2 ^ (53 : Nat)) :
    2 ^ ((k * 2 ^ s).log2 - 52) ∣ k * 2 ^ s := by
  rcases Nat.eq_or_lt_of_le hk with rfl | hlt
  · rw [← Nat.pow_add, Nat.log2_two_pow]
    exact Nat.pow_dvd_pow 2 (by omega)
  · refine Nat.dvd_trans (Nat.pow_dvd_pow 2 ?_) (Nat.dvd_mul_left (2 ^ s) k)
    by_cases hzero : k * 2 ^ s = 0
    · rw [hzero, Nat.log2_zero]
      omega
    · have : (k * 2 ^ s).log2 < 53 + s := by
        rw [Nat.log2_lt hzero, Nat.pow_add]
        exact Nat.mul_lt_mul_of_pos_right hlt (Nat.two_pow_pos s)
      omega

/-- What is rounded has only zeros below its 53 leading bits, even where
rounding up has made it one bit longer (`dvd_mul_two_pow`). -/
theorem dvd_roundUnits (num den : Nat) :
    2 ^ ((roundUnits num den).log2 - 52) ∣ roundUnits num den := by
  refine dvd_mul_two_pow (Nat.le_trans (divNearestEven_le _ _) ?_)
  rw [← Nat.div_div_eq_div_mul]
  suffices num / den / 2 ^ ((num / den).log2 - 52) < 2 ^ 53 by omega
  rw [Nat.div_lt_iff_lt_mul (Nat.two_pow_pos _), ← Nat.pow_add]
  exact Nat.lt_of_lt_of_le Nat.lt_log2_self (Nat.pow_le_pow_right (by decide) (by omega))

/-- `roundUnits` does not go below a power of two that the quotient reaches,
since that power is a multiple of every step that comes up there. -/
theorem two_pow_le_roundUnits {num den n : Nat} (hn : 52 ≤ n) (h : 2 ^ n ≤ num / den) :
    2 ^ n ≤ roundUnits num den := by
  have hne : num / den ≠ 0 := by
    have := Nat.two_pow_pos n
    omega
  have hlog : n ≤ (num / den).log2 := (Nat.le_log2 hne).mpr h
  obtain ⟨s, hs⟩ : ∃ s, (num / den).log2 = 52 + s := ⟨(num / den).log2 - 52, by omega⟩
  have hlead : 2 ^ 52 ≤ divNearestEven num (den * 2 ^ s) := by
    refine Nat.le_trans ?_ (div_le_divNearestEven _ _)
    rw [← Nat.div_div_eq_div_mul, Nat.le_div_iff_mul_le (Nat.two_pow_pos s), ← Nat.pow_add, ← hs]
    exact Nat.log2_self_le hne
  have hround : roundUnits num den = divNearestEven num (den * 2 ^ s) * 2 ^ s := by
    simp [roundUnits, hs]
  rw [hround]
  calc 2 ^ n ≤ 2 ^ (52 + s) := Nat.pow_le_pow_right (by decide) (by omega)
    _ = 2 ^ 52 * 2 ^ s := Nat.pow_add ..
    _ ≤ _ := Nat.mul_le_mul_right _ hlead

/-! ### Magnitudes -/

/-- A double without its sign, with the proof that 53 bits hold it. -/
inductive Magnitude where
  /-- So many units of 2^-1074. -/
  | finite (units : Nat) (representable : Representable units)
  | infinite
  deriving DecidableEq

namespace Magnitude

/-- The double nearest to a quotient of units; `infinite` where that is
`2 ^ 1024` or more. Every other operation computes its exact result and rounds
it with this. -/
def ofRatio (num den : Nat) : Magnitude :=
  if h : roundUnits num den < overflowUnits then .finite (roundUnits num den) ⟨h, dvd_roundUnits ..⟩
  else .infinite

/-- A quotient that is `2 ^ 1024` or more is `infinite`, also once it is
rounded: rounding does not go below a power of two. -/
theorem ofRatio_of_le {num den : Nat} (h : overflowUnits ≤ num / den) :
    ofRatio num den = .infinite := by
  have hround : overflowUnits ≤ roundUnits num den := by
    unfold overflowUnits at h ⊢
    exact two_pow_le_roundUnits (by unfold topExponent; omega) h
  exact dif_neg (Nat.not_lt.mpr hround)

theorem representable_zero : Representable 0 := ⟨overflowUnits_pos, Nat.dvd_zero _⟩

def zero : Magnitude := .finite 0 representable_zero

theorem ofRatio_of_lt_half {num den : Nat} (h : 2 * num < den) : ofRatio num den = zero := by
  have hdiv : num / den = 0 := Nat.div_eq_of_lt (by omega)
  have hround : roundUnits num den = 0 := by
    simp [roundUnits, hdiv, divNearestEven_of_lt_half h]
  simp [ofRatio, zero, hround, overflowUnits_pos]

/-- The magnitude times a positive whole number, rounded. -/
def times (magnitude : Magnitude) (n : Nat) : Magnitude :=
  match magnitude with
  | .finite units _ => ofRatio (units * n) 1
  | .infinite => .infinite

/-- The magnitude plus a whole number, rounded. -/
def plus (magnitude : Magnitude) (n : Nat) : Magnitude :=
  match magnitude with
  | .finite units _ => ofRatio (units + n * unitsPerOne) 1
  | .infinite => .infinite

end Magnitude

/-! ### Doubles -/

/-- A double: a signed `Magnitude`, so that there are two zeros, or not a
number. What is not a number is one value here. -/
inductive Binary64 where
  | nan
  | signed (negative : Bool) (magnitude : Magnitude)
  deriving DecidableEq

namespace Binary64

/-- The whole number that is left when the fraction is cut off; `none` for
infinities and for `nan`. -/
def truncate? : Binary64 → Option Int
  | .signed negative (.finite units _) =>
    let whole : Nat := units / unitsPerOne
    some (if negative then -(whole : Int) else whole)
  | _ => none

end Binary64

end ListQuery.Number
