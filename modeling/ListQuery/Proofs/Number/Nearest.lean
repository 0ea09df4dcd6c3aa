import Mathlib.Algebra.Order.Field.Rat
import Mathlib.Data.Nat.Cast.Order.Field
import Mathlib.Tactic.FieldSimp
import Mathlib.Tactic.Linarith
import Mathlib.Tactic.Positivity
import ListQuery.Number.Binary64

/-!
# Rounding to the nearest double

What rounding is, said without an algorithm: of all numbers that 53 significant
bits can hold, the nearest, and of two that are equally near the one with an
even significand.

* **`RoundsTo`** — that statement, about numbers of units of any size.
* **`multiple_or_below`**, **`nearest_below_grid`** — the crux: what 53 bits can
  hold on a finer grid lies below the power of two that the number reaches, and
  is farther away than this power.
* **`roundsTo_iff`** — the headline: `roundUnits` finds this number, and there
  is no other.
* **`RoundsTo.mono`** — two roundings cannot cross.
-/

namespace ListQuery.Number

-- A power of natural numbers is `Nat.pow`, whatever other instances are at hand.
attribute [local instance (high)] instPowNat

/-! ## What 53 bits can hold -/

/-- Fifty-three significant bits can hold so many units. This is `Representable`
without a bound, so that rounding can be said before anything overflows. -/
def Precise (units : Nat) : Prop := 2 ^ (units.log2 - 52) ∣ units

/-- The 53 leading bits of `units`, or all of them if they are fewer. -/
def significand (units : Nat) : Nat := units / 2 ^ (units.log2 - 52)

/-- `Normal lead shift` says that these are a significand and the number of bits
behind it. There are bits behind it only if it has all 53, so the two are
determined by the number that they make. -/
structure Normal (lead shift : Nat) : Prop where
  lt : lead < 2 ^ 53
  full : 2 ^ 52 ≤ lead ∨ shift = 0

/-- The number of bits behind the significand is what `Precise` and `roundUnits`
compute from the number. -/
theorem Normal.log2 {lead shift : Nat} (h : Normal lead shift) :
    (lead * 2 ^ shift).log2 - 52 = shift := by
  rcases h.full with hlead | rfl
  · have hlog : (lead * 2 ^ shift).log2 = 52 + shift := by
      have hpos : lead * 2 ^ shift ≠ 0 :=
        Nat.mul_ne_zero (by omega) (Nat.two_pow_pos shift).ne'
      rw [Nat.log2_eq_iff hpos, Nat.pow_add, show 52 + shift + 1 = 53 + shift from by omega,
        Nat.pow_add 2 53]
      exact ⟨Nat.mul_le_mul_right _ hlead, Nat.mul_lt_mul_of_pos_right h.lt (Nat.two_pow_pos shift)⟩
    omega
  · rw [Nat.pow_zero, Nat.mul_one]
    by_cases hzero : lead = 0
    · rw [hzero, Nat.log2_zero]
    · have hlog := (Nat.log2_lt hzero).mpr h.lt
      omega

theorem Normal.significand {lead shift : Nat} (h : Normal lead shift) :
    significand (lead * 2 ^ shift) = lead := by
  rw [Number.significand, h.log2]
  exact Nat.mul_div_cancel _ (Nat.two_pow_pos shift)

/-- What is `Precise` is a significand with zeros behind it, in its `Normal`
form. Zero is held with the significand zero. -/
theorem Precise.exists_normal {units : Nat} (h : Precise units) :
    ∃ lead shift, Normal lead shift ∧ units = lead * 2 ^ shift := by
  obtain ⟨lead, hlead⟩ := h
  refine ⟨lead, units.log2 - 52, ?_, by rw [Nat.mul_comm]; exact hlead⟩
  by_cases hzero : units = 0
  · subst hzero
    rw [Nat.log2_zero] at hlead ⊢
    have hlead : lead = 0 := by simpa using hlead.symm
    exact ⟨by omega, .inr rfl⟩
  constructor
  · -- the leading bit stands at most 52 bits above the last of the significand
    have hlt : 2 ^ (units.log2 - 52) * lead < 2 ^ (units.log2 - 52) * 2 ^ 53 := by
      rw [← hlead, ← Nat.pow_add]
      exact Nat.lt_of_lt_of_le Nat.lt_log2_self (Nat.pow_le_pow_right (by decide) (by omega))
    exact Nat.lt_of_mul_lt_mul_left hlt
  · by_cases hlog : units.log2 ≤ 52
    · exact .inr (by omega)
    · have hle : 2 ^ (units.log2 - 52) * 2 ^ 52 ≤ 2 ^ (units.log2 - 52) * lead := by
        rw [← hlead, ← Nat.pow_add, show units.log2 - 52 + 52 = units.log2 from by omega]
        exact Nat.log2_self_le hzero
      exact .inl (Nat.le_of_mul_le_mul_left hle (Nat.two_pow_pos _))

/-- A number of at most 53 bits is `Precise` with any number of zeros behind it,
and so is 2^53. -/
theorem precise_mul_two_pow {lead shift : Nat} (h : lead ≤ 2 ^ 53) : Precise (lead * 2 ^ shift) :=
  dvd_mul_two_pow h

/-- An even `significand` stays even. Rounding up can carry it to the next power
of two, which is even too, though its significand is another one. -/
theorem even_significand {lead shift : Nat} (hle : lead ≤ 2 ^ 53)
    (hfull : 2 ^ 52 ≤ lead ∨ shift = 0) (heven : lead % 2 = 0) :
    significand (lead * 2 ^ shift) % 2 = 0 := by
  rcases Nat.eq_or_lt_of_le hle with rfl | hlt
  · have hcarry : 2 ^ 53 * 2 ^ shift = 2 ^ 52 * 2 ^ (shift + 1) := by
      rw [← Nat.pow_add, ← Nat.pow_add, show 53 + shift = 52 + (shift + 1) from by omega]
    rw [hcarry, Normal.significand ⟨by decide, .inl (Nat.le_refl _)⟩]
    decide
  · rwa [Normal.significand ⟨hlt, hfull⟩]

/-! ## Rounding to a whole number -/

/-- Twice the distance to `divNearestEven` is at most the denominator, and where
it is that, the quotient is even. Said without fractions. -/
theorem divNearestEven_bounds (num : Nat) {den : Nat} (hden : 0 < den) :
    2 * (divNearestEven num den * den) ≤ 2 * num + den ∧
      2 * num ≤ 2 * (divNearestEven num den * den) + den ∧
      (2 * (divNearestEven num den * den) = 2 * num + den ∨
        2 * num = 2 * (divNearestEven num den * den) + den → divNearestEven num den % 2 = 0) := by
  have hsplit := Nat.div_add_mod' num den
  have hmod := Nat.mod_lt num hden
  unfold divNearestEven
  generalize num / den = quotient at hsplit
  dsimp only
  split
  · omega
  · rw [Nat.add_mul, Nat.one_mul]
    omega

section
variable (num : Nat) {den : Nat} (hden : 0 < den)

include hden

/-- The rounded quotient is half a unit away at most. It is
`divNearestEven_bounds` divided by the denominator. -/
theorem abs_sub_divNearestEven_le : |(num : ℚ) / den - divNearestEven num den| ≤ 1 / 2 := by
  have hpos : (0 : ℚ) < den := by exact_mod_cast hden
  obtain ⟨hupper, hlower, -⟩ := divNearestEven_bounds num hden
  have hupper : 2 * ((divNearestEven num den : ℚ) * den) ≤ 2 * num + den := by exact_mod_cast hupper
  have hlower : 2 * (num : ℚ) ≤ 2 * (divNearestEven num den * den) + den := by exact_mod_cast hlower
  have hnum : (num : ℚ) = num / den * den := by field_simp
  rw [abs_le]
  constructor <;> nlinarith

/-- If `divNearestEven` is half a unit away, it is even. -/
theorem divNearestEven_even_of_tie (h : |(num : ℚ) / den - divNearestEven num den| = 1 / 2) :
    divNearestEven num den % 2 = 0 := by
  have hpos : (0 : ℚ) < den := by exact_mod_cast hden
  have hnum : (num : ℚ) = num / den * den := by field_simp
  refine (divNearestEven_bounds num hden).2.2 ?_
  rcases (abs_eq (by norm_num)).mp h with h | h
  · have heq : (num : ℚ) / den = divNearestEven num den + 1 / 2 := by linarith
    rw [heq] at hnum
    have htwice : 2 * (num : ℚ) = 2 * (divNearestEven num den * den) + den := by linarith
    exact .inr (by exact_mod_cast htwice)
  · have heq : (num : ℚ) / den = divNearestEven num den - 1 / 2 := by linarith
    rw [heq] at hnum
    have htwice : 2 * ((divNearestEven num den : ℚ) * den) = 2 * num + den := by linarith
    exact .inl (by exact_mod_cast htwice)

/-- Every whole number other than `divNearestEven` is half a unit away at least:
it is a unit away from the rounded one. -/
theorem half_le_abs_sub {other : Nat} (h : other ≠ divNearestEven num den) :
    1 / 2 ≤ |(num : ℚ) / den - other| := by
  have hgap : (1 : ℚ) ≤ |(divNearestEven num den : ℚ) - other| := by
    have hne : (divNearestEven num den : ℤ) - other ≠ 0 := by omega
    exact_mod_cast Int.one_le_abs hne
  have hclose := abs_sub_divNearestEven_le num hden
  rw [abs_sub_comm] at hclose
  have htriangle := abs_sub_le (divNearestEven num den : ℚ) ((num : ℚ) / den) other
  linarith

end

/-! ## Rounding to 53 bits -/

/-- `RoundsTo x units` says what rounding is: `units` is the nearest to `x` of
all numbers that 53 bits can hold, and the one with an even significand if
another is equally near. -/
structure RoundsTo (x : ℚ) (units : Nat) : Prop where
  precise : Precise units
  nearest : ∀ other, Precise other → |x - units| ≤ |x - other|
  even_of_tie : ∀ other, Precise other → other ≠ units → |x - other| = |x - units| →
    significand units % 2 = 0

/-- A number that is `Precise` is rounded to itself. -/
theorem roundsTo_self {units : Nat} (h : Precise units) : RoundsTo units units where
  precise := h
  nearest other _ := by
    rw [sub_self, abs_zero]
    exact abs_nonneg _
  even_of_tie other _ hne htie := by
    rw [sub_self, abs_zero, abs_eq_zero, sub_eq_zero] at htie
    exact absurd (by exact_mod_cast htie.symm) hne

/-- A quotient is rounded at a bit so low that a whole significand stands in
front of it, or at that of the units. All that follows needs of `roundUnits` is
this. -/
theorem roundUnits_eq (num den : Nat) :
    ∃ lead shift, roundUnits num den = lead * 2 ^ shift ∧
      lead = divNearestEven num (den * 2 ^ shift) ∧ lead ≤ 2 ^ 53 ∧
      (shift = 0 ∨ 2 ^ 52 ≤ lead ∧ 2 ^ 52 * 2 ^ shift ≤ num / den) := by
  refine ⟨_, (num / den).log2 - 52, rfl, rfl, ?_, ?_⟩
  · have hlt : num / den / 2 ^ ((num / den).log2 - 52) < 2 ^ 53 := by
      rw [Nat.div_lt_iff_lt_mul (Nat.two_pow_pos _), ← Nat.pow_add]
      exact Nat.lt_of_lt_of_le Nat.lt_log2_self (Nat.pow_le_pow_right (by decide) (by omega))
    have hle := divNearestEven_le num (den * 2 ^ ((num / den).log2 - 52))
    rw [← Nat.div_div_eq_div_mul] at hle
    omega
  · by_cases hlog : (num / den).log2 ≤ 52
    · exact .inl (by omega)
    · have hne : num / den ≠ 0 := by
        intro hzero
        rw [hzero, Nat.log2_zero] at hlog
        omega
      have hle : 2 ^ 52 * 2 ^ ((num / den).log2 - 52) ≤ num / den := by
        rw [← Nat.pow_add, show 52 + ((num / den).log2 - 52) = (num / den).log2 from by omega]
        exact Nat.log2_self_le hne
      refine .inr ⟨Nat.le_trans ?_ (div_le_divNearestEven _ _), hle⟩
      rwa [← Nat.div_div_eq_div_mul, Nat.le_div_iff_mul_le (Nat.two_pow_pos _)]

/-- What is `Precise` is a multiple of a power of two, or else it is less than a
whole significand with so many zeros behind it. -/
theorem multiple_or_below {other : Nat} (h : Precise other) (shift : Nat) :
    (∃ n, other = n * 2 ^ shift) ∨ shift ≠ 0 ∧ other < 2 ^ 52 * 2 ^ shift := by
  obtain ⟨lead, finer, hnormal, rfl⟩ := h.exists_normal
  by_cases hle : shift ≤ finer
  · refine .inl ⟨lead * 2 ^ (finer - shift), ?_⟩
    rw [Nat.mul_assoc, ← Nat.pow_add, show finer - shift + shift = finer from by omega]
  · refine .inr ⟨by omega, ?_⟩
    calc lead * 2 ^ finer < 2 ^ 53 * 2 ^ finer :=
          Nat.mul_lt_mul_of_pos_right hnormal.lt (Nat.two_pow_pos finer)
      _ = 2 ^ 52 * 2 ^ (finer + 1) := by
          rw [← Nat.pow_add, ← Nat.pow_add, show 53 + finer = 52 + (finer + 1) from by omega]
      _ ≤ 2 ^ 52 * 2 ^ shift := Nat.mul_le_mul_left _ (Nat.pow_le_pow_right (by decide) (by omega))

theorem abs_sub_lt_of_lt {x y z : ℚ} (hxy : x < y) (hyz : y ≤ z) : |z - y| < |z - x| := by
  rw [abs_of_nonneg (sub_nonneg.mpr hyz), abs_of_nonneg (sub_nonneg.mpr (hxy.le.trans hyz))]
  exact sub_lt_sub_left hxy z

section
variable {num den lead shift : Nat} (hden : 0 < den)

include hden

/-- On the grid of a power of two, a distance is as many steps of `2 ^ shift` as
there are from the quotient to a whole number. -/
theorem abs_sub_mul_two_pow (n : Nat) :
    |(num : ℚ) / den - (n * 2 ^ shift : Nat)| =
      |(num : ℚ) / (den * 2 ^ shift : Nat) - n| * 2 ^ shift := by
  have hstep : (0 : ℚ) < 2 ^ shift := by positivity
  have hpos : (0 : ℚ) < den := by exact_mod_cast hden
  have hscaled : (num : ℚ) / den - (n * 2 ^ shift : Nat) =
      ((num : ℚ) / (den * 2 ^ shift : Nat) - n) * 2 ^ shift := by
    push_cast
    field_simp
  rw [hscaled, abs_mul, abs_of_pos hstep]

variable (hlead : lead = divNearestEven num (den * 2 ^ shift))

include hlead

/-- On the grid of the rounding the leading bits decide, as `divNearestEven`
rounds them. -/
theorem nearest_on_grid {n : Nat} (hn : n ≠ lead) :
    |(num : ℚ) / den - (lead * 2 ^ shift : Nat)| ≤ |(num : ℚ) / den - (n * 2 ^ shift : Nat)| ∧
      (|(num : ℚ) / den - (n * 2 ^ shift : Nat)| = |(num : ℚ) / den - (lead * 2 ^ shift : Nat)| →
        lead % 2 = 0) := by
  have hden' : 0 < den * 2 ^ shift := Nat.mul_pos hden (Nat.two_pow_pos shift)
  have hstep : (0 : ℚ) < 2 ^ shift := by positivity
  have hclose := abs_sub_divNearestEven_le num hden'
  have hfar := half_le_abs_sub num hden' (hlead ▸ hn)
  rw [← hlead] at hclose
  rw [abs_sub_mul_two_pow hden, abs_sub_mul_two_pow hden]
  refine ⟨mul_le_mul_of_nonneg_right (hclose.trans hfar) hstep.le, fun htie => ?_⟩
  have htie := mul_right_cancel₀ hstep.ne' htie
  rw [hlead]
  refine divNearestEven_even_of_tie num hden' ?_
  rw [← hlead]
  exact le_antisymm hclose (htie ▸ hfar)

/-- Off the grid every `other` is below the power of two that the quotient
reaches, and so farther away than that power. -/
theorem nearest_below_grid (hreach : 2 ^ 52 * 2 ^ shift ≤ num / den) {other : Nat}
    (hother : other < 2 ^ 52 * 2 ^ shift) :
    |(num : ℚ) / den - (lead * 2 ^ shift : Nat)| < |(num : ℚ) / den - other| := by
  have hreach : ((2 ^ 52 * 2 ^ shift : Nat) : ℚ) ≤ (num : ℚ) / den :=
    le_trans (by exact_mod_cast hreach) Nat.cast_div_le
  have hother : (other : ℚ) < (2 ^ 52 * 2 ^ shift : Nat) := by exact_mod_cast hother
  have hpower : |(num : ℚ) / den - (lead * 2 ^ shift : Nat)| ≤
      |(num : ℚ) / den - (2 ^ 52 * 2 ^ shift : Nat)| := by
    by_cases heq : 2 ^ 52 = lead
    · rw [heq]
    · exact (nearest_on_grid hden hlead heq).1
  exact hpower.trans_lt (abs_sub_lt_of_lt hother hreach)

end

/-- **Rounding the leading bits is rounding the number**: on the grid of the
rounding nothing is nearer (`nearest_on_grid`), and off it everything is farther
away (`nearest_below_grid`). -/
theorem roundsTo_roundUnits (num : Nat) {den : Nat} (hden : 0 < den) :
    RoundsTo ((num : ℚ) / den) (roundUnits num den) := by
  obtain ⟨lead, shift, hround, hlead, hle, hfull⟩ := roundUnits_eq num den
  rw [hround]
  refine ⟨precise_mul_two_pow hle, fun other hother => ?_, fun other hother hne htie => ?_⟩
  · -- on the grid and below it
    rcases multiple_or_below hother shift with ⟨n, rfl⟩ | ⟨hshift, hlt⟩
    · by_cases hn : n = lead
      · rw [hn]
      · exact (nearest_on_grid hden hlead hn).1
    · exact (nearest_below_grid hden hlead (hfull.resolve_left hshift).2 hlt).le
  · -- a tie is on the grid
    rcases multiple_or_below hother shift with ⟨n, rfl⟩ | ⟨hshift, hlt⟩
    · have heven := (nearest_on_grid hden hlead fun hn => hne (by rw [hn])).2 htie
      exact even_significand hle (hfull.symm.imp And.left id) heven
    · exact absurd htie (nearest_below_grid hden hlead (hfull.resolve_left hshift).2 hlt).ne'

/-- Of three numbers the middle one, `between`, is nearer to a point `x` that is
midway between `low` and `high` than these are. -/
theorem abs_sub_lt_of_between {x low between high : ℚ} (htie : |x - high| = |x - low|)
    (hlow : low < between) (hhigh : between < high) : |x - between| < |x - low| := by
  have hmidway : x - high = -(x - low) := by
    rcases abs_eq_abs.mp htie with h | h
    · linarith
    · exact h
  rw [abs_of_nonneg (show 0 ≤ x - low from by linarith), abs_lt]
  exact ⟨by linarith, by linarith⟩

/-- `RoundsTo` gives one number only. Two that are equally near are neighbours
on the grid of the less, and one of two neighbours has an odd significand. -/
theorem RoundsTo.unique {x : ℚ} {units units' : Nat} (h : RoundsTo x units)
    (h' : RoundsTo x units') : units = units' := by
  wlog hlt : units < units' generalizing units units'
  · rcases Nat.lt_or_ge units' units with hgt | hge
    · exact (this h' h hgt).symm
    · omega
  exfalso
  have htie : |x - units'| = |x - units| :=
    le_antisymm (h'.nearest _ h.precise) (h.nearest _ h'.precise)
  have heven := h.even_of_tie units' h'.precise (by omega) htie
  have heven' := h'.even_of_tie units h.precise (by omega) htie.symm
  obtain ⟨lead, shift, hnormal, rfl⟩ := h.precise.exists_normal
  rw [hnormal.significand] at heven
  -- the greater one is on the grid of the less
  have hgrid : ∃ n, units' = n * 2 ^ shift := by
    refine (multiple_or_below h'.precise shift).resolve_right fun ⟨hshift, hbelow⟩ => ?_
    have hfull := Nat.mul_le_mul_right (2 ^ shift) (hnormal.full.resolve_right hshift)
    omega
  obtain ⟨n, rfl⟩ := hgrid
  have hn : lead < n := Nat.lt_of_mul_lt_mul_right hlt
  by_cases hnext : n = lead + 1
  · -- one of two neighbours is odd
    subst hnext
    have hlead := hnormal.lt
    have hnormal' : Normal (lead + 1) shift := ⟨by omega, hnormal.full.imp (by omega) id⟩
    rw [hnormal'.significand] at heven'
    omega
  · -- between any other two there is a nearer one
    have hmul : ∀ m m' : Nat, m < m' → ((m * 2 ^ shift : Nat) : ℚ) < (m' * 2 ^ shift : Nat) :=
      fun m m' hm => by exact_mod_cast Nat.mul_lt_mul_of_pos_right hm (Nat.two_pow_pos shift)
    have hnearer := abs_sub_lt_of_between htie (hmul _ (lead + 1) (by omega)) (hmul _ _ (by omega))
    exact absurd (h.nearest _ (precise_mul_two_pow hnormal.lt)) (not_le.mpr hnearer)

/-- `roundUnits` finds the rounded number, and there is no other. -/
theorem roundsTo_iff {num den units : Nat} (hden : 0 < den) :
    RoundsTo ((num : ℚ) / den) units ↔ roundUnits num den = units :=
  ⟨(roundsTo_roundUnits num hden).unique, fun h => h ▸ roundsTo_roundUnits num hden⟩

/-- `RoundsTo` keeps the order. It needs no algorithm: that each of the two is
nearest to its number is enough. -/
theorem RoundsTo.mono {x y : ℚ} {units units' : Nat} (h : RoundsTo x units) (h' : RoundsTo y units')
    (hxy : x ≤ y) : units ≤ units' := by
  by_contra hlt
  have hlt : (units' : ℚ) < units := by exact_mod_cast Nat.not_le.mp hlt
  -- if they crossed, the two numbers would both be midway
  have hx : units' + units ≤ 2 * x := by
    have hnear := sq_le_sq.mpr (h.nearest units' h'.precise)
    nlinarith
  have hy : 2 * y ≤ units' + units := by
    have hnear := sq_le_sq.mpr (h'.nearest units h.precise)
    nlinarith
  have heq : x = y := by linarith
  subst heq
  rw [h.unique h'] at hlt
  exact lt_irrefl _ hlt

end ListQuery.Number
