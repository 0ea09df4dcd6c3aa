import ListQuery.Proofs.Window

/-!
# Decimal pages and limits

What is used for a page or a limit is an integer of 64 bits, and a decimal
numeral can write any number.

* **`toInt_clamp`** — an integer beyond 64 bits gives the end of their range
  that it is beyond.
* **`used_zero_of_rounded`** — the crux: with zero for a default what is used is
  a chain of three steps, and none of them changes the order.
* **`used_decimal`** — the headline: whole numbers up to 2^53 are used as they
  are, what is beyond 64 bits is clamped, and the order is kept.
-/

namespace ListQuery.Window

open Number (Binary64 Numeral cutOff)

/-! ## Clamping -/

/-- `Int64.ofIntClamp` gives the integer itself within 64 bits, and the nearer
end of their range beyond. All that is needed of it follows from this by
arithmetic. -/
theorem toInt_clamp (n : Int) :
    (Int64.ofIntClamp n).toInt = max (-2 ^ 63) (min n (2 ^ 63 - 1)) := by
  rw [Int64.ofIntClamp]
  split
  · next hlow =>
    rw [Int64.toInt_minValue] at hlow
    split
    · next hhigh =>
      rw [Int64.toInt_maxValue] at hhigh
      rw [Int64.toInt_ofIntLE]
      omega
    · next hhigh =>
      rw [Int64.toInt_maxValue] at hhigh ⊢
      omega
  · next hlow =>
    rw [Int64.toInt_minValue] at hlow ⊢
    omega

theorem clamp_mono {m n : Int} (h : m ≤ n) : Int64.ofIntClamp m ≤ Int64.ofIntClamp n := by
  rw [Int64.le_iff_toInt_le, toInt_clamp, toInt_clamp]
  omega

theorem clamp_of_le {n : Int} (h : n ≤ -2 ^ 63) : Int64.ofIntClamp n = Int64.minValue := by
  rw [← Int64.toInt_inj, toInt_clamp, Int64.toInt_minValue]
  omega

theorem clamp_of_ge {n : Int} (h : 2 ^ 63 ≤ n) : Int64.ofIntClamp n = Int64.maxValue := by
  rw [← Int64.toInt_inj, toInt_clamp, Int64.toInt_maxValue]
  omega

/-! ## The number of a double -/

/-- `taken` of a finite double of which something is left: its number without
the fraction, clamped, whatever the default. -/
theorem taken_of_ne_zero {double : Binary64} {x : ℚ} (h : double.number? = some x)
    (hx : cutOff x ≠ 0) (default : Int64) : taken double default = Int64.ofIntClamp (cutOff x) := by
  rw [taken, h, Option.map_some]
  exact if_neg hx

/-- With zero for a default `taken` has no case of its own for what leaves
zero. -/
theorem taken_zero {double : Binary64} {x : ℚ} (h : double.number? = some x) :
    taken double 0 = Int64.ofIntClamp (cutOff x) := by
  by_cases hx : cutOff x = 0
  · rw [taken, h, Option.map_some, hx]
    rfl
  · exact taken_of_ne_zero h hx 0

/-- `Rounded v x` says that the number `v` is rounded to `x`, which is
finite. -/
def Rounded (v x : ℚ) : Prop := ∃ double : Binary64, double.IsNearest v ∧ double.number? = some x

/-- `Rounded` keeps the order: of two doubles that are each nearest to a number,
the one for the greater number is not less. -/
theorem Rounded.mono {v v' x x' : ℚ} (h : Rounded v x) (h' : Rounded v' x') (hv : v ≤ v') :
    x ≤ x' := by
  obtain ⟨double, hdouble, hx⟩ := h
  obtain ⟨double', hdouble', hx'⟩ := h'
  exact hdouble.mono hdouble' hv hx hx'

variable {params : Params} {control : Control} {v x : ℚ}

theorem used_of_rounded (h : Asks params control v) (hx : Rounded v x) (hne : cutOff x ≠ 0)
    (default : Int64) : used params control default = Int64.ofIntClamp (cutOff x) := by
  obtain ⟨double, hdouble, hexact⟩ := hx
  rw [used_of_asks h hdouble, taken_of_ne_zero hexact hne]

/-- With zero for a default `used` is what a numeral is `Rounded` to, without
its fraction (`cutOff`) and clamped. None of these three steps changes the
order. -/
theorem used_zero_of_rounded (h : Asks params control v) (hx : Rounded v x) :
    used params control 0 = Int64.ofIntClamp (cutOff x) := by
  obtain ⟨double, hdouble, hexact⟩ := hx
  rw [used_of_asks h hdouble, taken_zero hexact]

/-! ## Exact, clamped and in order -/

/-- **Exact, clamped and in order.** `used` for a decimal numeral is `taken`
from the double nearest to the number that it writes. A whole number up to 2^53
is used as it is, unless it is zero. What is `Rounded` to 2^63 or more, or to
the opposite of that or less, gives the greatest or the least integer. Of two
numbers that are rounded to finite ones the greater does not give the less, if
zero is used where the default would be. The numeral is never `unlimited`, and
unless the limit is, `ofParams` makes the window of what is used. -/
theorem used_decimal (h : Asks params control v) :
    (∃ double : Binary64, double.IsNearest v ∧
      ∀ default, used params control default = taken double default) ∧
    (∀ n : ℤ, v = n → n ≠ 0 → |n| ≤ 2 ^ 53 → ∀ default, (used params control default).toInt = n) ∧
    (∀ x, Rounded v x → 2 ^ 63 ≤ x → ∀ default, used params control default = Int64.maxValue) ∧
    (∀ x, Rounded v x → x ≤ -2 ^ 63 → ∀ default, used params control default = Int64.minValue) ∧
    (∀ (params' : Params) (control' : Control) (v' x x' : ℚ), Asks params' control' v' →
      Rounded v x → Rounded v' x' → v ≤ v' → used params control 0 ≤ used params' control' 0) ∧
    params.control? control ≠ some unlimited ∧
    (params.control? .limit ≠ some unlimited → ∀ defaults,
      ofParams defaults params =
        some ⟨used params .limit defaults.limit,
          skipped (used params .page defaults.page) (used params .limit defaults.limit)⟩) := by
  have hnearest : ∃ double : Binary64, double.IsNearest v := by
    obtain ⟨_, _, -, -, hwrites⟩ := h
    obtain ⟨negative, d, -, rfl⟩ := Numeral.writes_iff.mp hwrites
    exact ⟨_, Numeral.isNearest_value negative d⟩
  obtain ⟨double, hdouble⟩ := hnearest
  refine ⟨⟨double, hdouble, used_of_asks h hdouble⟩, ?_, ?_, ?_, ?_, h.ne_unlimited,
    ofParams_of_limited⟩
  · -- whole numbers up to 2^53 are doubles, so that nothing is rounded
    rintro n rfl hne hn default
    have hexact : Rounded (n : ℚ) n := ⟨double, hdouble, hdouble.number?_intCast hn⟩
    rw [used_of_rounded h hexact (by rwa [Number.cutOff_intCast]), Number.cutOff_intCast,
      toInt_clamp]
    rw [abs_le] at hn
    omega
  · -- cutting off the fraction stays beyond a whole number
    intro x hx hge default
    have hwhole : (2 ^ 63 : ℤ) ≤ cutOff x := by
      have hmono := Number.cutOff_mono (show ((2 ^ 63 : ℤ) : ℚ) ≤ x from by exact_mod_cast hge)
      rwa [Number.cutOff_intCast] at hmono
    rw [used_of_rounded h hx (by omega), clamp_of_ge hwhole]
  · intro x hx hle default
    have hwhole : cutOff x ≤ (-2 ^ 63 : ℤ) := by
      have hmono := Number.cutOff_mono (show x ≤ ((-2 ^ 63 : ℤ) : ℚ) from by exact_mod_cast hle)
      rwa [Number.cutOff_intCast] at hmono
    rw [used_of_rounded h hx (by omega), clamp_of_le hwhole]
  · -- with zero in place of the default no case has to be told apart
    intro params' control' v' x x' h' hx hx' hv
    rw [used_zero_of_rounded h hx, used_zero_of_rounded h' hx']
    exact clamp_mono (Number.cutOff_mono (hx.mono hx' hv))

/-- `used_decimal` at a whole number with a fraction and an exponent, and at one
beyond 64 bits. -/
theorem used_decimal_clamped :
    ∃ params : Params, params.entries = [("page", .one " +0090.0e2 "), ("limit", .one "1e19")] ∧
      (∀ default, (used params .page default).toInt = 9000) ∧
      (∀ default, used params .limit default = Int64.maxValue) ∧
      used params .page 0 ≤ used params .limit 0 ∧
      ∀ defaults, ofParams defaults params = some ⟨Int64.maxValue, Int64.maxValue⟩ := by
  let params : Params := ⟨[("page", .one " +0090.0e2 "), ("limit", .one "1e19")], by decide⟩
  have hspace : ∀ c ∈ [' '], Text.isSpace c = true := List.forall_mem_singleton.mpr (by decide)
  have hpage : Asks params .page (9000 : ℤ) := by
    refine ⟨" +0090.0e2 ", "+0090.0e2".toList, by decide,
      ⟨[' '], [' '], hspace, hspace, by decide⟩, ?_⟩
    exact Numeral.writes_iff.mpr ⟨false, ⟨900, 1⟩, Numeral.read?_eq_some_iff.mp (by decide +kernel),
      by norm_num [Number.withSign, Number.Decimal.exact]⟩
  have hlimit : Asks params .limit (10 ^ 19) := by
    refine ⟨"1e19", "1e19".toList, by decide, Text.pads_self _, ?_⟩
    exact Numeral.writes_iff.mpr ⟨false, ⟨1, 19⟩, Numeral.read?_eq_some_iff.mp (by decide +kernel),
      by norm_num [Number.withSign, Number.Decimal.exact]⟩
  obtain ⟨⟨page, hpage', -⟩, hexact, -, -, hmono, -, -⟩ := used_decimal hpage
  obtain ⟨⟨limit, hlimit', -⟩, -, hclamped, -, -, hlimited, hwindow⟩ := used_decimal hlimit
  have hfirst : Rounded (9000 : ℤ) (9000 : ℤ) :=
    ⟨page, hpage', hpage'.number?_intCast (by norm_num)⟩
  obtain ⟨x, hx⟩ := hlimit'.exists_number? (by norm_num)
  have hsecond : Rounded (10 ^ 19) x := ⟨limit, hlimit', hx⟩
  have hbound : (2 ^ 63 : ℚ) ≤ x := by
    obtain ⟨double, hdouble⟩ := Binary64.exists_number?_natCast (show 1 ≤ 2 ^ 53 from by decide)
      (show 63 < 970 from by decide)
    have hself : Rounded (2 ^ 63) (2 ^ 63) := by
      norm_num at hdouble
      exact ⟨double, Binary64.isNearest_self (by norm_num [hdouble]), by norm_num [hdouble]⟩
    exact hself.mono hsecond (by norm_num)
  have hpageUsed := hexact 9000 rfl (by decide) (by decide)
  have hlimitUsed := hclamped x hsecond hbound
  refine ⟨params, rfl, hpageUsed, hlimitUsed,
    hmono params .limit _ _ _ hlimit hfirst hsecond (by norm_num), fun defaults => ?_⟩
  have hpageEq : used params .page defaults.page = 9000 :=
    Int64.toInt_inj.mp (hpageUsed defaults.page)
  rw [hwindow hlimited, hlimitUsed, hpageEq]
  decide

/-- Rounding can carry a fraction to the next whole number. -/
example : read (some "0.99999999999999999999") = .usable 1 := by decide +kernel

end ListQuery.Window
