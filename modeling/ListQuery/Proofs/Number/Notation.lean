import ListQuery.Number.Notation
import ListQuery.Proofs.Number.Value

/-!
# Written numbers are read again

Numbers are written in two notations and read in another grammar, which knows
both.

* **`exact_shift`** — zeros behind the digits of a decimal are a power of ten,
  on either side.
* **`decimal?_layout`** — the crux: wherever the point is put, the numeral has
  the same value.
* **`decimal?_numeral`** — so the numeral of a decimal has its exact value.
* **`exists_spells_numeral?`** — the headline: a finite double is read from its
  numeral.
-/

namespace ListQuery.Number

open Numeral (Sign Digits Mantissa Exponent)

/-! ## Digits -/

namespace Decimal

/-- For `Decimal.exact` zeros behind the digits of a decimal count in its
exponent. -/
theorem exact_shift (n zeros : Nat) (exponent : Int) :
    (⟨n * 10 ^ zeros, exponent⟩ : Decimal).exact = (⟨n, exponent + zeros⟩ : Decimal).exact := by
  rw [exact, exact, zpow_add₀ (by norm_num), zpow_natCast]
  push_cast
  ring

end Decimal

theorem digits_toDigits (n : Nat) : Digits (Nat.toDigits 10 n) :=
  fun _ hc => Nat.isDigit_of_mem_toDigits (by decide) (by decide) hc

theorem digits_append {front back : List Char} (h : Digits front) (h' : Digits back) :
    Digits (front ++ back) := by
  intro c hc
  exact (List.mem_append.mp hc).elim (h c) (h' c)

theorem digits_replicate_zero (n : Nat) : Digits (List.replicate n '0') := by
  intro c hc
  rw [List.eq_of_mem_replicate hc]
  decide

theorem ofDigitChars_append_zeros (digits : List Char) (zeros : Nat) :
    Nat.ofDigitChars 10 (digits ++ List.replicate zeros '0') 0 =
      Nat.ofDigitChars 10 digits 0 * 10 ^ zeros := by
  rw [Nat.ofDigitChars_append, Nat.ofDigitChars_replicate_zero, Nat.mul_comm]

/-- `dropTrailingZeros` takes zeros off at the end of digits, as many as there
are. -/
theorem exists_dropTrailingZeros (digits : List Char) :
    ∃ zeros, digits = dropTrailingZeros digits ++ List.replicate zeros '0' := by
  refine ⟨(digits.reverse.takeWhile (· == '0')).length, ?_⟩
  have hzeros : digits.reverse.takeWhile (· == '0') =
      List.replicate (digits.reverse.takeWhile (· == '0')).length '0' := by
    rw [List.eq_replicate_iff]
    exact ⟨rfl, fun c hc => eq_of_beq (List.all_eq_true.mp List.all_takeWhile c hc)⟩
  rw [dropTrailingZeros, ← List.reverse_inj, List.reverse_append, List.reverse_reverse,
    List.reverse_replicate, ← hzeros, List.takeWhile_append_dropWhile]

/-! ## Where the point is put -/

/-- The decimal `0.digits * 10 ^ point`. Both notations are read as this one, in
value if not digit by digit. -/
def Decimal.ofPoint (digits : List Char) (point : Int) : Decimal :=
  ⟨Nat.ofDigitChars 10 digits 0, point - digits.length⟩

/-- `decimal?` reads a `Mantissa` and an `Exponent` as the decimal that their
digits make. So a numeral is read once its parts are named. -/
theorem decimal?_of_parts {whole fraction mantissa tail : List Char} {exponent : Int}
    (hmantissa : Mantissa whole fraction mantissa) (hexponent : Exponent exponent tail) :
    Numeral.decimal? (mantissa ++ tail) =
      some ⟨Nat.ofDigitChars 10 (whole ++ fraction) 0, exponent - fraction.length⟩ :=
  Numeral.decimal?_eq_some_iff.mpr ⟨_, _, _, _, _, hmantissa, hexponent, rfl, rfl⟩

/-- What `scientific` writes behind the digits is an `Exponent` of the grammar.
The sign is written even where it is a plus. -/
theorem exponent_toDigits (exponent : Int) :
    Exponent exponent
      ('e' :: ([if exponent < 0 then '-' else '+'] ++ Nat.toDigits 10 exponent.natAbs)) := by
  have hpresent : ∀ {negative : Bool} {sign : List Char}, Sign negative sign →
      Exponent (if negative then -(exponent.natAbs : Int) else exponent.natAbs)
        ('e' :: (sign ++ Nat.toDigits 10 exponent.natAbs)) := by
    intro negative sign hsign
    have h := Exponent.present (.inl rfl) hsign (digits_toDigits exponent.natAbs)
      Nat.toDigits_ne_nil
    rwa [Nat.ofDigitChars_ten_toDigits] at h
  split
  · next hneg =>
    have h := hpresent .minus
    rwa [if_pos rfl, show -(exponent.natAbs : Int) = exponent from by omega] at h
  · next hneg =>
    have h := hpresent .plus
    rwa [if_neg (by decide), show (exponent.natAbs : Int) = exponent from by omega] at h

section
variable {digits : List Char} (hdigits : Digits digits) (hne : digits ≠ []) (point : Int)

include hdigits hne

/-- `decimal?` reads `positional` notation as the value that was written. The
three cases are those of where the point stands: in front of the digits, behind
them or among them. -/
theorem decimal?_positional :
    ∃ d, Numeral.decimal? (positional digits point) = some d ∧
      d.exact = (Decimal.ofPoint digits point).exact := by
  have hzero : Digits ['0'] := digits_replicate_zero 1
  unfold positional
  split
  · -- zeros between the point and the digits do not count
    next hpoint =>
    have hparts := decimal?_of_parts
      (.point hzero (digits_append (digits_replicate_zero (-point).toNat) hdigits) (.inl (by simp)))
      .absent
    have hvalue : Nat.ofDigitChars 10 (['0'] ++ (List.replicate (-point).toNat '0' ++ digits)) 0 =
        Nat.ofDigitChars 10 digits 0 := by
      rw [← List.append_assoc, show ['0'] = List.replicate 1 '0' from rfl,
        List.replicate_append_replicate, Nat.ofDigitChars_append, Nat.ofDigitChars_replicate_zero,
        Nat.mul_zero]
    rw [List.append_nil] at hparts
    refine ⟨_, (congrArg Numeral.decimal? (List.append_assoc ..)).trans hparts, ?_⟩
    rw [hvalue, List.length_append, List.length_replicate, Decimal.ofPoint]
    congr 2
    omega
  split
  · -- zeros between the digits and the point do, and one behind it does not
    next hpoint hlength =>
    have hparts := decimal?_of_parts
      (.point (digits_append hdigits (digits_replicate_zero (point.toNat - digits.length))) hzero
        (.inl (by simp [hne]))) .absent
    refine ⟨_, by simpa only [List.append_nil] using hparts, ?_⟩
    rw [List.append_assoc, show ['0'] = List.replicate 1 '0' from rfl,
      List.replicate_append_replicate, ofDigitChars_append_zeros, Decimal.exact_shift,
      Decimal.ofPoint]
    congr 2
    rw [List.length_replicate]
    omega
  · -- the digits are split at the point, and none is added
    next hpoint hlength =>
    have hwhole : digits.take point.toNat ≠ [] := by
      rw [Ne, List.take_eq_nil_iff, not_or]
      exact ⟨by omega, hne⟩
    have hdrop : Digits (digits.drop point.toNat) := fun c hc => hdigits c (List.mem_of_mem_drop hc)
    have hparts := decimal?_of_parts
      (.point (fun c hc => hdigits c (List.mem_of_mem_take hc)) hdrop (.inl hwhole)) .absent
    rw [List.append_nil] at hparts
    refine ⟨_, (congrArg Numeral.decimal? (List.append_assoc ..)).trans hparts, ?_⟩
    rw [List.take_append_drop, List.length_drop, Decimal.ofPoint]
    congr 2
    omega

/-- `decimal?` reads `scientific` notation as the decimal that was written,
digit by digit. -/
theorem decimal?_scientific :
    Numeral.decimal? (scientific digits point) = some (Decimal.ofPoint digits point) := by
  obtain ⟨c, rest, rfl⟩ := List.exists_cons_of_ne_nil hne
  have hwhole : Digits [c] := fun x hx => hdigits x (List.mem_of_mem_take (i := 1) hx)
  have hrest : Digits rest := fun x hx => hdigits x (List.mem_cons_of_mem c hx)
  have hmantissa : Mantissa [c] rest ([c] ++ if rest.isEmpty then [] else '.' :: rest) := by
    cases rest with
    | nil => exact .whole hwhole (by simp)
    | cons => exact .point hwhole hrest (.inl (by simp))
  have hparts := decimal?_of_parts hmantissa (exponent_toDigits (point - 1))
  have htext : scientific (c :: rest) point =
      ([c] ++ if rest.isEmpty then [] else '.' :: rest) ++
        'e' :: ([if point - 1 < 0 then '-' else '+'] ++ Nat.toDigits 10 (point - 1).natAbs) := by
    simp [scientific]
  rw [htext, hparts, Decimal.ofPoint, List.length_cons]
  congr 2
  omega

/-- Wherever `layout` puts the point, the numeral has the same value. Only in
positional notation it has other digits than those that were given. -/
theorem decimal?_layout :
    ∃ d, Numeral.decimal? (layout digits point) = some d ∧
      d.exact = (Decimal.ofPoint digits point).exact := by
  unfold layout
  split
  · exact decimal?_positional hdigits hne point
  · exact ⟨_, decimal?_scientific hdigits hne point, rfl⟩

end

/-! ## Numerals -/

/-- `Decimal.numeral` has the exact value of the decimal, though it need not
have its digits: zeros at the end of them are in the exponent. -/
theorem decimal?_numeral (d : Decimal) :
    ∃ d', Numeral.decimal? d.numeral = some d' ∧ d'.exact = d.exact := by
  unfold Decimal.numeral
  split
  · next hzero => exact ⟨⟨0, -1⟩, by decide, by simp [Decimal.exact, hzero]⟩
  next hne =>
  show ∃ d', Numeral.decimal? (layout (dropTrailingZeros (Nat.toDigits 10 d.digits))
    ((Nat.toDigits 10 d.digits).length + d.exponent)) = some d' ∧ _
  obtain ⟨zeros, hzeros⟩ := exists_dropTrailingZeros (Nat.toDigits 10 d.digits)
  have hdigits := digits_toDigits d.digits
  have hvalue := Nat.ofDigitChars_ten_toDigits (n := d.digits)
  generalize Nat.toDigits 10 d.digits = digits at hzeros hdigits hvalue ⊢
  generalize dropTrailingZeros digits = kept at hzeros ⊢
  subst hzeros
  rw [ofDigitChars_append_zeros] at hvalue
  -- if all digits were dropped, the number would be zero
  have hkept : kept ≠ [] := by
    rintro rfl
    rw [Nat.ofDigitChars_nil, Nat.zero_mul] at hvalue
    exact hne hvalue.symm
  obtain ⟨d', hd', hexact⟩ :=
    decimal?_layout (fun c hc => hdigits c (List.mem_append_left _ hc)) hkept
      ((kept ++ List.replicate zeros '0').length + d.exponent)
  refine ⟨d', hd', hexact.trans ?_⟩
  have hpoint : Decimal.ofPoint kept ((kept ++ List.replicate zeros '0').length + d.exponent) =
      ⟨Nat.ofDigitChars 10 kept 0, d.exponent + zeros⟩ := by
    rw [Decimal.ofPoint, List.length_append, List.length_replicate]
    congr 1
    omega
  rw [hpoint, ← Decimal.exact_shift, hvalue]

/-- A `Sign` in front of what `decimal?` reads spells that decimal with the
sign. -/
theorem spells_of_decimal? {negative : Bool} {sign text : List Char} (hsign : Sign negative sign)
    {d : Decimal} (h : Numeral.decimal? text = some d) :
    (Numeral.decimal negative d).Spells (sign ++ text) := by
  obtain ⟨_, _, _, _, _, hmantissa, hexponent, rfl, rfl⟩ := Numeral.decimal?_eq_some_iff.mp h
  exact .decimal hsign hmantissa hexponent

theorem sign_minus (negative : Bool) : Sign negative (if negative then ['-'] else []) := by
  cases negative with
  | false => exact .absent
  | true => exact .minus

/-- `integerNumeral` is a decimal numeral and writes the integer. It has no
point and no exponent. -/
theorem exists_spells_integerNumeral (n : Int) :
    ∃ negative d, (Numeral.decimal negative d).Spells (integerNumeral n) ∧
      withSign negative d.exact = n := by
  have hmantissa : Mantissa (Nat.toDigits 10 n.natAbs) [] (Nat.toDigits 10 n.natAbs) :=
    .whole (digits_toDigits _) Nat.toDigits_ne_nil
  have hspells :=
    spells_of_decimal? (sign_minus (decide (n < 0))) (decimal?_of_parts hmantissa .absent)
  rw [List.append_nil, Nat.ofDigitChars_ten_toDigits] at hspells
  refine ⟨_, _, by simpa only [integerNumeral, decide_eq_true_iff] using hspells, ?_⟩
  rw [Decimal.exact, List.length_nil, Nat.cast_zero, Int.sub_zero, zpow_zero, mul_one,
    withSign_natAbs]

/-- The shortest decimal of a double stands for that double.
`readsBack_shortest` says so by a test; here it is said of the decimal. -/
theorem nearest_shortest {units : Nat} (representable : Representable units) :
    (shortest units).nearest = .finite units representable := by
  have hreads := readsBack_shortest representable
  unfold readsBack at hreads
  split at hreads
  · next hfinite =>
    rw [hfinite]
    congr
    exact eq_of_beq hreads
  · cases hreads

/-- **A finite double is read from its numeral**: `numeral?` is a decimal one
and denotes the double, with its sign, also where it is zero. -/
theorem exists_spells_numeral? {double : Binary64} {x : ℚ} (h : double.number? = some x) :
    ∃ text negative d, double.numeral? = some text ∧ (Numeral.decimal negative d).Spells text ∧
      (Numeral.decimal negative d).value = double := by
  cases double with
  | nan => cases h
  | signed negative magnitude =>
    cases magnitude with
    | infinite => cases h
    | finite units representable =>
      obtain ⟨d, hd, hexact⟩ := decimal?_numeral (shortest units)
      refine ⟨_, negative, d, rfl, spells_of_decimal? (sign_minus negative) hd, ?_⟩
      rw [Numeral.value, Decimal.nearest_congr hexact, nearest_shortest representable]

end ListQuery.Number
