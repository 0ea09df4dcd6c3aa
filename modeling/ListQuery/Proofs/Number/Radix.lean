import Mathlib.Data.List.Induction
import Mathlib.Data.Nat.Digits.Defs
import ListQuery.Proofs.Number.Value

/-!
# Digits in another base

Reading digit by digit rounds at every digit. What comes out of it can be said
without the steps.

* **`Radix.number`**, **`Radix.Fills`** — the number that digits stand for, and
  where it comes to 2^53.
* **`Radix.ReadsAs`** — the closed form: up to there the number itself is
  rounded, and every digit behind multiplies what it was rounded to by the base.
* **`roundUnits_add_of_lt_half`**, **`Radix.two_mul_digit_lt`** — the crux: a
  digit behind is less than half of the last of 53 bits, so rounding takes it
  off again.
* **`Radix.ReadsAs.readDigits_eq`** — so the closed form is what digits are read
  as.
* **`Radix.ReadsAs.mono`** — it keeps the order of the numbers, though it is not
  what they are rounded to.
-/

namespace ListQuery.Number

-- A power of natural numbers is `Nat.pow`, whatever other instances are at hand.
attribute [local instance (high)] instPowNat

/-! ## Rounding what is nearly a double -/

theorem Precise.mul_two_pow {units : Nat} (h : Precise units) (k : Nat) :
    Precise (units * 2 ^ k) := by
  obtain ⟨lead, shift, hnormal, rfl⟩ := h.exists_normal
  rw [Nat.mul_assoc, ← Nat.pow_add]
  exact precise_mul_two_pow hnormal.lt.le

/-- `divNearestEven` rounds a whole number and less than half to the whole
number. No tie comes up, so it need not be even. -/
theorem divNearestEven_mul_add {n extra den : Nat} (h : 2 * extra < den) :
    divNearestEven (n * den + extra) den = n := by
  have hlt : extra < den := by omega
  have hdiv : (n * den + extra) / den = n := by
    rw [Nat.mul_comm, Nat.mul_add_div (by omega), Nat.div_eq_of_lt hlt, Nat.add_zero]
  have hmod : (n * den + extra) % den = extra := by
    rw [Nat.mul_add_mod_self_right, Nat.mod_eq_of_lt hlt]
  simp only [divNearestEven, hdiv, hmod]
  exact if_pos (.inl h)

/-- `roundUnits` takes off less than half of the last of 53 bits. The leading
bit does not move, so the sum is rounded at the same place. -/
theorem roundUnits_add_of_lt_half {units extra : Nat} (h : Precise units)
    (hextra : 2 * extra < 2 ^ (units.log2 - 52)) : roundUnits (units + extra) 1 = units := by
  obtain ⟨lead, shift, hnormal, rfl⟩ := h.exists_normal
  rw [hnormal.log2] at hextra
  have hlog : (lead * 2 ^ shift + extra).log2 - 52 = shift := by
    rcases hnormal.full with hlead | rfl
    · -- the leading bit stays where it is, since the next significand is not reached
      have hnext : lead * 2 ^ shift + extra < (lead + 1) * 2 ^ shift := by
        rw [Nat.add_mul, Nat.one_mul]
        omega
      have hlog : (lead * 2 ^ shift + extra).log2 = 52 + shift := by
        have hlow : 2 ^ (52 + shift) ≤ lead * 2 ^ shift := by
          rw [Nat.pow_add]
          exact Nat.mul_le_mul_right _ hlead
        have hhigh : (lead + 1) * 2 ^ shift ≤ 2 ^ (52 + shift + 1) := by
          rw [show 52 + shift + 1 = 53 + shift from by omega, Nat.pow_add]
          exact Nat.mul_le_mul_right _ hnormal.lt
        have hpos := Nat.two_pow_pos (52 + shift)
        rw [Nat.log2_eq_iff (by omega)]
        omega
      omega
    · obtain rfl : extra = 0 := by omega
      exact hnormal.log2
  rw [roundUnits, Nat.div_one, hlog, Nat.one_mul, divNearestEven_mul_add hextra]

theorem roundUnits_of_precise {units : Nat} (h : Precise units) : roundUnits units 1 = units :=
  @roundUnits_add_of_lt_half units 0 h (Nat.two_pow_pos _)

theorem precise_roundUnits (num den : Nat) : Precise (roundUnits num den) := dvd_roundUnits num den

/-! ## What is rounded once -/

namespace Magnitude

theorem ofRatio_roundUnits (num den : Nat) : ofRatio (roundUnits num den) 1 = ofRatio num den := by
  simp only [ofRatio, roundUnits_of_precise (precise_roundUnits num den)]

/-- `ofRatio` takes off less than half of the last of 53 bits. -/
theorem ofRatio_add_of_lt_half {units extra : Nat} (h : Precise units)
    (hextra : 2 * extra < 2 ^ (units.log2 - 52)) : ofRatio (units + extra) 1 = ofRatio units 1 := by
  rw [← ofRatio_roundUnits, roundUnits_add_of_lt_half h hextra]

/-- `ofRatio` of what is `Precise` is this number, or else infinite: it is
rounded to itself, and only its size is left to look at. -/
theorem ofRatio_of_precise {units : Nat} (h : Precise units) :
    (∃ representable, ofRatio units 1 = .finite units representable) ∨
      overflowUnits ≤ units ∧ ofRatio units 1 = .infinite := by
  by_cases hlt : units < overflowUnits
  · exact .inl ⟨⟨hlt, h⟩, by simp only [ofRatio, roundUnits_of_precise h, hlt, dif_pos]⟩
  · exact .inr ⟨Nat.not_lt.mp hlt, ofRatio_of_le (by rw [Nat.div_one]; exact Nat.not_lt.mp hlt)⟩

/-- `times` the base and `plus` a digit rounds once, since the product by a
power of two is a double already, or infinite. -/
theorem plus_times_ofRatio {units k : Nat} (h : Precise units) (digit : Nat) :
    ((ofRatio units 1).times (2 ^ k)).plus digit =
      ofRatio (units * 2 ^ k + digit * unitsPerOne) 1 := by
  have hbeyond : overflowUnits ≤ units * 2 ^ k →
      .infinite = ofRatio (units * 2 ^ k + digit * unitsPerOne) 1 := by
    intro hle
    refine (ofRatio_of_le ?_).symm
    rw [Nat.div_one]
    exact Nat.le_trans hle (Nat.le_add_right _ _)
  rcases ofRatio_of_precise h with ⟨_, hunits⟩ | ⟨hle, hunits⟩
  · rw [hunits, times]
    rcases ofRatio_of_precise (h.mul_two_pow k) with ⟨_, hproduct⟩ | ⟨hle, hproduct⟩
    · rw [hproduct, plus]
    · rw [hproduct]
      exact hbeyond hle
  · rw [hunits]
    exact hbeyond (Nat.le_trans hle (Nat.le_mul_of_pos_right _ (Nat.two_pow_pos k)))

end Magnitude

/-! ## The number that digits stand for -/

namespace Radix

/-- The number that digits stand for, the leading one first. It has no upper
end, and `Nat.ofDigits` takes the digits from the last one on. -/
def number (base : Radix) (digits : List Nat) : Nat := Nat.ofDigits base.size digits.reverse

/-- How many bits a digit has, the base being a power of two. -/
def bits : Radix → Nat
  | .hexadecimal => 4
  | .octal => 3
  | .binary => 1

theorem size_eq (base : Radix) : base.size = 2 ^ base.bits := by
  cases base <;> rfl

theorem one_lt_size (base : Radix) : 1 < base.size := by
  cases base <;> decide

theorem size_pow_pos (base : Radix) (n : Nat) : 0 < base.size ^ n :=
  Nat.pow_pos (Nat.zero_lt_of_lt base.one_lt_size)

variable {base : Radix} {digits front back : List Nat} {digit : Nat}

theorem number_nil : base.number [] = 0 := rfl

/-- For `number` digits behind others shift these by their number. The base is
multiplied in for each of them. -/
theorem number_append (front back : List Nat) :
    base.number (front ++ back) =
      base.number front * base.size ^ back.length + base.number back := by
  rw [number, List.reverse_append, Nat.ofDigits_append, List.length_reverse, Nat.add_comm,
    Nat.mul_comm]
  rfl

theorem number_append_singleton (front : List Nat) (digit : Nat) :
    base.number (front ++ [digit]) = base.number front * base.size + digit := by
  rw [number_append]
  simp [number]

theorem mul_le_number_append (front back : List Nat) :
    base.number front * base.size ^ back.length ≤ base.number (front ++ back) := by
  rw [number_append]
  exact Nat.le_add_right _ _

theorem number_le_append (front back : List Nat) :
    base.number front ≤ base.number (front ++ back) :=
  Nat.le_trans (Nat.le_mul_of_pos_right _ (base.size_pow_pos _)) (mul_le_number_append front back)

/-- Digits behind others stand for less than one more in front of them. So the
digits that come to 2^53 bound the `number` of all from both sides. -/
theorem number_append_lt (front : List Nat) (hback : ∀ digit ∈ back, digit < base.size) :
    base.number (front ++ back) < (base.number front + 1) * base.size ^ back.length := by
  have hlt : base.number back < base.size ^ back.length := by
    rw [number, ← List.length_reverse]
    exact Nat.ofDigits_lt_base_pow_length base.one_lt_size fun digit hdigit =>
      hback digit (List.mem_reverse.mp hdigit)
  rw [number_append, Nat.add_mul, Nat.one_mul]
  omega

/-- `base.Fills front` says that the digits come to 2^53, and not before the
last of them. Zeros in front do not matter to this. -/
structure Fills (base : Radix) (front : List Nat) : Prop where
  reach : 2 ^ 53 ≤ base.number front
  first : ∀ shorter, shorter <+: front → shorter ≠ front → base.number shorter < 2 ^ 53

/-- Digits that come to 2^53 have some in front that `Fills`: they do so
somewhere for the first time. Induction on the digits from the last one. -/
theorem exists_fills (h : 2 ^ 53 ≤ base.number digits) :
    ∃ front back, digits = front ++ back ∧ base.Fills front := by
  induction digits using List.reverseRecOn with
  | nil => exact absurd h (by rw [number_nil]; decide)
  | append_singleton digits digit ih =>
    by_cases hreach : 2 ^ 53 ≤ base.number digits
    · obtain ⟨front, back, rfl, hfills⟩ := ih hreach
      exact ⟨front, back ++ [digit], by rw [List.append_assoc], hfills⟩
    · refine ⟨digits ++ [digit], [], (List.append_nil _).symm, h, fun shorter hshorter hne => ?_⟩
      -- a shorter text of digits stands for no more than all of them but the last
      obtain ⟨rest, rfl⟩ := (List.prefix_concat_iff.mp hshorter).resolve_left hne
      exact Nat.lt_of_le_of_lt (number_le_append shorter rest) (Nat.not_le.mp hreach)

/-- The last digit of what `Fills` brings the number to less than 2^53 units of
the base, since without it the number is less than 2^53. -/
theorem Fills.number_lt (h : base.Fills front) (hdigits : ∀ digit ∈ front, digit < base.size) :
    base.number front < 2 ^ 53 * base.size := by
  cases front using List.reverseRecOn with
  | nil => exact absurd h.reach (by rw [number_nil]; decide)
  | append_singleton digits digit =>
    have hbefore : base.number digits < 2 ^ 53 :=
      h.first digits (List.prefix_append _ _) (by simp)
    have hdigit : digit < base.size := hdigits digit (by simp)
    rw [number_append_singleton]
    calc base.number digits * base.size + digit
        < base.number digits * base.size + base.size := by omega
      _ = (base.number digits + 1) * base.size := by rw [Nat.add_mul, Nat.one_mul]
      _ ≤ 2 ^ 53 * base.size := Nat.mul_le_mul_right _ hbefore

/-! ## Reading digits -/

open Magnitude Numeral

theorem readDigits_append_singleton (digits : List Nat) (digit : Nat) :
    readDigits base.size (digits ++ [digit]) =
      ((readDigits base.size digits).times base.size).plus digit := by
  rw [readDigits, List.foldl_append]
  rfl

/-- `readDigits` rounds nothing until the digits come to 2^53, so what they come
to is rounded once. Induction on the digits from the last one. -/
theorem readDigits_of_first
    (h : ∀ shorter, shorter <+: digits → shorter ≠ digits → base.number shorter < 2 ^ 53) :
    readDigits base.size digits = ofRatio (base.number digits * unitsPerOne) 1 := by
  induction digits using List.reverseRecOn with
  | nil => exact (ofRatio_of_lt_half (by simp [number_nil])).symm
  | append_singleton digits digit ih =>
    have hbefore : base.number digits < 2 ^ 53 :=
      h digits (List.prefix_append _ _) (by simp)
    have hread := ih fun shorter hshorter hne =>
      h shorter (hshorter.trans (List.prefix_append _ _)) fun heq => hne
        (hshorter.eq_of_length_le (by rw [heq]; simp))
    have hprecise : Precise (base.number digits * unitsPerOne) := precise_mul_two_pow hbefore.le
    rw [readDigits_append_singleton, hread, base.size_eq, plus_times_ofRatio hprecise,
      number_append_singleton, base.size_eq, Nat.add_mul, Nat.mul_right_comm]

theorem precise_mul_size_pow (base : Radix) {units : Nat} (h : Precise units) (n : Nat) :
    Precise (units * base.size ^ n) := by
  rw [base.size_eq, ← Nat.pow_mul]
  exact h.mul_two_pow _

/-- Once the digits have come to 2^53, the next `digit` is less than half of the
last of 53 bits: it has fewer bits than the step by which its place is moved. -/
theorem two_mul_digit_lt {units : Nat} (hfull : 2 ^ (53 : Nat) * unitsPerOne ≤ units)
    (hdigit : digit < base.size) :
    2 * (digit * unitsPerOne) < 2 ^ ((units * base.size).log2 - 52) := by
  rw [base.size_eq] at hdigit ⊢
  have hplace : 2 ^ (53 + unitExponent + base.bits) ≤ units * 2 ^ base.bits := by
    rw [Nat.pow_add, Nat.pow_add, ← unitsPerOne]
    exact Nat.mul_le_mul_right _ hfull
  have hpos := Nat.two_pow_pos (53 + unitExponent + base.bits)
  have hlog := (Nat.le_log2 (by omega)).mpr hplace
  calc 2 * (digit * unitsPerOne) < 2 * (2 ^ base.bits * unitsPerOne) :=
        Nat.mul_lt_mul_of_pos_left (Nat.mul_lt_mul_of_pos_right hdigit unitsPerOne_pos) (by decide)
    _ = 2 ^ (base.bits + unitExponent + 1) := by
        rw [unitsPerOne, Nat.pow_succ, Nat.pow_add, Nat.mul_comm 2]
    _ ≤ 2 ^ ((units * 2 ^ base.bits).log2 - 52) := Nat.pow_le_pow_right (by decide) (by omega)

/-- `readDigits` rounds a digit off from 2^53 on, and only its place counts.
Induction on the digits behind, from the last one. -/
theorem readDigits_append {units : Nat} (hunits : Precise units)
    (hfull : 2 ^ (53 : Nat) * unitsPerOne ≤ units)
    (hfront : readDigits base.size front = ofRatio units 1)
    (hback : ∀ digit ∈ back, digit < base.size) :
    readDigits base.size (front ++ back) = ofRatio (units * base.size ^ back.length) 1 := by
  induction back using List.reverseRecOn with
  | nil => simpa using hfront
  | append_singleton back digit ih =>
    have hread := ih fun digit hdigit => hback digit (List.mem_append_left _ hdigit)
    have hprecise := precise_mul_size_pow base hunits
    have hdigit : digit < base.size := hback digit (by simp)
    have hhalf := two_mul_digit_lt
      (Nat.le_trans hfull (Nat.le_mul_of_pos_right units (base.size_pow_pos back.length))) hdigit
    have hnext : units * base.size ^ back.length * base.size =
        units * base.size ^ (back.length + 1) := by
      rw [Nat.pow_succ, Nat.mul_assoc]
    rw [hnext] at hhalf
    -- one step multiplies by the base, adds the digit and rounds it off again
    calc readDigits base.size (front ++ (back ++ [digit]))
        = ((ofRatio (units * base.size ^ back.length) 1).times base.size).plus digit := by
          rw [← List.append_assoc, readDigits_append_singleton, hread]
      _ = ofRatio (units * base.size ^ (back.length + 1) + digit * unitsPerOne) 1 := by
          rw [← hnext, base.size_eq]
          exact plus_times_ofRatio (base.size_eq ▸ hprecise back.length) digit
      _ = ofRatio (units * base.size ^ (back.length + 1)) 1 :=
          ofRatio_add_of_lt_half (hprecise _) hhalf
      _ = ofRatio (units * base.size ^ (back ++ [digit]).length) 1 := by
          rw [List.length_append, List.length_singleton]

/-! ## The closed form -/

/-- `base.ReadsAs digits units` says what digits are read as, in units of
2^-1074: the number that they stand for, if that is less than 2^53 (`exact`).
Otherwise what the digits that come to 2^53 are rounded to, times the base for
every digit behind them (`scaled`). -/
inductive ReadsAs (base : Radix) : List Nat → Nat → Prop where
  | exact {digits : List Nat} (h : base.number digits < 2 ^ 53) :
      ReadsAs base digits (base.number digits * unitsPerOne)
  | scaled {front : List Nat} (back : List Nat) (h : base.Fills front) :
      ReadsAs base (front ++ back)
        (roundUnits (base.number front * unitsPerOne) 1 * base.size ^ back.length)

/-- Every list of digits `ReadsAs` something: they come to 2^53 or not. -/
theorem exists_readsAs (base : Radix) (digits : List Nat) : ∃ units, base.ReadsAs digits units := by
  by_cases h : base.number digits < 2 ^ 53
  · exact ⟨_, .exact h⟩
  · obtain ⟨front, back, rfl, hfills⟩ := exists_fills (Nat.not_lt.mp h)
    exact ⟨_, .scaled back hfills⟩

/-- `roundUnits` does not take what `Fills` 53 bits below 2^53, which is a power
of two. -/
theorem Fills.le_roundUnits (h : base.Fills front) :
    2 ^ (53 : Nat) * unitsPerOne ≤ roundUnits (base.number front * unitsPerOne) 1 := by
  have hreach : 2 ^ (53 : Nat) * unitsPerOne ≤ base.number front * unitsPerOne :=
    Nat.mul_le_mul_right _ h.reach
  rw [unitsPerOne, ← Nat.pow_add] at hreach ⊢
  exact two_pow_le_roundUnits (by omega) (by rwa [Nat.div_one])

theorem roundUnits_mono {units units' : Nat} (h : units ≤ units') :
    roundUnits units 1 ≤ roundUnits units' 1 :=
  (roundsTo_roundUnits units Nat.one_pos).mono (roundsTo_roundUnits units' Nat.one_pos)
    (div_le_div_of_nonneg_right (by exact_mod_cast h) (by norm_num))

/-- `roundUnits` does not take what `Fills` 53 bits beyond the base times 2^53.
That number is held exactly, and rounding keeps the order. -/
theorem Fills.roundUnits_le (h : base.Fills front) (hdigits : ∀ digit ∈ front, digit < base.size) :
    roundUnits (base.number front * unitsPerOne) 1 ≤ 2 ^ (53 : Nat) * base.size * unitsPerOne := by
  have hprecise : Precise (2 ^ (53 : Nat) * base.size * unitsPerOne) := by
    rw [base.size_eq]
    exact ((precise_mul_two_pow (Nat.le_refl _)).mul_two_pow _)
  calc roundUnits (base.number front * unitsPerOne) 1
      ≤ roundUnits (2 ^ (53 : Nat) * base.size * unitsPerOne) 1 :=
        roundUnits_mono (Nat.mul_le_mul_right _ (h.number_lt hdigits).le)
    _ = 2 ^ (53 : Nat) * base.size * unitsPerOne := roundUnits_of_precise hprecise

variable {units units' : Nat} {digits' : List Nat}

theorem ReadsAs.precise (h : base.ReadsAs digits units) : Precise units := by
  cases h with
  | exact h => exact precise_mul_two_pow h.le
  | scaled back h => exact precise_mul_size_pow base (precise_roundUnits _ _) _

/-- **The closed form is what the digits are read as**, one by one: those in
front by `readDigits_of_first`, and those behind by `readDigits_append`. -/
theorem ReadsAs.readDigits_eq (h : base.ReadsAs digits units)
    (hdigits : ∀ digit ∈ digits, digit < base.size) :
    readDigits base.size digits = ofRatio units 1 := by
  cases h with
  | exact h =>
    refine readDigits_of_first fun shorter hshorter _ => ?_
    obtain ⟨rest, rfl⟩ := hshorter
    exact Nat.lt_of_le_of_lt (number_le_append shorter rest) h
  | @scaled front back h =>
    refine readDigits_append (precise_roundUnits _ _) h.le_roundUnits ?_ fun digit hdigit =>
      hdigits digit (List.mem_append_right _ hdigit)
    rw [ofRatio_roundUnits, readDigits_of_first h.first]

/-! ## Order -/

/-- Of two numbers from `2 ^ 53` on the greater is not read as less by `scaled`:
it has more digits behind those that come to `2 ^ 53`, or as many and these come
to no less. -/
theorem scaled_mono {front' back' : List Nat} (hfills : base.Fills front)
    (hfills' : base.Fills front') (hdigits : ∀ digit ∈ front ++ back, digit < base.size)
    (hdigits' : ∀ digit ∈ front' ++ back', digit < base.size)
    (hle : base.number (front ++ back) ≤ base.number (front' ++ back')) :
    roundUnits (base.number front * unitsPerOne) 1 * base.size ^ back.length ≤
      roundUnits (base.number front' * unitsPerOne) 1 * base.size ^ back'.length := by
  obtain ⟨hfront, -⟩ := List.forall_mem_append.mp hdigits
  obtain ⟨hfront', hback'⟩ := List.forall_mem_append.mp hdigits'
  have hlow : base.number front * base.size ^ back.length ≤ base.number (front ++ back) :=
    mul_le_number_append front back
  have hhigh := number_append_lt front' hback'
  rcases Nat.lt_trichotomy back.length back'.length with hlt | heq | hgt
  · -- one more multiplication by the base makes up for any rounding
    calc roundUnits (base.number front * unitsPerOne) 1 * base.size ^ back.length
        ≤ 2 ^ (53 : Nat) * base.size * unitsPerOne * base.size ^ back.length :=
          Nat.mul_le_mul_right _ (hfills.roundUnits_le hfront)
      _ = 2 ^ (53 : Nat) * unitsPerOne * base.size ^ (back.length + 1) := by
          rw [Nat.mul_right_comm _ base.size, Nat.mul_assoc, ← Nat.pow_succ']
      _ ≤ roundUnits (base.number front' * unitsPerOne) 1 * base.size ^ back'.length :=
          Nat.mul_le_mul hfills'.le_roundUnits
            (Nat.pow_le_pow_right (Nat.zero_lt_of_lt base.one_lt_size) hlt)
  · -- with as many digits behind them the leading ones are in order
    rw [heq] at hlow ⊢
    have hnumber : base.number front < base.number front' + 1 :=
      Nat.lt_of_mul_lt_mul_right (Nat.lt_of_le_of_lt (Nat.le_trans hlow hle) hhigh)
    exact Nat.mul_le_mul_right _
      (roundUnits_mono (Nat.mul_le_mul_right _ (Nat.le_of_lt_succ hnumber)))
  · -- with more digits behind it the first number would be the greater
    have hgreater : (base.number front' + 1) * base.size ^ back'.length ≤
        base.number front * base.size ^ back.length := by
      calc (base.number front' + 1) * base.size ^ back'.length
          ≤ 2 ^ (53 : Nat) * base.size * base.size ^ back'.length :=
            Nat.mul_le_mul_right _ (hfills'.number_lt hfront')
        _ = 2 ^ (53 : Nat) * base.size ^ (back'.length + 1) := by
            rw [Nat.mul_assoc, ← Nat.pow_succ']
        _ ≤ base.number front * base.size ^ back.length :=
            Nat.mul_le_mul hfills.reach
              (Nat.pow_le_pow_right (Nat.zero_lt_of_lt base.one_lt_size) hgt)
    omega

/-- The closed form keeps the order of the numbers, whether or not they come to
2^53. Two numbers that both do are the case of `scaled_mono`. -/
theorem ReadsAs.mono (h : base.ReadsAs digits units) (h' : base.ReadsAs digits' units')
    (hdigits : ∀ digit ∈ digits, digit < base.size)
    (hdigits' : ∀ digit ∈ digits', digit < base.size)
    (hle : base.number digits ≤ base.number digits') : units ≤ units' := by
  cases h with
  | exact h =>
    cases h' with
    | exact h' => exact Nat.mul_le_mul_right _ hle
    | scaled back' h' =>
      calc base.number digits * unitsPerOne ≤ 2 ^ (53 : Nat) * unitsPerOne :=
            Nat.mul_le_mul_right _ h.le
        _ ≤ _ := h'.le_roundUnits
        _ ≤ _ := Nat.le_mul_of_pos_right _ (base.size_pow_pos _)
  | @scaled front back h =>
    have hreach := Nat.le_trans h.reach (number_le_append front back)
    cases h' with
    | exact h' => omega
    | scaled back' h' => exact scaled_mono h h' hdigits hdigits' hle

end Radix

end ListQuery.Number
