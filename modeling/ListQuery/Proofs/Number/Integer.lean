import ListQuery.Number.Integer
import ListQuery.Proofs.Number.Grammar
import ListQuery.Proofs.Traversal

/-!
# The texts of an integer

What may be written for a 64-bit integer, said without reading it: an optional
sign and ASCII digits.

* **`WritesInteger`** — the text writes the integer. Any number of zeros may
  stand in front.
* **`appendDigits_eq_ok_iff`** — the crux: digits that stay within a limit while
  they are read one by one are those whose number is within it, since that only
  grows.
* **`readInt64_eq_ok_iff`** — the headline: a text is read as the integer that
  it writes, and as nothing if it writes none of 64 bits.
-/

namespace ListQuery.Number

open Numeral (Sign Digits)

/-- `WritesInteger text n` says that the text is an optional sign and one
decimal digit or more, and that `n` is the integer which it writes. -/
inductive WritesInteger : List Char → Int → Prop where
  | intro {negative : Bool} {sign digits : List Char} (hsign : Sign negative sign)
      (hdigits : Digits digits) (hne : digits ≠ []) :
      WritesInteger (sign ++ digits)
        (if negative then -(Nat.ofDigitChars 10 digits 0 : Int) else Nat.ofDigitChars 10 digits 0)

/-- The integer that a text `WritesInteger` can be computed from its sign and
its digits. So a text writes one integer at most. -/
theorem WritesInteger.eq {text : List Char} {n : Int} (h : WritesInteger text n) :
    n = if (Numeral.takeSign text).1 then -(Nat.ofDigitChars 10 (Numeral.takeSign text).2 0 : Int)
      else Nat.ofDigitChars 10 (Numeral.takeSign text).2 0 := by
  cases h with
  | intro hsign hdigits hne =>
    obtain ⟨c, rest, rfl⟩ := List.exists_cons_of_ne_nil hne
    have hunsigned := Numeral.unsigned_of_head_isDigit (hdigits c List.mem_cons_self) rest
    rw [Numeral.takeSign_append hsign hunsigned]

theorem WritesInteger.unique {text : List Char} {m n : Int} (hm : WritesInteger text m)
    (hn : WritesInteger text n) : m = n :=
  hm.eq.trans hn.eq.symm

/-! ## Digits -/

variable {limit number n : Nat} {beyond : IntegerFault} {digits : List Char}

/-- `appendDigits` goes through exactly if the number that the digits lead to is
within the limit. It only grows, so that it has not passed the limit before.
Induction on the digits. -/
theorem appendDigits_eq_ok_iff (hnumber : number ≤ limit) :
    appendDigits limit beyond number digits = .ok n ↔
      Digits digits ∧ Nat.ofDigitChars 10 digits number ≤ limit ∧
        n = Nat.ofDigitChars 10 digits number := by
  constructor
  · intro h
    induction digits generalizing number with
    | nil =>
      rw [appendDigits, Except.ok.injEq] at h
      exact ⟨by simp [Digits], by simpa using hnumber, by simpa using h.symm⟩
    | cons c rest ih =>
      rw [appendDigits] at h
      split at h
      · next hc =>
        dsimp only at h
        split at h
        · next hle =>
          obtain ⟨hrest, hlimit, hn⟩ := ih hle h
          rw [Nat.ofDigitChars_cons, Nat.mul_comm 10]
          exact ⟨List.forall_mem_cons.mpr ⟨hc, hrest⟩, hlimit, hn⟩
        · cases h
      · cases h
  · rintro ⟨hdigits, hlimit, rfl⟩
    exact appendDigits_of_le hdigits hlimit

/-- `readNatural` reads one digit or more as their number, if it is within the
limit. -/
theorem readNatural_eq_ok_iff :
    readNatural limit beyond digits = .ok n ↔
      (Digits digits ∧ digits ≠ []) ∧ n = Nat.ofDigitChars 10 digits 0 ∧ n ≤ limit := by
  rw [readNatural]
  split
  · next hempty =>
    have hnil : digits = [] := by simpa using hempty
    exact iff_of_false (by simp) fun h => h.1.2 hnil
  · next hempty =>
    have hne : digits ≠ [] := by simpa using hempty
    rw [appendDigits_eq_ok_iff (Nat.zero_le _)]
    constructor
    · rintro ⟨hdigits, hlimit, rfl⟩
      exact ⟨⟨hdigits, hne⟩, rfl, hlimit⟩
    · rintro ⟨⟨hdigits, -⟩, rfl, hlimit⟩
      exact ⟨hdigits, hlimit, rfl⟩

/-! ## Signs -/

/-- `readPositive` reads digits as the 64-bit integer with their number, if
there is one. The limit is what makes the conversion exact. -/
theorem readPositive_eq_ok_iff {number : Int64} :
    readPositive digits = .ok number ↔
      (Digits digits ∧ digits ≠ []) ∧ number.toInt = Nat.ofDigitChars 10 digits 0 := by
  have hmap : readPositive digits =
      (readNatural (leastMagnitude - 1) .tooLarge digits).map
        fun n : Nat => Int64.ofInt (n : Int) := by
    rw [readPositive]
    cases readNatural (leastMagnitude - 1) .tooLarge digits <;> rfl
  rw [hmap, map_eq_ok_iff]
  simp only [readNatural_eq_ok_iff, leastMagnitude, Int64.size]
  constructor
  · rintro ⟨n, ⟨hdigits, rfl, hle⟩, rfl⟩
    exact ⟨hdigits, Int64.toInt_ofInt_of_le (by omega) (by omega)⟩
  · rintro ⟨hdigits, hnumber⟩
    have hlt := number.toInt_lt
    refine ⟨_, ⟨hdigits, rfl, by omega⟩, ?_⟩
    rw [← hnumber, Int64.ofInt_toInt]

/-- `readNegative` reads digits as the 64-bit integer with the opposite of their
number, if there is one. It may be one more below zero than above. -/
theorem readNegative_eq_ok_iff {number : Int64} :
    readNegative digits = .ok number ↔
      (Digits digits ∧ digits ≠ []) ∧ number.toInt = -(Nat.ofDigitChars 10 digits 0 : Int) := by
  have hmap : readNegative digits =
      (readNatural leastMagnitude .tooSmall digits).map
        fun n : Nat => Int64.ofInt (-(n : Int)) := by
    rw [readNegative]
    cases readNatural leastMagnitude .tooSmall digits <;> rfl
  rw [hmap, map_eq_ok_iff]
  simp only [readNatural_eq_ok_iff, leastMagnitude, Int64.size]
  constructor
  · rintro ⟨n, ⟨hdigits, rfl, hle⟩, rfl⟩
    exact ⟨hdigits, Int64.toInt_ofInt_of_le (by omega) (by omega)⟩
  · rintro ⟨hdigits, hnumber⟩
    have hle := number.le_toInt
    refine ⟨_, ⟨hdigits, rfl, by omega⟩, ?_⟩
    rw [← hnumber, Int64.ofInt_toInt]

/-- A text without a sign is read as a number from zero on. This is the last
case of `readInt64`, which the other three leave. -/
theorem readInt64_of_unsigned {text : List Char} (hne : text ≠ []) (h : Numeral.Unsigned text) :
    readInt64 text = readPositive text := by
  rw [readInt64.eq_def]
  split
  · exact absurd rfl hne
  · exact absurd rfl h.2
  · exact absurd rfl h.1
  · rfl

/-- **A text is read as the integer that it writes**: `readInt64` gives exactly
what the text `WritesInteger` of 64 bits. -/
theorem readInt64_eq_ok_iff {text : List Char} {number : Int64} :
    readInt64 text = .ok number ↔ WritesInteger text number.toInt := by
  constructor
  · intro h
    rw [readInt64.eq_def] at h
    split at h
    · cases h
    · obtain ⟨⟨hdigits, hne⟩, hnumber⟩ := readNegative_eq_ok_iff.mp h
      rw [hnumber]
      exact .intro .minus hdigits hne
    · obtain ⟨⟨hdigits, hne⟩, hnumber⟩ := readPositive_eq_ok_iff.mp h
      rw [hnumber]
      exact .intro .plus hdigits hne
    · obtain ⟨⟨hdigits, hne⟩, hnumber⟩ := readPositive_eq_ok_iff.mp h
      rw [hnumber]
      exact .intro .absent hdigits hne
  · intro h
    generalize hwritten : number.toInt = written at h
    cases h with
    | intro hsign hdigits hne =>
      cases hsign with
      | minus => exact readNegative_eq_ok_iff.mpr ⟨⟨hdigits, hne⟩, hwritten⟩
      | plus => exact readPositive_eq_ok_iff.mpr ⟨⟨hdigits, hne⟩, hwritten⟩
      | absent =>
        -- digits are not taken for a sign
        obtain ⟨c, rest, rfl⟩ := List.exists_cons_of_ne_nil hne
        have hunsigned := Numeral.unsigned_of_head_isDigit (hdigits c List.mem_cons_self) rest
        rw [List.nil_append, readInt64_of_unsigned hne hunsigned]
        exact readPositive_eq_ok_iff.mpr ⟨⟨hdigits, hne⟩, hwritten⟩

end ListQuery.Number
