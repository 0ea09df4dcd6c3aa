/-!
# Integers in text

Reading a 64-bit integer: an optional sign and ASCII digits, nothing around
them. The digits are read from the left, and the first of them that is no digit,
or that carries the number out of range, is what is wrong with the text.
-/

namespace ListQuery.Number

inductive IntegerFault where
  | empty
  | invalidDigit
  | tooLarge
  | tooSmall
  deriving DecidableEq, Repr

def IntegerFault.message : IntegerFault → String
  | .empty => "cannot parse integer from empty string"
  | .invalidDigit => "invalid digit found in string"
  | .tooLarge => "number too large to fit in target type"
  | .tooSmall => "number too small to fit in target type"

/-- Appends digits to `number`, which must not pass `limit`. The first character
that is no digit, or that would carry the number past it, is the fault. -/
def appendDigits (limit : Nat) (beyond : IntegerFault) : Nat → List Char → Except IntegerFault Nat
  | number, [] => .ok number
  | number, c :: rest =>
    if c.isDigit then
      let longer := number * 10 + (c.toNat - '0'.toNat)
      if longer ≤ limit then appendDigits limit beyond longer rest else .error beyond
    else .error .invalidDigit

/-- The number up to `limit` that `digits` stand for; at least one is needed. A
sign with nothing behind it fails here. -/
def readNatural (limit : Nat) (beyond : IntegerFault) (digits : List Char) :
    Except IntegerFault Nat :=
  if digits.isEmpty then .error .invalidDigit else appendDigits limit beyond 0 digits

/-- The magnitude of the least `Int64`; that of the greatest is one less. -/
def leastMagnitude : Nat := Int64.size / 2

/-- The `Int64` from zero on that `digits` stand for. -/
def readPositive (digits : List Char) : Except IntegerFault Int64 :=
  (readNatural (leastMagnitude - 1) .tooLarge digits).map fun n => Int64.ofInt n

/-- The `Int64` up to zero that `digits` behind a minus sign stand for. -/
def readNegative (digits : List Char) : Except IntegerFault Int64 :=
  (readNatural leastMagnitude .tooSmall digits).map fun n => Int64.ofInt (-(n : Int))

/-- The `Int64` that a text is; it may have either sign. The least integer has a
magnitude that no positive one has, so the sign decides on the limit. -/
def readInt64 : List Char → Except IntegerFault Int64
  | [] => .error .empty
  | '-' :: digits => readNegative digits
  | '+' :: digits => readPositive digits
  | digits => readPositive digits

/-- The 32-bit number that a text is; it may have a plus sign. -/
def readNatural32 : List Char → Except IntegerFault Nat
  | [] => .error .empty
  | '+' :: digits => readNatural (UInt32.size - 1) .tooLarge digits
  | digits => readNatural (UInt32.size - 1) .tooLarge digits

/-- Digits alone are read from the left: what is read is `Nat.ofDigitChars`, as
long as it is within `limit`. Induction on the digits. -/
theorem appendDigits_of_le {limit : Nat} {beyond : IntegerFault} {digits : List Char} {number : Nat}
    (hdigits : ∀ c ∈ digits, c.isDigit = true)
    (h : Nat.ofDigitChars 10 digits number ≤ limit) :
    appendDigits limit beyond number digits = .ok (Nat.ofDigitChars 10 digits number) := by
  induction digits generalizing number with
  | nil => simp [appendDigits]
  | cons c rest ih =>
    rw [Nat.ofDigitChars_cons] at h ⊢
    have hrest : ∀ x ∈ rest, x.isDigit = true := fun x hx => hdigits x (List.mem_cons_of_mem _ hx)
    have hstep : 10 * number + (c.toNat - '0'.toNat) ≤
        Nat.ofDigitChars 10 rest (10 * number + (c.toNat - '0'.toNat)) := by
      rw [Nat.ofDigitChars_eq_ofDigitChars_zero]
      exact Nat.le_trans (Nat.le_mul_of_pos_left _ (Nat.pow_pos (by decide))) (Nat.le_add_right ..)
    rw [appendDigits, if_pos (hdigits c List.mem_cons_self), Nat.mul_comm number 10]
    exact (if_pos (Nat.le_trans hstep h)).trans (ih hrest h)

example : readInt64 "-9223372036854775808".toList = .ok Int64.minValue := by rfl
example : readInt64 "9223372036854775808x".toList = .error .tooLarge := by rfl
example : readInt64 "+".toList = .error .invalidDigit := by rfl

end ListQuery.Number
