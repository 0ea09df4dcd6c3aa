/-!
# Digits

Reading and writing digits, ASCII only. Writing with leading zeros keeps the
number (`ofDigitChars_zeroPadded`) and fixes the length (`length_zeroPadded`).
-/

namespace ListQuery.Text

/-- The value of a digit of a base up to sixteen; a letter counts in either
case, and nothing beyond ASCII is a digit. -/
def digitValue? (c : Char) : Option Nat :=
  if '0' ≤ c ∧ c ≤ '9' then some (c.toNat - '0'.toNat)
  else if 'a' ≤ c ∧ c ≤ 'f' then some (c.toNat - 'a'.toNat + 10)
  else if 'A' ≤ c ∧ c ≤ 'F' then some (c.toNat - 'A'.toNat + 10)
  else none

/-- The values of the digits of a text; `none` when a character is no digit of
the base. The empty text has no digits and is read as `[]`. -/
def digitValues? (base : Nat) (text : List Char) : Option (List Nat) :=
  text.mapM fun c => (digitValue? c).filter (· < base)

/-- The number `n` in decimal, with zeros in front up to the given width. -/
def zeroPadded (width n : Nat) : List Char := (Nat.toDigits 10 n).leftpad width '0'

/-- `zeroPadded` has no characters but decimal digits. So no field of a
timestamp runs into the next one. -/
theorem isDigit_of_mem_zeroPadded {width n : Nat} {c : Char} (h : c ∈ zeroPadded width n) :
    c.isDigit = true := by
  simp only [zeroPadded, List.leftpad, List.mem_append, List.mem_replicate] at h
  rcases h with ⟨_, rfl⟩ | h
  · decide
  · exact Nat.isDigit_of_mem_toDigits (by decide) (by decide) h

/-- The zeros in front change nothing: whatever the `width`, the number is read
back. -/
theorem ofDigitChars_zeroPadded (width n : Nat) :
    Nat.ofDigitChars 10 (zeroPadded width n) 0 = n := by
  simp [zeroPadded, List.leftpad, Nat.ofDigitChars_append]

/-- A number whose digits fit `width` is written with exactly that many. A
number with more digits is written in full. -/
theorem length_zeroPadded {width n : Nat} (h : (Nat.toDigits 10 n).length ≤ width) :
    (zeroPadded width n).length = width := by
  rw [zeroPadded, List.length_leftpad]
  omega

end ListQuery.Text
