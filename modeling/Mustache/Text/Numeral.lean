import Mustache.Text.Basic

/-!
# Whole numbers as text

Decimal digits without leading zeros, with a minus sign for a negative number.
-/

namespace Mustache

namespace Text

/-- How many digits an integer may have that is read from text. -/
def digitLimit : Nat := 4300

/-- The decimal digits of a natural number. -/
def ofNat (n : Nat) : Text := Nat.toDigits 10 n

/-- The decimal digits of an integer, a minus sign before those of a negative one. -/
def ofInt : Int → Text
  | .ofNat n => ofNat n
  | .negSucc n => '-' :: ofNat (n + 1)

example : ofInt 0 = ['0'] ∧ ofInt (-12) = ['-', '1', '2'] := by decide

end Text

end Mustache
