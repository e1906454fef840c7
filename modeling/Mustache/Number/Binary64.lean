import Mustache.Text.Numeral

/-!
# Binary64 numbers

A finite number of the format is a sign, a significand below `2 ^ 53` and a binary exponent from
`-1074` on.  `ofRatio` is correct rounding: the exact quotient of two naturals goes to the nearest
number of the format, a tie to the even significand, and what lies beyond the format to infinity.
-/

namespace Mustache

/-- A number of the binary64 format: `± significand * 2 ^ exponent`, an infinity, or no number. -/
inductive Binary64 where
  | finite (negative : Bool) (significand : Nat) (exponent : Int)
  | infinite (negative : Bool)
  | nan
  deriving DecidableEq

namespace Binary64

/-- The least binary exponent. -/
def leastExponent : Int := -1074

/-- The greatest binary exponent. -/
def greatestExponent : Int := 971

/-- Zero with a sign. -/
def zero (negative : Bool) : Binary64 := finite negative 0 leastExponent

/-- The quotient rounded to the nearest natural, a tie to the even one. -/
def roundDiv (num den : Nat) : Nat :=
  if 2 * (num % den) < den ∨ (2 * (num % den) = den ∧ num / den % 2 = 0) then num / den
  else num / den + 1

/-- The numerator and the denominator of `num / den * base ^ exponent`. -/
def scaled (base num den : Nat) (exponent : Int) : Nat × Nat :=
  (num * Nat.pow base exponent.toNat, den * Nat.pow base (-exponent).toNat)

/-- The greatest `e` with `2 ^ e ≤ num / den`.  The difference of the two logarithms is that or one
more. -/
def floorLog (num den : Nat) : Int :=
  let guess : Int := (num.log2 : Int) - den.log2
  let (num, den) := scaled 2 num den (-guess)
  if den ≤ num then guess else guess - 1

/-- One more than the greatest significand. -/
def significandBound : Nat := Nat.pow 2 53

/-- The number nearest to `± num / den`. -/
def ofRatio (negative : Bool) (num den : Nat) : Binary64 :=
  if num = 0 then zero negative
  else
    let e := max leastExponent (floorLog num den - 52)
    let (num, den) := scaled 2 num den (-e)
    let m := roundDiv num den
    let (m, e) := if m = significandBound then (significandBound / 2, e + 1) else (m, e)
    if greatestExponent < e then infinite negative
    else finite negative m (if m = 0 then leastExponent else e)

/-- How many decimal digits a natural number has. -/
def digitCount (n : Nat) : Nat := (Text.ofNat n).length

/-- The number nearest to `± digits * 10 ^ exponent`.  A magnitude from `10 ^ 310` on is infinite
and one below `10 ^ -330` is zero, so that no power of ten beyond these is ever worked out. -/
def ofDecimal (negative : Bool) (digits : Nat) (exponent : Int) : Binary64 :=
  let size := exponent + digitCount digits
  if digits = 0 ∨ size < -330 then zero negative
  else if 310 < size then infinite negative
  else
    let (num, den) := scaled 10 digits 1 exponent
    ofRatio negative num den

/-- The value of a finite number that is whole. -/
def toInt? : Binary64 → Option Int
  | finite negative significand exponent =>
    let (num, den) := scaled 2 significand 1 exponent
    if num % den = 0 then
      some (if negative then -((num / den : Nat) : Int) else ((num / den : Nat) : Int))
    else none
  | _ => none

example : ofDecimal false 1 (-1) = finite false 7205759403792794 (-56) := by decide +kernel
example : ofDecimal false 24703282292062328 (-340) = finite false 1 (-1074) := by decide +kernel
example : ofDecimal true 24703282292062327 (-340) = zero true := by decide +kernel
example : ofDecimal false 17976931348623159 292 = infinite false := by decide +kernel
example : (ofDecimal false 1 23).toInt? = some 99999999999999991611392 := by decide +kernel

end Binary64

end Mustache
