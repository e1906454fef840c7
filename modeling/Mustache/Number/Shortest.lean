import Mustache.Number.Binary64

/-!
# The shortest text of a number

Of the decimals that read back as a given binary64 number, `shortest` takes one with the fewest
digits, among those the nearest to the number, and of two equally near the even one.  `layout`
writes it: with a plain decimal point while the leading digit stands for a power of ten from
`-4` to `15`, and with an exponent otherwise.
-/

namespace Mustache

/-- The number `digits * 10 ^ exponent`. -/
structure Decimal where
  digits : Nat
  exponent : Int
  deriving DecidableEq

namespace Decimal

/-- The least power of ten above `num / den`.  The difference of the digit counts is its exponent or
one less. -/
def scale (num den : Nat) : Int :=
  let guess : Int := (Binary64.digitCount num : Int) - Binary64.digitCount den
  let (num, den) := Binary64.scaled 10 num den (-guess)
  if num < den then guess else guess + 1

/-- The two multiples of `10 ^ exponent` around `num / den`, the nearer one first; of two equally
near, the even one first. -/
def neighbours (num den : Nat) (exponent : Int) : List Decimal :=
  let (num, den) := Binary64.scaled 10 num den (-exponent)
  let lower : Decimal := ⟨num / den, exponent⟩
  let upper : Decimal := ⟨num / den + 1, exponent⟩
  if Binary64.roundDiv num den = num / den then [lower, upper] else [upper, lower]

/-- The shortest decimal that reads back as the magnitude `significand * 2 ^ exponent`. -/
def shortest (significand : Nat) (exponent : Int) : Decimal :=
  let (num, den) := Binary64.scaled 2 significand 1 exponent
  let grids := (List.range 17).map fun (n : Nat) => scale num den - (n + 1 : Nat)
  let candidates := grids.flatMap (neighbours num den)
  let readsBack (d : Decimal) : Bool :=
    Binary64.ofDecimal false d.digits d.exponent = .finite false significand exponent
  (candidates.find? readsBack).getD ⟨num / den, 0⟩

/-- A decimal that is no whole number, written out. -/
def layout (d : Decimal) : Text :=
  let digits := Text.ofNat d.digits
  let point : Int := digits.length + d.exponent
  let digits := (digits.reverse.dropWhile (· = '0')).reverse
  if -4 < point ∧ point ≤ 0 then '0' :: '.' :: List.replicate (-point).toNat '0' ++ digits
  else if 0 < point ∧ point ≤ 16 then digits.take point.toNat ++ '.' :: digits.drop point.toNat
  else
    let fraction := if digits.length ≤ 1 then [] else '.' :: digits.drop 1
    let size := Text.ofNat (point - 1).natAbs
    let size := List.replicate (2 - size.length) '0' ++ size
    digits.take 1 ++ fraction ++ 'e' :: (if point < 1 then '-' else '+') :: size

end Decimal

namespace Binary64

/-- The text of a number: all digits of a whole one, the shortest that read back of any other. -/
def text (x : Binary64) : Text :=
  match x.toInt? with
  | some n => Text.ofInt n
  | none =>
    match x with
    | finite negative significand exponent =>
      (if negative then ['-'] else []) ++ (Decimal.shortest significand exponent).layout
    | infinite negative => (if negative then ['-'] else []) ++ "inf".toList
    | nan => "nan".toList

example : (ofDecimal false 1 (-1)).text = "0.1".toList := by decide +kernel
example : (ofDecimal true 1 (-7)).text = "-1e-07".toList := by decide +kernel
example : (ofDecimal false 298023223876953125 (-25)).text = "2.9802322387695312e-08".toList := by
  decide +kernel
example : (ofDecimal true 0 0).text = ['0'] := by decide +kernel

end Binary64

end Mustache
