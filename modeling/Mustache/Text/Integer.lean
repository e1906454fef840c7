import Mustache.Text.Blank
import Mustache.Text.DecimalDigit
import Mustache.Text.Numeral

/-!
# Integers in settings

An integer that a user types may stand between blanks, have a sign and leading zeros, take its
digits from any script, and hold single underscores between digits.
-/

namespace Mustache

namespace Text

/-- Is the character a blank that may surround an integer?  Of the ASCII blanks the information
separators may not. -/
def isIntegerBlank (c : Char) : Bool := isBlank c && !(0x1C ≤ c.toNat && c.toNat < 0x20)

/-- The digits of a text in groups with single underscores between them. -/
def groupedDigits? (s : Text) : Option (List Nat) :=
  let groups := s.splitOn '_'
  if groups.any List.isEmpty then none else groups.flatten.mapM digitValue?

/-- The integer that a text spells. -/
def integer? (s : Text) : Option Int :=
  let bare := ((s.dropWhile isIntegerBlank).reverse.dropWhile isIntegerBlank).reverse
  let (negative, digits) :=
    match bare with
    | '-' :: rest => (true, rest)
    | '+' :: rest => (false, rest)
    | rest => (false, rest)
  match groupedDigits? digits with
  | some ds =>
    if digitLimit < ds.length then none
    else
      let n : Int := (ds.foldl (fun n d => 10 * n + d) 0 : Nat)
      some (if negative then -n else n)
  | none => none

example : integer? " -1_0\n".toList = some (-10) ∧ integer? "1__0".toList = none := by
  decide +kernel

end Text

end Mustache
