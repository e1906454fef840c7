import Mustache.Text.Printable

/-!
# Texts quoted in messages

A message shows a text in single quotes, or in double quotes if the text holds a single quote and no
double one.  What would not print is written as an escape.
-/

namespace Mustache

namespace Text

/-- A number in hexadecimal with at least `width` digits. -/
def hex (width n : Nat) : Text :=
  let digits := Nat.toDigits 16 n
  List.replicate (width - digits.length) '0' ++ digits

/-- A character inside quotes of the kind `mark`. -/
def quotedChar (mark c : Char) : Text :=
  if c = mark ∨ c = '\\' then ['\\', c]
  else if c = '\n' then ['\\', 'n']
  else if c = '\r' then ['\\', 'r']
  else if c = '\t' then ['\\', 't']
  else if isPrintable c then [c]
  else if c.toNat < 0x100 then '\\' :: 'x' :: hex 2 c.toNat
  else if c.toNat < 0x10000 then '\\' :: 'u' :: hex 4 c.toNat
  else '\\' :: 'U' :: hex 8 c.toNat

/-- The text in quotes. -/
def quoted (s : Text) : Text :=
  let mark := if '\'' ∈ s ∧ '"' ∉ s then '"' else '\''
  mark :: s.flatMap (quotedChar mark) ++ [mark]

example : quoted "it's\u200b".toList = "\"it's\\u200b\"".toList := by decide +kernel

end Text

end Mustache
