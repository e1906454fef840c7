import Mustache.Text.Line
import Mustache.Text.Numeral

/-!
# Faults of JSON text

A fault keeps the text from the place on where it was found; the place itself is worked out from
that and the whole text when the fault is put into words.
-/

namespace Mustache

namespace Json

/-- What is wrong at some place of a JSON text. -/
inductive Reason where
  | noValue
  | noPropertyName
  | noColon
  | noComma
  | extraData
  | unterminatedString
  | controlCharacter
  | badEscape
  | badUnicodeEscape
  | byteOrderMark
  deriving DecidableEq

/-- The wording of a reason. -/
def Reason.text : Reason → Text
  | noValue => "Expecting value".toList
  | noPropertyName => "Expecting property name enclosed in double quotes".toList
  | noColon => "Expecting ':' delimiter".toList
  | noComma => "Expecting ',' delimiter".toList
  | extraData => "Extra data".toList
  | unterminatedString => "Unterminated string starting at".toList
  | controlCharacter => "Invalid control character at".toList
  | badEscape => "Invalid \\escape".toList
  | badUnicodeEscape => "Invalid \\uXXXX escape".toList
  | byteOrderMark => "Unexpected UTF-8 BOM (decode using utf-8-sig)".toList

/-- Why a text is no JSON. -/
inductive Fault where
  /-- The text from the place on where something is wrong. -/
  | at (reason : Reason) (rest : Text)
  /-- An integer has more digits than are read. -/
  | tooManyDigits (count : Nat)
  deriving DecidableEq

/-- Where a text stands from which `rest` is left: line and column from 1, and the offset from 0. -/
def place (text rest : Text) : Text :=
  let offset := text.length - rest.length
  let passed := text.take offset
  ": line ".toList ++ Text.ofNat (passed.count '\n' + 1) ++ " column ".toList ++
    Text.ofNat ((Text.lastLine passed).length + 1) ++ " (char ".toList ++ Text.ofNat offset ++ [')']

/-- The wording of a fault in `text`. -/
def Fault.message (text : Text) : Fault → Text
  | .at reason rest => reason.text ++ place text rest
  | tooManyDigits count =>
    "Exceeds the limit (".toList ++ Text.ofNat Text.digitLimit ++
      " digits) for integer string conversion: value has ".toList ++ Text.ofNat count ++
      " digits; use sys.set_int_max_str_digits() to increase the limit".toList

end Json

end Mustache
