import Mustache.Text.Basic

/-!
# Backslash pairs in data

Scalars that come from data may spell three control characters as a backslash and a letter.
-/

namespace Mustache

namespace Text

/-- The text with each backslash pair for line feed, carriage return and tab decoded, one kind of
pair after the other. -/
def unescape (s : Text) : Text :=
  replacePair '\\' 't' '\t' (replacePair '\\' 'r' '\r' (replacePair '\\' 'n' '\n' s))

example : unescape "a\\nb\\\\t".toList = "a\nb\\\t".toList := by decide

end Text

end Mustache
