import Mustache.Text.Basic

/-!
# Text inside markup

`escapeMarkup` writes the five characters that markup gives a meaning as character references.
-/

namespace Mustache

namespace Text

/-- The characters that markup reserves, each with its reference; the ampersand comes first, so
that no reference written for another character is escaped again. -/
def references : List (Char × Text) :=
  [('&', "&amp;".toList), ('<', "&lt;".toList), ('>', "&gt;".toList), ('"', "&quot;".toList),
   ('\'', "&#39;".toList)]

/-- The text with every reserved character written as its reference, one character after another
in the order of `references`. -/
def escapeMarkup (s : Text) : Text :=
  references.foldl (fun t entry => replaceChar entry.1 entry.2 t) s

example : escapeMarkup "a < \"b\" & c".toList = "a &lt; &quot;b&quot; &amp; c".toList := by decide

end Text

end Mustache
