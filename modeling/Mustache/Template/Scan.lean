import Mustache.Template.Tag

/-!
# Scanning

A scan walks over a template from tag to tag.  What it does next depends on three things only: the
text that is left, whether that text starts a line, and the markers in force.
-/

namespace Mustache

/-- Where a scan stands. -/
structure Cursor where
  rest : Text
  lineStart : Bool := true
  delimiter : Delimiter := .braces

namespace Cursor

/-- The token of a text before a tag, if that text is not empty. -/
def textTokens (s : Text) (lineStart : Bool) : List Token :=
  if s = [] then [] else [⟨.text s, { firstOnLine := lineStart }⟩]

/-- The tokens of a tag that means `m`: the text before it, then its symbol. -/
def tagTokens (c : Cursor) (t : Tag) (m : Meaning) : List Token :=
  textTokens (t.kept c.lineStart) c.lineStart ++ m.symbol?.toList.map (⟨·, t.line c.lineStart⟩)

/-- Where the scan stands behind a tag that means `m`. -/
def past (c : Cursor) (t : Tag) (m : Meaning) : Cursor where
  rest := t.rest c.lineStart
  lineStart := t.endsLine c.lineStart
  delimiter := m.change?.getD c.delimiter

/-- The token of a text that holds no tag. -/
def lastToken (c : Cursor) : Token :=
  ⟨.text c.rest, { firstOnLine := c.lineStart, lastOnLine := true, atEnd := true }⟩

theorem length_past_lt {c : Cursor} {t : Tag} (m : Meaning)
    (h : cutTag c.delimiter c.rest = .tag t) :
    (c.past t m).rest.length < c.rest.length :=
  Nat.lt_of_le_of_lt (t.length_rest_le c.lineStart) (length_after_lt h)

/-- The tokens from the cursor to the end of the text. -/
def scan (c : Cursor) : Run (List Token) :=
  match h : cutTag c.delimiter c.rest with
  | .plain => pure (if c.rest = [] then [] else [c.lastToken])
  | .unclosed => Traced.fail (.unclosedTag c.rest)
  | .tag t => do
    let m ← Traced.ofExcept t.meaning
    if let some pair := m.change? then Traced.tell (.delimiters pair)
    have := length_past_lt m h
    let later ← scan (c.past t m)
    return c.tagTokens t m ++ later
termination_by c.rest.length

end Cursor

/-- The tokens of a template, with the given markers in force at its start. -/
def tokenize (template : Text) (delimiter : Delimiter := .braces) : Run (List Token) :=
  Cursor.scan { rest := template, delimiter := delimiter }

end Mustache
