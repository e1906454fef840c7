import Mustache.Text.Basic

/-!
# Tokens

The flat pieces of a template, in source order.  A token is a symbol together with what stands
around it on its line.
-/

namespace Mustache

/-- Where a symbol stands on its line. -/
structure LineInfo where
  /-- What stands before the symbol on its line, as far as the scan has not passed it. -/
  preceding : Text := []
  /-- The blanks right behind the symbol on its line. -/
  following : Text := []
  /-- Does a line break come right behind the symbol? -/
  breakAfter : Bool := false
  /-- Do only blanks stand before the symbol on its line? -/
  firstOnLine : Bool := false
  /-- Do only blanks stand behind the symbol on its line? -/
  lastOnLine : Bool := false
  /-- Does the text end right behind the symbol? -/
  atEnd : Bool := false
  deriving DecidableEq

/-- Does the symbol have its line for itself, with its end right behind it? -/
def LineInfo.standalone (line : LineInfo) : Bool :=
  line.firstOnLine && line.lastOnLine && (line.breakAfter || line.atEnd)

/-- What a piece of a template stands for. -/
inductive Symbol where
  | text (content : Text)
  /-- The value under a name, with or without markup escaped. -/
  | field (name : Text) (escaped : Bool)
  | sectionOpen (name : Text) (inverted : Bool)
  | sectionClose (name : Text)
  | comment (content : Text)
  | partialRef (name : Text)
  deriving DecidableEq

/-- A symbol on its line. -/
structure Token where
  symbol : Symbol
  line : LineInfo := {}
  deriving DecidableEq

end Mustache
