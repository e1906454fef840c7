import Mustache.Text.Numeral

/-!
# Errors

What can go wrong between a template and its rendered text, and how each fault reads.
-/

namespace Mustache

/-- The faults of templates and of rendering. -/
inductive Error where
  /-- An opening marker without a closing one: the text from the place where the scan stood. -/
  | unclosedTag (rest : Text)
  /-- A section that is opened and never closed. -/
  | unclosedSection (name : Text)
  /-- Two markers are asked for, and the content does not name just two. -/
  | badDelimiters (content : Text)
  /-- A partial was met with `limit` expansions around it already. -/
  | depthExceeded (name : Text) (limit : Int)
  /-- An element that is no template node, of the given kind, was to be rendered. -/
  | foreignNode (kind : Text)
  /-- Partials expand inside one another without an end in sight. -/
  | endless
  deriving DecidableEq

namespace Error

/-- How much of an unclosed tag's text the message shows. -/
def excerptLength : Nat := 50

/-- The wording of a fault. -/
def message : Error → Text
  | unclosedTag rest => "Unclosed tag at: ".toList ++ rest.take excerptLength ++ "...".toList
  | unclosedSection name => "Unclosed section: ".toList ++ name
  | badDelimiters content => "Invalid delimiter syntax: ".toList ++ content
  | depthExceeded name limit =>
    "Partial '".toList ++ name ++ "' exceeds max depth of ".toList ++ Text.ofInt limit
  | foreignNode kind => "Unknown node type: ".toList ++ kind
  | endless => "partials nest too deeply (self-referencing partial?)".toList

/-- Does the fault lie in the text of a template? -/
def isParseError : Error → Bool
  | unclosedTag _ | unclosedSection _ | badDelimiters _ => true
  | _ => false

/-- The exit code of a program that stops on the fault. -/
def exitCode (e : Error) : Nat := if e.isParseError then 2 else 1

end Error

end Mustache
