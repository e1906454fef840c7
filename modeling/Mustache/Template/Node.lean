import Mustache.Text.Basic

/-!
# Nodes

The tree of a template: sections hold the nodes between their two tags.
-/

namespace Mustache

/-- A piece of a template, ready to be rendered. -/
inductive Node where
  | text (content : Text)
  /-- The value under a name, with or without markup escaped. -/
  | field (name : Text) (escaped : Bool)
  /-- A section, or an inverted section, and what it encloses. -/
  | block (name : Text) (inverted : Bool) (children : List Node)
  /-- Kept in the tree, never rendered. -/
  | comment (content : Text)
  /-- A partial, and the margin that its lines get. -/
  | partialRef (name : Text) (indentation : Text)
  /-- An element that is no piece of a template, of the given kind. -/
  | foreign (kind : Text)

instance : Inhabited Node := ⟨.text []⟩

end Mustache
