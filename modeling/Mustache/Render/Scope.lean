import Mustache.Value.Lookup

/-!
# Scopes

A scope is what names are looked up in: the values of the sections around a node, innermost first,
and the root.  Fields and sections look names up by different rules: a section that holds the first
key of a path hides the root from a field, and never from a section.
-/

namespace Mustache

/-- The values that names are looked up in. -/
structure Scope where
  root : Value
  /-- The values of the enclosing sections, innermost first. -/
  stack : List Value := []

namespace Scope

/-- The innermost value. -/
def current (s : Scope) : Value := s.stack.head?.getD s.root

/-- The scope inside a section with value `v`. -/
def push (v : Value) (s : Scope) : Scope := { s with stack := v :: s.stack }

/-- The part of a path that decides whether the root is hidden: all of the path `.`, and of any
other path what stands before its first dot. -/
def leadingKey (path : Text) : Text := if path = ['.'] then path else path.takeWhile (· ≠ '.')

/-- The value of a field: that of the innermost stack entry that holds the whole path.  The root
answers only if no stack entry holds the leading key. -/
def fieldValue (s : Scope) (path : Text) : Option Value :=
  match s.stack.findSome? fun entry => entry.lookup path with
  | some v => some v
  | none =>
    if s.stack.any fun entry => (entry.lookup (leadingKey path)).isSome then none
    else s.root.lookup path

/-- The value of a section: that of the innermost stack entry that holds the path, else the one in
the root. -/
def sectionValue (s : Scope) (path : Text) : Option Value :=
  match s.stack.findSome? fun entry => entry.lookup path with
  | some v => some v
  | none => s.root.lookup path

/-- The text of a field: empty unless its value is a scalar. -/
def fieldText (s : Scope) (path : Text) : Text := ((s.fieldValue path).bind Value.text?).getD []

/-- The scopes in which the body of a section with value `v` is rendered, one after the other.
Nothing, an empty sequence and the text `false` count as false; a sequence gives one scope for each
of its items, with the current value below the item; any other value gives one scope. -/
def bodies (s : Scope) (inverted : Bool) (v : Option Value) : List Scope :=
  match v with
  | none | some .null => if inverted then [s] else []
  | some (.sequence []) => if inverted then [s.push s.current] else []
  | some (.sequence items) =>
    if inverted then [] else items.map fun item => (s.push s.current).push item
  | some (.scalar text) =>
    if (text = "false".toList) = inverted then [s.push (.scalar text)] else []
  | some (.mapping fields) => if inverted then [] else [s.push (.mapping fields)]

end Scope

end Mustache
