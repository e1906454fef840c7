import Mustache.Text.Blank
import Mustache.Value.Basic

/-!
# Dotted paths

A path names a place inside a value.  The path `.` is the value itself; any other path is a list of
keys, written with dots between them, and leads through mappings only.
-/

namespace Mustache

namespace Value

/-- The keys of a dotted path: what stands between its dots, once the blanks around the whole path
are gone. -/
def pathKeys (path : Text) : List Text := (Text.strip path).splitOn '.'

/-- The value that a walk along keys reaches; each step needs a mapping that holds the key. -/
def walk : Value → List Text → Option Value
  | v, [] => some v
  | mapping fields, key :: rest =>
    match fields.lookup key with
    | some v => walk v rest
    | none => none
  | _, _ :: _ => none

/-- The value at a path.  There is no answer from a shorter path when a key is missing. -/
def lookup (v : Value) (path : Text) : Option Value :=
  if path = ['.'] then some v else walk v (pathKeys path)

@[simp] theorem walk_nil (v : Value) : walk v [] = some v := by
  unfold walk
  rfl

theorem walk_append (v : Value) (p q : List Text) :
    walk v (p ++ q) = (walk v p).bind fun w => walk w q := by
  induction p generalizing v with
  | nil => simp
  | cons key rest ih =>
    cases v with
    | mapping fields =>
      simp only [List.cons_append, walk]
      cases fields.lookup key with
      | none => rfl
      | some w => exact ih w
    | _ => simp [walk]

end Value

end Mustache
