import Mustache.Json.Reader
import Mustache.Text.Backslash
import Mustache.Value.Basic

/-!
# Values from JSON

Numbers and truth values become their canonical texts, strings are decoded once more
(`Text.unescape`), and keys are taken as they are.
-/

namespace Mustache

namespace Value

mutual

/-- The value of a JSON tree. -/
def ofJson : Json → Value
  | .scalar .null => null
  | .scalar (.string s) => scalar (Text.unescape s)
  | .scalar s => scalar s.text
  | .array items => sequence (ofJsonItems items)
  | .object members => ofPairs (ofJsonMembers members)

/-- The values of the items of an array. -/
def ofJsonItems : List Json → List Value
  | [] => []
  | item :: rest => ofJson item :: ofJsonItems rest

/-- The values of the members of an object, under the same keys. -/
def ofJsonMembers : List (Text × Json) → List (Text × Value)
  | [] => []
  | (key, item) :: rest => (key, ofJson item) :: ofJsonMembers rest

end

/-- The value that a JSON text spells, with stand-ins for the lone surrogates in it. -/
def ofJsonText (text : Text) (standIns : StandIns := .none) : Except Json.Fault Value :=
  (Json.read text standIns).map ofJson

end Value

end Mustache
