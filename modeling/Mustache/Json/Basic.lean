import Mustache.Fields
import Mustache.Number.Shortest

/-!
# JSON trees

The generic trees that data comes in, before they become values of a template.
-/

namespace Mustache

namespace Json

/-- A JSON value that holds no other. -/
inductive Scalar where
  | null
  | bool (b : Bool)
  /-- A number without fraction and exponent, of any size. -/
  | integer (n : Int)
  /-- A number with a fraction or an exponent. -/
  | real (x : Binary64)
  | string (s : Text)
  deriving DecidableEq

/-- The canonical text of a scalar: a whole number has no fraction, whichever way it is spelled. -/
def Scalar.text : Scalar → Text
  | null => "None".toList
  | bool b => if b then "true".toList else "false".toList
  | integer n => Text.ofInt n
  | real x => x.text
  | string s => s

end Json

/-- A JSON tree. -/
inductive Json where
  | scalar (s : Json.Scalar)
  | array (items : List Json)
  | object (members : List (Text × Json))

instance : Inhabited Json := ⟨.scalar .null⟩

end Mustache
