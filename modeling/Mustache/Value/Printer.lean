import Mustache.Value.Basic

/-!
# Values as text

A value on one line: scalars in quotes, sequences in brackets, mappings in braces.
-/

namespace Mustache

namespace Value

/-- A text in double quotes, taken as it is. -/
def quote (s : Text) : Text := '"' :: s ++ ['"']

mutual

/-- The value written on one line. -/
def pretty : Value → Text
  | null => "null".toList
  | scalar text => quote text
  | sequence items => '[' :: ", ".toList.intercalate (prettyItems items) ++ [']']
  | mapping fields => '{' :: ", ".toList.intercalate (prettyFields fields) ++ ['}']

/-- Each value of a list written on one line. -/
def prettyItems : List Value → List Text
  | [] => []
  | v :: rest => pretty v :: prettyItems rest

/-- Each field written as its key in quotes, a colon and its value. -/
def prettyFields : List (Text × Value) → List Text
  | [] => []
  | (key, v) :: rest => (quote key ++ ": ".toList ++ pretty v) :: prettyFields rest

end

end Value

end Mustache
