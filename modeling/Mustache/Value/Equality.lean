import Mustache.Value.Basic

/-!
# Equality of values without key order

Two mappings are equal when they hold the same keys with equal values, in whatever order.
`distinct` counts values by the finer equality that sees the order.
-/

namespace Mustache

namespace Value

mutual

/-- Are two values equal when the order of keys does not count? -/
def equiv : Value → Value → Bool
  | null, null => true
  | scalar a, scalar b => a == b
  | sequence a, sequence b => equivItems a b
  | mapping a, mapping b => a.length == b.length && equivFields a b
  | _, _ => false
termination_by structural a => a

/-- `equiv` along two lists of values. -/
def equivItems : List Value → List Value → Bool
  | [], [] => true
  | a :: as, b :: bs => equiv a b && equivItems as bs
  | _, _ => false
termination_by structural as => as

/-- Is every field of the first list in the second, under the same key and with an equal value? -/
def equivFields : List (Text × Value) → List (Text × Value) → Bool
  | [], _ => true
  | (key, v) :: rest, other =>
    (match other.lookup key with
      | some w => equiv v w
      | none => false) && equivFields rest other
termination_by structural as => as

end

/-- How many different values a list holds, where key order makes a difference. -/
def distinct (vs : List Value) : Nat := vs.eraseDups.length

end Value

end Mustache
