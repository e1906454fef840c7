import Mustache.Value.Equality

/-!
# Hashes of values

A hash is put together from the hashes of texts and of tuples; how these are worked out is left open
(`Hasher`).  A mapping has the hash of the tuple of its fields, as they stand.  A hash set takes two
values for one member if they have one hash and are equal (`Value.hashSetSize`).
-/

namespace Mustache

/-- How texts are hashed, and tuples whose parts are hashed already. -/
structure Hasher (α : Type) where
  text : Text → α
  tuple : List α → α

/-- The hasher that keeps what it hashes, so that no two hashes agree by chance. -/
def Hasher.lossless : Hasher Value := ⟨.scalar, .sequence⟩

namespace Value

variable {α : Type}

mutual

/-- The hash of a value. -/
def hash (h : Hasher α) : Value → α
  | null => h.tuple []
  | scalar text => h.tuple [h.text text]
  | sequence items => h.tuple [h.tuple (hashItems h items)]
  | mapping fields => h.tuple (hashFields h fields)

/-- The hashes of a list of values. -/
def hashItems (h : Hasher α) : List Value → List α
  | [] => []
  | v :: rest => hash h v :: hashItems h rest

/-- The hashes of fields, each as a pair of its key and its value. -/
def hashFields (h : Hasher α) : List (Text × Value) → List α
  | [] => []
  | (key, v) :: rest => h.tuple [h.text key, hash h v] :: hashFields h rest

end

/-- How many members a hash set has that the values are put into, one after the other. -/
def hashSetSize [DecidableEq α] (h : Hasher α) (vs : List Value) : Nat :=
  (vs.eraseDupsBy fun a b => decide (hash h a = hash h b) && equiv a b).length

end Value

end Mustache
