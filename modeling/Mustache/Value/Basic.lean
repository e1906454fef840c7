import Mustache.Fields

/-!
# Values

What a template can see: nothing, a text, an ordered list of values, or values under keys.  Numbers
and truth values are texts here.  Equality of values (`=`) tells the order of keys apart; the
coarser equality that does not is `Value.equiv`, in `Mustache.Value.Equality`.
-/

namespace Mustache

/-- A value of the data that a template is rendered with. -/
inductive Value where
  /-- Explicitly nothing. -/
  | null
  /-- A text: also the canonical text of a number or a truth value. -/
  | scalar (text : Text)
  | sequence (items : List Value)
  /-- Values under keys, in order. -/
  | mapping (fields : List (Text × Value))

namespace Value

instance : Inhabited Value := ⟨null⟩

/-- The mapping without fields. -/
def empty : Value := mapping []

/-- The mapping that a list of pairs spells. -/
def ofPairs (pairs : List (Text × Value)) : Value := mapping (Fields.ofPairs pairs)

/-- The text of a scalar. -/
def text? : Value → Option Text
  | scalar text => some text
  | _ => none

/-! ### Equality with key order -/

mutual

/-- Are two values the same, the order of keys included? -/
def identical : Value → Value → Bool
  | null, null => true
  | scalar a, scalar b => a == b
  | sequence a, sequence b => identicalItems a b
  | mapping a, mapping b => identicalFields a b
  | _, _ => false

/-- `identical` along two lists of values. -/
def identicalItems : List Value → List Value → Bool
  | [], [] => true
  | a :: as, b :: bs => identical a b && identicalItems as bs
  | _, _ => false

/-- `identical` along two lists of fields. -/
def identicalFields : List (Text × Value) → List (Text × Value) → Bool
  | [], [] => true
  | (k, a) :: as, (l, b) :: bs => k == l && identical a b && identicalFields as bs
  | _, _ => false

end

mutual

theorem identical_iff : ∀ a b : Value, identical a b = true ↔ a = b
  | null, b => by cases b <;> simp [identical]
  | scalar a, b => by cases b <;> simp [identical]
  | sequence a, b => by
    cases b with
    | sequence b => simp [identical, identicalItems_iff a b]
    | _ => simp [identical]
  | mapping a, b => by
    cases b with
    | mapping b => simp [identical, identicalFields_iff a b]
    | _ => simp [identical]

theorem identicalItems_iff : ∀ as bs : List Value, identicalItems as bs = true ↔ as = bs
  | [], bs => by cases bs <;> simp [identicalItems]
  | a :: as, bs => by
    cases bs with
    | nil => simp [identicalItems]
    | cons b bs => simp [identicalItems, identical_iff a b, identicalItems_iff as bs]

theorem identicalFields_iff :
    ∀ as bs : List (Text × Value), identicalFields as bs = true ↔ as = bs
  | [], bs => by cases bs <;> simp [identicalFields]
  | (k, a) :: as, bs => by
    cases bs with
    | nil => simp [identicalFields]
    | cons b bs =>
      obtain ⟨l, b⟩ := b
      simp [identicalFields, identical_iff a b, identicalFields_iff as bs, and_assoc]

end

instance : DecidableEq Value := fun a b => decidable_of_iff _ (identical_iff a b)

end Value

end Mustache
