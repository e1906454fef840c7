import Mustache.Proofs.Value.Lookup

/-!
# The texts of a value

A value holds texts at its leaves.  They can be written anew (`Value.mapTexts`), which no lookup
sees but in the texts that it finds (`Value.text?_lookup_mapTexts`); and what holds of all of them
(`Value.AllTexts`) holds of whatever a lookup finds (`Value.bisimulation_allTexts`).
-/

namespace Mustache

namespace Value

/-! ### Definitions -/

mutual

/-- The value with `f` of each text in place of the text. -/
def mapTexts (f : Text → Text) : Value → Value
  | null => null
  | scalar text => scalar (f text)
  | sequence items => sequence (mapTextsItems f items)
  | mapping fields => mapping (mapTextsFields f fields)

/-- `mapTexts` along a list of values. -/
def mapTextsItems (f : Text → Text) : List Value → List Value
  | [] => []
  | v :: rest => mapTexts f v :: mapTextsItems f rest

/-- `mapTexts` along a list of fields. -/
def mapTextsFields (f : Text → Text) : List (Text × Value) → List (Text × Value)
  | [] => []
  | (key, v) :: rest => (key, mapTexts f v) :: mapTextsFields f rest

end

/-- All texts in the value have the property. -/
inductive AllTexts (p : Text → Prop) : Value → Prop
  | null : AllTexts p .null
  | scalar {text : Text} (h : p text) : AllTexts p (.scalar text)
  | sequence {items : List Value} (h : ∀ v ∈ items, AllTexts p v) : AllTexts p (.sequence items)
  | mapping {fields : List (Text × Value)} (h : ∀ q ∈ fields, AllTexts p q.2) :
    AllTexts p (.mapping fields)

variable {f : Text → Text} {p : Text → Prop} {v : Value} {text key path : Text}
  {fields : List (Text × Value)}

/-! ### Texts written anew -/

theorem lookup_mapTextsFields (f : Text → Text) (key : Text) (fields : List (Text × Value)) :
    (mapTextsFields f fields).lookup key = (fields.lookup key).map (mapTexts f) := by
  induction fields with
  | nil => rfl
  | cons q fields ih =>
    obtain ⟨l, v⟩ := q
    rw [mapTextsFields, List.lookup_cons, List.lookup_cons]
    cases hl : key == l with
    | true => rfl
    | false => exact ih

theorem walk_mapTexts (f : Text → Text) (v : Value) (keys : List Text) :
    (v.mapTexts f).walk keys = (v.walk keys).map (mapTexts f) := by
  induction keys generalizing v with
  | nil => simp
  | cons key rest ih =>
    cases v with
    | mapping fields =>
      simp only [mapTexts, walk, lookup_mapTextsFields]
      cases fields.lookup key with
      | none => rfl
      | some w => exact ih w
    | _ => rfl

/-- **A lookup** finds the value that it found, with its texts written anew. -/
theorem lookup_mapTexts (f : Text → Text) (v : Value) (path : Text) :
    (v.mapTexts f).lookup path = (v.lookup path).map (mapTexts f) := by
  unfold lookup
  split
  · rfl
  · exact walk_mapTexts f v _

theorem text?_mapTexts (f : Text → Text) (v : Value) : (v.mapTexts f).text? = v.text?.map f := by
  cases v <;> rfl

theorem text?_lookup_mapTexts (f : Text → Text) (v : Value) (path : Text) :
    ((v.mapTexts f).lookup path).bind text? = ((v.lookup path).bind text?).map f := by
  rw [lookup_mapTexts]
  cases v.lookup path with
  | none => rfl
  | some w => exact text?_mapTexts f w

/-! ### What holds of all texts -/

theorem AllTexts.of_scalar (h : (Value.scalar text).AllTexts p) : p text := by
  cases h with
  | scalar h => exact h

/-- Lookups lead from values whose texts have a property to values whose texts have it. -/
theorem bisimulation_allTexts (p : Text → Prop) :
    Bisimulation (fun _ => True) fun a b => a = b ∧ a.AllTexts p := by
  rintro a _ ⟨rfl, h⟩
  cases h with
  | null => exact .null
  | scalar h => exact .scalar _
  | sequence h => exact .sequence (List.forall₂_same.2 fun v hv => ⟨rfl, h v hv⟩)
  | @mapping fields h =>
    refine .mapping fun key _ => ?_
    cases hkey : fields.lookup key with
    | none => exact .none
    | some v => exact .some ⟨rfl, h _ (mem_of_lookup_eq_some hkey)⟩

end Value

end Mustache
