import Mustache.Error
import Mustache.Traced

/-!
# Outcomes

How an outcome, a result or a fault, comes about: one equation for each way to put two computations
together.  Two outcomes are alike if they are the same result, or faults of one kind, and related if
they are related results, or faults of one kind.
-/

namespace Mustache

/-- What went wrong, without the place or the names that a fault tells. -/
inductive Error.Kind where
  | unclosedTag
  | unclosedSection
  | badDelimiters
  | depthExceeded
  | foreignNode
  | endless
  deriving DecidableEq

/-- The kind of a fault. -/
def Error.kind : Error → Kind
  | unclosedTag _ => .unclosedTag
  | unclosedSection _ => .unclosedSection
  | badDelimiters _ => .badDelimiters
  | depthExceeded _ _ => .depthExceeded
  | foreignNode _ => .foreignNode
  | endless => .endless

namespace Outcome

variable {ε α β : Type} {x : Except ε α} {e : ε} {b : β}

theorem map_eq_ok_iff {f : α → β} : x.map f = .ok b ↔ ∃ a, x = .ok a ∧ f a = b := by
  cases x <;> simp [Except.map]

theorem map_eq_error_iff {f : α → β} : x.map f = .error e ↔ x = .error e := by
  cases x <;> simp [Except.map]

theorem mapError_eq_ok_iff {δ : Type} {f : ε → δ} {a : α} :
    x.mapError f = .ok a ↔ x = .ok a := by
  cases x with
  | error e => exact ⟨nofun, nofun⟩
  | ok b => exact ⟨fun h => by cases h; rfl, fun h => by cases h; rfl⟩

theorem mapError_eq_error_iff {δ : Type} {f : ε → δ} {d : δ} :
    x.mapError f = .error d ↔ ∃ e, x = .error e ∧ f e = d := by
  constructor
  · intro h
    cases x with
    | error e =>
      cases h
      exact ⟨e, rfl, rfl⟩
    | ok b => cases h
  · rintro ⟨e, rfl, rfl⟩
    rfl

theorem bind_eq_ok_iff {f : α → Except ε β} :
    x.bind f = .ok b ↔ ∃ a, x = .ok a ∧ f a = .ok b := by
  cases x <;> simp [Except.bind]

theorem bind_eq_error_iff {f : α → Except ε β} :
    x.bind f = .error e ↔ x = .error e ∨ ∃ a, x = .ok a ∧ f a = .error e := by
  cases x <;> simp [Except.bind]

theorem map_map {γ : Type} (x : Except ε α) (f : α → β) (g : β → γ) :
    (x.map f).map g = x.map fun a => g (f a) := by
  cases x <;> rfl

theorem map_id (x : Except ε α) : (x.map fun a => a) = x := by
  cases x <;> rfl

theorem map_eq_map_iff {y : Except ε α} {f : α → β} : x.map f = y.map f ↔
    (∃ e, x = .error e ∧ y = .error e) ∨ ∃ a b, x = .ok a ∧ y = .ok b ∧ f a = f b := by
  cases x <;> cases y <;> simp [Except.map, eq_comm]

/-- The same result, or faults of one kind. -/
inductive Alike : Except Error α → Except Error α → Prop
  | ok (a : α) : Alike (.ok a) (.ok a)
  | error {e f : Error} (h : e.kind = f.kind) : Alike (.error e) (.error f)

namespace Alike

variable {y z : Except Error α} {a : α} {e : Error}

theorem refl (y : Except Error α) : Alike y y := by
  cases y with
  | ok a => exact .ok a
  | error e => exact .error rfl

theorem eq_ok_iff (h : Alike y z) : y = .ok a ↔ z = .ok a := by
  cases h with
  | ok a => rfl
  | error h => simp

theorem exists_error (h : Alike y z) (hz : z = .error e) :
    ∃ f, y = .error f ∧ f.kind = e.kind := by
  cases h with
  | ok a => cases hz
  | error h =>
    cases hz
    exact ⟨_, rfl, h⟩

theorem map (h : Alike y z) (f : α → β) : Alike (y.map f) (z.map f) := by
  cases h with
  | ok a => exact .ok (f a)
  | error h => exact .error h

end Alike

/-- Related results, or faults of one kind. -/
inductive Related (R : α → β → Prop) : Except Error α → Except Error β → Prop
  | ok {a : α} {b : β} (h : R a b) : Related R (.ok a) (.ok b)
  | error {e f : Error} (h : e.kind = f.kind) : Related R (.error e) (.error f)

namespace Related

variable {γ δ : Type} {R : α → β → Prop} {S : γ → δ → Prop} {y : Except Error α}
  {z : Except Error β}

theorem bind (h : Related R y z) {f : α → Except Error γ} {g : β → Except Error δ}
    (hfg : ∀ a b, y = .ok a → z = .ok b → R a b → Related S (f a) (g b)) :
    Related S (y.bind f) (z.bind g) := by
  cases h with
  | ok h => exact hfg _ _ rfl rfl h
  | error h => exact .error h

theorem map (h : Related R y z) {f : α → γ} {g : β → δ} (hfg : ∀ a b, R a b → S (f a) (g b)) :
    Related S (y.map f) (z.map g) := by
  cases h with
  | ok h => exact .ok (hfg _ _ h)
  | error h => exact .error h

theorem imp {S : α → β → Prop} (h : Related R y z)
    (hRS : ∀ a b, y = .ok a → z = .ok b → R a b → S a b) : Related S y z := by
  cases h with
  | ok h => exact .ok (hRS _ _ rfl rfl h)
  | error h => exact .error h

theorem exists_ok {a : α} (h : Related R y z) (hy : y = .ok a) : ∃ b, z = .ok b ∧ R a b := by
  cases h with
  | ok h =>
    cases hy
    exact ⟨_, rfl, h⟩
  | error h => cases hy

end Related

end Outcome

end Mustache
