import Mustache.Text.Basic

/-!
# Traced computations

A traced computation ends with a result or a fault and leaves notes on its way, which stay also
when it ends with a fault.  `outcome` forgets the notes, and it is a morphism of monads
(`outcome_pure`, `outcome_bind`).
-/

namespace Mustache

/-- The notes of a computation, in order, and what it ended with. -/
structure Traced (Note Fault : Type) (α : Type) where
  notes : List Note
  outcome : Except Fault α

namespace Traced

variable {Note Fault α β : Type}

/-- One computation after the other: a fault ends both. -/
def andThen (r : Traced Note Fault α) (f : α → Traced Note Fault β) : Traced Note Fault β :=
  match r.outcome with
  | .ok a =>
    let s := f a
    ⟨r.notes ++ s.notes, s.outcome⟩
  | .error e => ⟨r.notes, .error e⟩

instance : Monad (Traced Note Fault) where
  pure a := ⟨[], .ok a⟩
  bind := andThen

/-- The computation that stops at once with a fault. -/
def fail (e : Fault) : Traced Note Fault α := ⟨[], .error e⟩

/-- The computation that leaves one note. -/
def tell (n : Note) : Traced Note Fault Unit := ⟨[n], .ok ()⟩

/-- The computation without notes that ends as given. -/
def ofExcept (x : Except Fault α) : Traced Note Fault α := ⟨[], x⟩

/-- One computation for each element, in order, their texts joined. -/
def concatMap (f : α → Traced Note Fault Text) : List α → Traced Note Fault Text
  | [] => pure []
  | a :: rest => do
    let front ← f a
    let back ← concatMap f rest
    return front ++ back

/-- The same computation with its notes and faults put in other words. -/
def reword {Note' Fault' : Type} (note : Note → Note') (fault : Fault → Fault')
    (r : Traced Note Fault α) : Traced Note' Fault' α :=
  ⟨r.notes.map note, r.outcome.mapError fault⟩

@[simp] theorem outcome_pure (a : α) : (pure a : Traced Note Fault α).outcome = .ok a := rfl

@[simp] theorem outcome_fail (e : Fault) : (fail e : Traced Note Fault α).outcome = .error e := rfl

@[simp] theorem outcome_tell (n : Note) : (tell n : Traced Note Fault Unit).outcome = .ok () := rfl

@[simp] theorem outcome_ofExcept (x : Except Fault α) :
    (ofExcept x : Traced Note Fault α).outcome = x := rfl

@[simp] theorem outcome_bind (r : Traced Note Fault α) (f : α → Traced Note Fault β) :
    (r >>= f).outcome = r.outcome.bind fun a => (f a).outcome := by
  show (andThen r f).outcome = _
  unfold andThen
  cases r.outcome <;> rfl

theorem mem_notes_bind {n : Note} {r : Traced Note Fault α} {f : α → Traced Note Fault β} :
    n ∈ (r >>= f).notes ↔ n ∈ r.notes ∨ ∃ a, r.outcome = .ok a ∧ n ∈ (f a).notes := by
  show n ∈ (andThen r f).notes ↔ _
  unfold andThen
  cases r.outcome <;> simp

/-- What comes second matters only for the result that comes first. -/
theorem bind_congr {r : Traced Note Fault α} {f g : α → Traced Note Fault β}
    (h : ∀ a, r.outcome = .ok a → f a = g a) : r >>= f = r >>= g := by
  show andThen r f = andThen r g
  unfold andThen
  cases hr : r.outcome with
  | ok a => simp only [h a hr]
  | error e => rfl

end Traced

end Mustache
