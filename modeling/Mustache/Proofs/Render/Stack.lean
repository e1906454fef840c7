import Mustache.Proofs.Render.Simulation

/-!
# Stacks that answer alike

A rendering asks a scope for its current value and for what lies at a path, and never how many
values are stacked.  Two scopes with one root and one current value are in step for all nodes if
their stacks answer alike (`Scope.Agree`).  If no more is known than that they answer alike together
with their root (`Scope.AgreeAtRoot`), they are in step for the nodes whose fields have no dots in
their names: a dotted field is hidden from the root by a stack entry that holds the front of its
name alone.

So an item of a sequence and the item by itself give a section the same body wherever another
section is open around it, and at the top of a template as long as no dotted field is reached
(`concatMap_bodies_item`).
-/

namespace Mustache

open Scope

/-! ### Definitions -/

namespace Scope

/-- The value at a path in the innermost stack entry that has one. -/
def innermost (s : Scope) (path : Text) : Option Value :=
  s.stack.findSome? fun entry => entry.lookup path

/-- **The stacks answer alike**, above one root and below one current value. -/
structure Agree (s s' : Scope) : Prop where
  root : s.root = s'.root
  current : s.current = s'.current
  innermost (path : Text) : s.innermost path = s'.innermost path

/-- **The stacks answer alike together with their root**, and have one current value. -/
structure AgreeAtRoot (s s' : Scope) : Prop where
  root : s.root = s'.root
  current : s.current = s'.current
  sectionValue (path : Text) : s.sectionValue path = s'.sectionValue path

end Scope

/-- If the node is a field, then only a value of its name hides the root from it. -/
def Node.Undotted (n : Node) : Prop :=
  ∀ name escaped, n = .field name escaped → leadingKey name = name

variable {s s' : Scope} {v : Value} {path : Text} {good : Node → Prop} {R : Scope → Scope → Prop}
  {r : Renderer} {children : List Node} {fields : List (Text × Value)}

/-! ### What a scope is asked for -/

namespace Scope

theorem innermost_push (v : Value) (s : Scope) (path : Text) :
    (s.push v).innermost path = (v.lookup path).or (s.innermost path) := by
  show (v :: s.stack).findSome? (fun entry => entry.lookup path) = _
  rw [List.findSome?_cons]
  cases v.lookup path with
  | none => rfl
  | some w => rfl

/-- The stack answers if one of its entries does. -/
theorem isSome_innermost_iff : (s.innermost path).isSome = true ↔
    ∃ entry ∈ s.stack, (entry.lookup path).isSome = true := by
  rw [innermost, List.isSome_findSome?, List.any_eq_true]

theorem innermost_eq_none_iff :
    s.innermost path = none ↔ ∀ entry ∈ s.stack, entry.lookup path = none := by
  rw [innermost, List.findSome?_eq_none_iff]

/-- The stack answers for a section, or else the root. -/
theorem sectionValue_eq (s : Scope) (path : Text) :
    s.sectionValue path = (s.innermost path).or (s.root.lookup path) := by
  unfold sectionValue innermost
  cases s.stack.findSome? fun entry => entry.lookup path with
  | none => rfl
  | some w => rfl

theorem sectionValue_push (v : Value) (s : Scope) (path : Text) :
    (s.push v).sectionValue path = (v.lookup path).or (s.sectionValue path) := by
  rw [sectionValue_eq, innermost_push, Option.or_assoc, sectionValue_eq s]
  rfl

/-- The root is hidden by the stack entries that hold the leading key, and so by an answer to it. -/
theorem fieldValue_eq (s : Scope) (path : Text) : s.fieldValue path =
    (s.innermost path).or
      (if (s.innermost (leadingKey path)).isSome then none else s.root.lookup path) := by
  have hany : (s.stack.any fun entry => (entry.lookup (leadingKey path)).isSome) =
      (s.innermost (leadingKey path)).isSome := by
    rw [innermost, List.isSome_findSome?]
  rw [fieldValue, hany]
  unfold innermost
  cases s.stack.findSome? fun entry => entry.lookup path with
  | none => rfl
  | some w => rfl

/-- **A name without dots** is looked up for a field as it is for a section. -/
theorem fieldValue_eq_sectionValue (h : leadingKey path = path) :
    s.fieldValue path = s.sectionValue path := by
  rw [fieldValue_eq, sectionValue_eq, h]
  cases s.innermost path with
  | none => rfl
  | some w => rfl

/-! ### In step -/

theorem forall₂_ite {α : Type} {R : α → α → Prop} {p : Prop} [Decidable p] {l l' k k' : List α}
    (hl : List.Forall₂ R l l') (hk : List.Forall₂ R k k') :
    List.Forall₂ R (if p then l else k) (if p then l' else k') := by
  split
  · exact hl
  · exact hk

/-- Scopes that agree on the value of a section and are kept in a relation by a push open related
bodies. -/
theorem forall₂_bodies (hcurrent : ∀ {t t'}, R t t' → t.current = t'.current)
    (hpush : ∀ {t t'}, R t t' → ∀ v, R (t.push v) (t'.push v)) (h : R s s') (inverted : Bool)
    (v : Option Value) : List.Forall₂ R (s.bodies inverted v) (s'.bodies inverted v) := by
  have hinner : R (s.push s.current) (s'.push s'.current) := by
    rw [hcurrent h]
    exact hpush h s'.current
  match v with
  | none | some .null => exact forall₂_ite (.cons h .nil) .nil
  | some (.scalar text) => exact forall₂_ite (.cons (hpush h (.scalar text)) .nil) .nil
  | some (.mapping fields) => exact forall₂_ite .nil (.cons (hpush h (.mapping fields)) .nil)
  | some (.sequence []) => exact forall₂_ite (.cons hinner .nil) .nil
  | some (.sequence (item :: items)) =>
    refine forall₂_ite .nil (List.forall₂_map_left_iff.2 (List.forall₂_map_right_iff.2 ?_))
    exact List.forall₂_same.2 fun x _ => hpush hinner x

namespace Agree

theorem push (h : Agree s s') (v : Value) : Agree (s.push v) (s'.push v) where
  root := h.root
  current := rfl
  innermost path := by rw [innermost_push, innermost_push, h.innermost path]

/-- **Stacks that answer alike** are in step for all nodes. -/
theorem simulation (good : Node → Prop) : Scope.Simulation good Agree where
  field {s s' name escaped} h _ := by
    unfold fieldText
    rw [fieldValue_eq, fieldValue_eq, h.innermost name, h.innermost (leadingKey name), h.root]
  bodies {s s' name inverted children} h _ := by
    have hvalue : s.sectionValue name = s'.sectionValue name := by
      rw [sectionValue_eq, sectionValue_eq, h.innermost name, h.root]
    rw [hvalue]
    exact forall₂_bodies (fun ht => ht.current) (fun ht v => ht.push v) h inverted _

/-- A current value that is stacked once more changes nothing. -/
theorem push_current (h : s.stack ≠ []) : Agree (s.push s.current) s where
  root := rfl
  current := rfl
  innermost path := by
    obtain ⟨v, rest, hstack⟩ := List.exists_cons_of_ne_nil h
    have hcurrent : s.current = v := by simp [Scope.current, hstack]
    rw [innermost_push, hcurrent, Scope.innermost, hstack, List.findSome?_cons]
    cases v.lookup path with
    | none => rfl
    | some w => rfl

end Agree

namespace AgreeAtRoot

theorem push (h : AgreeAtRoot s s') (v : Value) : AgreeAtRoot (s.push v) (s'.push v) where
  root := h.root
  current := rfl
  sectionValue path := by rw [sectionValue_push, sectionValue_push, h.sectionValue path]

/-- **Stacks that answer alike together with their root** are in step where no field is dotted. -/
theorem simulation (hgood : ∀ n, good n → n.Undotted) : Scope.Simulation good AgreeAtRoot where
  field {s s' name escaped} h hn := by
    have hname : leadingKey name = name := hgood _ hn name escaped rfl
    unfold fieldText
    rw [fieldValue_eq_sectionValue hname, fieldValue_eq_sectionValue hname, h.sectionValue name]
  bodies {s s' name inverted children} h _ := by
    rw [h.sectionValue name]
    exact forall₂_bodies (fun ht => ht.current) (fun ht v => ht.push v) h inverted _

end AgreeAtRoot

/-- With nothing stacked the root is the current value, and a value pushed above the root sees no
more than the root behind it. -/
theorem agreeAtRoot_push_root (h : s.stack = []) (v : Value) :
    AgreeAtRoot ((s.push s.current).push v) (s.push v) where
  root := rfl
  current := rfl
  sectionValue path := by
    have hcurrent : s.current = s.root := by simp [Scope.current, h]
    rw [sectionValue_push, sectionValue_push, sectionValue_push, hcurrent, sectionValue_eq,
      show s.innermost path = none by simp [innermost, h], Option.none_or, Option.or_self]

end Scope

/-! ### An item by itself -/

/-- **An item of a sequence and the item by itself** give a section the same body, with the same
faults and notes, where another section is open around it.  At the top of a template, where the root
is stacked below the item, they do if no dotted field is reached from the body. -/
theorem concatMap_bodies_item (h : s.stack = [] → ∀ n, r.Reaches children n → n.Undotted)
    (allowance depth : Nat) (fields : List (Text × Value)) :
    Traced.concatMap (fun inner => renderAll (r.expand allowance depth) children inner)
        (s.bodies false (some (.sequence [.mapping fields]))) =
      Traced.concatMap (fun inner => renderAll (r.expand allowance depth) children inner)
        (s.bodies false (some (.mapping fields))) := by
  have hreach : ∀ n, Occurs n children → r.Reaches children n := fun n hn => .here hn
  have hclosed := closedUnder_reaches r children
  refine concatMap_congr (List.Forall₂.cons ?_ .nil)
  by_cases hstack : s.stack = []
  · have hsim : Scope.Simulation (r.Reaches children) AgreeAtRoot :=
      AgreeAtRoot.simulation (h hstack)
    exact hsim.renderAll hreach
      (fun name w hn t t' ht => hsim.expansion hclosed (fun _ => rfl) rfl allowance depth hn ht)
      (agreeAtRoot_push_root hstack (.mapping fields))
  · have hsim : Scope.Simulation (r.Reaches children) Agree := Agree.simulation _
    exact hsim.renderAll hreach
      (fun name w hn t t' ht => hsim.expansion hclosed (fun _ => rfl) rfl allowance depth hn ht)
      ((Agree.push_current hstack).push (.mapping fields))

/-- A dotted field, also in a partial, for an item inside another section: the front of its name in
the item hides the root. -/
theorem concatMap_bodies_item_nested :
    let root : Value := .mapping [("a".toList, .mapping [("b".toList, .scalar "1".toList)])]
    let fields : List (Text × Value) := [("a".toList, .mapping [])]
    let r : Renderer := { partials := .mapping [("p".toList, .scalar "<{{a.b}}>".toList)] }
    let s : Scope := { root := root, stack := [.mapping []] }
    let children : List Node := [.field "a.b".toList true, .partialRef "p".toList []]
    let body (v : Value) : Run Text :=
      Traced.concatMap (fun inner => renderAll (r.expand 1 0) children inner)
        (s.bodies false (some v))
    (body (.mapping fields)).outcome = .ok "<>".toList ∧
      body (.sequence [.mapping fields]) = body (.mapping fields) := by
  intro root fields r s children body
  have hstack : s.stack = [] → ∀ n, r.Reaches children n → n.Undotted := by
    intro h
    cases h
  exact ⟨by decide +kernel, concatMap_bodies_item hstack 1 0 fields⟩

/-- The same field for an item at the top of a template: stacked below the item, the root answers
for the whole of the name.  The item by itself hides it. -/
theorem outcome_bodies_item_top :
    let root : Value := .mapping [("a".toList, .mapping [("b".toList, .scalar "1".toList)])]
    let s : Scope := { root := root }
    let r : Renderer := {}
    let body (v : Value) : Run Text :=
      Traced.concatMap (fun inner => renderAll (r.expand 0 0) [.field "a.b".toList true] inner)
        (s.bodies false (some v))
    (body (.sequence [.mapping [("a".toList, .mapping [])]])).outcome = .ok "1".toList ∧
      (body (.mapping [("a".toList, .mapping [])])).outcome = .ok [] := by
  decide +kernel

end Mustache
