import Mustache.Proofs.Render.Stack

/-!
# Values that are stacked again

A stack answers from its innermost entry that has an answer, so a value that stands on it already
answers nothing further down (`Scope.agree_repeated`).  A section over a sequence stacks the current
value again below each item; where something is on the stack it could as well leave that out
(`Scope.sparseBodies`).  `renderWithin_repeated` says both of renderings.
-/

namespace Mustache

open Scope

/-! ### Definitions -/

/-- **The scopes for the body of a section** with value `v`, as `bodies` gives them, but without the
current value stacked again. -/
def Scope.sparseBodies (s : Scope) (inverted : Bool) (v : Option Value) : List Scope :=
  match v with
  | some (.sequence []) => if inverted then [s] else []
  | some (.sequence items) => if inverted then [] else items.map fun item => s.push item
  | v => s.bodies inverted v

variable {s s' : Scope}

/-! ### Stacks that answer alike -/

namespace Scope

theorem Agree.refl (s : Scope) : Agree s s where
  root := rfl
  current := rfl
  innermost _ := rfl

/-- **A value that is on the stack already** answers nothing further down. -/
theorem agree_repeated (root x : Value) (above between below : List Value) :
    Agree { root := root, stack := above ++ x :: (between ++ x :: below) }
      { root := root, stack := above ++ x :: (between ++ below) } where
  root := rfl
  current := by
    cases above with
    | nil => rfl
    | cons y above => rfl
  innermost path := by
    simp only [innermost, List.findSome?_append, List.findSome?_cons]
    cases x.lookup path with
    | none => rfl
    | some w => rfl

/-- Where something is on the stack, the bodies of a section answer alike whether the current value
is stacked again or not. -/
theorem forall₂_sparseBodies (h : s.stack ≠ []) (inverted : Bool) (v : Option Value) :
    List.Forall₂ Agree (s.bodies inverted v) (s.sparseBodies inverted v) := by
  have hsame : List.Forall₂ Agree (s.bodies inverted v) (s.bodies inverted v) :=
    List.forall₂_same.2 fun t _ => .refl t
  match v with
  | none | some .null | some (.scalar _) | some (.mapping _) => exact hsame
  | some (.sequence []) => exact forall₂_ite (.cons (.push_current h) .nil) .nil
  | some (.sequence (item :: items)) =>
    refine forall₂_ite .nil (List.forall₂_map_left_iff.2 (List.forall₂_map_right_iff.2 ?_))
    exact List.forall₂_same.2 fun x _ => (Agree.push_current h).push x

/-! ### Renderings -/

/-- Nodes render alike in scopes whose stacks answer alike. -/
theorem Agree.renderAll_eq (h : Agree s s') (r : Renderer) (allowance depth : Nat)
    (ns : List Node) : renderAll (r.expand allowance depth) ns s =
      renderAll (r.expand allowance depth) ns s' := by
  have hsim : Scope.Simulation (fun _ => True) Agree := Agree.simulation _
  have hclosed : r.ClosedUnder fun _ => True := fun _ _ _ _ _ _ _ _ _ => trivial
  exact hsim.renderAll (fun _ _ => trivial)
    (fun name w _ t t' ht =>
      hsim.expansion hclosed (fun _ => rfl) rfl allowance depth trivial ht) h

end Scope

/-- **A repeated stack entry is redundant**: nodes render to the same text or fault, with the same
notes, whether it is there or not.  So where something is on the stack, a section renders to the same
whether its sequence stacks the current value again or not. -/
theorem renderWithin_repeated (r : Renderer) (allowance : Nat) (root : Value) :
    (∀ (ns : List Node) (x : Value) (above between below : List Value),
      r.renderWithin allowance ns
          { root := root, stack := above ++ x :: (between ++ x :: below) } =
        r.renderWithin allowance ns { root := root, stack := above ++ x :: (between ++ below) }) ∧
    ∀ (depth : Nat) (name : Text) (inverted : Bool) (children : List Node) (v : Value)
      (below : List Value),
      let s : Scope := { root := root, stack := v :: below }
      (Node.block name inverted children).render (r.expand allowance depth) s =
        Traced.concatMap (fun inner => renderAll (r.expand allowance depth) children inner)
          (s.sparseBodies inverted (s.sectionValue name)) := by
  constructor
  · intro ns x above between below
    exact (agree_repeated root x above between below).renderAll_eq r allowance 0 ns
  · intro depth name inverted children v below s
    have hbodies := forall₂_sparseBodies (s := s) (List.cons_ne_nil v below) inverted
      (s.sectionValue name)
    exact concatMap_congr (hbodies.imp fun t t' ht => ht.renderAll_eq r allowance depth children)

/-- A value that stands on the stack twice, around another one: each item of its list is found once,
and its front of `b.c` hides the root. -/
example :
    let ns : List Node := [.block "a".toList false [.field "b.c".toList true, .field ".".toList true]]
    let x : Value := .mapping [("a".toList, .sequence [.scalar "1".toList, .scalar "2".toList]),
      ("b".toList, .mapping [])]
    let root : Value := .mapping [("b".toList, .mapping [("c".toList, .scalar "0".toList)])]
    (Renderer.renderWithin {} 0 ns { root := root, stack := [x, .null, x] }).outcome =
      .ok "12".toList := by
  decide +kernel

end Mustache
