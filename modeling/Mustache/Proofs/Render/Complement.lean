import Mustache.Render.Renderer

/-!
# Sections and their complements

A section renders its body once for each element of a sequence, once for any other value that counts
as true, and not at all for a value that counts as false (`bodyCount`).  An inverted section of the
same name renders its body once where the section does not, and not at all where it does
(`Scope.length_bodies_inverted`).  So of the bodies of the two just one is rendered, whatever the
name stands for and whatever the bodies hold (`renderAll_complements`).
-/

namespace Mustache

/-! ### Definitions -/

/-- **How often a section renders its body**, if its name has the value `v`. -/
def bodyCount (v : Option Value) : Nat :=
  match v with
  | none | some .null => 0
  | some (.sequence items) => items.length
  | some (.scalar text) => if text = "false".toList then 0 else 1
  | some (.mapping _) => 1

variable {Note Fault α : Type}

/-! ### Computations that change nothing -/

theorem Traced.bind_pure_eq (r : Traced Note Fault α) : (r >>= fun a => pure a) = r := by
  show r.andThen pure = r
  unfold Traced.andThen
  rcases r with ⟨notes, outcome⟩
  cases outcome with
  | ok a => exact congrArg (Traced.mk · _) (List.append_nil notes)
  | error e => rfl

theorem Traced.bind_append_nil (r : Traced Note Fault Text) :
    (r >>= fun text => pure (text ++ [])) = r := by
  simp only [List.append_nil, Traced.bind_pure_eq]

/-- One text for each element of a list. -/
theorem Traced.concatMap_pure (text : Text) (l : List α) :
    Traced.concatMap (fun _ => pure text) l =
      (pure (List.replicate l.length text).flatten : Traced Note Fault Text) := by
  induction l with
  | nil => rfl
  | cons a l ih =>
    rw [Traced.concatMap, ih, List.length_cons, List.replicate_succ, List.flatten_cons]
    rfl

/-! ### The bodies of a section -/

namespace Scope

/-- **A section** opens a scope for each time that it renders its body. -/
theorem length_bodies (s : Scope) (v : Option Value) :
    (s.bodies false v).length = bodyCount v := by
  match v with
  | none | some .null | some (.mapping _) | some (.sequence []) => rfl
  | some (.sequence (item :: items)) => exact List.length_map _
  | some (.scalar text) =>
    by_cases h : text = "false".toList
    · rw [h]
      rfl
    · have hbodies : s.bodies false (some (.scalar text)) = [s.push (.scalar text)] :=
        if_pos (by simpa using h)
      rw [hbodies, bodyCount, if_neg h]
      rfl

/-- **An inverted section** opens one scope where the section opens none, and else none. -/
theorem length_bodies_inverted (s : Scope) (v : Option Value) :
    (s.bodies true v).length = if bodyCount v = 0 then 1 else 0 := by
  match v with
  | none | some .null | some (.mapping _) | some (.sequence []) => rfl
  | some (.sequence (item :: items)) => rfl
  | some (.scalar text) =>
    by_cases h : text = "false".toList
    · rw [h]
      rfl
    · have hbodies : s.bodies true (some (.scalar text)) = [] := if_neg (by simpa using h)
      rw [hbodies, bodyCount, if_neg h]
      rfl

end Scope

/-! ### A section and its complement -/

theorem renderAll_singleton (expand : Expander) (n : Node) (s : Scope) :
    renderAll expand [n] s = n.render expand s :=
  Traced.bind_append_nil (n.render expand s)

theorem concatMap_text (expand : Expander) (text : Text) (scopes : List Scope) :
    Traced.concatMap (renderAll expand [.text text]) scopes =
      pure (List.replicate scopes.length text).flatten := by
  have htext : renderAll expand [.text text] = fun _ => pure text :=
    funext fun s => renderAll_singleton expand (.text text) s
  rw [htext, Traced.concatMap_pure]

/-- **One of the two bodies is rendered**: that of the inverted section, in the scope that it opens,
if the section does not render its own, and else that of the section, in each of its scopes. -/
theorem renderAll_complements (expand : Expander) (name : Text) (front back : List Node)
    (s : Scope) : renderAll expand [.block name false front, .block name true back] s =
      if bodyCount (s.sectionValue name) = 0 then
        Traced.concatMap (renderAll expand back) (s.bodies true (s.sectionValue name))
      else Traced.concatMap (renderAll expand front) (s.bodies false (s.sectionValue name)) := by
  have hsection := s.length_bodies (s.sectionValue name)
  have hinverted := s.length_bodies_inverted (s.sectionValue name)
  rw [renderAll, renderAll_singleton, Node.render, Node.render]
  -- either way one of the two has no scope to render its body in, and gives the empty text
  by_cases hcount : bodyCount (s.sectionValue name) = 0
  · rw [if_pos hcount, List.length_eq_zero_iff.1 (hsection.trans hcount)]
    exact Traced.bind_pure_eq _
  · rw [if_neg hcount] at hinverted ⊢
    rw [List.length_eq_zero_iff.1 hinverted]
    exact Traced.bind_append_nil _

/-- **A section and an inverted section of one name are complements.**  Around two texts they give the
first one once for each time that the section renders its body, and the second one if that is no time,
without a fault or a note.  Whatever else their bodies are, the section renders its own in as many
scopes, the inverted section its own in one scope or in none, and what the two give together is what
one of the bodies gives. -/
theorem renderWithin_complements (r : Renderer) (allowance : Nat) (name : Text) (s : Scope) :
    let v := s.sectionValue name
    (∀ front back : Text, r.renderWithin allowance
        [.block name false [.text front], .block name true [.text back]] s =
      pure ((List.replicate (bodyCount v) front).flatten ++ if bodyCount v = 0 then back else [])) ∧
    (s.bodies false v).length = bodyCount v ∧
    (s.bodies true v).length = (if bodyCount v = 0 then 1 else 0) ∧
    ∀ front back : List Node,
      r.renderWithin allowance [.block name false front, .block name true back] s =
        if bodyCount v = 0 then Traced.concatMap (r.renderWithin allowance back) (s.bodies true v)
        else Traced.concatMap (r.renderWithin allowance front) (s.bodies false v) := by
  intro v
  have hsection : (s.bodies false v).length = bodyCount v := s.length_bodies v
  have hinverted := s.length_bodies_inverted v
  refine ⟨fun front back => ?_, hsection, hinverted, fun front back => ?_⟩
  · rw [Renderer.renderWithin, renderAll_complements, concatMap_text, concatMap_text]
    by_cases hcount : bodyCount v = 0
    · rw [if_pos hcount] at hinverted
      rw [if_pos hcount, hinverted, if_pos hcount, hcount]
      simp
    · rw [if_neg hcount, hsection, if_neg hcount, List.append_nil]
  · exact renderAll_complements (r.expand allowance 0) name front back s

/-- The empty text counts as true, and a null on the stack as false, whatever the root holds. -/
example :
    let ns : List Node := [.block ['a'] false [.text ['x']], .block ['a'] true [.text ['y']]]
    let root : Value := .mapping [(['a'], .scalar [])]
    let hidden : List Value := [.mapping [(['a'], .null)]]
    (Renderer.renderWithin {} 0 ns { root := root }).outcome = .ok ['x'] ∧
      (Renderer.renderWithin {} 0 ns { root := root, stack := hidden }).outcome = .ok ['y'] :=
  ⟨rfl, rfl⟩

end Mustache
