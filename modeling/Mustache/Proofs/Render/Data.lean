import Mustache.Proofs.Render.Simulation
import Mustache.Proofs.Value.Equality

/-!
# Data that a rendering cannot tell apart

A rendering sees its data through lookups alone.  So scopes that hold values of a bisimulation, entry
by entry, are in step for all nodes whose names the bisimulation knows (`simulation_of_bisimulation`).
Two bisimulations give the two results: the order of keys makes no difference
(`renderWithin_sameData`), and neither do fields under a key that stands nowhere in the template and
its partials (`renderTemplate_without`).
-/

namespace Mustache

open Value

/-! ### Definitions -/

/-- **Scopes in a relation** hold related values, from the innermost one to the root. -/
structure Scope.Related (R : Value → Value → Prop) (s s' : Scope) : Prop where
  root : R s.root s'.root
  stack : List.Forall₂ R s.stack s'.stack

/-- Every part of the path is a known key. -/
def Value.Knows (known : Text → Prop) (path : Text) : Prop := ∀ key, key <:+: path → known key

/-- **A node without `k`**: its name does not contain `k`, and if it is a partial, it stands behind a
margin. -/
structure Node.Avoids (k : Text) (n : Node) : Prop where
  name {name : Text} (h : n.name? = some name) : ¬ k <:+: name
  margin {name w : Text} (h : n = .partialRef name w) : Text.IsMargin w

variable {known : Text → Prop} {R : Value → Value → Prop} {s s' : Scope} {a b v : Value}
  {path k : Text} {good : Node → Prop} {r : Renderer}

/-! ### Paths -/

theorem Value.Knows.of_infix {part : Text} (h : Knows known path) (hpart : part <:+: path) :
    Knows known part := fun key hkey => h key (hkey.trans hpart)

theorem Value.knows_ne_iff : Knows (· ≠ k) path ↔ ¬ k <:+: path := by
  constructor
  · intro h hk
    exact h k hk rfl
  · rintro h key hkey rfl
    exact h hkey

theorem Scope.leadingKey_isPrefix (path : Text) : leadingKey path <+: path := by
  unfold leadingKey
  split
  · exact List.prefix_refl path
  · exact List.takeWhile_prefix _

theorem Value.Bisimulation.lookup_of_knows (hR : Bisimulation known R) (hpath : Knows known path)
    (h : R a b) : Option.Rel R (a.lookup path) (b.lookup path) :=
  hR.lookup (fun key hkey => hpath key (infix_of_mem_pathKeys hkey)) h

theorem Value.Bisimulation.bind_text?_eq {x y : Option Value} (hR : Bisimulation known R)
    (h : Option.Rel R x y) : x.bind text? = y.bind text? := by
  cases h with
  | none => rfl
  | some hvw => exact hR.text?_eq hvw

/-! ### Scopes -/

namespace Scope.Related

theorem current (h : Scope.Related R s s') : R s.current s'.current := by
  obtain ⟨root, stack⟩ := s
  obtain ⟨root', stack'⟩ := s'
  cases h.stack with
  | nil => exact h.root
  | cons hvw _ => exact hvw

theorem push (h : Scope.Related R s s') (hab : R a b) : Scope.Related R (s.push a) (s'.push b) :=
  ⟨h.root, .cons hab h.stack⟩

/-- The entries of the two stacks answer alike, one by one. -/
theorem lookups (hR : Bisimulation known R) (hpath : Knows known path) (h : Scope.Related R s s') :
    List.Forall₂ (fun a b => Option.Rel R (a.lookup path) (b.lookup path)) s.stack s'.stack :=
  h.stack.imp fun _ _ hvw => hR.lookup_of_knows hpath hvw

theorem sectionValue (hR : Bisimulation known R) (hpath : Knows known path)
    (h : Scope.Related R s s') : Option.Rel R (s.sectionValue path) (s'.sectionValue path) := by
  have hfind := rel_findSome? (lookups hR hpath h)
  unfold Scope.sectionValue
  generalize s.stack.findSome? _ = x at hfind
  generalize s'.stack.findSome? _ = y at hfind
  cases hfind with
  | none => exact hR.lookup_of_knows hpath h.root
  | some hvw => exact .some hvw

theorem fieldValue (hR : Bisimulation known R) (hpath : Knows known path)
    (h : Scope.Related R s s') : Option.Rel R (s.fieldValue path) (s'.fieldValue path) := by
  have hfind := rel_findSome? (lookups hR hpath h)
  have hleading : Knows known (leadingKey path) :=
    hpath.of_infix (leadingKey_isPrefix path).isInfix
  -- the root is hidden in both scopes, or in neither
  have hhidden := any_isSome_eq_of_rel (lookups hR hleading h)
  unfold Scope.fieldValue
  rw [hhidden]
  generalize s.stack.findSome? _ = x at hfind
  generalize s'.stack.findSome? _ = y at hfind
  cases hfind with
  | none =>
    dsimp only
    split
    · exact .none
    · exact hR.lookup_of_knows hpath h.root
  | some hvw => exact .some hvw

theorem fieldText_eq (hR : Bisimulation known R) (hpath : Knows known path)
    (h : Scope.Related R s s') : s.fieldText path = s'.fieldText path := by
  rw [Scope.fieldText, Scope.fieldText, hR.bind_text?_eq (h.fieldValue hR hpath)]

/-- **Related values open related bodies**: they count as false together, and give as many bodies. -/
theorem bodies (hR : Bisimulation known R) (h : Scope.Related R s s') (inverted : Bool)
    {x y : Option Value} (hxy : Option.Rel R x y) :
    List.Forall₂ (Scope.Related R) (s.bodies inverted x) (s'.bodies inverted y) := by
  cases hxy with
  | none =>
    cases inverted with
    | false => exact .nil
    | true => exact .cons h .nil
  | @some v w hvw =>
    cases hR hvw with
    | null =>
      cases inverted with
      | false => exact .nil
      | true => exact .cons h .nil
    | scalar text =>
      simp only [Scope.bodies]
      split
      · exact .cons (h.push hvw) .nil
      · exact .nil
    | sequence hitems =>
      have hinner := h.push h.current
      cases hitems with
      | nil =>
        cases inverted with
        | false => exact .nil
        | true => exact .cons hinner .nil
      | cons hitem hrest =>
        cases inverted with
        | false =>
          refine List.forall₂_map_left_iff.2 (List.forall₂_map_right_iff.2 ?_)
          exact .cons (hinner.push hitem) (hrest.imp fun _ _ => hinner.push)
        | true => exact .nil
    | mapping _ =>
      cases inverted with
      | false => exact .cons (h.push hvw) .nil
      | true => exact .nil

end Scope.Related

/-- **Scopes with values of a bisimulation** are in step for the nodes whose names it knows. -/
theorem simulation_of_bisimulation (hR : Bisimulation known R)
    (hgood : ∀ n name, good n → n.name? = some name → Knows known name) :
    Scope.Simulation good (Scope.Related R) where
  field h hn := h.fieldText_eq hR (hgood _ _ hn rfl)
  bodies h hn := h.bodies hR _ (h.sectionValue hR (hgood _ _ hn rfl))

/-! ### The order of keys -/

/-- **The order of keys never affects a rendering**, be it in the data or among the partials: the runs
are the same, with their faults and notes. -/
theorem renderWithin_sameData {partials partials' : Value} (hpartials : SameData partials partials')
    (hscope : Scope.Related SameData s s') (bound : Option Int) (allowance : Nat)
    (nodes : List Node) : Renderer.renderWithin ⟨partials, bound⟩ allowance nodes s =
      Renderer.renderWithin ⟨partials', bound⟩ allowance nodes s' := by
  have hknows : ∀ path, Knows (fun _ => True) path := fun _ _ _ => trivial
  have hsim : Scope.Simulation (fun _ => True) (Scope.Related SameData) :=
    simulation_of_bisimulation bisimulation_sameData fun _ name _ _ => hknows name
  have htext : ∀ name, Renderer.partialText? ⟨partials', bound⟩ name =
      Renderer.partialText? ⟨partials, bound⟩ name := by
    intro name
    have hlookup := bisimulation_sameData.lookup_of_knows (hknows name) hpartials
    exact (bisimulation_sameData.bind_text?_eq hlookup).symm
  exact hsim.renderWithin (fun _ _ _ _ _ _ _ _ _ => trivial) htext rfl allowance
    (fun _ _ => trivial) hscope

/-- Two partials and the data of a section, with their keys in either order. -/
theorem renderWithin_sameData_section :
    let one : Text × Value := ("a".toList, .scalar "{{y}}{{>b}}".toList)
    let two : Text × Value := ("b".toList, .scalar "!".toList)
    let x : Text × Value := ("x".toList, .mapping [])
    let y : Text × Value := ("y".toList, .scalar "1".toList)
    let nodes : List Node := [.block "s.x".toList false [.partialRef "a".toList []]]
    let scope (fields : Fields Value) : Scope :=
      { root := .null, stack := [.mapping fields, .mapping [("s".toList, .mapping fields)]] }
    (Renderer.renderWithin ⟨.mapping [one, two], none⟩ 2 nodes (scope [x, y])).outcome =
        .ok "1!".toList ∧
      Renderer.renderWithin ⟨.mapping [one, two], none⟩ 2 nodes (scope [x, y]) =
        Renderer.renderWithin ⟨.mapping [two, one], none⟩ 2 nodes (scope [y, x]) := by
  intro one two x y nodes scope
  have hpartials : SameData (.mapping [one, two]) (.mapping [two, one]) :=
    ⟨by simp [one, two], by decide⟩
  have hentry : SameData (.mapping [x, y]) (.mapping [y, x]) := ⟨by simp [x, y], by decide⟩
  have houter : SameData (.mapping [("s".toList, .mapping [x, y])])
      (.mapping [("s".toList, .mapping [y, x])]) := ⟨by simp [x, y], by decide⟩
  have hscope : Scope.Related SameData (scope [x, y]) (scope [y, x]) :=
    ⟨⟨.null, by decide⟩, .cons hentry (.cons houter .nil)⟩
  exact ⟨by decide +kernel, renderWithin_sameData hpartials hscope none 2 nodes⟩

/-! ### Keys that are never named -/

/-- The nodes of a template without `k` are without it. -/
theorem avoids_of_occurs_parse {template : Text} {nodes : List Node} {n : Node}
    (htemplate : ¬ k <:+: template) (h : (parse template).outcome = .ok nodes)
    (hn : Occurs n nodes) : n.Avoids k where
  name hname hk := htemplate (hk.trans (infix_of_occurs_parse h hn hname))
  margin hw := isMargin_of_occurs_parse h (hw ▸ hn)

theorem closedUnder_avoids (hne : k ≠ []) (hblank : ∀ c ∈ k, Text.isBlank c = false)
    (hpartials : ∀ name text, r.partialText? name = some text → ¬ k <:+: text) :
    r.ClosedUnder (Node.Avoids k) := by
  intro name w text nodes hgood hname hnodes n hn
  have hw : ∀ c ∈ w, Text.isBlank c = true := fun c hc => (hgood.margin rfl c hc).1
  refine avoids_of_occurs_parse ?_ hnodes hn
  rw [Text.infix_indent_iff hne hblank hw]
  exact hpartials name text hname

/-- **Data that is never named cannot change the output.**  If `k` holds no blanks and stands neither in
the template nor in the text of a partial, then contexts that are equal without their fields under `k`
give the same run.  The key `k` is not empty then, for the empty text stands everywhere. -/
theorem renderTemplate_without {partials : Value} {template : Text}
    (hblank : ∀ c ∈ k, Text.isBlank c = false) (htemplate : ¬ k <:+: template)
    (hpartials : ∀ name text, (partials.lookup name).bind Value.text? = some text → ¬ k <:+: text)
    (hsame : SameData (a.without k) (b.without k)) (bound : Option Int) (allowance : Nat) :
    Renderer.renderTemplate ⟨partials, bound⟩ allowance template { root := a } =
      Renderer.renderTemplate ⟨partials, bound⟩ allowance template { root := b } := by
  have hne : k ≠ [] := by
    rintro rfl
    exact htemplate List.nil_infix
  have hsim : Scope.Simulation (Node.Avoids k)
      (Scope.Related fun a b => SameData (a.without k) (b.without k)) :=
    simulation_of_bisimulation (bisimulation_without k) fun n name hn hname =>
      knows_ne_iff.2 (hn.name hname)
  have hclosed : Renderer.ClosedUnder ⟨partials, bound⟩ (Node.Avoids k) :=
    closedUnder_avoids hne hblank hpartials
  exact hsim.renderTemplate hclosed (fun _ => rfl) rfl allowance
    (fun nodes hnodes n hn => avoids_of_occurs_parse htemplate hnodes hn) ⟨hsame, .nil⟩

/-- The key `id` in the items of a sequence, and alone in a mapping: without it the mapping is empty,
and still counts as true. -/
theorem renderTemplate_without_id :
    let partials : Value := .mapping [("a".toList, .scalar "{{x}}".toList)]
    let template := "{{#s}}{{>a}}{{/s}}{{#e}}!{{/e}}".toList
    let item (x : String) (rest : Fields Value) : Value :=
      .mapping (("x".toList, .scalar x.toList) :: rest)
    let hidden : Fields Value := [("id".toList, .scalar "7".toList)]
    let a : Value := .mapping [("s".toList, .sequence [item "1" hidden, item "2" []]),
      ("e".toList, .mapping hidden)]
    let b : Value := .mapping [("e".toList, .mapping []), ("id".toList, .null),
      ("s".toList, .sequence [item "1" [], item "2" []])]
    (Renderer.renderTemplate ⟨partials, none⟩ 1 template { root := a }).outcome =
        .ok "12!".toList ∧
      Renderer.renderTemplate ⟨partials, none⟩ 1 template { root := a } =
        Renderer.renderTemplate ⟨partials, none⟩ 1 template { root := b } := by
  intro partials template item hidden a b
  have hsame : SameData (a.without "id".toList) (b.without "id".toList) :=
    ⟨Proper.without (by simp [a, item, hidden]) _, by decide⟩
  have hpartials : ∀ name text, (partials.lookup name).bind Value.text? = some text →
      ¬ "id".toList <:+: text := by
    intro name text h
    have hmem := mem_of_lookup_texts (by simp) h
    obtain ⟨-, rfl⟩ : Text.strip name = "a".toList ∧ text = "{{x}}".toList := by simpa using hmem
    decide
  have hblank : ∀ c ∈ "id".toList, Text.isBlank c = false := by
    simp [Text.isBlank, Text.blankRanges]
  exact ⟨by decide +kernel, renderTemplate_without hblank (by decide) hpartials hsame none 1⟩

end Mustache
