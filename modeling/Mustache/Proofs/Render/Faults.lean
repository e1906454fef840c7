import Mustache.Proofs.Render.Simulation

/-!
# Faults of renderings

Data that is missing, or of another shape than a template expects, renders as nothing.  So a tree that
comes from a template fails only where one of its partials does (`exists_of_parsed_error`), and an
expansion fails in one of four ways (`Renderer.Fails`).  What is left of them at the top is what
`Renderer.CanFail` lists: a bound that was met, the text of a partial that cannot be parsed, or nesting
without an end in sight (`renderTemplate_faults`).
-/

namespace Mustache

open Outcome

/-! ### Definitions -/

/-- **How an expansion fails**: it is one too many, there is no allowance for it, its text cannot be
parsed, or a partial in its text fails. -/
inductive Renderer.Fails (r : Renderer) : Nat → Nat → Text → Text → Error → Prop
  | tooDeep {allowance depth : Nat} {name w text : Text} {limit : Int}
    (hname : r.partialText? name = some text) (hx : r.exceeds depth = some limit) :
    r.Fails allowance depth name w (.depthExceeded name limit)
  | endless {depth : Nat} {name w text : Text} (hname : r.partialText? name = some text)
    (hx : r.exceeds depth = none) : r.Fails 0 depth name w .endless
  | malformed {allowance depth : Nat} {name w text : Text} {e : Error}
    (hname : r.partialText? name = some text) (hx : r.exceeds depth = none)
    (hparse : (parse (Text.indent w text)).outcome = .error e) :
    r.Fails (allowance + 1) depth name w e
  | within {allowance depth : Nat} {name w text inner v : Text} {nodes : List Node} {e : Error}
    (hname : r.partialText? name = some text) (hx : r.exceeds depth = none)
    (hparse : (parse (Text.indent w text)).outcome = .ok nodes)
    (hn : Occurs (.partialRef inner v) nodes) (h : r.Fails allowance (depth + 1) inner v e) :
    r.Fails (allowance + 1) depth name w e

/-- **The faults that partials bring** into a rendering: a bound that is set was met, the text of a
partial cannot be parsed behind its margin, or expansions nest deeper than the allowance, which is less
than the bound if one is set. -/
inductive Renderer.CanFail (r : Renderer) (allowance : Nat) : Error → Prop
  | tooDeep {name text : Text} {limit : Int} (hname : r.partialText? name = some text)
    (hmax : r.maxDepth = some limit) : r.CanFail allowance (.depthExceeded name limit)
  | malformed {name w text : Text} {e : Error} (hname : r.partialText? name = some text)
    (hw : Text.IsMargin w) (hparse : (parse (Text.indent w text)).outcome = .error e)
    (he : e.isParseError = true) : r.CanFail allowance e
  | endless (hmax : ∀ limit, r.maxDepth = some limit → allowance < limit) :
    r.CanFail allowance .endless

variable {r : Renderer} {allowance depth : Nat} {name text w template : Text} {scope : Scope}
  {limit : Int} {e : Error} {ns : List Node}

/-! ### Expansions -/

/-- A fault of a parsed tree is the fault of one of its partials. -/
theorem exists_of_parsed_error {expand : Expander} {pair : Delimiter}
    (hparse : (parse template pair).outcome = .ok ns)
    (h : (renderAll expand ns scope).outcome = .error e) : ∃ name w inner,
      Occurs (.partialRef name w) ns ∧ (expand name w inner).outcome = .error e := by
  rcases exists_of_renderAll_error h with ⟨kind, hn, -⟩ | h
  · exact absurd hn (not_occurs_foreign hparse kind)
  · exact h

/-- **A fault of an expansion** is its own, or that of an expansion inside it. -/
theorem fails_of_expand (h : (r.expand allowance depth name w scope).outcome = .error e) :
    r.Fails allowance depth name w e := by
  induction allowance using Nat.strong_induction_on generalizing depth name w scope with
  | h allowance ih =>
    cases hname : r.partialText? name with
    | none =>
      rw [outcome_expand_of_missing hname] at h
      cases h
    | some text =>
      cases hx : r.exceeds depth with
      | some limit =>
        rw [outcome_expand_of_exceeds hname hx] at h
        cases h
        exact .tooDeep hname hx
      | none =>
        rw [outcome_expand_of_room hname hx] at h
        cases allowance with
        | zero =>
          cases h
          exact .endless hname hx
        | succ allowance =>
          rcases bind_eq_error_iff.1 h with h | ⟨nodes, hnodes, h⟩
          · exact .malformed hname hx h
          · obtain ⟨inner, v, t, hn, h⟩ := exists_of_parsed_error hnodes h
            exact .within hname hx hnodes hn (ih allowance (Nat.lt_succ_self allowance) h)

/-- What is not expanded does not fail. -/
theorem Renderer.Fails.exists_text (h : r.Fails allowance depth name w e) :
    ∃ text, r.partialText? name = some text := by
  cases h with
  | tooDeep hname _ => exact ⟨_, hname⟩
  | endless hname _ => exact ⟨_, hname⟩
  | malformed hname _ _ => exact ⟨_, hname⟩
  | within hname _ _ _ _ => exact ⟨_, hname⟩

/-- **Every fault of an expansion** is one of the three.  Each expansion takes one off the allowance and
adds one to the depth, so their sum tells the allowance at the top. -/
theorem Renderer.Fails.canFail (h : r.Fails allowance depth name w e) (hw : Text.IsMargin w) :
    r.CanFail (depth + allowance) e := by
  induction h with
  | tooDeep hname hx => exact .tooDeep hname (exceeds_eq_some_iff.1 hx).1
  | endless hname hx => exact .endless fun limit hmax => (exceeds_eq_none_iff hmax).1 hx
  | malformed hname hx hparse =>
    exact .malformed hname hw hparse (isParseError_of_parse hparse)
  | @within allowance depth name w text inner v nodes e hname hx hparse hn h ih =>
    have hinner := ih (isMargin_of_occurs_parse hparse hn)
    rwa [Nat.add_right_comm] at hinner

theorem Renderer.CanFail.ne_foreignNode (h : r.CanFail allowance e) (kind : Text) :
    e ≠ .foreignNode kind := by
  cases h with
  | tooDeep _ _ => simp
  | malformed _ _ _ he =>
    rintro rfl
    cases he
  | endless _ => simp

/-! ### Templates -/

/-- A template fails on its own, or one of its partials does. -/
theorem fails_of_renderTemplate
    (h : (r.renderTemplate allowance template scope).outcome = .error e) :
    (parse template).outcome = .error e ∨ ∃ nodes inner v, (parse template).outcome = .ok nodes ∧
      Occurs (.partialRef inner v) nodes ∧ r.Fails allowance 0 inner v e := by
  rw [outcome_renderTemplate] at h
  rcases bind_eq_error_iff.1 h with h | ⟨nodes, hnodes, h⟩
  · exact .inl h
  · obtain ⟨inner, v, t, hn, h⟩ := exists_of_parsed_error hnodes h
    exact .inr ⟨nodes, inner, v, hnodes, hn, fails_of_expand h⟩

/-- What comes out of a template is a text, or a fault of parsing, or a bound that was met, as long as
the allowance lasts. -/
theorem outcome_renderTemplate_cases
    (h : (r.renderTemplate allowance template scope).outcome ≠ .error .endless) :
    (∃ s, (r.renderTemplate allowance template scope).outcome = .ok s) ∨
      (∃ e, (r.renderTemplate allowance template scope).outcome = .error e ∧
        e.isParseError = true) ∨
      ∃ inner limit, r.maxDepth = some limit ∧
        (r.renderTemplate allowance template scope).outcome =
          .error (.depthExceeded inner limit) := by
  cases hout : (r.renderTemplate allowance template scope).outcome with
  | ok s => exact .inl ⟨s, rfl⟩
  | error e =>
    rcases fails_of_renderTemplate hout with hparse | ⟨nodes, inner, v, hnodes, hn, hfails⟩
    · exact .inr (.inl ⟨e, rfl, isParseError_of_parse hparse⟩)
    · cases hfails.canFail (isMargin_of_occurs_parse hnodes hn) with
      | tooDeep _ hmax => exact .inr (.inr ⟨_, _, hmax, rfl⟩)
      | malformed _ _ _ he => exact .inr (.inl ⟨e, rfl, he⟩)
      | endless _ => exact absurd hout h

/-- **Data never makes a rendering fail.**  A template that cannot be parsed fails for that reason.  Any
other is rendered to a text as long as none of its partials has one; and if some do, only they can make it
fail. -/
theorem renderTemplate_faults (r : Renderer) (allowance : Nat) (template : Text) (scope : Scope) :
    (∀ e, (parse template).outcome = .error e → e.isParseError = true ∧
        (r.renderTemplate allowance template scope).outcome = .error e) ∧
      ∀ ns, (parse template).outcome = .ok ns →
        ((∀ name w, Occurs (.partialRef name w) ns → r.partialText? name = none) →
          ∃ s, (r.renderTemplate allowance template scope).outcome = .ok s) ∧
        ∀ e, (r.renderTemplate allowance template scope).outcome = .error e →
          r.CanFail allowance e ∧ ∀ kind, e ≠ .foreignNode kind := by
  refine ⟨fun e hparse => ⟨isParseError_of_parse hparse, ?_⟩, fun ns hparse => ?_⟩
  · rw [outcome_renderTemplate, renderText, hparse]
    rfl
  · have hpartial : ∀ e, (r.renderTemplate allowance template scope).outcome = .error e →
        ∃ name w, Occurs (.partialRef name w) ns ∧ r.Fails allowance 0 name w e := by
      intro e he
      rcases fails_of_renderTemplate he with hfault | ⟨nodes, name, w, hnodes, hn, hfails⟩
      · rw [hparse] at hfault
        cases hfault
      · obtain rfl : ns = nodes := by simpa [hparse] using hnodes
        exact ⟨name, w, hn, hfails⟩
    refine ⟨fun hmissing => ?_, fun e he => ?_⟩
    · cases hout : (r.renderTemplate allowance template scope).outcome with
      | ok s => exact ⟨s, rfl⟩
      | error e =>
        obtain ⟨name, w, hn, hfails⟩ := hpartial e hout
        obtain ⟨text, htext⟩ := hfails.exists_text
        rw [hmissing name w hn] at htext
        cases htext
    · obtain ⟨name, w, hn, hfails⟩ := hpartial e he
      have hcan : r.CanFail allowance e := by
        simpa using hfails.canFail (isMargin_of_occurs_parse hparse hn)
      exact ⟨hcan, hcan.ne_foreignNode⟩

/-- A partial that is a list, in a section: there is a text whatever the data is.  If the partial is a text
that opens a section and does not close it, that is the fault. -/
theorem renderTemplate_faults_list :
    let template : Text := "{{#a.b}} {{>p}}{{/a.b}}".toList
    let list : Renderer := { partials := .mapping [("p".toList, .sequence [.null])] }
    let unclosed : Renderer := { partials := .mapping [("p".toList, .scalar "{{#x}}".toList)] }
    let scope : Scope := { root := .mapping [("a".toList, .mapping [("b".toList, .scalar [])])] }
    (∀ allowance scope, ∃ s, (list.renderTemplate allowance template scope).outcome = .ok s) ∧
      (unclosed.renderTemplate 1 template scope).outcome = .error (.unclosedSection "x".toList) ∧
      unclosed.CanFail 1 (.unclosedSection "x".toList) := by
  intro template list unclosed scope
  let ns : List Node :=
    [.block "a.b".toList false [.text " ".toList, .partialRef "p".toList []]]
  have hparse : (parse "{{#a.b}} {{>p}}{{/a.b}}".toList).outcome = .ok ns := by
    with_unfolding_all rfl
  have hlist : ∀ name w, Occurs (.partialRef name w) ns → list.partialText? name = none := by
    intro name w hn
    obtain ⟨rfl, -⟩ : name = "p".toList ∧ w = [] := by
      simpa [ns, occurs_cons_iff, not_occurs_nil, Node.children] using hn
    decide +kernel
  have hfault : (unclosed.renderTemplate 1 template scope).outcome =
      .error (.unclosedSection "x".toList) := by decide +kernel
  refine ⟨fun allowance scope => ?_, hfault, ?_⟩
  · exact ((renderTemplate_faults list allowance template scope).2 ns hparse).1 hlist
  · exact (((renderTemplate_faults unclosed 1 template scope).2 ns hparse).2 _ hfault).1

end Mustache
