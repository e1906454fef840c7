import Mathlib.Data.List.Forall2
import Mustache.Proofs.Render.Expansion
import Mustache.Proofs.Template.Origin

/-!
# Renderings in step

Two renderings of the same nodes go in step as long as the scopes that they stand in give the same text
for each field and scopes in step again for each section (`Scope.Simulation`).  Partials are expanded
on the way, so the names that matter are those of the template and of every partial that it can reach:
`Renderer.ClosedUnder` is what a property of nodes must satisfy to hold of all of them, and
`Renderer.Reaches` is the least such property.  `Scope.Simulation.renderTemplate` puts the two
together.  What a single rendering comes to is made up of what its nodes come to (`Joint.renderAll`).
-/

namespace Mustache

open Outcome

/-! ### Definitions -/

/-- Good nodes lead to good nodes: whatever a good reference to a partial expands to is good. -/
def Renderer.ClosedUnder (r : Renderer) (good : Node → Prop) : Prop :=
  ∀ ⦃name w text : Text⦄ ⦃nodes : List Node⦄, good (.partialRef name w) →
    r.partialText? name = some text → (parse (Text.indent w text)).outcome = .ok nodes →
    ∀ n, Occurs n nodes → good n

/-- **A node that a rendering can come to**: one of the nodes at hand, at any depth, or one in the text of a
partial that it can come to. -/
inductive Renderer.Reaches (r : Renderer) (ns : List Node) : Node → Prop
  | here {n : Node} (h : Occurs n ns) : r.Reaches ns n
  | within {name w text : Text} {nodes : List Node} {n : Node}
    (h : r.Reaches ns (.partialRef name w)) (hname : r.partialText? name = some text)
    (hparse : (parse (Text.indent w text)).outcome = .ok nodes) (hn : Occurs n nodes) :
    r.Reaches ns n

/-- **Scopes in step.**  Related scopes give the same text for every good field, and related scopes for
the body of every good section. -/
structure Scope.Simulation (good : Node → Prop) (R : Scope → Scope → Prop) : Prop where
  field {s s' : Scope} {name : Text} {escaped : Bool} (h : R s s')
    (hgood : good (.field name escaped)) : s.fieldText name = s'.fieldText name
  bodies {s s' : Scope} {name : Text} {inverted : Bool} {children : List Node} (h : R s s')
    (hgood : good (.block name inverted children)) :
    List.Forall₂ R (s.bodies inverted (s.sectionValue name))
      (s'.bodies inverted (s'.sectionValue name))

/-- A property of runs that the empty text has, and that is kept when two texts are joined. -/
structure Joint (P : Run Text → Prop) : Prop where
  nil : P (pure [])
  join {x y : Run Text} (front : P x) (back : P y) : P do
    let a ← x
    let b ← y
    return a ++ b

variable {good : Node → Prop} {R : Scope → Scope → Prop}
  {r r' : Renderer} {s s' scope : Scope} {ns : List Node} {name w text : Text} {depth : Nat}
  {limit : Int} {P : Run Text → Prop}

theorem render_eq_renderTemplate (template : Text) (context : Value) (r : Renderer) :
    render template context r =
      r.renderTemplate Renderer.nestingAllowance template { root := context } := rfl

theorem outcome_renderTemplate (r : Renderer) (allowance : Nat) (template : Text) (scope : Scope) :
    (r.renderTemplate allowance template scope).outcome =
      renderText (r.expand allowance 0) template scope := by
  simp only [Renderer.renderTemplate, Traced.outcome_bind]
  rfl

/-- What a rendering can come to leads to nothing else. -/
theorem closedUnder_reaches (r : Renderer) (ns : List Node) : r.ClosedUnder (r.Reaches ns) :=
  fun _ _ _ _ h hname hparse _ hn => .within h hname hparse hn

/-! ### One expansion -/

theorem expand_of_missing (h : r.partialText? name = none) (allowance depth : Nat) (w : Text)
    (scope : Scope) : r.expand allowance depth name w scope = (do
      Traced.tell (.missing name)
      return []) := by
  unfold Renderer.expand
  simp only [h]

theorem expand_of_exceeds (h : r.partialText? name = some text)
    (hx : r.exceeds depth = some limit) (allowance : Nat) (w : Text) (scope : Scope) :
    r.expand allowance depth name w scope = Traced.fail (.depthExceeded name limit) := by
  unfold Renderer.expand
  simp only [h, hx]

theorem expand_zero (h : r.partialText? name = some text) (hx : r.exceeds depth = none) (w : Text)
    (scope : Scope) : r.expand 0 depth name w scope = Traced.fail .endless := by
  unfold Renderer.expand
  simp only [h, hx]

theorem expand_succ (h : r.partialText? name = some text) (hx : r.exceeds depth = none)
    (allowance : Nat) (w : Text) (scope : Scope) :
    r.expand (allowance + 1) depth name w scope = (do
      Traced.tell (.expanded name depth)
      let nodes ← parse (Text.indent w text)
      renderAll (r.expand allowance (depth + 1)) nodes scope) := by
  rw [Renderer.expand]
  simp only [h, hx]

/-- Two expansions that are missing or one too many together have only to agree where there is room. -/
theorem expand_congr {allowance allowance' : Nat}
    (htext : r'.partialText? name = r.partialText? name)
    (hsame : r'.exceeds depth = r.exceeds depth)
    (h : ∀ text, r.partialText? name = some text → r.exceeds depth = none →
      r.expand allowance depth name w s = r'.expand allowance' depth name w s') :
    r.expand allowance depth name w s = r'.expand allowance' depth name w s' := by
  cases hname : r.partialText? name with
  | none => rw [expand_of_missing hname, expand_of_missing (htext.trans hname)]
  | some text =>
    cases hx : r.exceeds depth with
    | some limit =>
      rw [expand_of_exceeds hname hx, expand_of_exceeds (htext.trans hname) (hsame.trans hx)]
    | none => exact h text hname hx

/-! ### In step -/

theorem concatMap_congr {α β : Type} {f : α → Run Text} {g : β → Run Text} {l : List α}
    {l' : List β} (h : List.Forall₂ (fun a b => f a = g b) l l') :
    Traced.concatMap f l = Traced.concatMap g l' := by
  induction h with
  | nil => rfl
  | cons hab _ ih => simp only [Traced.concatMap, hab, ih]

namespace Scope.Simulation

/-- Related scopes are in step if expansion is. -/
theorem renderAll {expand expand' : Expander} (hR : Scope.Simulation good R)
    (hns : ∀ n, Occurs n ns → good n)
    (hexpand : ∀ name w, good (.partialRef name w) → ∀ s s', R s s' →
      expand name w s = expand' name w s') (h : R s s') :
    Mustache.renderAll expand ns s = Mustache.renderAll expand' ns s' := by
  induction ns using nodes_induction generalizing s s' with
  | nil => rfl
  | leaf n rest hleaf ih =>
    have hn : n.render expand s = n.render expand' s' := by
      have hgood := hns n (.here rest)
      cases n with
      | text content => rfl
      | field name escaped => simp only [Node.render, hR.field h hgood]
      | block name inverted children => exact absurd rfl (hleaf name inverted children)
      | comment content => rfl
      | partialRef name w => exact hexpand name w hgood s s' h
      | foreign kind => rfl
    have hrest := ih (fun m hm => hns m (.later n hm)) h
    simp only [Mustache.renderAll, hn, hrest]
  | block name inverted children rest ihc ihr =>
    have hbody : ∀ t t', R t t' →
        Mustache.renderAll expand children t = Mustache.renderAll expand' children t' :=
      fun t t' ht => ihc (fun m hm => hns m (.inside name inverted rest hm)) ht
    have hbodies := (hR.bodies h (hns _ (.here rest))).imp hbody
    have hrest := ihr (fun m hm => hns m (.later _ hm)) h
    simp only [Mustache.renderAll, Node.render, concatMap_congr hbodies, hrest]

/-- **Expansion is in step** where the partials have the same texts. -/
theorem expansion (hR : Scope.Simulation good R) (hclosed : r.ClosedUnder good)
    (htext : ∀ name, r'.partialText? name = r.partialText? name)
    (hdepth : r'.maxDepth = r.maxDepth) (allowance depth : Nat)
    (hgood : good (.partialRef name w)) (h : R s s') :
    r.expand allowance depth name w s = r'.expand allowance depth name w s' := by
  have hsame : ∀ depth, r'.exceeds depth = r.exceeds depth := by
    intro depth
    simp only [Renderer.exceeds, hdepth]
  induction allowance generalizing depth name w s s' with
  | zero =>
    refine expand_congr (htext name) (hsame depth) fun text hname hx => ?_
    rw [expand_zero hname hx, expand_zero ((htext name).trans hname) ((hsame depth).trans hx)]
  | succ allowance ih =>
    refine expand_congr (htext name) (hsame depth) fun text hname hx => ?_
    rw [expand_succ hname hx, expand_succ ((htext name).trans hname) ((hsame depth).trans hx)]
    refine Traced.bind_congr fun _ _ => Traced.bind_congr fun nodes hnodes => ?_
    exact hR.renderAll (hclosed hgood hname hnodes)
      (fun inner v hinner t t' ht => ih (depth + 1) hinner ht) h

theorem renderWithin (hR : Scope.Simulation good R) (hclosed : r.ClosedUnder good)
    (htext : ∀ name, r'.partialText? name = r.partialText? name)
    (hdepth : r'.maxDepth = r.maxDepth) (allowance : Nat) (hns : ∀ n, Occurs n ns → good n)
    (h : R s s') : r.renderWithin allowance ns s = r'.renderWithin allowance ns s' :=
  hR.renderAll hns
    (fun _ _ hgood _ _ ht => hR.expansion hclosed htext hdepth allowance 0 hgood ht) h

/-- **A template is rendered in step** in related scopes if all its nodes are good. -/
theorem renderTemplate (hR : Scope.Simulation good R) (hclosed : r.ClosedUnder good)
    (htext : ∀ name, r'.partialText? name = r.partialText? name)
    (hdepth : r'.maxDepth = r.maxDepth) (allowance : Nat) {template : Text}
    (hgood : ∀ nodes, (parse template).outcome = .ok nodes → ∀ n, Occurs n nodes → good n)
    (h : R s s') :
    r.renderTemplate allowance template s = r'.renderTemplate allowance template s' :=
  Traced.bind_congr fun nodes hnodes =>
    hR.renderWithin hclosed htext hdepth allowance (hgood nodes hnodes) h

/-- Every scope is in step with itself. -/
theorem refl (good : Node → Prop) : Scope.Simulation good Eq where
  field h _ := by rw [h]
  bodies h _ := by
    rw [h]
    exact List.forall₂_eq_eq_eq ▸ rfl

end Scope.Simulation

/-- Expansions that agree on the partials among some nodes give the nodes the same text. -/
theorem renderAll_congr {expand expand' : Expander}
    (h : ∀ name w, Occurs (.partialRef name w) ns → ∀ s, expand name w s = expand' name w s)
    (s : Scope) : renderAll expand ns s = renderAll expand' ns s := by
  refine (Scope.Simulation.refl fun n => Occurs n ns).renderAll (fun _ hn => hn) ?_ rfl
  rintro name w hn t t' rfl
  exact h name w hn t

/-! ### Node by node -/

variable {expand : Expander}

/-- **What holds of each node on its own** holds of all of them together. -/
theorem Joint.renderAll (hP : Joint P)
    (h : ∀ n scope, Occurs n ns → (∀ name inverted children, n ≠ .block name inverted children) →
      P (n.render expand scope)) (scope : Scope) : P (renderAll expand ns scope) := by
  induction ns using nodes_induction generalizing scope with
  | nil => exact hP.nil
  | leaf n rest hleaf ih =>
    have hrest := ih (fun m t hm => h m t (.later n hm)) scope
    exact hP.join (h n scope (.here rest) hleaf) hrest
  | block name inverted children rest ihc ihr =>
    have hbody := ihc fun m t hm => h m t (.inside name inverted rest hm)
    have hbodies : ∀ l : List Scope,
        P (Traced.concatMap (fun inner => Mustache.renderAll expand children inner) l) := by
      intro l
      induction l with
      | nil => exact hP.nil
      | cons inner l ih => exact hP.join (hbody inner) ih
    have hrest := ihr (fun m t hm => h m t (.later _ hm)) scope
    exact hP.join (hbodies _) hrest

theorem joint_ok {Q : Text → Prop} (nil : Q []) (append : ∀ {s t}, Q s → Q t → Q (s ++ t)) :
    Joint fun x => ∀ s, x.outcome = .ok s → Q s where
  nil s hs := by
    obtain rfl : [] = s := by simpa using hs
    exact nil
  join {x y} hx hy s hs := by
    simp only [Traced.outcome_bind, Traced.outcome_pure] at hs
    obtain ⟨front, hfront, hs⟩ := bind_eq_ok_iff.1 hs
    obtain ⟨back, hback, hs⟩ := bind_eq_ok_iff.1 hs
    cases hs
    exact append (hx front hfront) (hy back hback)

theorem joint_error (Q : Error → Prop) : Joint fun x => ∀ e, x.outcome = .error e → Q e where
  nil e he := by simp at he
  join {x y} hx hy e he := by
    simp only [Traced.outcome_bind, Traced.outcome_pure] at he
    rcases bind_eq_error_iff.1 he with he | ⟨a, -, he⟩
    · exact hx e he
    · rcases bind_eq_error_iff.1 he with he | ⟨b, -, he⟩
      · exact hy e he
      · cases he

theorem joint_notes (Q : Note → Prop) : Joint fun x => ∀ note ∈ x.notes, Q note where
  nil note hn := absurd hn List.not_mem_nil
  join {x y} hx hy note hn := by
    rcases Traced.mem_notes_bind.1 hn with hn | ⟨a, -, hn⟩
    · exact hx note hn
    · rcases Traced.mem_notes_bind.1 hn with hn | ⟨b, -, hn⟩
      · exact hy note hn
      · exact absurd hn List.not_mem_nil

/-- A fault of nodes is the fault of a node that is no piece of a template, or of a partial. -/
theorem exists_of_renderAll_error {e : Error} (h : (renderAll expand ns scope).outcome = .error e) :
    (∃ kind, Occurs (.foreign kind) ns ∧ e = .foreignNode kind) ∨
      ∃ name w inner, Occurs (.partialRef name w) ns ∧
        (expand name w inner).outcome = .error e := by
  refine (joint_error fun e => (∃ kind, Occurs (.foreign kind) ns ∧ e = .foreignNode kind) ∨
    ∃ name w inner, Occurs (.partialRef name w) ns ∧
      (expand name w inner).outcome = .error e).renderAll (fun n inner hn hleaf e he => ?_) scope e h
  cases n with
  | text content => simp [Node.render] at he
  | field name escaped => simp [Node.render] at he
  | block name inverted children => exact absurd rfl (hleaf name inverted children)
  | comment content => simp [Node.render] at he
  | partialRef name w => exact .inr ⟨name, w, inner, hn, he⟩
  | foreign kind =>
    obtain rfl : Error.foreignNode kind = e := by simpa [Node.render] using he
    exact .inl ⟨kind, hn, rfl⟩

/-- Nodes note what their partials note. -/
theorem exists_of_mem_notes_renderAll {note : Note}
    (h : note ∈ (renderAll expand ns scope).notes) : ∃ name w inner,
      Occurs (.partialRef name w) ns ∧ note ∈ (expand name w inner).notes := by
  refine (joint_notes fun note => ∃ name w inner, Occurs (.partialRef name w) ns ∧
    note ∈ (expand name w inner).notes).renderAll (fun n inner hn hleaf note hx => ?_) scope note h
  cases n with
  | text content => exact absurd hx List.not_mem_nil
  | field name escaped => exact absurd hx List.not_mem_nil
  | block name inverted children => exact absurd rfl (hleaf name inverted children)
  | comment content => exact absurd hx List.not_mem_nil
  | partialRef name w => exact ⟨name, w, inner, hn, hx⟩
  | foreign kind => exact absurd hx List.not_mem_nil

end Mustache
