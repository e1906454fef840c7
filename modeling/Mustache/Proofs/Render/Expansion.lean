import Mustache.Proofs.Outcome
import Mustache.Render.Renderer

/-!
# Expanding partials

What is rendered under one way to expand partials is compared with what is rendered under another:
a relation of two outcomes that is kept when texts are joined (`Joins`) holds of a whole template as
soon as it holds of each partial (`Joins.renderText`).  Beside the outcomes it may tell how many
expansions nest in one another (`nestingText`).
-/

namespace Mustache

/-! ### Definitions -/

/-- One text and then another. -/
def joined (x y : Except Error Text) : Except Error Text :=
  x.bind fun front => y.bind fun back => .ok (front ++ back)

mutual

/-- How many expansions of partials nest in a node, if `inner` of them nest in a partial. -/
def Node.nesting (inner : Text → Text → Scope → Nat) : Node → Scope → Nat
  | .text _, _ => 0
  | .field _ _, _ => 0
  | .block name inverted children, scope =>
    (scope.bodies inverted (scope.sectionValue name)).foldr
      (fun body deepest => max (nestingAll inner children body) deepest) 0
  | .comment _, _ => 0
  | .partialRef name indentation, scope => inner name indentation scope
  | .foreign _, _ => 0

/-- How many expansions of partials nest in one of the nodes. -/
def nestingAll (inner : Text → Text → Scope → Nat) : List Node → Scope → Nat
  | [], _ => 0
  | n :: rest, scope => max (n.nesting inner scope) (nestingAll inner rest scope)

end

/-- How many expansions of partials nest in a template. -/
def nestingText (inner : Text → Text → Scope → Nat) (template : Text) (scope : Scope) : Nat :=
  match (parse template).outcome with
  | .ok nodes => nestingAll inner nodes scope
  | .error _ => 0

/-- How many expansions nest in a partial, its own with them.  A name without a text is not
expanded. -/
def Renderer.nesting (r : Renderer) (allowance : Nat) (name indentation : Text) (scope : Scope) :
    Nat :=
  match r.partialText? name with
  | none => 0
  | some text =>
    match allowance with
    | 0 => 1
    | allowance + 1 => 1 + nestingText (r.nesting allowance) (Text.indent indentation text) scope

/-- How many expansions nest below one, given the text that it expands to. -/
def Renderer.nestingBelow (r : Renderer) : Nat → Text → Scope → Nat
  | 0, _, _ => 0
  | allowance + 1, text, scope => nestingText (r.nesting allowance) text scope

/-- What a template renders to. -/
def renderText (expand : Expander) (template : Text) (scope : Scope) : Except Error Text :=
  (parse template).outcome.bind fun nodes => (renderAll expand nodes scope).outcome

/-- What an expansion that is not one too many comes to, given its text. -/
def Renderer.expandText (r : Renderer) (depth : Nat) : Nat → Text → Scope → Except Error Text
  | 0, _, _ => .error .endless
  | allowance + 1, text, scope => renderText (r.expand allowance (depth + 1)) text scope

/-- **A relation of two outcomes** and of a number of nested expansions that holds of equal texts
and of equal faults, and that is kept when texts are joined. -/
structure Joins (R : Nat → Except Error Text → Except Error Text → Prop) : Prop where
  text (s : Text) : R 0 (.ok s) (.ok s)
  fault (e : Error) : R 0 (.error e) (.error e)
  join {m n : Nat} {x y x' y' : Except Error Text} (front : R m x y) (back : R n x' y') :
    R (max m n) (joined x x') (joined y y')

variable {α : Type} {expand expand' : Expander} {r r' : Renderer} {allowance depth : Nat}
  {name indentation text : Text} {scope : Scope} {limit : Int} {x y : Except Error Text}
  {R : Nat → Except Error Text → Except Error Text → Prop}

/-! ### Joined texts -/

@[simp] theorem joined_ok_ok (s u : Text) : joined (.ok s) (.ok u) = .ok (s ++ u) := rfl

@[simp] theorem joined_error (e : Error) (y : Except Error Text) :
    joined (.error e) y = .error e := rfl

@[simp] theorem joined_ok_error (s : Text) (e : Error) : joined (.ok s) (.error e) = .error e := rfl

theorem joined_eq_ok_iff {s : Text} :
    joined x y = .ok s ↔ ∃ front back, x = .ok front ∧ y = .ok back ∧ front ++ back = s := by
  cases x <;> cases y <;> simp

theorem outcome_renderAll_cons (expand : Expander) (n : Node) (ns : List Node) (scope : Scope) :
    (renderAll expand (n :: ns) scope).outcome =
      joined (n.render expand scope).outcome (renderAll expand ns scope).outcome := by
  simp only [renderAll, Traced.outcome_bind, Traced.outcome_pure, joined]

theorem outcome_concatMap_cons (f : α → Run Text) (a : α) (l : List α) :
    (Traced.concatMap f (a :: l)).outcome =
      joined (f a).outcome (Traced.concatMap f l).outcome := by
  simp only [Traced.concatMap, Traced.outcome_bind, Traced.outcome_pure, joined]

/-! ### One expansion -/

theorem exceeds_eq_some_iff :
    r.exceeds depth = some limit ↔ r.maxDepth = some limit ∧ limit ≤ depth := by
  simp [Renderer.exceeds, Option.filter_eq_some_iff]

theorem exceeds_of_unbounded (h : r.maxDepth = none) (depth : Nat) : r.exceeds depth = none := by
  simp [Renderer.exceeds, h]

theorem exceeds_eq_none_iff (h : r.maxDepth = some limit) :
    r.exceeds depth = none ↔ depth < limit := by
  simp [Renderer.exceeds, h, Option.filter_eq_none_iff]

theorem partialText?_congr (hp : r'.partials = r.partials) (name : Text) :
    r'.partialText? name = r.partialText? name := by
  simp only [Renderer.partialText?, hp]

theorem outcome_expand_of_missing (h : r.partialText? name = none) :
    (r.expand allowance depth name indentation scope).outcome = .ok [] := by
  unfold Renderer.expand
  simp [h, Except.bind]

theorem outcome_expand_of_exceeds (h : r.partialText? name = some text)
    (hx : r.exceeds depth = some limit) :
    (r.expand allowance depth name indentation scope).outcome =
      .error (.depthExceeded name limit) := by
  unfold Renderer.expand
  simp [h, hx]

theorem outcome_expand_of_room (h : r.partialText? name = some text) (hx : r.exceeds depth = none) :
    (r.expand allowance depth name indentation scope).outcome =
      r.expandText depth allowance (Text.indent indentation text) scope := by
  unfold Renderer.expand
  cases allowance with
  | zero => simp [h, hx, Renderer.expandText]
  | succ allowance => simp [h, hx, Renderer.expandText, renderText, Except.bind]

/-- **An expansion gives a text** if the partial has none, or if there is room for its text, which can be
parsed, and its nodes give that text. -/
theorem outcome_expand_eq_ok_iff {s : Text} :
    (r.expand allowance depth name indentation scope).outcome = .ok s ↔
      r.partialText? name = none ∧ s = [] ∨ ∃ text rest nodes, r.partialText? name = some text ∧
        r.exceeds depth = none ∧ allowance = rest + 1 ∧
        (parse (Text.indent indentation text)).outcome = .ok nodes ∧
        (renderAll (r.expand rest (depth + 1)) nodes scope).outcome = .ok s := by
  cases hname : r.partialText? name with
  | none => simp [outcome_expand_of_missing hname, eq_comm]
  | some text =>
    cases hx : r.exceeds depth with
    | some limit => simp [outcome_expand_of_exceeds hname hx]
    | none =>
      rw [outcome_expand_of_room hname hx]
      cases allowance with
      | zero => simp [Renderer.expandText]
      | succ allowance =>
        simp [Renderer.expandText, Mustache.renderText, Outcome.bind_eq_ok_iff]

theorem nesting_of_missing (h : r.partialText? name = none) (allowance : Nat) (indentation : Text)
    (scope : Scope) : r.nesting allowance name indentation scope = 0 := by
  unfold Renderer.nesting
  simp [h]

theorem nesting_of_text (h : r.partialText? name = some text) (allowance : Nat)
    (indentation : Text) (scope : Scope) : r.nesting allowance name indentation scope =
      1 + r.nestingBelow allowance (Text.indent indentation text) scope := by
  unfold Renderer.nesting
  cases allowance <;> simp [h, Renderer.nestingBelow]

/-! ### From the partials to a template -/

namespace Joins

theorem concatMap (hR : Joins R) {f g : α → Run Text} {count : α → Nat}
    (h : ∀ a, R (count a) (f a).outcome (g a).outcome) (l : List α) :
    R (l.foldr (fun a deepest => max (count a) deepest) 0) (Traced.concatMap f l).outcome
      (Traced.concatMap g l).outcome := by
  induction l with
  | nil => exact hR.text []
  | cons a l ih =>
    rw [outcome_concatMap_cons, outcome_concatMap_cons, List.foldr_cons]
    exact hR.join (h a) ih

mutual

theorem render (hR : Joins R) (inner : Text → Text → Scope → Nat)
    (h : ∀ name indentation scope, R (inner name indentation scope)
      (expand name indentation scope).outcome (expand' name indentation scope).outcome) :
    ∀ (n : Node) (scope : Scope),
      R (n.nesting inner scope) (n.render expand scope).outcome (n.render expand' scope).outcome
  | .text _, _ => hR.text _
  | .field _ _, _ => hR.text _
  | .block _ _ children, _ => hR.concatMap (hR.renderAll inner h children) _
  | .comment _, _ => hR.text []
  | .partialRef name indentation, scope => h name indentation scope
  | .foreign _, _ => hR.fault _

theorem renderAll (hR : Joins R) (inner : Text → Text → Scope → Nat)
    (h : ∀ name indentation scope, R (inner name indentation scope)
      (expand name indentation scope).outcome (expand' name indentation scope).outcome) :
    ∀ (ns : List Node) (scope : Scope),
      R (nestingAll inner ns scope) (renderAll expand ns scope).outcome
        (renderAll expand' ns scope).outcome
  | [], _ => hR.text []
  | n :: ns, scope => by
    rw [outcome_renderAll_cons, outcome_renderAll_cons]
    exact hR.join (hR.render inner h n scope) (hR.renderAll inner h ns scope)

end

/-- What holds of every partial holds of a template. -/
theorem renderText (hR : Joins R) (inner : Text → Text → Scope → Nat)
    (h : ∀ name indentation scope, R (inner name indentation scope)
      (expand name indentation scope).outcome (expand' name indentation scope).outcome)
    (template : Text) (scope : Scope) :
    R (nestingText inner template scope) (renderText expand template scope)
      (renderText expand' template scope) := by
  unfold nestingText Mustache.renderText
  cases (parse template).outcome with
  | error e => exact hR.fault e
  | ok nodes => exact hR.renderAll inner h nodes scope

end Joins

end Mustache
