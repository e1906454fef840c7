import Mathlib.Control.Monad.Basic
import Mustache.Proofs.Render.Expansion

/-!
# The bound on nested partials

A bound is met or it does not show.  If it is not met, loosening it changes nothing
(`expandText_loosened`).  Where a text comes out without a bound, the bounds that are met are those
below the number of expansions that nest in it (`expandText_guarded`).  `outcomeUnder_exact` says
both of a template.
-/

namespace Mustache

/-! ### Definitions -/

/-- What a template renders to in a scope under a bound on nested expansions. -/
def outcomeUnder (bound : Option Int) (partials : Value) (allowance : Nat) (template : Text)
    (scope : Scope) : Except Error Text :=
  renderText (Renderer.expand ⟨partials, bound⟩ allowance 0) template scope

/-- The greatest number of expansions that nest in one another when a template is rendered without
a bound. -/
def expansionDepth (partials : Value) (allowance : Nat) (template : Text) (scope : Scope) : Nat :=
  nestingText (Renderer.nesting ⟨partials, none⟩ allowance) template scope

/-- Did a rendering meet its bound? -/
def MeetsBound (x : Except Error Text) : Prop :=
  ∃ name limit, x = .error (.depthExceeded name limit)

/-- `y` is `x` with a looser bound: only a bound that was met makes a difference. -/
def Loosened (x y : Except Error Text) : Prop := MeetsBound x ∨ y = x

/-- `y` is `x` under a bound that `depth` expansions count against already: of `n` more expansions
in one another all have room, or one of them meets the bound. -/
def Guarded (limit : Int) (depth n : Nat) (x y : Except Error Text) : Prop :=
  ∀ s, x = .ok s →
    (n = 0 ∨ depth + n ≤ limit → y = .ok s) ∧
      (n ≠ 0 → limit < depth + n → ∃ name, y = .error (.depthExceeded name limit))

variable {r r' : Renderer} {allowance depth : Nat} {limit : Int} {bound : Option Int}
  {partials : Value} {template : Text} {scope : Scope}

theorem outcome_render_eq_outcomeUnder (template : Text) (context : Value) (r : Renderer) :
    (render template context r).outcome = outcomeUnder r.maxDepth r.partials
      Renderer.nestingAllowance template { root := context } := by
  simp only [render, Traced.outcome_bind]
  rfl

/-! ### A looser bound -/

theorem meetsBound_error (name : Text) (limit : Int) :
    MeetsBound (.error (.depthExceeded name limit)) := ⟨name, limit, rfl⟩

theorem joins_loosened : Joins fun _ => Loosened where
  text _ := .inr rfl
  fault _ := .inr rfl
  join {_ _ x y x' y'} front back := by
    rcases front with ⟨name, limit, rfl⟩ | rfl
    · exact .inl (meetsBound_error name limit)
    · cases y with
      | error e => exact .inr rfl
      | ok s =>
        rcases back with ⟨name, limit, rfl⟩ | rfl
        · exact .inl (meetsBound_error name limit)
        · exact .inr rfl

/-- A looser bound shows in a partial if it shows in its text or the tighter one is met. -/
theorem Loosened.expand (hp : r'.partials = r.partials)
    (hx : r.exceeds depth = none → r'.exceeds depth = none)
    (h : ∀ text scope, Loosened (r.expandText depth allowance text scope)
      (r'.expandText depth allowance text scope)) (name indentation : Text) (scope : Scope) :
    Loosened (r.expand allowance depth name indentation scope).outcome
      (r'.expand allowance depth name indentation scope).outcome := by
  have htext := partialText?_congr hp name
  cases hname : r.partialText? name with
  | none =>
    rw [outcome_expand_of_missing hname, outcome_expand_of_missing (htext.trans hname)]
    exact .inr rfl
  | some text =>
    cases hd : r.exceeds depth with
    | some limit =>
      rw [outcome_expand_of_exceeds hname hd]
      exact .inl (meetsBound_error name limit)
    | none =>
      rw [outcome_expand_of_room hname hd, outcome_expand_of_room (htext.trans hname) (hx hd)]
      exact h _ scope

/-- **A bound that is not met** can be loosened. -/
theorem expandText_loosened (hp : r'.partials = r.partials)
    (hx : ∀ depth, r.exceeds depth = none → r'.exceeds depth = none) (allowance depth : Nat)
    (text : Text) (scope : Scope) : Loosened (r.expandText depth allowance text scope)
      (r'.expandText depth allowance text scope) := by
  induction allowance generalizing depth text scope with
  | zero => exact .inr rfl
  | succ allowance ih =>
    exact joins_loosened.renderText (r.nesting allowance)
      (.expand hp (hx (depth + 1)) (ih (depth + 1))) text scope

theorem renderText_loosened (r r' : Renderer) (hp : r'.partials = r.partials)
    (hx : ∀ depth, r.exceeds depth = none → r'.exceeds depth = none) (allowance : Nat)
    (template : Text) (scope : Scope) :
    Loosened (renderText (r.expand allowance 0) template scope)
      (renderText (r'.expand allowance 0) template scope) :=
  joins_loosened.renderText (r.nesting allowance)
    (.expand hp (hx 0) (expandText_loosened hp hx allowance 0)) template scope

/-! ### The bounds that are met -/

theorem joins_guarded (limit : Int) (depth : Nat) : Joins (Guarded limit depth) where
  text s := by
    intro u hu
    refine ⟨fun _ => hu, fun h => absurd rfl h⟩
  fault e := by
    intro s hs
    cases hs
  join {m n x y x' y'} front back := by
    intro s hs
    obtain ⟨s₁, s₂, hx, hx', rfl⟩ := joined_eq_ok_iff.1 hs
    obtain ⟨hroom, hmet⟩ := front s₁ hx
    obtain ⟨hroom', hmet'⟩ := back s₂ hx'
    refine ⟨fun h => ?_, fun hn h => ?_⟩
    · rw [hroom (by omega), hroom' (by omega), joined_ok_ok]
    · by_cases hm : m = 0 ∨ depth + m ≤ limit
      -- The front has room, so the back is where more expansions nest.
      · obtain ⟨name, hy'⟩ := hmet' (by omega) (by omega)
        exact ⟨name, by rw [hroom hm, hy', joined_ok_error]⟩
      · obtain ⟨name, hy⟩ := hmet (by omega) (by omega)
        exact ⟨name, by rw [hy, joined_error]⟩

/-- The expansion of a partial counts against the bound before those in its text do. -/
theorem Guarded.expand (hp : r'.partials = r.partials) (hr : r.maxDepth = none)
    (hr' : r'.maxDepth = some limit)
    (h : ∀ text scope, Guarded limit (depth + 1) (r.nestingBelow allowance text scope)
      (r.expandText depth allowance text scope) (r'.expandText depth allowance text scope))
    (name indentation : Text) (scope : Scope) :
    Guarded limit depth (r.nesting allowance name indentation scope)
      (r.expand allowance depth name indentation scope).outcome
      (r'.expand allowance depth name indentation scope).outcome := by
  have htext := partialText?_congr hp name
  cases hname : r.partialText? name with
  | none =>
    rw [nesting_of_missing hname, outcome_expand_of_missing hname,
      outcome_expand_of_missing (htext.trans hname)]
    exact (joins_guarded limit depth).text []
  | some text =>
    rw [nesting_of_text hname, outcome_expand_of_room hname (exceeds_of_unbounded hr depth)]
    intro s hs
    by_cases hd : depth < limit
    · rw [outcome_expand_of_room (htext.trans hname) ((exceeds_eq_none_iff hr').2 hd)]
      obtain ⟨hroom, hmet⟩ := h _ _ s hs
      exact ⟨fun hn => hroom (by omega), fun hn hlt => hmet (by omega) (by omega)⟩
    · rw [outcome_expand_of_exceeds (htext.trans hname) (exceeds_eq_some_iff.2 ⟨hr', by omega⟩)]
      exact ⟨fun hn => absurd hn (by omega), fun _ _ => ⟨name, rfl⟩⟩

/-- **The bounds that are met** are those below the number of expansions that nest. -/
theorem expandText_guarded (hp : r'.partials = r.partials) (hr : r.maxDepth = none)
    (hr' : r'.maxDepth = some limit) (allowance depth : Nat) (text : Text) (scope : Scope) :
    Guarded limit (depth + 1) (r.nestingBelow allowance text scope)
      (r.expandText depth allowance text scope) (r'.expandText depth allowance text scope) := by
  induction allowance generalizing depth text scope with
  | zero => exact (joins_guarded limit (depth + 1)).fault .endless
  | succ allowance ih =>
    exact (joins_guarded limit (depth + 1)).renderText _ (.expand hp hr hr' (ih (depth + 1)))
      text scope

theorem renderText_guarded (r r' : Renderer) (hp : r'.partials = r.partials)
    (hr : r.maxDepth = none) (hr' : r'.maxDepth = some limit) (allowance : Nat) (template : Text)
    (scope : Scope) :
    Guarded limit 0 (nestingText (r.nesting allowance) template scope)
      (renderText (r.expand allowance 0) template scope)
      (renderText (r'.expand allowance 0) template scope) :=
  (joins_guarded limit 0).renderText _
    (.expand hp hr hr' (expandText_guarded hp hr hr' allowance 0)) template scope

/-! ### Templates -/

/-- A rendering that does not meet its bound is the same under another one that is met nowhere else. -/
theorem outcomeUnder_eq_of_unmet
    (hunmet : ¬ MeetsBound (outcomeUnder (some limit) partials allowance template scope))
    (hx : ∀ depth, (Renderer.mk partials (some limit)).exceeds depth = none →
      (Renderer.mk partials bound).exceeds depth = none) :
    outcomeUnder bound partials allowance template scope =
      outcomeUnder (some limit) partials allowance template scope := by
  have hloose := renderText_loosened ⟨partials, some limit⟩ ⟨partials, bound⟩ rfl hx allowance
    template scope
  exact hloose.resolve_left hunmet

theorem outcomeUnder_guarded (partials : Value) (limit : Int) (allowance : Nat) (template : Text)
    (scope : Scope) : Guarded limit 0 (expansionDepth partials allowance template scope)
      (outcomeUnder none partials allowance template scope)
      (outcomeUnder (some limit) partials allowance template scope) :=
  renderText_guarded ⟨partials, none⟩ ⟨partials, some limit⟩ rfl rfl rfl allowance template scope

/-- **The bound is exact, and does not show otherwise.**  A rendering that does not meet its bound
is the same under every looser bound and under none.  A template that renders to `s` without a bound
renders to `s` under the bounds that the depth of its expansions keeps, and meets all others. -/
theorem outcomeUnder_exact (partials : Value) (allowance : Nat) (template : Text) (scope : Scope) :
    (∀ limit : Int, (∀ name other, outcomeUnder (some limit) partials allowance template scope ≠
          .error (.depthExceeded name other)) →
        (∀ looser : Int, limit ≤ looser →
          outcomeUnder (some looser) partials allowance template scope =
            outcomeUnder (some limit) partials allowance template scope) ∧
        outcomeUnder none partials allowance template scope =
          outcomeUnder (some limit) partials allowance template scope) ∧
      ∀ s, outcomeUnder none partials allowance template scope = .ok s → ∀ limit : Int,
        (expansionDepth partials allowance template scope = 0 ∨
            expansionDepth partials allowance template scope ≤ limit →
          outcomeUnder (some limit) partials allowance template scope = .ok s) ∧
        (1 ≤ expansionDepth partials allowance template scope →
            limit < expansionDepth partials allowance template scope →
          ∃ name, outcomeUnder (some limit) partials allowance template scope =
            .error (.depthExceeded name limit)) := by
  refine ⟨fun limit hunmet => ?_, fun s hs limit => ?_⟩
  · have hunmet : ¬ MeetsBound (outcomeUnder (some limit) partials allowance template scope) :=
      fun ⟨name, other, hmet⟩ => hunmet name other hmet
    refine ⟨fun looser hle => outcomeUnder_eq_of_unmet hunmet fun depth hd => ?_,
      outcomeUnder_eq_of_unmet hunmet fun depth _ => rfl⟩
    rw [exceeds_eq_none_iff rfl] at hd ⊢
    omega
  · obtain ⟨hroom, hmet⟩ := outcomeUnder_guarded partials limit allowance template scope s hs
    exact ⟨fun hd => hroom (by omega), fun hd hlt => hmet (by omega) (by omega)⟩

/-- A partial that names itself while `n` goes on: two expansions nest, so that a bound of 2 is kept
and a bound of 1 is met. -/
theorem outcomeUnder_exact_recursion :
    let under (bound : Option Int) := outcomeUnder bound
      (.mapping [("a".toList, .scalar "({{#n}}{{>a}}{{/n}})".toList)]) 5 "{{>a}}".toList
      { root := .mapping [("n".toList, .mapping [("n".toList, .scalar "false".toList)])] }
    under (some 2) = .ok "(())".toList ∧ under (some 7) = under (some 2) ∧
      ∃ name, under (some 1) = .error (.depthExceeded name 1) := by
  intro under
  have hfree : under none = .ok "(())".toList := by decide +kernel
  obtain ⟨hkeep, hbounds⟩ := outcomeUnder_exact
    (.mapping [("a".toList, .scalar "({{#n}}{{>a}}{{/n}})".toList)]) 5 "{{>a}}".toList
    { root := .mapping [("n".toList, .mapping [("n".toList, .scalar "false".toList)])] }
  have htwo : under (some 2) = .ok "(())".toList :=
    (hbounds _ hfree 2).1 (.inr (by decide +kernel))
  refine ⟨htwo, (hkeep 2 ?_).1 7 (by decide), (hbounds _ hfree 1).2 ?_ ?_⟩
  · intro name other h
    cases htwo.symm.trans h
  · decide +kernel
  · decide +kernel

end Mustache
