import Mustache.Proofs.Template.Build
import Mustache.Proofs.Template.Passage
import Mustache.Render.Renderer

/-!
# One template behind another

Nodes and tokens are rendered one after the other (`outcome_renderAll_append`,
`renderTokens_append`).  A scan that has passed whole lines and finds no more tag in them leaves no
trace on what comes behind but its text (`alike_scan_append`).  So whole lines that render can be
rendered apart from the text behind them (`renderTemplate_append`).
-/

namespace Mustache

open Cursor Outcome

/-! ### Definitions -/

/-- The text of a token list. -/
def renderTokens (expand : Expander) (scope : Scope) (ts : List Token) : Except Error Text :=
  (build ts).bind fun nodes => (renderAll expand nodes scope).outcome

variable {expand : Expander} {scope : Scope} {ns ms : List Node} {ts us : List Token} {s u : Text}
  {c d : Cursor} {a b : Text} {r : Renderer} {allowance : Nat}

/-! ### Nodes -/

theorem outcome_renderAll_append (ns ms : List Node) :
    (renderAll expand (ns ++ ms) scope).outcome = (renderAll expand ns scope).outcome.bind
      fun front => (renderAll expand ms scope).outcome.map (front ++ ·) := by
  induction ns with
  | nil =>
    show (renderAll expand ms scope).outcome = (renderAll expand ms scope).outcome.map ([] ++ ·)
    cases (renderAll expand ms scope).outcome <;> simp [Except.map]
  | cons n ns ih =>
    simp only [List.cons_append, renderAll, Traced.outcome_bind, Traced.outcome_pure, ih]
    cases (n.render expand scope).outcome with
    | error e => rfl
    | ok front =>
      cases (renderAll expand ns scope).outcome with
      | error e => rfl
      | ok back => cases (renderAll expand ms scope).outcome <;> simp [Except.bind, Except.map]

theorem outcome_renderAll_text (k : Text) :
    (renderAll expand [.text k] scope).outcome = .ok k := by
  simp [renderAll, Node.render, Except.bind]

/-! ### Tokens -/

/-- **Tokens behind tokens that render** render as they do alone. -/
theorem renderTokens_append (h : renderTokens expand scope ts = .ok s) (us : List Token) :
    renderTokens expand scope (ts ++ us) = (renderTokens expand scope us).map (s ++ ·) := by
  obtain ⟨ns, hb, hr⟩ := bind_eq_ok_iff.1 h
  unfold renderTokens
  rw [build_append hb]
  cases build us with
  | error e => rfl
  | ok ms =>
    show (renderAll expand (ns ++ ms) scope).outcome = _
    rw [outcome_renderAll_append, hr]
    rfl

theorem renderTokens_nil : renderTokens expand scope [] = .ok [] := by
  unfold renderTokens
  rw [build_nil]
  rfl

theorem renderTokens_text (k : Text) (line : LineInfo) :
    renderTokens expand scope [⟨.text k, line⟩] = .ok k := by
  unfold renderTokens
  rw [build_single (by simp), build_nil]
  exact outcome_renderAll_text k

theorem renderTokens_of_isTextOf (h : IsTextOf s ts) : renderTokens expand scope ts = .ok s := by
  rcases h with ⟨rfl, rfl⟩ | ⟨line, rfl⟩
  · exact renderTokens_nil
  · exact renderTokens_text s line

/-- The text at the end of a token list comes last, and what comes before it renders without it. -/
theorem renderTokens_append_endTokens (h : renderTokens expand scope (ts ++ c.endTokens) = .ok s) :
    ∃ front, renderTokens expand scope ts = .ok front ∧ s = front ++ c.rest := by
  unfold endTokens at h
  split at h
  · next hr =>
    rw [List.append_nil] at h
    exact ⟨s, h, by rw [hr, List.append_nil]⟩
  · obtain ⟨ns, hb, hr⟩ := bind_eq_ok_iff.1 h
    rw [build_concat ⟨by simp [lastToken], by simp [lastToken]⟩] at hb
    obtain ⟨ms, hm, rfl⟩ := map_eq_ok_iff.1 hb
    rw [outcome_renderAll_append] at hr
    obtain ⟨front, hf, hr⟩ := bind_eq_ok_iff.1 hr
    refine ⟨front, bind_eq_ok_iff.2 ⟨ms, hm, hf⟩, ?_⟩
    rw [show c.lastToken.leaves = [.text c.rest] from rfl, outcome_renderAll_text] at hr
    cases hr
    rfl

/-! ### Templates -/

theorem outcome_renderTemplate_eq (r : Renderer) (allowance : Nat) (template : Text)
    (scope : Scope) : (r.renderTemplate allowance template scope).outcome =
      (tokenize template).outcome.bind (renderTokens (r.expand allowance 0) scope) := by
  simp only [Renderer.renderTemplate, parse, Traced.outcome_bind, Traced.outcome_ofExcept]
  cases (tokenize template).outcome <;> rfl

/-- **Whole lines without a tag** come out as they are, and then what the scan finds behind them. -/
theorem Fronted.alike_bind {x y : Except Error (List Token)} (h : Fronted s x y)
    (expand : Expander) (scope : Scope) : Alike (x.bind (renderTokens expand scope))
      ((y.bind (renderTokens expand scope)).map (s ++ ·)) := by
  cases h with
  | error kind => exact .error kind
  | ok long short back =>
    simp only [Except.bind, renderTokens_append (renderTokens_of_isTextOf long),
      renderTokens_append (renderTokens_of_isTextOf short), map_map, List.append_assoc]
    exact .refl _

/-- A scan that has tokens in front that render has their text in front. -/
theorem bind_renderTokens_append (h : renderTokens expand scope ts = .ok s)
    (x : Except Error (List Token)) :
    (x.map (ts ++ ·)).bind (renderTokens expand scope) =
      (x.bind (renderTokens expand scope)).map (s ++ ·) := by
  cases x with
  | error e => rfl
  | ok us => exact renderTokens_append h us

/-- Whole lines that render are rendered apart from the text behind them. -/
theorem alike_renderTemplate_append (ha : Text.WholeLines a)
    (hp : lastPair { rest := a } = .braces)
    (h : (r.renderTemplate allowance a scope).outcome = .ok s) (b : Text) :
    Alike (r.renderTemplate allowance (a ++ b) scope).outcome
      ((r.renderTemplate allowance b scope).outcome.map (s ++ ·)) := by
  simp only [outcome_renderTemplate_eq] at h ⊢
  obtain ⟨ts, ht, hr⟩ := bind_eq_ok_iff.1 h
  obtain ⟨stops, rest, lineStart, -, hd, hl, rfl, hscan⟩ := tokenize_append ha hp ht
  obtain ⟨front, hf, rfl⟩ := renderTokens_append_endTokens hr
  have hlead := ((scan_append hd Delimiter.solid_braces hl b).alike_bind (r.expand allowance 0)
    scope).map (front ++ ·)
  rw [map_map] at hlead
  rw [hscan, bind_renderTokens_append hf]
  simp only [List.append_assoc]
  exact hlead

/-- **Whole lines render apart.**  If `a` is whole lines, renders to `s`, and leaves the markers it
found, then `a` with `b` behind it renders where `b` does, to `s` and the text of `b`; where `b` does
not, neither does the whole, for a reason of the same kind. -/
theorem renderTemplate_append (ha : Text.WholeLines a) (hp : lastPair { rest := a } = .braces)
    (h : (r.renderTemplate allowance a scope).outcome = .ok s) (b : Text) :
    (∀ text, (r.renderTemplate allowance (a ++ b) scope).outcome = .ok text ↔
        ∃ back, (r.renderTemplate allowance b scope).outcome = .ok back ∧ text = s ++ back) ∧
      ∀ e, (r.renderTemplate allowance b scope).outcome = .error e →
        ∃ f, (r.renderTemplate allowance (a ++ b) scope).outcome = .error f ∧ f.kind = e.kind := by
  have hab := alike_renderTemplate_append ha hp h b
  refine ⟨fun text => ?_, fun e he => hab.exists_error (map_eq_error_iff.2 he)⟩
  rw [hab.eq_ok_iff, map_eq_ok_iff]
  simp only [eq_comm]

/-- Markers changed and changed back in a section, and a field in the line behind it. -/
theorem renderTemplate_append_section :
    let r : Renderer := {}
    let scope : Scope := { root := .mapping [("x".toList, .scalar "1".toList)] }
    (r.renderTemplate 0 ("{{=<% %>=}}\n<%#x%>\n <%={{ }}=%>a\n{{/x}}\nb\n".toList ++
      " {{x}}".toList) scope).outcome = .ok " a\nb\n 1".toList := by
  intro r scope
  have hfront : (r.renderTemplate 0
      "{{=<% %>=}}\n<%#x%>\n <%={{ }}=%>a\n{{/x}}\nb\n".toList scope).outcome =
        .ok " a\nb\n".toList := by decide +kernel
  have hback : (r.renderTemplate 0 " {{x}}".toList scope).outcome = .ok " 1".toList := by
    decide +kernel
  have happend := renderTemplate_append (by simp [Text.WholeLines]) (by decide +kernel) hfront
    " {{x}}".toList
  exact (happend.1 _).2 ⟨_, hback, rfl⟩

end Mustache
