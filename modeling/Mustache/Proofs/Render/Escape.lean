import Mustache.Proofs.Render.Simulation
import Mustache.Proofs.Text.Markup
import Mustache.Proofs.Value.Lookup

/-!
# Renderings without markup

Data comes into a rendering through fields alone, and a field that is escaped brings no markup whatever
its value is.  So nodes that bring none themselves (`Node.Harmless`), with partials of the same kind
(`Renderer.Harmless`), render to escaped text in every scope (`escaped_of_renderWithin`).  A text
without reserved characters, and so without tags of partials, and without three opening braces in a row
is made of such nodes (`harmless_of_occurs_parse`), behind a margin too
(`Renderer.harmless_of_unmarked`).
-/

namespace Mustache

open Outcome

/-! ### Definitions -/

/-- **A node that brings no markup**: no text with reserved characters, and no field whose markup is not
escaped. -/
def Node.Harmless : Node → Prop
  | .text content => ∀ c ∈ content, c ∉ Text.reserved
  | .field _ escaped => escaped = true
  | _ => True

/-- **Partials that bring no markup**, whatever margin their texts get. -/
def Renderer.Harmless (r : Renderer) : Prop :=
  ∀ ⦃name text w : Text⦄ ⦃nodes : List Node⦄, r.partialText? name = some text → Text.IsMargin w →
    (parse (Text.indent w text)).outcome = .ok nodes → ∀ n, Occurs n nodes → n.Harmless

/-- The reserved characters, and what opens a tag in three braces. -/
def Text.markings : List Text := ["&", "<", ">", "\"", "'", "\x7b\x7b\x7b"].map String.toList

/-- No marking stands in the text. -/
def Text.Unmarked (s : Text) : Prop := ∀ k ∈ markings, ¬ k <:+: s

instance (s : Text) : Decidable s.Unmarked :=
  inferInstanceAs (Decidable (∀ k ∈ Text.markings, ¬ k <:+: s))

variable {r : Renderer} {expand : Expander} {ns : List Node} {n : Node} {scope : Scope}
  {allowance depth : Nat} {name s w template : Text} {pair : Delimiter}

/-! ### Harmless templates -/

theorem Text.Unmarked.not_mem_reserved (h : s.Unmarked) {c : Char} (hc : c ∈ s) :
    c ∉ Text.reserved := by
  have hpart : ∀ d ∈ Text.reserved, ¬ [d] <:+: s := by
    intro d hd
    refine h [d] ?_
    rcases Text.mem_reserved_iff.1 hd with rfl | rfl | rfl | rfl | rfl <;> decide
  exact fun hin => hpart c hin ((List.singleton_infix_iff c s).2 hc)

/-- A field in three braces has three of them in a row in front of its name. -/
theorem Stop.Of.infix_of_triple {stop : Stop} (h : stop.Of s) (ht : stop.tag.triple = true) :
    ['{', '{', '{'] <:+: s := by
  obtain ⟨-, -, -, htriple⟩ := cutTag_eq_tag_iff.1 h.cut
  obtain ⟨hopening, hhead, -⟩ := htriple.1 ht
  obtain ⟨rest, hcontent⟩ := List.head?_eq_some_iff.1 hhead
  have hinfix := h.isInfix
  rw [hopening, hcontent] at hinfix
  refine List.IsInfix.trans ⟨stop.tag.before, rest ++ stop.cursor.delimiter.closing ++
    stop.tag.brace, ?_⟩ hinfix
  simp

/-- **An unmarked template** is made of harmless nodes. -/
theorem harmless_of_occurs_parse (hs : s.Unmarked) (h : (parse s pair).outcome = .ok ns)
    (hn : Occurs n ns) : n.Harmless := by
  cases n with
  | text content =>
    exact fun c hc => hs.not_mem_reserved ((infix_of_occurs_text h hn).subset hc)
  | field name escaped =>
    cases escaped with
    | true => rfl
    | false =>
      obtain ⟨stop, hof, hsym⟩ := exists_stop_of_occurs_field h hn
      rcases Tag.head?_of_field_false hof.means hsym with hhead | ⟨-, htriple⟩
      · have hamp : '&' ∈ s := hof.infix_content.subset (List.mem_of_mem_head? hhead)
        exact absurd List.mem_cons_self (hs.not_mem_reserved hamp)
      · exact absurd (hof.infix_of_triple htriple) (hs _ (by decide))
  | block name inverted children => trivial
  | comment content => trivial
  | partialRef name w => trivial
  | foreign kind => trivial

theorem Text.Unmarked.indent (h : s.Unmarked) (hw : Text.IsMargin w) :
    (Text.indent w s).Unmarked := by
  have hvisible : ∀ k ∈ markings, k ≠ [] ∧ k.any isBlank = false := by decide
  intro k hk
  obtain ⟨hne, hblank⟩ := hvisible k hk
  rw [infix_indent_iff hne (by simpa using hblank) fun c hc => (hw c hc).1]
  exact h k hk

/-- **Unmarked partials** are harmless. -/
theorem Renderer.harmless_of_unmarked
    (h : ∀ name text, r.partialText? name = some text → text.Unmarked) : r.Harmless :=
  fun name text _ _ hname hw hnodes _ hn =>
    harmless_of_occurs_parse ((h name text hname).indent hw) hnodes hn

/-! ### Harmless nodes -/

/-- **Harmless nodes** render to escaped text if their partials do. -/
theorem escaped_of_renderAll (hns : ∀ n, Occurs n ns → n.Harmless)
    (hexpand : ∀ name w inner s, Occurs (.partialRef name w) ns →
      (expand name w inner).outcome = .ok s → s.Escaped)
    (h : (renderAll expand ns scope).outcome = .ok s) : s.Escaped := by
  refine (joint_ok Text.escaped_nil Text.Escaped.append).renderAll
    (fun n inner hn hleaf s hs => ?_) scope s h
  have hharmless := hns n hn
  cases n with
  | text content =>
    obtain rfl : content = s := by simpa [Node.render] using hs
    exact Text.escaped_of_not_reserved hharmless
  | field name escaped =>
    obtain rfl : escaped = true := hharmless
    obtain rfl : Text.escapeMarkup (inner.fieldText name) = s := by simpa [Node.render] using hs
    exact Text.escaped_escapeMarkup _
  | block name inverted children => exact absurd rfl (hleaf name inverted children)
  | comment content =>
    obtain rfl : [] = s := by simpa [Node.render] using hs
    exact Text.escaped_nil
  | partialRef name w => exact hexpand name w inner s hn hs
  | foreign kind => simp [Node.render] at hs

/-- **One expansion after the other** gives escaped text, as each finds harmless nodes again. -/
theorem escaped_of_expand (hr : r.Harmless) (hw : Text.IsMargin w)
    (h : (r.expand allowance depth name w scope).outcome = .ok s) : s.Escaped := by
  induction allowance using Nat.strong_induction_on generalizing depth name w scope s with
  | h allowance ih =>
    rcases outcome_expand_eq_ok_iff.1 h with ⟨-, rfl⟩ | ⟨text, rest, nodes, hname, -, rfl, hnodes, h⟩
    · exact Text.escaped_nil
    · refine escaped_of_renderAll (hr hname hw hnodes) (fun inner v t u hn hu => ?_) h
      exact ih rest (Nat.lt_succ_self rest) (isMargin_of_occurs_parse hnodes hn) hu

/-- **Escaping is sound.**  A parsed template whose nodes and partials bring no markup renders to escaped
text, whatever the data is. -/
theorem escaped_of_renderWithin (hparse : (parse template pair).outcome = .ok ns)
    (hns : ∀ n, Occurs n ns → n.Harmless) (hr : r.Harmless)
    (h : (r.renderWithin allowance ns scope).outcome = .ok s) : s.Escaped := by
  refine escaped_of_renderAll hns (fun name w inner u hn hu => ?_) h
  exact escaped_of_expand hr (isMargin_of_occurs_parse hparse hn) hu

/-- A section that expands a partial behind a margin for each item, where all the data is markup. -/
theorem escaped_of_renderWithin_items :
    let ns : List Node := [.field ".".toList true, .text " ".toList, .block "x".toList false
      [.text "\n".toList, .partialRef "p".toList " ".toList]]
    let r : Renderer := ⟨.mapping [("p".toList, .scalar "[{{.}}]\n".toList)], some 1⟩
    let scope : Scope :=
      ⟨.mapping [("x".toList, .sequence [.scalar "<b>".toList])], [.scalar "\"&'".toList]⟩
    let s : Text := "&quot;&amp;&#39; \n [&lt;b&gt;]\n".toList
    (parse "{{.}} {{#x}}\n {{>p}}\n{{/x}}".toList).outcome = .ok ns ∧ r.Harmless ∧
      (r.renderWithin 1 ns scope).outcome = .ok s ∧ s.Escaped := by
  intro ns r scope s
  have hparse : (parse "{{.}} {{#x}}\n {{>p}}\n{{/x}}".toList).outcome = .ok ns := by
    with_unfolding_all rfl
  have hns : ∀ n, Occurs n ns → n.Harmless := by
    simp [ns, occurs_cons_iff, not_occurs_nil, Node.children, or_imp, forall_and, Node.Harmless,
      Text.reserved]
  have hr : r.Harmless := by
    refine Renderer.harmless_of_unmarked fun name text hname => ?_
    have hmem := Value.mem_of_lookup_texts (by simp) hname
    obtain ⟨-, rfl⟩ : Text.strip name = "p".toList ∧ text = "[{{.}}]\n".toList := by
      simpa using hmem
    decide
  have hout : (r.renderWithin 1 ns scope).outcome = .ok s := by decide +kernel
  exact ⟨hparse, hr, hout, escaped_of_renderWithin hparse hns hr hout⟩

end Mustache
