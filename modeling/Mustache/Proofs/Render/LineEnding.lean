import Mustache.Proofs.Render.Data
import Mustache.Proofs.Template.Layout
import Mustache.Proofs.Text.LineEnding
import Mustache.Proofs.Text.Markup
import Mustache.Proofs.Value.Texts

/-!
# Renderings with CR LF

A template and its partials may be written with LF or with CR LF.  The two renderings are the same
but for the line ends, with one exception (`renderTemplate_crlf`): an empty line in the text of a
partial that is expanded behind a margin gets the margin if it ends with CR LF, and not if it ends
with LF.  So there may be blanks before some line ends (`Text.Returned`), and there are none if no
such line is met (`Renderer.IndentsNoEmptyLine`).
-/

namespace Mustache

open Outcome Text Value

/-! ### Definitions -/

/-- **A node that a rendering visits**, and the scope that it stands in there: a node at hand, one
in a body of a section, or one in the text of a partial. -/
inductive Renderer.Visits (r : Renderer) : List Node → Scope → Node → Scope → Prop
  | here {ns : List Node} {scope : Scope} {n : Node} (h : n ∈ ns) : r.Visits ns scope n scope
  | body {ns children : List Node} {scope inner s : Scope} {name : Text} {inverted : Bool}
    {n : Node} (h : .block name inverted children ∈ ns)
    (hinner : inner ∈ scope.bodies inverted (scope.sectionValue name))
    (later : r.Visits children inner n s) : r.Visits ns scope n s
  | within {ns nodes : List Node} {scope s : Scope} {name w text : Text} {n : Node}
    (h : .partialRef name w ∈ ns) (hname : r.partialText? name = some text)
    (hparse : (parse (indent w text)).outcome = .ok nodes)
    (later : r.Visits nodes scope n s) : r.Visits ns scope n s

/-- No partial with an empty line in its text is expanded behind a margin. -/
def Renderer.IndentsNoEmptyLine (r : Renderer) (ns : List Node) (scope : Scope) : Prop :=
  ∀ name w text s, r.Visits ns scope (.partialRef name w) s → r.partialText? name = some text →
    w = [] ∨ ¬ HasEmptyLine text

/-- The second text is the first with CR LF for LF, with blanks before some of the line ends unless
`exact`. -/
def Text.ReturnedTo (exact : Prop) (s t : Text) : Prop := Returned s t ∧ (exact → t = crlf s)

/-- If the first ends with a text, then the second ends with a related one. -/
def Yields (R : Text → Text → Prop) (x y : Except Error Text) : Prop :=
  ∀ s, x = .ok s → ∃ t, y = .ok t ∧ R s t

/-- The same value, in which no text holds a LF. -/
def Value.SameLines (a b : Value) : Prop := a = b ∧ a.AllTexts ('\n' ∉ ·)

/-- The partials' texts hold no CR, and no LF in their tags. -/
def Renderer.PlainPartials (r : Renderer) : Prop := ∀ name text, r.partialText? name = some text →
  '\r' ∉ text ∧ Cursor.Unbroken { rest := text }

variable {exact : Prop} {Q P R : Text → Text → Prop} {r r' : Renderer} {s t w name text : Text}
  {ns ms : List Node} {n : Node} {scope inner : Scope} {expand expand' : Expander}
  {x x' y y' : Except Error Text}

/-! ### Visits -/

theorem Renderer.Visits.mono (h : r.Visits ns scope n inner) (hns : ∀ m ∈ ns, m ∈ ms) :
    r.Visits ms scope n inner := by
  cases h with
  | here h => exact .here (hns _ h)
  | body h hinner later => exact .body (hns _ h) hinner later
  | within h hname hparse later => exact .within (hns _ h) hname hparse later

theorem Renderer.Visits.cons (m : Node) (h : r.Visits ns scope n inner) :
    r.Visits (m :: ns) scope n inner :=
  h.mono fun _ => List.mem_cons_of_mem m

theorem Renderer.Visits.trans {m : Node} {s : Scope} (h : r.Visits ns scope n inner)
    (h' : r.Visits [n] inner m s) : r.Visits ns scope m s := by
  induction h with
  | here h => exact h'.mono fun k hk => List.mem_singleton.1 hk ▸ h
  | body h hinner _ ih => exact .body h hinner (ih h')
  | within h hname hparse _ ih => exact .within h hname hparse (ih h')

/-! ### Related texts -/

namespace Text.ReturnedTo

theorem of_not_mem (hs : '\n' ∉ s) : ReturnedTo exact s s :=
  ⟨.of_not_mem hs, fun _ => (crlf_of_not_mem hs).symm⟩

theorem append {s' t' : Text} (hs : ReturnedTo exact s s') (ht : ReturnedTo exact t t') :
    ReturnedTo exact (s ++ t) (s' ++ t') := by
  refine ⟨hs.1.append ht.1, fun h => ?_⟩
  rw [crlf_append, hs.2 h, ht.2 h]

end Text.ReturnedTo

theorem Yields.joined (hx : Yields (ReturnedTo exact) x y) (hx' : Yields (ReturnedTo exact) x' y') :
    Yields (ReturnedTo exact) (joined x x') (joined y y') := by
  intro s hs
  obtain ⟨front, back, rfl, rfl, rfl⟩ := joined_eq_ok_iff.1 hs
  obtain ⟨front', rfl, hfront⟩ := hx front rfl
  obtain ⟨back', rfl, hback⟩ := hx' back rfl
  exact ⟨front' ++ back', rfl, hfront.append hback⟩

theorem Yields.concatMap {α : Type} {f g : α → Run Text} {l : List α}
    (h : ∀ a ∈ l, Yields (ReturnedTo exact) (f a).outcome (g a).outcome) :
    Yields (ReturnedTo exact) (Traced.concatMap f l).outcome (Traced.concatMap g l).outcome := by
  induction l with
  | nil =>
    rintro s ⟨⟩
    exact ⟨[], rfl, .of_not_mem List.not_mem_nil⟩
  | cons a l ih =>
    rw [outcome_concatMap_cons, outcome_concatMap_cons]
    exact (h a List.mem_cons_self).joined (ih fun b hb => h b (List.mem_cons_of_mem a hb))

/-! ### Two layouts -/

theorem returnedTo_lay {h : Layout} (hw : IsInnerBlank w) (hm : h.margin = w)
    (hr : h.returns = true) (hf : exact → h.filler = []) (fresh : Bool) (s : Text) :
    ReturnedTo exact ((Layout.indented w hw).lay fresh s) (h.lay fresh s) :=
  ⟨returned_lay hw hm hr fresh s, fun he => lay_eq_crlf hw hm hr (hf he) fresh s⟩

/-- What an indented text and the same with CR LF differ in. -/
theorem differ_crlf {h : Layout} (hw : IsInnerBlank w) (hm : h.margin = w) (hr : h.returns = true)
    (hf : exact → h.filler = []) : Layout.Differ (ReturnedTo exact)
      (fun v v' => v = v' ∧ IsInnerBlank v) (.indented w hw) h where
  lay := returnedTo_lay hw hm hr hf
  upTo fresh s := by
    rw [Layout.upTo, Layout.upTo, lead_eq_of_margin hw hm]
    exact (returnedTo_lay hw hm hr hf fresh s).append
      (.of_not_mem (Layout.isInnerBlank_lead _ _).newline_not_mem)
  margin hv := ⟨by rw [hm, Layout.indented], hw.append hv⟩

/-- **The trees of an indented text** and of the same with CR LF. -/
theorem parse_indent_crlf (hw : IsInnerBlank w) (hs : '\r' ∉ s)
    (hu : Cursor.Unbroken { rest := s }) (hexact : exact → w = [] ∨ ¬ HasEmptyLine s) :
    Related (Node.Parallel (ReturnedTo exact) fun v v' => v = v' ∧ IsInnerBlank v)
      (parse (indent w s)).outcome (parse (indent w (crlf s))).outcome := by
  obtain ⟨h, hm, hr, hf, hlay⟩ := exists_lay_indent_crlf hw s
  rw [indent_eq_lay hw, hlay]
  have hlone := noLoneReturn_of_not_mem hs
  exact parse_lay ⟨hlone, nofun⟩ ⟨hlone, fun _ => hs⟩ hu
    (differ_crlf hw hm hr fun he => hf (hexact he))

/-! ### Fields and sections -/

theorem newline_not_mem_escapeMarkup (hs : '\n' ∉ s) : '\n' ∉ escapeMarkup s := by
  rw [escapeMarkup_eq_flatMap, List.mem_flatMap]
  rintro ⟨c, hc, hmem⟩
  by_cases hreserved : c ∈ reserved
  · rcases mem_reserved_iff.1 hreserved with rfl | rfl | rfl | rfl | rfl <;>
      exact absurd hmem (by decide)
  · rw [reference_of_not_reserved hreserved, List.mem_singleton] at hmem
    exact hs (hmem ▸ hc)

/-- A field among values without LF holds none. -/
theorem newline_not_mem_fieldText (h : Scope.Related SameLines scope scope) (name : Text) :
    '\n' ∉ scope.fieldText name := by
  have hvalue : Option.Rel SameLines (scope.fieldValue name) (scope.fieldValue name) :=
    h.fieldValue (bisimulation_allTexts _) fun _ _ => trivial
  unfold Scope.fieldText
  generalize scope.fieldValue name = v at hvalue
  cases hvalue with
  | none => exact List.not_mem_nil
  | @some v _ hv =>
    cases v with
    | scalar text => exact hv.2.of_scalar
    | _ => exact List.not_mem_nil

/-- The bodies of a section stand among values without LF where the section does. -/
theorem sameLines_of_mem_bodies (h : Scope.Related SameLines scope scope) {inverted : Bool}
    (hinner : inner ∈ scope.bodies inverted (scope.sectionValue name)) :
    Scope.Related SameLines inner inner := by
  have hvalue : Option.Rel SameLines (scope.sectionValue name) (scope.sectionValue name) :=
    h.sectionValue (bisimulation_allTexts _) fun _ _ => trivial
  have hbodies := h.bodies (bisimulation_allTexts _) inverted hvalue
  exact List.forall₂_same.1 hbodies inner hinner

/-! ### Renderings -/

theorem yields_ok (h : R s t) : Yields R (.ok s) (.ok t) := by
  rintro _ ⟨⟩
  exact ⟨t, rfl, h⟩

theorem outcome_renderAll_text_append {as : List Token} (has : IsTextOf s as) (ns : List Node) :
    (renderAll expand (as.flatMap Token.leaves ++ ns) scope).outcome =
      joined (.ok s) (renderAll expand ns scope).outcome := by
  rcases has with ⟨rfl, rfl⟩ | ⟨line, rfl⟩
  · show (renderAll expand ns scope).outcome = _
    cases (renderAll expand ns scope).outcome <;> rfl
  · exact outcome_renderAll_cons expand (.text s) ns scope

/-- **Parallel trees** yield texts that differ as their own texts do, if their partials yield such
texts. -/
theorem yields_renderAll
    (htrees : Node.Parallel (ReturnedTo exact) (fun v v' => v = v' ∧ IsInnerBlank v) ns ms)
    (hscope : Scope.Related SameLines scope scope)
    (hexpand : ∀ name w inner, r.Visits ns scope (.partialRef name w) inner → IsInnerBlank w →
      Scope.Related SameLines inner inner →
      Yields (ReturnedTo exact) (expand name w inner).outcome (expand' name w inner).outcome) :
    Yields (ReturnedTo exact) (renderAll expand ns scope).outcome
      (renderAll expand' ms scope).outcome := by
  induction htrees generalizing scope with
  | nil => exact yields_ok (.of_not_mem List.not_mem_nil)
  | text has hbs h later ih =>
    rw [outcome_renderAll_text_append has, outcome_renderAll_text_append hbs]
    refine (yields_ok h).joined (ih hscope fun name w inner hvisit => ?_)
    exact hexpand name w inner (hvisit.mono fun m hm => List.mem_append_right _ hm)
  | field name escaped later ih =>
    have hfield := newline_not_mem_fieldText hscope name
    have hshown : '\n' ∉ if escaped then escapeMarkup (scope.fieldText name)
        else scope.fieldText name := by
      split
      · exact newline_not_mem_escapeMarkup hfield
      · exact hfield
    rw [outcome_renderAll_cons, outcome_renderAll_cons]
    refine (yields_ok (.of_not_mem hshown)).joined (ih hscope fun name w inner hvisit => ?_)
    exact hexpand name w inner (hvisit.cons _)
  | comment content later ih =>
    rw [outcome_renderAll_cons, outcome_renderAll_cons]
    refine (yields_ok (.of_not_mem List.not_mem_nil)).joined
      (ih hscope fun name w inner hvisit => ?_)
    exact hexpand name w inner (hvisit.cons _)
  | @partialRef name v w ns ms h later ih =>
    obtain ⟨rfl, hblank⟩ : v = w ∧ IsInnerBlank v := by
      rcases h with ⟨rfl, rfl⟩ | h
      · exact ⟨rfl, isInnerBlank_nil⟩
      · exact h
    rw [outcome_renderAll_cons, outcome_renderAll_cons]
    refine (hexpand name v scope (.here List.mem_cons_self) hblank hscope).joined
      (ih hscope fun name w inner hvisit => ?_)
    exact hexpand name w inner (hvisit.cons _)
  | @block name inverted children children' ns ms inside later ihin ih =>
    rw [outcome_renderAll_cons, outcome_renderAll_cons]
    refine Yields.joined (Yields.concatMap fun inner hinner => ?_)
      (ih hscope fun name w inner hvisit => ?_)
    · exact ihin (sameLines_of_mem_bodies hscope hinner) fun name w s hvisit =>
        hexpand name w s (.body List.mem_cons_self hinner hvisit)
    · exact hexpand name w inner (hvisit.cons _)

theorem partialText?_crlf (partials : Value) (bound : Option Int) (name : Text) :
    Renderer.partialText? ⟨partials.mapTexts crlf, bound⟩ name =
      (Renderer.partialText? ⟨partials, bound⟩ name).map crlf :=
  text?_lookup_mapTexts crlf partials name

/-- **Each expansion** yields a text that differs from the one with LF in its line ends, with blanks
before some of them where an empty line was indented. -/
theorem yields_expand {partials : Value} {bound : Option Int}
    (hplain : Renderer.PlainPartials ⟨partials, bound⟩) (hw : IsInnerBlank w)
    (hscope : Scope.Related SameLines scope scope)
    (hexact : exact →
      Renderer.IndentsNoEmptyLine ⟨partials, bound⟩ [.partialRef name w] scope)
    (allowance depth : Nat) : Yields (ReturnedTo exact)
      (Renderer.expand ⟨partials, bound⟩ allowance depth name w scope).outcome
      (Renderer.expand ⟨partials.mapTexts crlf, bound⟩ allowance depth name w scope).outcome := by
  induction allowance using Nat.strong_induction_on generalizing depth name w scope with
  | h allowance ih =>
    intro s hs
    rcases outcome_expand_eq_ok_iff.1 hs with
      ⟨hnone, rfl⟩ | ⟨text, rest, nodes, hname, hx, rfl, hparse, hrender⟩
    · have hnone' : Renderer.partialText? ⟨partials.mapTexts crlf, bound⟩ name = none := by
        rw [partialText?_crlf, hnone]
        rfl
      exact ⟨[], outcome_expand_of_missing hnone', .of_not_mem List.not_mem_nil⟩
    · have hname' : Renderer.partialText? ⟨partials.mapTexts crlf, bound⟩ name =
          some (crlf text) := by
        rw [partialText?_crlf, hname]
        rfl
      obtain ⟨hcr, hu⟩ := hplain name text hname
      have hfree : exact → w = [] ∨ ¬ HasEmptyLine text := fun he =>
        hexact he name w text scope (.here List.mem_cons_self) hname
      obtain ⟨nodes', hparse', htrees⟩ := (parse_indent_crlf hw hcr hu hfree).exists_ok hparse
      obtain ⟨t, ht, hst⟩ := yields_renderAll htrees hscope (fun inner v s hvisit hv hs' =>
        ih rest (by omega) hv hs' (fun he name' w' text' s' hvisit' =>
          hexact he name' w' text' s' (.within List.mem_cons_self hname hparse
            (hvisit.trans hvisit'))) (depth + 1)) s hrender
      exact ⟨t, outcome_expand_eq_ok_iff.2
        (.inr ⟨crlf text, rest, nodes', hname', hx, rfl, hparse', ht⟩), hst⟩

/-- **Line endings do not matter to a rendering**, but for empty lines that are indented.  Take a
template and partials without CR, whose tags hold no LF, and data without LF.  If it renders, then
it renders with CR LF in the template and the partials as well, to the same text with CR LF and with
blanks before some of the line ends; there are no such blanks if no partial with an empty line is
expanded behind a margin. -/
theorem renderTemplate_crlf {partials context : Value} {template : Text} {bound : Option Int}
    {allowance : Nat} (htemplate : '\r' ∉ template) (hu : Cursor.Unbroken { rest := template })
    (hpartials : Renderer.PlainPartials ⟨partials, bound⟩)
    (hcontext : context.AllTexts ('\n' ∉ ·))
    (h : (Renderer.renderTemplate ⟨partials, bound⟩ allowance template
      { root := context }).outcome = .ok s) :
    ∃ t, (Renderer.renderTemplate ⟨partials.mapTexts crlf, bound⟩ allowance (crlf template)
        { root := context }).outcome = .ok t ∧ Returned s t ∧
      ((∀ nodes, (parse template).outcome = .ok nodes →
        Renderer.IndentsNoEmptyLine ⟨partials, bound⟩ nodes { root := context }) → t = crlf s) := by
  rw [outcome_renderTemplate, renderText] at h
  obtain ⟨nodes, hparse, hrender⟩ := bind_eq_ok_iff.1 h
  let exact := Renderer.IndentsNoEmptyLine ⟨partials, bound⟩ nodes { root := context }
  have htrees : Related (Node.Parallel (ReturnedTo exact) fun v v' => v = v' ∧ IsInnerBlank v)
      (parse (indent [] template)).outcome (parse (indent [] (crlf template))).outcome :=
    parse_indent_crlf isInnerBlank_nil htemplate hu fun _ => .inl rfl
  rw [indent_nil, indent_nil] at htrees
  obtain ⟨nodes', hparse', htrees⟩ := htrees.exists_ok hparse
  have hscope : Scope.Related SameLines { root := context } { root := context } :=
    ⟨⟨rfl, hcontext⟩, .nil⟩
  obtain ⟨t, ht, hst, hcrlf⟩ := yields_renderAll htrees hscope (fun name w inner hvisit hw hinner =>
    yields_expand hpartials hw hinner (fun he name' w' text' s' hvisit' =>
      he name' w' text' s' (hvisit.trans hvisit')) allowance 0) s hrender
  refine ⟨t, ?_, hst, fun he => hcrlf (he nodes hparse)⟩
  rw [outcome_renderTemplate, renderText, hparse']
  exact ht

/-- An indented partial in a list, whose lines are never empty. -/
theorem renderTemplate_crlf_list :
    let partials : Value := .mapping [("p".toList, .scalar "a\n{{x}}\n".toList)]
    let template := "{{#s}}\n\n\t{{>p}}\n{{/s}}".toList
    let item (x : String) : Value := .mapping [("x".toList, .scalar x.toList)]
    let scope : Scope := { root := .mapping [("s".toList, .sequence [item "1", item "&"])] }
    let s := "\n\ta\n\t1\n\n\ta\n\t&amp;\n".toList
    (Renderer.renderTemplate ⟨partials, none⟩ 1 template scope).outcome = .ok s ∧
      (Renderer.renderTemplate ⟨partials.mapTexts crlf, none⟩ 1 (crlf template) scope).outcome =
        .ok (crlf s) := by
  intro partials template item scope s
  have htexts : ∀ name text, Renderer.partialText? ⟨partials, none⟩ name = some text →
      text = "a\n{{x}}\n".toList := by
    intro name text h
    have hmem := mem_of_lookup_texts (by simp) h
    exact (by simpa using hmem : Text.strip name = "p".toList ∧ _).2
  have hplain : Renderer.PlainPartials ⟨partials, none⟩ := by
    intro name text h
    rw [htexts name text h]
    exact ⟨by decide, by decide +kernel⟩
  have hcontext : scope.root.AllTexts ('\n' ∉ ·) := by
    refine .mapping fun q hq => ?_
    obtain rfl := List.mem_singleton.1 hq
    refine .sequence fun v hv => ?_
    rcases List.mem_pair.1 hv with rfl | rfl
    · refine .mapping fun q hq => ?_
      obtain rfl := List.mem_singleton.1 hq
      exact .scalar (by decide)
    · refine .mapping fun q hq => ?_
      obtain rfl := List.mem_singleton.1 hq
      exact .scalar (by decide)
  have hs : (Renderer.renderTemplate ⟨partials, none⟩ 1 template scope).outcome = .ok s := by
    decide +kernel
  obtain ⟨t, ht, -, hcrlf⟩ :=
    renderTemplate_crlf (by decide) (by decide +kernel) hplain hcontext hs
  refine ⟨hs, ht.trans (congrArg _ (hcrlf fun nodes _ name w text inner _ hname => .inr ?_))⟩
  rw [htexts name text hname]
  unfold HasEmptyLine
  decide

/-- Behind a margin an empty line of a partial tells the line endings apart. -/
theorem render_crlf_emptyLine :
    let partials : Value := .mapping [("p".toList, .scalar "a\n\nb".toList)]
    let template := " {{>p}}\n".toList
    '\r' ∉ template ∧ Cursor.Unbroken { rest := template } ∧
      Renderer.PlainPartials ⟨partials, none⟩ ∧
      (render template .empty ⟨partials, none⟩).outcome = .ok " a\n\n b".toList ∧
      (render (crlf template) .empty ⟨partials.mapTexts crlf, none⟩).outcome =
        .ok " a\r\n \r\n b".toList ∧
      crlf " a\n\n b".toList ≠ " a\r\n \r\n b".toList := by
  intro partials template
  refine ⟨by decide, by decide +kernel, ?_, by decide +kernel, by decide +kernel, by decide⟩
  intro name text h
  have hmem := mem_of_lookup_texts (by simp) h
  obtain ⟨-, rfl⟩ : Text.strip name = "p".toList ∧ text = "a\n\nb".toList := by simpa using hmem
  exact ⟨by decide, by decide +kernel⟩

end Mustache
