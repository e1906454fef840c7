import Mustache.Proofs.Render.Concat
import Mustache.Proofs.Template.Margin

/-!
# Comments on lines of their own

A comment with its line for itself cuts a text in two, and stands last in a section's body at times.
Neither shows in what is rendered: tokens on their own can be exchanged for others that render alike,
wherever they stand (`build_exchange`), so that a line with a comment can be put between two lines of
any template (`renderTemplate_commentLine`).
-/

namespace Mustache

open Cursor Outcome

/-! ### Definitions -/

/-- What nodes render to in each scope. -/
def rendering (expand : Expander) (nodes : List Node) (scope : Scope) : Except Error Text :=
  (renderAll expand nodes scope).outcome

/-- The line of a comment, with a margin. -/
def commentLine (margin content : Text) : Text :=
  margin ++ Delimiter.braces.opening ++ '!' :: content ++ Delimiter.braces.closing ++ ['\n']

variable {expand : Expander} {scope : Scope} {ns ms children later : List Node} {n : Node}
  {us vs ts rest : List Token} {name s w c a b : Text} {inverted : Bool}

/-! ### Renderings -/

theorem rendering_append (ns ms : List Node) : rendering expand (ns ++ ms) = fun scope =>
    (rendering expand ns scope).bind fun front => (rendering expand ms scope).map (front ++ ·) :=
  funext fun _ => outcome_renderAll_append ns ms

theorem outcome_concatMap_congr {α : Type} {f g : α → Run Text}
    (h : ∀ x, (f x).outcome = (g x).outcome) (l : List α) :
    (Traced.concatMap f l).outcome = (Traced.concatMap g l).outcome := by
  induction l with
  | nil => rfl
  | cons x l ih => simp only [Traced.concatMap, Traced.outcome_bind, h x, ih]

/-- A section renders as its body does. -/
theorem rendering_block_congr (h : rendering expand ns = rendering expand ms) :
    rendering expand [.block name inverted ns] = rendering expand [.block name inverted ms] := by
  funext scope
  have hbody : ∀ inner, (renderAll expand ns inner).outcome = (renderAll expand ms inner).outcome :=
    fun inner => congrFun h inner
  simp only [rendering, renderAll, Node.render, Traced.outcome_bind,
    outcome_concatMap_congr hbody]

theorem rendering_of_isTextOf (h : IsTextOf s ts) :
    rendering expand (ts.flatMap Token.leaves) = fun _ => .ok s := by
  funext scope
  rcases h with ⟨rfl, rfl⟩ | ⟨line, rfl⟩
  · rfl
  · exact outcome_renderAll_text s

section Congruence

variable {x x' y y' : Except Error (List Node)}
  (hy : y.map (rendering expand) = y'.map (rendering expand))
include hy

/-- Trees that render alike do so behind the same nodes. -/
theorem map_rendering_append_congr (ns : List Node) :
    (y.map (ns ++ ·)).map (rendering expand) = (y'.map (ns ++ ·)).map (rendering expand) := by
  rcases map_eq_map_iff.1 hy with ⟨e, rfl, rfl⟩ | ⟨ms, ms', rfl, rfl, hms⟩
  · rfl
  · refine congrArg Except.ok ?_
    rw [rendering_append, rendering_append, hms]

/-- Sections whose bodies render alike do so, with trees behind them that render alike. -/
theorem map_rendering_block_congr (name : Text) (inverted : Bool)
    (hx : x.map (rendering expand) = x'.map (rendering expand)) :
    (x.bind fun children => y.map (.block name inverted children :: ·)).map (rendering expand) =
      (x'.bind fun children => y'.map (.block name inverted children :: ·)).map
        (rendering expand) := by
  rcases map_eq_map_iff.1 hx with ⟨e, rfl, rfl⟩ | ⟨ns, ns', rfl, rfl, hns⟩
  · rfl
  · rcases map_eq_map_iff.1 hy with ⟨e, rfl, rfl⟩ | ⟨ms, ms', rfl, rfl, hms⟩
    · rfl
    · refine congrArg Except.ok ?_
      show rendering expand ([.block name inverted ns] ++ ms) =
        rendering expand ([.block name inverted ns'] ++ ms')
      rw [rendering_append, rendering_append, rendering_block_congr hns, hms]

end Congruence

/-! ### Tokens exchanged for others -/

/-- Behind tokens on their own, and other tokens, the closing tag is found where it is found behind the
other tokens alone. -/
theorem splitClose_append_leaves_append (hn : splitClose name 0 ts = none)
    (hus : ∀ t ∈ us, t.isLeaf) (rest : List Token) : splitClose name 0 (ts ++ (us ++ rest)) =
      (splitClose name (net name ts).toNat rest).map (Split.lead (ts ++ us)) := by
  have hnone : splitClose name 0 (ts ++ us) = none := by
    rw [splitClose_append_of_none hn, splitClose_of_leaves hus]
    rfl
  rw [← List.append_assoc, splitClose_append_of_none hnone, net_append, net_of_leaves hus]
  simp

section Exchange

variable (hus : ∀ t ∈ us, t.isLeaf) (hvs : ∀ t ∈ vs, t.isLeaf)
  (h : rendering expand (us.flatMap Token.leaves) = rendering expand (vs.flatMap Token.leaves))
include hus hvs h

/-- **Tokens on their own that render alike** can be exchanged anywhere, also where sections are open
around them: the trees render alike, or the same section has no closing tag. -/
theorem build_exchange (front back : List Token)
    (hu : (front ++ (us ++ back)).IsChain Token.Apart)
    (hv : (front ++ (vs ++ back)).IsChain Token.Apart) :
    (build (front ++ (us ++ back))).map (rendering expand) =
      (build (front ++ (vs ++ back))).map (rendering expand) := by
  induction hn : front.length using Nat.strong_induction_on generalizing front back with
  | h n ih =>
    cases front with
    | nil =>
      simp only [List.nil_append, build_leaves_append hus, build_leaves_append hvs, map_map,
        rendering_append, h]
    | cons t front =>
      rw [List.length_cons] at hn
      rw [List.cons_append] at hu hv ⊢
      rw [List.cons_append]
      have hu' := (List.isChain_cons.1 hu).2
      have hv' := (List.isChain_cons.1 hv).2
      by_cases hopen : ∃ name inverted, t.symbol = .sectionOpen name inverted
      · obtain ⟨name, inverted, ht⟩ := hopen
        cases hs : splitClose name 0 front with
        | some s =>
          -- the section ends before the tokens that are exchanged
          have hcu := splitClose_append hs (us ++ back)
          have hcv := splitClose_append hs (vs ++ back)
          rw [build_block_of_isChain ht hcu hu', build_block_of_isChain ht hcv hv']
          have hlen := length_of_splitClose hs
          refine map_rendering_block_congr ?_ name inverted rfl
          exact ih s.after.length (by omega) s.after back (isChain_of_splitClose hcu hu').2
            (isChain_of_splitClose hcv hv').2 rfl
        | none =>
          have hcu := splitClose_append_leaves_append hs hus back
          have hcv := splitClose_append_leaves_append hs hvs back
          cases hb : splitClose name (net name front).toNat back with
          | none =>
            rw [hb] at hcu hcv
            rw [build_unclosed ht hcu, build_unclosed ht hcv]
          | some s =>
            -- the tokens that are exchanged stand in the section's body
            rw [hb] at hcu hcv
            rw [build_block_of_isChain ht hcu hu', build_block_of_isChain ht hcv hv']
            have hbu := (isChain_of_splitClose hcu hu').1
            have hbv := (isChain_of_splitClose hcv hv').1
            refine map_rendering_block_congr rfl name inverted ?_
            simp only [Split.lead, List.append_assoc] at hbu hbv ⊢
            exact ih front.length (by omega) front s.body hbu hbv rfl
      · have ht : ∀ name inverted, t.symbol ≠ .sectionOpen name inverted :=
          fun name inverted ht => hopen ⟨name, inverted, ht⟩
        rw [build_single ht, build_single ht]
        refine map_rendering_append_congr ?_ t.leaves
        exact ih front.length (by omega) front back hu' hv' rfl

/-- The same of the texts that the trees render to. -/
theorem renderTokens_exchange (scope : Scope) (front back : List Token)
    (hu : (front ++ (us ++ back)).IsChain Token.Apart)
    (hv : (front ++ (vs ++ back)).IsChain Token.Apart) :
    renderTokens expand scope (front ++ (us ++ back)) =
      renderTokens expand scope (front ++ (vs ++ back)) := by
  have hbuild := build_exchange hus hvs h front back hu hv
  unfold renderTokens
  rcases map_eq_map_iff.1 hbuild with ⟨e, hx, hy⟩ | ⟨ns, ms, hx, hy, hr⟩
  · rw [hx, hy]
  · rw [hx, hy]
    exact congrFun hr scope

end Exchange

/-! ### The line of a comment -/

/-- The content of a comment is cut at the closing braces behind it. -/
theorem clear_comment (hc : ¬ Delimiter.braces.closing <:+: c) (hend : c.getLast? ≠ some '}') :
    Text.Clear Delimiter.braces.closing ('!' :: c) := by
  rcases List.eq_nil_or_concat' c with rfl | ⟨x, d, rfl⟩
  · exact Text.clear_concat (x := []) (by decide) (by decide)
  · have hd : d ≠ '}' := by simpa using hend
    have hx : ¬ Delimiter.braces.closing <:+: x := fun hx =>
      hc (hx.trans (List.prefix_append x [d]).isInfix)
    rw [← List.cons_append]
    refine Text.clear_concat (by simpa [Delimiter.braces] using hd) ?_
    rw [← List.nil_append ('!' :: x), Text.infix_append_cons_iff (by decide), not_or]
    exact ⟨by decide, hx⟩

/-- **The line of a comment** is scanned to the comment alone, and then the scan stands behind it. -/
theorem scan_commentLine (hw : ∀ x ∈ w, Text.isBlank x = true ∧ Text.isBreak x = false)
    (hc : ¬ Delimiter.braces.closing <:+: c) (hend : c.getLast? ≠ some '}') (b : Text) :
    ∃ t : Token, t.symbol = .comment c ∧ t.line.standalone = true ∧
      (scan { rest := commentLine w c ++ b }).outcome =
        (scan { rest := b }).outcome.map (t :: ·) := by
  let t : Tag := ⟨w, '!' :: c, '\n' :: b, false⟩
  have hopening : Text.Clear Delimiter.braces.opening w := by
    refine Text.clear_of_head? (by decide) ?_
    rintro _ ⟨⟩ hx
    exact absurd (hw _ hx).1 (by decide)
  have hclosing := clear_comment hc hend
  have hcut : cutTag .braces (commentLine w c ++ b) = .tag t := by
    refine cutTag_eq_tag_iff.2 ⟨?_, hopening, hclosing, by simp [t]⟩
    simp [commentLine, t, Tag.brace]
  have hnl : '\n' ∉ w := fun hx => absurd (hw _ hx).2 (by decide)
  have hstand : (t.line true).standalone = true := by
    rw [Tag.standalone_line]
    simpa [Tag.line, t, Text.lastLine_of_not_mem hnl, Text.dropBreak?] using fun x hx => (hw x hx).1
  have helided : t.elided true = true := hstand
  refine ⟨⟨.comment c, t.line true⟩, rfl, hstand, ?_⟩
  have hpast : past { rest := commentLine w c ++ b } t (.symbol (.comment c)) = { rest := b } := by
    simp only [past, Tag.rest, Tag.endsLine, helided]
    rfl
  have htokens : tagTokens { rest := commentLine w c ++ b } t (.symbol (.comment c)) =
      [⟨.comment c, t.line true⟩] := by
    have hkept : t.kept true = [] := by
      rw [Tag.kept, if_pos helided]
      exact Text.earlierLines_eq_nil_iff.2 hnl
    simp [tagTokens, hkept, textTokens, Meaning.symbol?]
  rw [outcome_scan_of_tag hcut, show t.meaning = .ok (.symbol (.comment c)) from rfl, Except.bind,
    hpast, htokens]
  rfl

/-- A comment between two parts of a text leaves no trace. -/
theorem renderTokens_comment {t : Token} {k : Text} {ws front back : List Token}
    (ht : t.symbol = .comment c) (hstand : t.line.standalone = true) (hus : IsTextOf s us)
    (hvs : IsTextOf k vs) (hws : IsTextOf (s ++ k) ws)
    (hx : (front ++ (us ++ t :: vs ++ back)).IsChain Token.Apart)
    (hy : (front ++ (ws ++ back)).IsChain Token.Apart) (expand : Expander) (scope : Scope) :
    renderTokens expand scope (front ++ (us ++ t :: vs ++ back)) =
      renderTokens expand scope (front ++ (ws ++ back)) := by
  have hleaves : ∀ u ∈ us ++ t :: vs, u.isLeaf := by
    intro u hu
    rcases List.mem_append.1 hu with hu | hu
    · exact isLeaf_of_isTextOf hus u hu
    · rcases List.mem_cons.1 hu with rfl | hu
      · exact ⟨by simp [ht], by simp [ht]⟩
      · exact isLeaf_of_isTextOf hvs u hu
  have hnone : t.leaves = [] := by simp [Token.leaves, ht, hstand]
  refine renderTokens_exchange hleaves (isLeaf_of_isTextOf hws) ?_ scope front back hx hy
  rw [rendering_of_isTextOf hws, List.flatMap_append, List.flatMap_cons, hnone, List.nil_append,
    rendering_append, rendering_of_isTextOf hus, rendering_of_isTextOf hvs]
  rfl

/-- Behind text of whole lines that holds no tag, and behind tokens that keep texts and closing tags
apart, the line of a comment leaves no trace. -/
theorem alike_scan_commentLine {text : Text} {lineStart : Bool} {front : List Token}
    (hd : cutTag .braces text = .plain) (hl : AtLines ⟨text, lineStart, .braces⟩)
    (hfront : front.IsChain Token.Apart) (hb : Text.NoLoneReturn b)
    (happ : ∀ ts, (scan ⟨text ++ b, lineStart, .braces⟩).outcome = .ok ts →
      (front ++ ts).IsChain Token.Apart)
    (hw : ∀ x ∈ w, Text.isBlank x = true ∧ Text.isBreak x = false)
    (hc : ¬ Delimiter.braces.closing <:+: c) (hend : c.getLast? ≠ some '}') (scope : Scope) :
    Alike (((scan ⟨text ++ (commentLine w c ++ b), lineStart, .braces⟩).outcome.map
        (front ++ ·)).bind (renderTokens expand scope))
      (((scan ⟨text ++ b, lineStart, .braces⟩).outcome.map (front ++ ·)).bind
        (renderTokens expand scope)) := by
  obtain ⟨t, ht, hstand, hcomment⟩ := scan_commentLine hw hc hend b
  have hwith := scan_append hd Delimiter.solid_braces hl (commentLine w c ++ b)
  have hwithout := scan_append hd Delimiter.solid_braces hl b
  rw [hcomment] at hwith
  cases hs : (scan { rest := b }).outcome with
  | error f =>
    rw [hs] at hwith hwithout
    obtain ⟨e, he, hk⟩ := hwith.of_error
    obtain ⟨e', he', hk'⟩ := hwithout.of_error
    rw [he, he']
    exact .error (hk.trans hk'.symm)
  | ok later =>
    rw [hs] at hwith hwithout
    obtain ⟨k, us, vs, back, hx, hback, hus, hvs⟩ := hwith.of_ok
    obtain ⟨k', ws, vs', back', hy, rfl, hws, hvs'⟩ := hwithout.of_ok
    -- the comment comes first behind the text
    obtain ⟨rfl, rfl⟩ : k = [] ∧ vs = [] := by
      rcases hvs with ⟨rfl, rfl⟩ | ⟨line', rfl⟩
      · exact ⟨rfl, rfl⟩
      · obtain ⟨rfl, -⟩ := List.cons_eq_cons.1 hback
        cases ht
    obtain rfl : t :: (vs' ++ back') = back := hback
    rw [List.append_nil] at hus
    have hclose : ∀ u ∈ us ++ [t], ∀ name, u.symbol ≠ .sectionClose name := by
      intro u hu name
      rcases List.mem_append.1 hu with hu | hu
      · exact (isLeaf_of_isTextOf hus u hu).2 name
      · obtain rfl := List.mem_singleton.1 hu
        simp [ht]
    have hapart : (front ++ (us ++ [t]) ++ (vs' ++ back')).IsChain Token.Apart := by
      refine List.IsChain.append (isChain_append_of_not_close hfront hclose)
        (isChain_of_scan Delimiter.solid_braces hb hs) fun u hu v _ => ?_
      obtain rfl : t = u := by simpa using hu
      exact apart_of_not_text (by simp [ht]) v
    have hsame := renderTokens_comment ht hstand hus hvs' hws
      (by simpa using hapart) (happ _ hy) expand scope
    rw [hx, hy]
    show Alike (renderTokens expand scope _) (renderTokens expand scope _)
    rw [← hsame]
    simp only [List.append_assoc, List.cons_append]
    exact .refl _

/-- **A comment on a line of its own is invisible.**  Put behind whole lines that can be scanned and
leave the markers they found, it changes neither what a template renders to nor the kind of fault that
keeps it from being rendered, also where sections are open around it. -/
theorem renderTemplate_commentLine (ha : Text.WholeLines a)
    (hok : ∃ ts, (tokenize a).outcome = .ok ts)
    (hp : lastPair { rest := a } = .braces) (hra : Text.NoLoneReturn a) (hrb : Text.NoLoneReturn b)
    (hw : ∀ x ∈ w, Text.isBlank x = true ∧ Text.isBreak x = false)
    (hc : ¬ Delimiter.braces.closing <:+: c) (hend : c.getLast? ≠ some '}') (r : Renderer)
    (allowance : Nat) (scope : Scope) :
    Alike (r.renderTemplate allowance (a ++ commentLine w c ++ b) scope).outcome
      (r.renderTemplate allowance (a ++ b) scope).outcome := by
  obtain ⟨tsa, hok⟩ := hok
  obtain ⟨stops, rest, lineStart, hpass, hd, hl, -, hscan⟩ := tokenize_append ha hp hok
  have hfront : (stops.flatMap Stop.tokens).IsChain Token.Apart := by
    simpa using (hpass.clean Delimiter.solid_braces hra (.nil _)).apart
  rw [outcome_renderTemplate_eq, outcome_renderTemplate_eq, List.append_assoc, hscan, hscan]
  refine alike_scan_commentLine hd hl hfront hrb (fun ts hts => ?_) hw hc hend _
  have htokens : (tokenize (a ++ b)).outcome = .ok (stops.flatMap Stop.tokens ++ ts) := by
    rw [hscan, hts]
    rfl
  exact isChain_of_scan Delimiter.solid_braces (hra.append hrb) htokens

/-- A comment over three lines before the closing tag of a section. -/
theorem renderTemplate_commentLine_section :
    let r : Renderer := {}
    let scope : Scope := { root := .mapping [("x".toList, .scalar "1".toList)] }
    (r.renderTemplate 0 ("{{#x}}\r\n a\n".toList ++
      commentLine " \t".toList "c\r \x7d\n\x7b\x7bd".toList ++ "  {{/x}}\nb".toList) scope).outcome =
      .ok " a\nb".toList := by
  intro r scope
  have hok : ∃ ts, (tokenize "{{#x}}\r\n a\n".toList).outcome = .ok ts :=
    ⟨[{ symbol := .sectionOpen "x".toList false,
        line := { breakAfter := true, firstOnLine := true, lastOnLine := true } },
      { symbol := .text " a\n".toList,
        line := { firstOnLine := true, lastOnLine := true, atEnd := true } }], by decide +kernel⟩
  have halike := renderTemplate_commentLine (b := "  {{/x}}\nb".toList) (w := " \t".toList)
    (c := "c\r \x7d\n\x7b\x7bd".toList) (by simp [Text.WholeLines]) hok (by decide +kernel)
    (by simp [Text.noLoneReturn_cons_iff, Text.noLoneReturn_nil])
    (by simp [Text.noLoneReturn_cons_iff, Text.noLoneReturn_nil])
    (by simp [Text.isBlank, Text.blankRanges, Text.isBreak]) (by decide) (by decide) r 0 scope
  exact halike.eq_ok_iff.2 (by decide +kernel)

end Mustache
