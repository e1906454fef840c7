import Mustache.Proofs.Template.Layout

/-!
# Indented templates

Indentation is spliced into the text of a partial before it is parsed.  What it does to the tree is
`parse_indent`: texts change, and each partial with a line for itself stands behind the indentation
as well as behind its own margin.  The tree without its texts and margins (`skeleton`) stays as it
is, and so does the kind of fault if there is no tree.
-/

namespace Mustache

open Cursor Outcome Text

/-! ### Definitions -/

mutual

/-- A node without its texts, and without the margins of its partials. -/
def Node.skeleton : Node → List Node
  | .text _ => []
  | .field name escaped => [.field name escaped]
  | .block name inverted children => [.block name inverted (skeletonAll children)]
  | .comment content => [.comment content]
  | .partialRef name _ => [.partialRef name []]
  | .foreign kind => [.foreign kind]

/-- Nodes without their texts, at every depth, and without the margins of their partials. -/
def skeletonAll : List Node → List Node
  | [] => []
  | n :: rest => n.skeleton ++ skeletonAll rest

end

mutual

/-- The margins of the partials in a node. -/
def Node.margins : Node → List Text
  | .block _ _ children => marginsAll children
  | .partialRef _ indentation => [indentation]
  | _ => []

/-- The margins of the partials among the nodes, at every depth, in order. -/
def marginsAll : List Node → List Text
  | [] => []
  | n :: rest => n.margins ++ marginsAll rest

end

/-- Does the token stand for a partial? -/
def Token.isPartial (t : Token) : Bool :=
  match t.symbol with
  | .partialRef _ => true
  | _ => false

/-- The margins that the partials among the tokens have behind `w`: one with its line for itself has
`w` and what stands before it, and one that has not has none. -/
def marginsBehind (w : Text) (ts : List Token) : List Text :=
  (ts.filter Token.isPartial).map fun t =>
    if t.line.standalone then w ++ t.line.preceding else []

variable {Q P : Text → Text → Prop} {ts us : List Token} {ns ms : List Node} {t u : Token}
  {s w : Text}

/-! ### Texts aside -/

theorem skeletonAll_append (ns ms : List Node) :
    skeletonAll (ns ++ ms) = skeletonAll ns ++ skeletonAll ms := by
  induction ns with
  | nil => rfl
  | cons n ns ih => simp only [List.cons_append, skeletonAll, ih, List.append_assoc]

theorem marginsAll_append (ns ms : List Node) :
    marginsAll (ns ++ ms) = marginsAll ns ++ marginsAll ms := by
  induction ns with
  | nil => rfl
  | cons n ns ih => simp only [List.cons_append, marginsAll, ih, List.append_assoc]

theorem skeletonAll_of_isTextOf (h : IsTextOf s ts) :
    skeletonAll (ts.flatMap Token.leaves) = [] := by
  rcases h with ⟨-, rfl⟩ | ⟨line, rfl⟩ <;> rfl

/-- **Parallel trees** are the same without their texts and margins. -/
theorem Node.Parallel.skeletonAll_eq (h : Node.Parallel Q P ns ms) :
    skeletonAll ns = skeletonAll ms := by
  induction h with
  | nil => rfl
  | text has hbs _ _ ih =>
    rw [skeletonAll_append, skeletonAll_append, skeletonAll_of_isTextOf has,
      skeletonAll_of_isTextOf hbs, ih]
  | field name escaped _ ih => simp only [skeletonAll, Node.skeleton, ih]
  | comment content _ ih => simp only [skeletonAll, Node.skeleton, ih]
  | partialRef name _ _ ih => simp only [skeletonAll, Node.skeleton, ih]
  | block name inverted _ _ ihc ih => simp only [skeletonAll, Node.skeleton, ihc, ih]

/-! ### Margins -/

theorem marginsBehind_append (w : Text) (ts us : List Token) :
    marginsBehind w (ts ++ us) = marginsBehind w ts ++ marginsBehind w us := by
  simp only [marginsBehind, List.filter_append, List.map_append]

theorem marginsBehind_cons (w : Text) (t : Token) (ts : List Token) :
    marginsBehind w (t :: ts) = marginsBehind w [t] ++ marginsBehind w ts :=
  marginsBehind_append w [t] ts

theorem marginsBehind_singleton (w : Text) (t : Token) : marginsBehind w [t] =
    if t.isPartial then [if t.line.standalone then w ++ t.line.preceding else []] else [] := by
  unfold marginsBehind
  rw [List.filter_singleton]
  cases t.isPartial <;> rfl

theorem marginsBehind_of_not_partial (ht : ∀ name, t.symbol ≠ .partialRef name) (w : Text) :
    marginsBehind w [t] = [] := by
  have hpartial : t.isPartial = false := by
    unfold Token.isPartial
    split
    · next name h => exact absurd h (ht name)
    · rfl
  simp [marginsBehind_singleton, hpartial]

theorem marginsBehind_of_isTextOf (h : IsTextOf s ts) (w : Text) : marginsBehind w ts = [] := by
  rcases h with ⟨-, rfl⟩ | ⟨line, rfl⟩ <;> rfl

/-- A token on its own stands for its own margin. -/
theorem marginsAll_leaves (t : Token) : marginsAll t.leaves = marginsBehind [] [t] := by
  unfold Token.leaves marginsBehind Token.isPartial
  cases hsym : t.symbol with
  | comment content => cases t.line.standalone <;> simp [hsym, marginsAll, Node.margins]
  | _ => simp [hsym, marginsAll, Node.margins]

/-- **The margins of a tree** are those of its tokens. -/
theorem marginsAll_of_build (h : build ts = .ok ns) (hts : ts.IsChain Token.Apart) :
    marginsAll ns = marginsBehind [] ts := by
  induction ts using sections_induction generalizing ns with
  | nil =>
    rw [build_nil] at h
    cases h
    rfl
  | single t rest ht ih =>
    rw [build_single ht] at h
    obtain ⟨later, hl, rfl⟩ := map_eq_ok_iff.1 h
    rw [marginsAll_append, marginsAll_leaves, ih hl (List.isChain_cons.1 hts).2,
      ← marginsBehind_cons]
  | unclosed t rest name inverted ht hs =>
    rw [build_unclosed ht hs] at h
    cases h
  | block t rest name inverted s ht hs ihb iha =>
    have hrest := (List.isChain_cons.1 hts).2
    obtain ⟨hbody, hafter⟩ := isChain_of_splitClose hs hrest
    rw [build_block_of_isChain ht hs hrest] at h
    obtain ⟨children, hc, h⟩ := bind_eq_ok_iff.1 h
    obtain ⟨later, hl, rfl⟩ := map_eq_ok_iff.1 h
    obtain ⟨⟨close, hsplit, -, hclose⟩, -⟩ := splitClose_eq_some_iff.1 hs
    have hopen := marginsBehind_of_not_partial (t := t) (by simp [ht]) []
    have hend := marginsBehind_of_not_partial (t := close)
      (by simp [closes_eq_true_iff.1 hclose]) []
    rw [hsplit, marginsBehind_cons, marginsBehind_append, marginsBehind_cons [] close, hopen, hend]
    simp only [marginsAll, Node.margins, ihb hc hbody, iha hl hafter, List.nil_append]

theorem marginsBehind_of_parallel (h : Token.Parallel Q (fun v v' => v' = w ++ v) ts us) :
    marginsBehind [] us = marginsBehind w ts := by
  induction h with
  | nil => rfl
  | text has hbs _ _ ih =>
    rw [marginsBehind_append, marginsBehind_append, marginsBehind_of_isTextOf has,
      marginsBehind_of_isTextOf hbs, ih]
  | @tag t u ts us ht _ _ ih =>
    have hone : marginsBehind [] [u] = marginsBehind w [t] := by
      have hpartial : u.isPartial = t.isPartial := by
        unfold Token.isPartial
        rw [ht.symbol]
      rw [marginsBehind_singleton, marginsBehind_singleton, hpartial, ← ht.standalone]
      by_cases hstand : t.line.standalone = true
      · rw [if_pos hstand, if_pos hstand, ht.margin hstand, List.nil_append]
      · rw [if_neg hstand, if_neg hstand]
    rw [marginsBehind_cons, marginsBehind_cons w, hone, ih]

/-! ### Indentation -/

/-- Indentation differs from none in the margins, by what is put in front. -/
theorem differ_indented (hw : IsInnerBlank w) : Layout.Differ (fun _ _ => True)
    (fun v v' => v' = w ++ v) (.indented [] isInnerBlank_nil) (.indented w hw) where
  lay _ _ := trivial
  upTo _ _ := trivial
  margin _ := rfl

theorem suits_indented (hw : IsInnerBlank w) (hs : NoLoneReturn s) :
    (Layout.indented w hw).Suits s where
  noLoneReturn := hs
  returns := nofun

/-- **Indentation never changes the tag structure.**  A text without a lone CR, whose tags hold no
LF, and the same text indented end with faults of one kind, or give trees that are the same without
their texts and margins; the margin of each partial with its line for itself gets the indentation in
front, and the others have none. -/
theorem parse_indent (hw : IsInnerBlank w) (hs : NoLoneReturn s)
    (hu : Cursor.Unbroken { rest := s }) :
    Related (fun ns ms => skeletonAll ns = skeletonAll ms ∧ ∃ ts, (tokenize s).outcome = .ok ts ∧
        marginsAll ns = marginsBehind [] ts ∧ marginsAll ms = marginsBehind w ts)
      (parse s).outcome (parse (indent w s)).outcome := by
  let g := Layout.indented [] isInnerBlank_nil
  let h := Layout.indented w hw
  have hg : g.Suits s := suits_indented isInnerBlank_nil hs
  have hh : h.Suits s := suits_indented hw hs
  have hplain : s = g.lay true s := by rw [← indent_eq_lay, indent_nil]
  have hparse : parse s = parse (g.lay true s) := by rw [← hplain]
  have htok : tokenize s = tokenize (g.lay true s) := by rw [← hplain]
  rw [hparse, htok, indent_eq_lay hw]
  simp only [parse, Traced.outcome_bind, Traced.outcome_ofExcept]
  refine (tokenize_lay hg hh hu (differ_indented hw)).bind fun ts us hts hus hparallel => ?_
  have hchain := isChain_of_scan Delimiter.solid_braces (hg.noLoneReturn_lay true) hts
  have hchain' := isChain_of_scan Delimiter.solid_braces (hh.noLoneReturn_lay true) hus
  refine (hparallel.build hchain hchain').imp fun ns ms hns hms hnodes => ?_
  refine ⟨hnodes.skeletonAll_eq, ts, hts, marginsAll_of_build hns hchain, ?_⟩
  rw [marginsAll_of_build hms hchain', marginsBehind_of_parallel hparallel]

/-- Partials in a section, behind a tab and behind a point, with an empty line before them. -/
theorem parse_indent_section :
    let s := "{{#x}}\n\n\t{{>p}}\r\n.{{>q}}{{!c}}\n{{/x}}".toList
    ∃ ns ms, (parse s).outcome = .ok ns ∧ (parse (indent "  ".toList s)).outcome = .ok ms ∧
      skeletonAll ns = skeletonAll ms ∧ marginsAll ns = ["\t".toList, []] ∧
      marginsAll ms = ["  \t".toList, []] := by
  intro s
  have hw : IsInnerBlank "  ".toList := by simp [IsInnerBlank, isBlank, blankRanges, isBreak]
  have hs : NoLoneReturn s := by simp [s, noLoneReturn_cons_iff, noLoneReturn_nil]
  have hplain : (tokenize s).outcome.map (marginsBehind []) = .ok ["\t".toList, []] := by
    decide +kernel
  have hindented : (tokenize s).outcome.map (marginsBehind "  ".toList) =
      .ok ["  \t".toList, []] := by
    decide +kernel
  obtain ⟨ns, hns⟩ : ∃ ns, (parse s).outcome = .ok ns := by
    have hok : (parse s).outcome.toBool = true := by decide +kernel
    cases hparse : (parse s).outcome with
    | error e =>
      rw [hparse] at hok
      cases hok
    | ok ns => exact ⟨ns, rfl⟩
  obtain ⟨ms, hms, hskeleton, ts, hts, hmargins, hmargins'⟩ :=
    (parse_indent hw hs (by decide +kernel)).exists_ok hns
  rw [hts] at hplain hindented
  refine ⟨ns, ms, hns, hms, hskeleton, ?_, ?_⟩
  · rw [hmargins]
    exact Except.ok.inj hplain
  · rw [hmargins']
    exact Except.ok.inj hindented

end Mustache
