import Mustache.Proofs.Render.Concat
import Mustache.Proofs.Render.Simulation
import Mustache.Proofs.Text.Layout
import Mustache.Proofs.Value.Lookup

/-!
# Margins of nested partials

A partial on a line of its own gives its margin to all lines of its text, and so to the line of the
next partial in it.  In a chain of partials (`PartialChain`), each with such a line for the next
one, the margins add up: the text of each is indented by all the margins on the way to it
(`PartialChain.output`).  One expansion is `renderText_partialLine`, and the chain is an
induction over its links (`renderTemplate_chain`).
-/

namespace Mustache

open Cursor Outcome Text

/-! ### Definitions -/

/-- The line of a partial, with a margin. -/
def partialLine (margin name : Text) : Text :=
  margin ++ Delimiter.braces.opening ++ ('>' :: ' ' :: name) ++ Delimiter.braces.closing ++ ['\n']

/-- **A chain of partials**: each link has the margin and the name of a partial, and its text, in
which the line of the next partial stands between two texts. -/
inductive PartialChain where
  | last (margin name text : Text)
  | link (margin name before : Text) (next : PartialChain) (behind : Text)

namespace PartialChain

/-- The margin of the first partial. -/
def margin : PartialChain → Text
  | last margin _ _ | link margin _ _ _ _ => margin

/-- The name of the first partial. -/
def name : PartialChain → Text
  | last _ name _ | link _ name _ _ _ => name

/-- The line of the first partial. -/
def line (chain : PartialChain) : Text := partialLine chain.margin chain.name

/-- The texts of the partials, under their names. -/
def texts : PartialChain → Fields Text
  | last _ name text => [(name, text)]
  | link _ name before next behind => (name, before ++ next.line ++ behind) :: next.texts

/-- The partials of the chain. -/
def partials (chain : PartialChain) : Value :=
  .mapping (chain.texts.map fun p => (p.1, .scalar p.2))

/-- How many partials the chain has. -/
def length : PartialChain → Nat
  | last _ _ _ => 1
  | link _ _ _ next _ => next.length + 1

/-- What the first partial renders to behind `w`: its text behind `w`, and in it what the next
partial renders to behind `w` and its own margin. -/
def output (w : Text) : PartialChain → Text
  | last _ _ text => indent w text
  | link _ _ before next behind =>
    indent w before ++ next.output (w ++ next.margin) ++ indent w behind

end PartialChain

/-- A name that can stand in a tag as it is, and that is a key and no longer path. -/
structure IsTagName (name : Text) : Prop where
  strip_eq : strip name = name
  dot : '.' ∉ name
  brace : '}' ∉ name
  newline : '\n' ∉ name

/-- No opening marker stands in the text. -/
def IsUntagged (s : Text) : Prop := ¬ Delimiter.braces.opening <:+: s

/-- The margins of the chain are blank, its names can stand in tags, and no other tags stand in its
texts; each line for a partial starts where a line does. -/
inductive PartialChain.Fits : PartialChain → Prop
  | last {margin name text : Text} (hw : IsInnerBlank margin) (hname : IsTagName name)
    (htext : IsUntagged text) : Fits (.last margin name text)
  | link {margin name before behind : Text} {next : PartialChain} (hw : IsInnerBlank margin)
    (hname : IsTagName name) (hbefore : IsUntagged before) (hlines : WholeLines before)
    (hbehind : IsUntagged behind) (hnext : next.Fits) : Fits (.link margin name before next behind)

variable {w v name before behind s : Text} {expand : Expander} {scope : Scope} {r : Renderer}
  {chain : PartialChain}

/-! ### The line of a partial -/

theorem strip_cons_of_blank {c : Char} (hc : isBlank c = true) (s : Text) :
    strip (c :: s) = strip s := by
  rw [strip, strip, List.dropWhile_cons_of_pos hc]

/-- What the tag of a partial means, if its name has no blanks around it. -/
theorem meaning_of_partial {t : Tag} (hcontent : t.content = '>' :: ' ' :: name)
    (hstrip : strip name = name) : t.meaning = .ok (.symbol (.partialRef name)) := by
  unfold Tag.meaning
  rw [hcontent]
  show Except.ok (Meaning.symbol (.partialRef (strip (' ' :: name)))) = _
  rw [strip_cons_of_blank (by decide), hstrip]

/-- The text before the tag of a partial line holds no opening marker, and does not start one. -/
theorem clear_before (hbefore : IsUntagged before) (hlines : WholeLines before)
    (hw : IsInnerBlank w) : Clear Delimiter.braces.opening (before ++ w) := by
  have hblank := Delimiter.solid_braces.opening
  rw [clear_iff (by decide), List.append_assoc]
  have hline : ¬ Delimiter.braces.opening <:+: w ++ Delimiter.braces.opening.dropLast := by
    rw [infix_append_iff_of_blank (by decide) hblank hw.blank]
    decide
  rcases wholeLines_iff.1 hlines with rfl | ⟨x, rfl⟩
  · exact hline
  · have hx : ¬ Delimiter.braces.opening <:+: x := fun h =>
      hbefore (h.trans (List.prefix_append x _).isInfix)
    rw [List.append_assoc, List.singleton_append, infix_append_cons_iff (by decide), not_or]
    exact ⟨hx, hline⟩

/-- **The line of a partial** between texts without tags is scanned to the text before it, the
partial with its margin, and the text behind it. -/
theorem tokenize_partialLine (hw : IsInnerBlank w) (hname : IsTagName name)
    (hbefore : IsUntagged before) (hlines : WholeLines before) (hbehind : IsUntagged behind) :
    ∃ us vs : List Token, ∃ t : Token, IsTextOf before us ∧ IsTextOf behind vs ∧
      t.symbol = .partialRef name ∧ t.leaves = [.partialRef name w] ∧
      (tokenize (before ++ partialLine w name ++ behind)).outcome = .ok (us ++ t :: vs) := by
  let t : Tag := ⟨before ++ w, '>' :: ' ' :: name, '\n' :: behind, false⟩
  let c : Cursor := { rest := before ++ partialLine w name ++ behind }
  have hclosing : Clear Delimiter.braces.closing t.content := by
    refine clear_of_head? (by decide) ?_
    rintro _ ⟨⟩
    simp [t, hname.brace]
  have hcut : cutTag .braces c.rest = .tag t := by
    refine cutTag_eq_tag_iff.2 ⟨?_, clear_before hbefore hlines hw, hclosing, by simp [t]⟩
    simp [c, partialLine, t, Tag.brace]
  obtain ⟨hearlier, hlast⟩ := lines_of_wholeLines hlines hw.newline_not_mem
  have hstand : (t.line true).standalone = true := by
    rw [Tag.standalone_line]
    simpa [Tag.line, t, hlast, dropBreak?] using hw.blank
  have helided : t.elided true = true := hstand
  have hmeaning : t.meaning = .ok (.symbol (.partialRef name)) :=
    meaning_of_partial rfl hname.strip_eq
  have hpast : c.past t (.symbol (.partialRef name)) = { rest := behind } := by
    simp only [past, c, Tag.rest, Tag.endsLine, helided]
    rfl
  have hkept : t.kept true = before := by
    rw [Tag.kept, if_pos helided]
    exact hearlier
  refine ⟨textTokens before true, endTokens { rest := behind },
    ⟨.partialRef name, t.line true⟩, isTextOf_textTokens before true,
    isTextOf_endTokens { rest := behind }, rfl, ?_, ?_⟩
  · show [Node.partialRef name (if (t.line true).standalone then lastLine t.before else [])] = _
    rw [if_pos hstand, hlast]
  · have hend : (scan { rest := behind }).outcome = .ok (endTokens { rest := behind }) :=
      outcome_scan_of_plain (cutTag_eq_plain_iff.2 hbehind)
    show c.scan.outcome = _
    rw [outcome_scan_of_tag hcut, hmeaning, Except.bind, hpast, hend]
    simp [Except.map, tagTokens, c, hkept, Meaning.symbol?]

theorem renderText_eq (template : Text) : renderText expand template scope =
    (tokenize template).outcome.bind (renderTokens expand scope) := by
  simp only [renderText, parse, Traced.outcome_bind, Traced.outcome_ofExcept]
  cases (tokenize template).outcome <;> rfl

/-- **A template with one partial**, on a line of its own between texts without tags, renders to
these texts and between them to what the partial behind its margin renders to. -/
theorem renderText_partialLine (hw : IsInnerBlank w) (hname : IsTagName name)
    (hbefore : IsUntagged before) (hlines : WholeLines before) (hbehind : IsUntagged behind)
    (h : (expand name w scope).outcome = .ok s) :
    renderText expand (before ++ partialLine w name ++ behind) scope =
      .ok (before ++ s ++ behind) := by
  obtain ⟨us, vs, t, hus, hvs, hsym, hleaves, htokens⟩ :=
    tokenize_partialLine hw hname hbefore hlines hbehind
  have ht : renderTokens expand scope [t] = .ok s := by
    rw [renderTokens, build_single (by simp [hsym]), build_nil, hleaves]
    show (renderAll expand [.partialRef name w] scope).outcome = _
    rw [outcome_renderAll_cons]
    show joined (expand name w scope).outcome (.ok []) = _
    rw [h, joined_ok_ok, List.append_nil]
  rw [renderText_eq, htokens, Except.bind, renderTokens_append (renderTokens_of_isTextOf hus),
    ← List.singleton_append, renderTokens_append ht, renderTokens_of_isTextOf hvs]
  simp [Except.map]

/-- A text without tags renders as it is. -/
theorem renderText_of_untagged (h : IsUntagged s) : renderText expand s scope = .ok s := by
  have hscan : (tokenize s).outcome = .ok (endTokens { rest := s }) :=
    outcome_scan_of_plain (cutTag_eq_plain_iff.2 h)
  rw [renderText_eq, hscan]
  exact renderTokens_of_isTextOf (isTextOf_endTokens { rest := s })

/-! ### Indentation -/

theorem IsUntagged.indent (hw : IsInnerBlank w) (h : IsUntagged s) :
    IsUntagged (Text.indent w s) := by
  unfold IsUntagged
  rwa [infix_indent_iff (by decide) Delimiter.solid_braces.opening hw.blank]

theorem wholeLines_indent (hw : IsInnerBlank w) (h : WholeLines s) :
    WholeLines (Text.indent w s) := by
  rw [indent_eq_lay hw]
  exact Layout.wholeLines_lay h

/-- **The line of a partial, indented**, is its line with a longer margin. -/
theorem indent_partialLine (hw : IsInnerBlank w) (hv : IsInnerBlank v) (hname : IsTagName name)
    (hlines : WholeLines before) : Text.indent w (before ++ partialLine v name ++ behind) =
      Text.indent w before ++ partialLine (w ++ v) name ++ Text.indent w behind := by
  let g := Layout.indented w hw
  let tag := v ++ Delimiter.braces.opening ++ ('>' :: ' ' :: name) ++ Delimiter.braces.closing
  have hne : tag ≠ [] := by simp [tag]
  have hnl : '\n' ∉ tag := by
    simp [tag, hv.newline_not_mem, hname.newline, Delimiter.braces]
  have hfresh : freshBehind true before = true := by
    rcases wholeLines_iff.1 hlines with rfl | ⟨x, rfl⟩
    · rfl
    · rw [freshBehind_append]
      rfl
  have hlay := g.lay_append_of_not_mem true hne hnl before ('\n' :: behind)
  rw [Layout.upTo, hfresh, Layout.lay_break] at hlay
  rw [indent_eq_lay hw, indent_eq_lay hw, indent_eq_lay hw]
  simpa [partialLine, tag, g, Layout.lead, Layout.fill, Layout.ending, Layout.indented] using hlay

/-! ### Chains -/

theorem PartialChain.length_pos (chain : PartialChain) : 0 < chain.length := by
  cases chain with
  | last _ _ _ => exact Nat.one_pos
  | link _ _ _ next _ => exact Nat.succ_pos _

theorem PartialChain.Fits.isInnerBlank (h : chain.Fits) : IsInnerBlank chain.margin := by
  cases h with
  | last hw _ _ => exact hw
  | link hw _ _ _ _ _ => exact hw

theorem PartialChain.Fits.isTagName (h : chain.Fits) : IsTagName chain.name := by
  cases h with
  | last _ hname _ => exact hname
  | link _ hname _ _ _ _ => exact hname

/-- **A chain of partials**, expanded behind a margin: the margin goes on to the next partial, and
that one's own is added to it. -/
theorem expand_chain (hchain : chain.Fits)
    (htexts : ∀ p ∈ chain.texts, r.partialText? p.1 = some p.2) (hdepth : r.maxDepth = none)
    (hw : IsInnerBlank w) {allowance : Nat} (hlen : chain.length ≤ allowance) (depth : Nat) :
    (r.expand allowance depth chain.name w scope).outcome = .ok (chain.output w) := by
  have hroom := exceeds_of_unbounded hdepth
  induction hchain generalizing w allowance depth with
  | @last margin name text hmargin hname htext =>
    obtain ⟨rest, rfl⟩ := Nat.exists_eq_add_one.2 ((PartialChain.length_pos _).trans_le hlen)
    have htext' : r.partialText? name = some text := htexts _ List.mem_cons_self
    show (r.expand (rest + 1) depth name w scope).outcome = _
    rw [outcome_expand_of_room htext' (hroom depth)]
    exact renderText_of_untagged (htext.indent hw)
  | @link margin name before behind next hmargin hname hbefore hlines hbehind hnext ih =>
    obtain ⟨rest, rfl⟩ := Nat.exists_eq_add_one.2 ((PartialChain.length_pos _).trans_le hlen)
    have htext : r.partialText? name = some (before ++ next.line ++ behind) :=
      htexts _ List.mem_cons_self
    have hnext' := ih (fun p hp => htexts p (List.mem_cons_of_mem _ hp))
      (hw.append hnext.isInnerBlank) (Nat.le_of_succ_le_succ hlen) (depth + 1)
    show (r.expand (rest + 1) depth name w scope).outcome = _
    rw [outcome_expand_of_room htext (hroom depth), PartialChain.line,
      indent_partialLine hw hnext.isInnerBlank hnext.isTagName hlines]
    exact renderText_partialLine (hw.append hnext.isInnerBlank) hnext.isTagName (hbefore.indent hw)
      (wholeLines_indent hw hlines) (hbehind.indent hw) hnext'

/-- A name that is no longer path is looked up as a key. -/
theorem IsTagName.lookup_mapping (h : IsTagName name) (fields : Fields Value) :
    (Value.mapping fields).lookup name = fields.lookup name :=
  Value.lookup_mapping_of_key h.strip_eq h.dot fields

theorem PartialChain.Fits.isTagName_of_mem (h : chain.Fits) :
    ∀ p ∈ chain.texts, IsTagName p.1 := by
  induction h with
  | last _ hname _ =>
    intro p hp
    obtain rfl := List.mem_singleton.1 hp
    exact hname
  | link _ hname _ _ _ _ ih =>
    intro p hp
    rcases List.mem_cons.1 hp with rfl | hp
    · exact hname
    · exact ih p hp

/-- The partials of a chain have their texts under their names, if the names are distinct. -/
theorem partialText?_chain (hchain : chain.Fits) (hnames : (Fields.keys chain.texts).Nodup)
    (bound : Option Int) :
    ∀ p ∈ chain.texts, Renderer.partialText? ⟨chain.partials, bound⟩ p.1 = some p.2 := by
  intro p hp
  have hkeys : (Fields.keys (chain.texts.map fun p => (p.1, Value.scalar p.2))).Nodup := by
    simpa [Fields.keys, Function.comp_def] using hnames
  have hmem : (p.1, Value.scalar p.2) ∈ chain.texts.map fun p => (p.1, Value.scalar p.2) :=
    List.mem_map.2 ⟨p, hp, rfl⟩
  rw [Renderer.partialText?, PartialChain.partials,
    (hchain.isTagName_of_mem p hp).lookup_mapping, Value.lookup_of_mem hkeys hmem]
  rfl

/-- **Margins of nested partials accumulate.**  The line of the first partial of a chain renders to
the texts of the chain, each behind all margins on the way to it; it takes as many nested expansions
as the chain has partials. -/
theorem renderTemplate_chain (hchain : chain.Fits) (hnames : (Fields.keys chain.texts).Nodup)
    (context : Value) {allowance : Nat} (hlen : chain.length ≤ allowance) :
    (Renderer.renderTemplate ⟨chain.partials, none⟩ allowance chain.line
      { root := context }).outcome = .ok (chain.output chain.margin) := by
  have hfirst : (Renderer.expand ⟨chain.partials, none⟩ allowance 0 chain.name chain.margin
      { root := context }).outcome = .ok (chain.output chain.margin) :=
    expand_chain hchain (partialText?_chain hchain hnames none) rfl hchain.isInnerBlank hlen 0
  have hnil : IsUntagged [] := by
    unfold IsUntagged
    decide
  have hlines : WholeLines [] := by simp [WholeLines]
  have hline := renderText_partialLine hchain.isInnerBlank hchain.isTagName hnil hlines hnil hfirst
  rw [List.nil_append, List.append_nil, List.nil_append, List.append_nil] at hline
  rw [outcome_renderTemplate]
  exact hline

/-- Three partials, the second with an empty line before the third, the third with one in it. -/
theorem renderTemplate_chain_three :
    let chain : PartialChain :=
      .link " ".toList "a".toList "1\n".toList
        (.link "\t".toList "b\x7b".toList "\n".toList
          (.last "".toList "c".toList "3\n\n4".toList) "5".toList) "\r6".toList
    (Renderer.renderTemplate ⟨chain.partials, none⟩ 3 chain.line { root := .null }).outcome =
      .ok " 1\n\n \t3\n\n \t4 \t5 \r6".toList := by
  intro chain
  have hname : ∀ n ∈ ["a".toList, "b\x7b".toList, "c".toList], IsTagName n := by
    intro n hn
    simp only [List.mem_cons, List.not_mem_nil, or_false] at hn
    rcases hn with rfl | rfl | rfl <;> exact ⟨by decide, by decide, by decide, by decide⟩
  have hblank : ∀ w ∈ [" ".toList, "\t".toList, []], IsInnerBlank w := by
    intro w hw
    simp only [List.mem_cons, List.not_mem_nil, or_false] at hw
    rcases hw with rfl | rfl | rfl <;> simp [IsInnerBlank, isBlank, blankRanges, isBreak]
  have huntagged : ∀ s ∈ ["1\n".toList, "\n".toList, "3\n\n4".toList, "5".toList,
      "\r6".toList], IsUntagged s := by
    unfold IsUntagged
    decide
  have hlines : WholeLines "1\n".toList ∧ WholeLines "\n".toList := by simp [WholeLines]
  have hfits : chain.Fits := by
    refine .link (hblank _ ?_) (hname _ ?_) (huntagged _ ?_) hlines.1 (huntagged _ ?_)
      (.link (hblank _ ?_) (hname _ ?_) (huntagged _ ?_) hlines.2 (huntagged _ ?_)
        (.last (hblank _ ?_) (hname _ ?_) (huntagged _ ?_))) <;> decide
  exact renderTemplate_chain hfits (by decide) .null (by decide)

end Mustache
