import Mustache.Proofs.Template.Margin
import Mustache.Proofs.Text.LineEnding

/-!
# Line ends of a template

A template with LF for its line ends and the same with CR LF are scanned step by step: the tags are
the same with CR LF in their content (`cutTag_crlf`), they mean the same (`Tag.meaning_crlf`), and
stand on the same lines (`Tag.line_crlf`).  So both give the same tokens, up to the line ends in the
texts and names, or the same fault, up to the line ends in the text it shows (`tokenize_crlf`).
-/

namespace Mustache

open Cursor Text

/-! ### Definitions -/

/-- The symbol with `f` of each text and name in it. -/
def Symbol.mapTexts (f : Text → Text) : Symbol → Symbol
  | text content => text (f content)
  | field name escaped => field (f name) escaped
  | sectionOpen name inverted => sectionOpen (f name) inverted
  | sectionClose name => sectionClose (f name)
  | comment content => comment (f content)
  | partialRef name => partialRef (f name)

/-- The token with `f` of each text and name in its symbol; its line stays as it is. -/
def Token.mapTexts (f : Text → Text) (t : Token) : Token := { t with symbol := t.symbol.mapTexts f }

/-- The fault with `f` of each text that it shows. -/
def Error.mapTexts (f : Text → Text) : Error → Error
  | unclosedTag rest => unclosedTag (f rest)
  | unclosedSection name => unclosedSection (f name)
  | badDelimiters content => badDelimiters (f content)
  | depthExceeded name limit => depthExceeded (f name) limit
  | foreignNode kind => foreignNode (f kind)
  | endless => endless

/-- The meaning with `f` of each text and name in its symbol. -/
def Meaning.mapTexts (f : Text → Text) : Meaning → Meaning
  | nothing => nothing
  | change pair => change pair
  | symbol s => symbol (s.mapTexts f)

/-- What comes out of a template when `f` is done to its texts: a result, done `g` to, or a fault. -/
def Outcome.mapTexts {α : Type} (f : Text → Text) (g : α → α) (x : Except Error α) :
    Except Error α := (x.map g).mapError (Error.mapTexts f)

/-- The tag in the template with CR LF. -/
def Tag.crlf (t : Tag) : Tag :=
  ⟨Text.crlf t.before, Text.crlf t.content, Text.crlf t.after, t.triple⟩

/-- The same place in the template with CR LF. -/
def Cursor.crlf (c : Cursor) : Cursor := { c with rest := Text.crlf c.rest }

variable {pair : Delimiter} {s : Text} {t : Tag} {c : Cursor} {m : Meaning} {x : Char}

/-! ### Cuts -/

section Cuts

variable (hp : pair.Solid)
include hp

theorem cutTag_crlf_of_plain (h : cutTag pair s = .plain) :
    cutTag pair (Text.crlf s) = .plain := by
  rw [cutTag_eq_plain_iff] at h ⊢
  rwa [infix_crlf_iff pair.opening_ne_nil hp.opening]

theorem cutTag_crlf_of_unclosed (h : cutTag pair s = .unclosed) :
    cutTag pair (Text.crlf s) = .unclosed := by
  obtain ⟨before, body, rfl, hclear, hbody⟩ := cutTag_eq_unclosed_iff.1 h
  refine cutTag_eq_unclosed_iff.2 ⟨Text.crlf before, Text.crlf body, ?_, ?_, ?_⟩
  · rw [crlf_append, crlf_append, crlf_of_not_mem hp.newline_not_mem_opening]
  · exact hclear.crlf pair.opening_ne_nil hp.opening
  · rwa [infix_crlf_iff pair.closing_ne_nil hp.closing]

/-- **The first tag** of a template is the first one of the template with CR LF. -/
theorem cutTag_crlf (h : cutTag pair s = .tag t) : cutTag pair (Text.crlf s) = .tag t.crlf := by
  obtain ⟨rfl, hbefore, hcontent, htriple⟩ := cutTag_eq_tag_iff.1 h
  have hbrace : '\n' ∉ t.brace := by
    unfold Tag.brace
    split <;> decide
  refine cutTag_eq_tag_iff.2 ⟨?_, ?_, ?_, ?_⟩
  · rw [crlf_append, crlf_append, crlf_append, crlf_append, crlf_append,
      crlf_of_not_mem hp.newline_not_mem_opening, crlf_of_not_mem hp.newline_not_mem_closing,
      crlf_of_not_mem hbrace]
    rfl
  · exact hbefore.crlf pair.opening_ne_nil hp.opening
  · exact hcontent.crlf pair.closing_ne_nil hp.closing
  · have hafter : t.crlf.brace ++ t.crlf.after = Text.crlf (t.brace ++ t.after) := by
      rw [crlf_append, crlf_of_not_mem hbrace]
      rfl
    rw [hafter, head?_crlf_eq_some_iff (by decide)]
    show t.triple = true ↔ _ ∧ (Text.crlf t.content).head? = some '{' ∧ _
    rw [head?_crlf_eq_some_iff (by decide)]
    exact htriple

end Cuts

/-! ### What a tag means -/

/-- The two words that name markers stand on any lines. -/
theorem ofChange_crlf (hs : s.head? = some '=') : Delimiter.ofChange (Text.crlf s) =
    Outcome.mapTexts Text.crlf id (Delimiter.ofChange s) := by
  obtain ⟨rest, rfl⟩ := List.head?_eq_some_iff.1 hs
  have hwords : words (dropEnding ['='] (Text.crlf ('=' :: rest)).tail) =
      words (dropEnding ['='] rest) := by
    rw [crlf_char (by decide), List.tail_cons, dropEnding_crlf (by decide), words_crlf]
  unfold Delimiter.ofChange
  rw [hwords, List.tail_cons]
  split
  · next opening closing hw =>
    have hne : ∀ w ∈ [opening, closing], w ≠ [] := fun w hmem => ne_nil_of_mem_words (hw ▸ hmem)
    rw [Delimiter.ofMarkers_of_ne_nil (hne opening (by simp)) (hne closing (by simp))]
    rfl
  · rfl

namespace Tag

/-- The first characters of the tags that are no plain fields, three braces apart. -/
def signs : List Char := ['=', '!', '>', '/', '#', '^', '&']

/-- A tag without a sign is a field. -/
theorem meaning_of_not_sign {rest : Text} (ht : t.content = x :: rest) (hx : x ∉ signs) :
    t.meaning = .ok (.symbol (if x = '{' ∧ t.triple = true
      then .field (strip (dropEnding ['}'] rest)) false else .field (strip (x :: rest)) true)) := by
  unfold meaning
  rw [ht]
  split
  · next h => cases h
  iterate 7
    next h =>
      obtain ⟨rfl, -⟩ := List.cons_eq_cons.1 h
      exact absurd (by decide) hx
  · next h =>
    obtain ⟨rfl, rfl⟩ := List.cons_eq_cons.1 h
    split <;> rfl

/-- **What a tag means** in the template with CR LF. -/
theorem meaning_crlf (t : Tag) : t.crlf.meaning =
    Outcome.mapTexts Text.crlf (Meaning.mapTexts Text.crlf) t.meaning := by
  obtain ⟨before, content, after, triple⟩ := t
  cases content with
  | nil => rfl
  | cons x rest =>
    by_cases hn : x = '\n'
    · -- the content starts with CR then, and neither that nor LF is a sign
      subst hn
      have hcontent : (Tag.mk before ('\n' :: rest) after triple).crlf.content =
          '\r' :: '\n' :: Text.crlf rest := rfl
      rw [meaning_of_not_sign hcontent (by decide), meaning_of_not_sign rfl (by decide),
        if_neg (by simp), if_neg (by simp), ← crlf_break, strip_crlf]
      rfl
    · have hcontent : (Tag.mk before (x :: rest) after triple).crlf.content =
          x :: Text.crlf rest := crlf_char hn rest
      by_cases hx : x ∈ signs
      · simp only [signs, List.mem_cons, List.not_mem_nil, or_false] at hx
        simp only [meaning, hcontent]
        rcases hx with rfl | rfl | rfl | rfl | rfl | rfl | rfl
        · simp only [← crlf_char hn]
          rw [ofChange_crlf rfl]
          cases Delimiter.ofChange ('=' :: rest) <;> rfl
        all_goals
          simp only [strip_crlf]
          rfl
      · rw [meaning_of_not_sign hcontent hx, meaning_of_not_sign rfl hx, dropEnding_crlf (by decide),
          ← crlf_char hn, strip_crlf, strip_crlf]
        show Except.ok (Meaning.symbol (if x = '{' ∧ triple = true then _ else _)) =
          Outcome.mapTexts _ _ (.ok (.symbol (if x = '{' ∧ triple = true then _ else _)))
        by_cases hbrace : x = '{' ∧ triple = true
        · rw [if_pos hbrace, if_pos hbrace]
          rfl
        · rw [if_neg hbrace, if_neg hbrace]
          rfl

/-! ### The line of a tag -/

theorem isStructural_crlf (t : Tag) : t.crlf.isStructural = t.isStructural := by
  have hany : ∀ o : Option Char, o.any sigils.contains = (o.map sigils.contains).any id := by
    intro o
    cases o <;> rfl
  show (Text.crlf t.content).head?.any sigils.contains = t.content.head?.any sigils.contains
  rw [hany, hany, map_head?_crlf (by decide)]

section Line

variable (ht : '\r' ∉ t.after)
include ht

/-- **The line of a tag** is the same in the template with CR LF. -/
theorem line_crlf (lineStart : Bool) : t.crlf.line lineStart = t.line lineStart := by
  have hlast : ∀ s : Text, (Text.crlf s).head?.all isBreak = s.head?.all isBreak := by
    intro s
    have hall : ∀ o : Option Char, o.all isBreak = (o.map isBreak).all id := by
      intro o
      cases o <;> rfl
    rw [hall, hall, map_head?_crlf rfl]
  have hend : (Text.crlf t.after).isEmpty = t.after.isEmpty := by
    rw [Bool.eq_iff_iff, List.isEmpty_iff, List.isEmpty_iff, crlf_eq_nil_iff]
  simp only [line, crlf, lastLine_crlf, any_isBreak_crlf, hend, dropBreak?_crlf ht,
    Option.isSome_map, takeWhile_crlf (p := isInnerBlank) (by decide) (by decide),
    dropWhile_crlf (p := isInnerBlank) (by decide), hlast]

theorem elided_crlf (lineStart : Bool) : t.crlf.elided lineStart = t.elided lineStart := by
  rw [elided, elided, isStructural_crlf, line_crlf ht]

theorem kept_crlf (lineStart : Bool) : t.crlf.kept lineStart = Text.crlf (t.kept lineStart) := by
  unfold kept
  rw [elided_crlf ht]
  split
  · exact earlierLines_crlf t.before
  · rfl

theorem rest_crlf (lineStart : Bool) : t.crlf.rest lineStart = Text.crlf (t.rest lineStart) := by
  unfold rest
  rw [elided_crlf ht]
  show (if _ then (dropBreak? (Text.crlf t.after)).getD (Text.crlf t.after)
    else Text.crlf t.after) = _
  rw [dropBreak?_crlf ht]
  split
  · cases dropBreak? t.after <;> rfl
  · rfl

theorem endsLine_crlf (lineStart : Bool) : t.crlf.endsLine lineStart = t.endsLine lineStart := by
  unfold endsLine
  rw [elided_crlf ht]
  show (_ || (dropBreak? (Text.crlf t.after)).isSome) = _
  rw [dropBreak?_crlf ht, Option.isSome_map]

end Line

end Tag

/-! ### The scan -/

theorem textTokens_crlf (s : Text) (lineStart : Bool) : textTokens (Text.crlf s) lineStart =
    (textTokens s lineStart).map (Token.mapTexts Text.crlf) := by
  unfold textTokens
  by_cases hs : s = []
  · rw [if_pos hs, if_pos (crlf_eq_nil_iff.2 hs)]
    rfl
  · rw [if_neg hs, if_neg fun h => hs (crlf_eq_nil_iff.1 h)]
    rfl

theorem endTokens_crlf (c : Cursor) :
    c.crlf.endTokens = c.endTokens.map (Token.mapTexts Text.crlf) := by
  show (if Text.crlf c.rest = [] then [] else _) = _
  unfold endTokens
  by_cases hs : c.rest = []
  · rw [if_pos hs, if_pos (crlf_eq_nil_iff.2 hs)]
    rfl
  · rw [if_neg hs, if_neg fun h => hs (crlf_eq_nil_iff.1 h)]
    rfl

theorem symbol?_mapTexts (f : Text → Text) (m : Meaning) :
    (m.mapTexts f).symbol? = m.symbol?.map (Symbol.mapTexts f) := by
  cases m <;> rfl

theorem change?_mapTexts (f : Text → Text) (m : Meaning) : (m.mapTexts f).change? = m.change? := by
  cases m <;> rfl

theorem tagTokens_crlf (ht : '\r' ∉ t.after) (m : Meaning) :
    c.crlf.tagTokens t.crlf (m.mapTexts Text.crlf) =
      (c.tagTokens t m).map (Token.mapTexts Text.crlf) := by
  show textTokens (t.crlf.kept c.lineStart) c.lineStart ++
    (m.mapTexts Text.crlf).symbol?.toList.map (⟨·, t.crlf.line c.lineStart⟩) = _
  rw [Tag.kept_crlf ht, Tag.line_crlf ht, textTokens_crlf, symbol?_mapTexts, tagTokens,
    List.map_append]
  cases m.symbol? <;> rfl

theorem past_crlf (ht : '\r' ∉ t.after) (m : Meaning) :
    c.crlf.past t.crlf (m.mapTexts Text.crlf) = (c.past t m).crlf := by
  show Cursor.mk _ _ _ = Cursor.mk _ _ _
  rw [Cursor.mk.injEq, change?_mapTexts]
  exact ⟨Tag.rest_crlf ht _, Tag.endsLine_crlf ht _, rfl⟩

/-- **A scan** of what is left gives the same with CR LF. -/
theorem outcome_scan_crlf (hp : c.delimiter.Solid) (hr : '\r' ∉ c.rest) : c.crlf.scan.outcome =
    Outcome.mapTexts Text.crlf (List.map (Token.mapTexts Text.crlf)) c.scan.outcome := by
  induction hn : c.rest.length using Nat.strong_induction_on generalizing c with
  | h n ih =>
    cases hcut : cutTag c.delimiter c.rest with
    | plain =>
      rw [outcome_scan_of_plain hcut, outcome_scan_of_plain (cutTag_crlf_of_plain hp hcut),
        endTokens_crlf]
      rfl
    | unclosed =>
      rw [outcome_scan_of_unclosed hcut, outcome_scan_of_unclosed (cutTag_crlf_of_unclosed hp hcut)]
      rfl
    | tag t =>
      have ht : '\r' ∉ t.after := by
        obtain ⟨hrest, -⟩ := cutTag_eq_tag_iff.1 hcut
        intro hmem
        exact hr (by simp [hrest, hmem])
      rw [outcome_scan_of_tag hcut, outcome_scan_of_tag (cutTag_crlf hp hcut), Tag.meaning_crlf]
      cases hm : t.meaning with
      | error e => rfl
      | ok m =>
        have hp' := (Passes.step hcut hm (.refl _)).solid hp
        have hr' : '\r' ∉ (c.past t m).rest := fun hmem =>
          hr ((rest_past_suffix hcut m).subset hmem)
        have hlater := ih _ (hn ▸ length_past_lt m hcut) hp' hr' rfl
        show ((c.crlf.past t.crlf (m.mapTexts Text.crlf)).scan.outcome).map _ =
          Outcome.mapTexts _ _ (((c.past t m).scan.outcome).map _)
        rw [past_crlf ht, hlater, tagTokens_crlf ht]
        cases (c.past t m).scan.outcome with
        | error e => rfl
        | ok later =>
          show Except.ok _ = Except.ok _
          rw [List.map_append]

/-- **CR LF for LF in a template** without CR, read with markers free of blanks: the same tokens come
out, each on the same line, with CR LF in their texts and names, or the same fault, with CR LF in the
text that it shows. -/
theorem tokenize_crlf {template : Text} (hp : pair.Solid) (hr : '\r' ∉ template) :
    (tokenize (Text.crlf template) pair).outcome =
      Outcome.mapTexts Text.crlf (List.map (Token.mapTexts Text.crlf))
        (tokenize template pair).outcome :=
  outcome_scan_crlf (c := { rest := template, delimiter := pair }) hp hr

/-- A name and a change of markers over two lines each, and a change that names one marker only. -/
theorem tokenize_crlf_names :
    let pair : Delimiter := ⟨['<', '%'], ['%', '>'], by decide, by decide⟩
    '\r' ∉ "<%#x\ny%>\n <%=|\n|=%>\n|/x\ny|\n".toList ∧
      (tokenize (Text.crlf "<%#x\ny%>\n <%=|\n|=%>\n|/x\ny|\n".toList) pair).outcome = .ok
        [{ symbol := .sectionOpen "x\r\ny".toList false,
           line := { breakAfter := true, firstOnLine := true, lastOnLine := true } },
          { symbol := .sectionClose "x\r\ny".toList,
            line := { breakAfter := true, firstOnLine := true, lastOnLine := true } }] ∧
      (tokenize (Text.crlf "a\n<%=x\n=%>".toList) pair).outcome =
        .error (.badDelimiters "=x\r\n=".toList) := by
  have hp : Delimiter.Solid ⟨['<', '%'], ['%', '>'], by decide, by decide⟩ :=
    ⟨by simp [isBlank, blankRanges], by simp [isBlank, blankRanges]⟩
  exact ⟨by decide, (tokenize_crlf hp (by decide)).trans (by decide +kernel),
    (tokenize_crlf hp (by decide)).trans (by decide +kernel)⟩

end Mustache
