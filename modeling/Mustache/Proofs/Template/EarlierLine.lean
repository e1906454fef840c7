import Mathlib.Data.List.DropRight
import Mustache.Proofs.Template.SourceLine
import Mustache.Proofs.Text.Layout

/-!
# What a tag takes from earlier lines

A tag that takes its line along takes what stands before it on the line.  A line starts behind a LF
or a CR, and yet the start of the tag's line is looked for behind the last LF.  `Text.ownLine` is the
line before the tag as any line break bounds it: the tag takes this and no more, unless a CR stands
before it with no LF in between, and then the CR goes with it (`Piece.Spares`, `tokenize_spares`).
So an earlier line loses its end only in a template with a lone CR.
-/

namespace Mustache

open Cursor

/-! ### Definitions -/

/-- The part of a text behind its last line break, be it LF or CR: all of it when it holds none. -/
def Text.ownLine (s : Text) : Text := s.rtakeWhile fun c => !Text.isBreak c

/-- **What goes with the tag** of a piece, with the text `before` it in the template. -/
structure Piece.Spares (p : Piece) (before : Text) : Prop where
  newline_not_mem : '\n' ∉ p.margin
  /-- A CR goes with the tag exactly if the tag takes its line along, and stands behind a CR with no
  LF in between; what the scan has passed does not count. -/
  return_mem_iff : '\r' ∈ p.margin ↔ p.elided = true ∧
    ∃ u v, p.text ++ p.margin = u ++ '\r' :: v ∧ '\n' ∉ v
  /-- A tag that takes its line along takes all that stands before it there. -/
  ownLine_suffix : p.elided = true → Text.ownLine before <:+ p.margin
  /-- It takes no more than that exactly if it takes no CR. -/
  margin_eq_iff : p.elided = true → (p.margin = Text.ownLine before ↔ '\r' ∉ p.margin)

/-- Where a line starts for a scan that has passed `done` and has `rest` left, one starts in the
template, or ends right there. -/
def StartsLine (done : Text) (lineStart : Bool) (rest : Text) : Prop :=
  lineStart = true → Text.ownLine done = [] ∨ rest.head?.all Text.isBreak = true

variable {p : Piece} {ps : List Piece} {pair : Delimiter} {s t done behind last : Text}
  {lineStart : Bool} {c : Char}

/-! ### The line of its own -/

namespace Text

theorem isBreak_of_mem_ownLine (h : c ∈ ownLine s) : isBreak c = false := by
  have hc := List.mem_rtakeWhile_imp h
  simpa using hc

theorem ownLine_concat_of_isBreak (hc : isBreak c = true) (s : Text) : ownLine (s ++ [c]) = [] :=
  List.rtakeWhile_concat_neg _ s c (by simp [hc])

/-- Text without a line break only makes the line longer. -/
theorem ownLine_append (ht : ∀ c ∈ t, isBreak c = false) (s : Text) :
    ownLine (s ++ t) = ownLine s ++ t := by
  induction t using List.reverseRecOn with
  | nil => simp
  | append_singleton t c ih =>
    have hc : isBreak c = false := ht c (by simp)
    have hrest : ∀ d ∈ t, isBreak d = false := fun d hd => ht d (by simp [hd])
    rw [← List.append_assoc, ownLine, List.rtakeWhile_concat_pos _ _ _ (by simp [hc]), ← ownLine,
      ih hrest, List.append_assoc]

/-- Text with a line break holds the whole line. -/
theorem ownLine_append_of_any (ht : t.any isBreak = true) (s : Text) :
    ownLine (s ++ t) = ownLine t := by
  induction t using List.reverseRecOn with
  | nil => simp at ht
  | append_singleton t c ih =>
    cases hc : isBreak c with
    | true => rw [← List.append_assoc, ownLine_concat_of_isBreak hc, ownLine_concat_of_isBreak hc]
    | false =>
      have hone : ∀ d ∈ [c], isBreak d = false := by simpa using hc
      have hrest : t.any isBreak = true := by simpa [hc] using ht
      rw [← List.append_assoc, ownLine_append hone, ownLine_append hone, ih hrest]

theorem ownLine_suffix (s : Text) : ownLine s <:+ s := List.rtakeWhile_suffix _ s

end Text

/-! ### One piece -/

namespace Piece.Fits

variable (hf : p.Fits lineStart behind)
include hf

theorem margin_eq_lastLine (he : p.elided = true) :
    p.margin = Text.lastLine (p.text ++ p.margin) := by
  have hm := hf.margin_eq
  rw [if_pos he, hf.line_eq] at hm
  exact hm

theorem text_eq_earlierLines (he : p.elided = true) :
    p.text = Text.earlierLines (p.text ++ p.margin) := by
  have hk := hf.kept_tag
  rw [Tag.kept, hf.elided_tag, if_pos he] at hk
  exact hk.symm

theorem elided_of_mem_margin (hc : c ∈ p.margin) : p.elided = true := by
  by_contra he
  have hm := hf.margin_eq
  rw [if_neg he] at hm
  rw [hm] at hc
  cases hc

theorem return_mem_margin_iff : '\r' ∈ p.margin ↔ p.elided = true ∧
    ∃ u v, p.text ++ p.margin = u ++ '\r' :: v ∧ '\n' ∉ v := by
  constructor
  · intro hr
    obtain ⟨u, v, huv⟩ := List.append_of_mem hr
    have hv : '\n' ∉ v := fun hv => (hf.margin_blank '\n' (by simp [huv, hv])).2 rfl
    refine ⟨hf.elided_of_mem_margin hr, p.text ++ u, v, ?_, hv⟩
    rw [huv, List.append_assoc]
  · rintro ⟨he, u, v, huv, hv⟩
    have hline : '\n' ∉ '\r' :: v := by simpa using hv
    rw [hf.margin_eq_lastLine he, huv, Text.lastLine_append_of_not_mem u hline]
    simp

/-- A line that goes has an end, or the text ends with it. -/
theorem ending_cases (he : p.elided = true) :
    (∃ x c, p.ending = x ++ [c] ∧ Text.isBreak c = true) ∨ p.ending = [] ∧ behind = [] := by
  have hstand := (Bool.and_eq_true_iff.1 he).2
  rw [hf.line_eq, Tag.standalone_line, Bool.and_eq_true] at hstand
  have hend := hf.ending_eq
  rw [if_pos he] at hend
  have hmem := hf.ending_mem
  simp only [List.mem_cons, List.not_mem_nil, or_false] at hmem
  rcases hmem with hm | hm | hm | hm
  · right
    have hnone : (Text.dropBreak? (p.ending ++ behind)).isSome = false :=
      Text.leadingBreak_eq_nil_iff.1 (hend.symm.trans hm)
    have hafter := hstand.2
    rw [show (p.tag behind).after = p.ending ++ behind from rfl, hnone, Bool.or_false] at hafter
    refine ⟨hm, ?_⟩
    simpa [hm] using hafter
  · exact .inl ⟨[], '\n', hm, rfl⟩
  · exact .inl ⟨['\r'], '\n', hm, rfl⟩
  · exact .inl ⟨[], '\r', hm, rfl⟩

/-- If nothing stands between the tag before it and the tag's line, a line starts for the scan. -/
theorem lineStart_of_text_nil (he : p.elided = true) (htext : p.text = [])
    (hbreak : ∀ c ∈ p.margin, Text.isBreak c = false) : lineStart = true := by
  have hfirst := (Bool.and_eq_true_iff.1 he).2
  rw [hf.line_eq] at hfirst
  simp only [LineInfo.standalone, Tag.line, Piece.tag, htext, List.nil_append,
    Bool.and_eq_true, Bool.or_eq_true, List.any_eq_true] at hfirst
  obtain ⟨⟨⟨hany, -⟩, -⟩, -⟩ := hfirst
  rcases hany with hstart | ⟨c, hc, hcb⟩
  · exact hstart
  · rw [hbreak c hc] at hcb
    cases hcb

omit hf in
/-- Where no line break stands before it, the piece does not start with one. -/
theorem head?_source_of_text_nil (hp : p.pair.Solid) (htext : p.text = [])
    (hbreak : ∀ c ∈ p.margin, Text.isBreak c = false) (behind : Text) :
    (p.source ++ behind).head?.all Text.isBreak = false := by
  obtain ⟨c, tail, hc, hs⟩ := p.source_eq hp behind
  rw [hs, htext, List.nil_append]
  cases hm : p.margin with
  | nil => simpa using Text.isBreak_of_not_blank hc
  | cons d m => simpa using hbreak d (by simp [hm])

variable (h : StartsLine done lineStart (p.source ++ behind)) (hp : p.pair.Solid)
include h hp

/-- A tag that takes no CR along takes its own line. -/
theorem ownLine_of_not_mem (he : p.elided = true) (hr : '\r' ∉ p.margin) :
    Text.ownLine (done ++ (p.text ++ p.margin)) = p.margin := by
  have hbreak : ∀ c ∈ p.margin, Text.isBreak c = false := by
    intro c hc
    have hn : c ≠ '\n' := (hf.margin_blank c hc).2
    have hcr : c ≠ '\r' := fun hcr => hr (hcr ▸ hc)
    simp [Text.isBreak, hn, hcr]
  suffices hdone : Text.ownLine (done ++ p.text) = [] by
    rw [← List.append_assoc, Text.ownLine_append hbreak, hdone, List.nil_append]
  have hwhole : Text.WholeLines p.text := by
    rw [hf.text_eq_earlierLines he]
    exact Text.wholeLines_earlierLines _
  rcases Text.wholeLines_iff.1 hwhole with htext | ⟨x, htext⟩
  · have hhead := head?_source_of_text_nil hp htext hbreak behind
    rw [htext, List.append_nil]
    rcases h (hf.lineStart_of_text_nil he htext hbreak) with hline | hall
    · exact hline
    · rw [hhead] at hall
      cases hall
  · rw [htext, ← List.append_assoc]
    exact Text.ownLine_concat_of_isBreak rfl _

theorem spares : p.Spares (done ++ (p.text ++ p.margin)) where
  newline_not_mem := fun hn => (hf.margin_blank '\n' hn).2 rfl
  return_mem_iff := hf.return_mem_margin_iff
  ownLine_suffix he := by
    by_cases hr : '\r' ∈ p.margin
    · have hany : p.margin.any Text.isBreak = true := List.any_eq_true.2 ⟨'\r', hr, rfl⟩
      rw [← List.append_assoc, Text.ownLine_append_of_any hany]
      exact Text.ownLine_suffix _
    · rw [hf.ownLine_of_not_mem h hp he hr]
  margin_eq_iff he := by
    constructor
    · intro heq hr
      rw [heq] at hr
      exact absurd (Text.isBreak_of_mem_ownLine hr) (by decide)
    · exact fun hr => (hf.ownLine_of_not_mem h hp he hr).symm

omit hp in
/-- A piece leads from a place where the scan is right about the start of a line to another one. -/
theorem startsLine : StartsLine (done ++ p.source) (p.endsLine behind) behind := by
  intro hstart
  cases he : p.elided with
  | true =>
    rcases hf.ending_cases he with ⟨x, c, hend, hc⟩ | ⟨-, hbehind⟩
    · left
      rw [Piece.source, hend, ← List.append_assoc, ← List.append_assoc]
      exact Text.ownLine_concat_of_isBreak hc _
    · exact .inr (by simp [hbehind])
  | false =>
    right
    have hend : p.ending = [] := by
      have hend := hf.ending_eq
      rwa [he, if_neg Bool.false_ne_true] at hend
    have hbreak : (Text.dropBreak? behind).isSome = true := by
      rw [Piece.endsLine, he, hend, List.nil_append, Text.decide_leadingBreak_ne_nil,
        Bool.false_or] at hstart
      exact hstart
    rw [Text.isSome_dropBreak?] at hbreak
    cases behind with
    | nil => rfl
    | cons c behind => exact hbreak

end Piece.Fits

/-! ### All pieces -/

theorem startsLine_nil (rest : Text) : StartsLine [] true rest := fun _ => .inl rfl

theorem Laid.spares (hl : Laid lineStart pair ps last) (hp : pair.Solid)
    (h : StartsLine done lineStart (sourceOf ps last)) :
    ∀ front p back, ps = front ++ p :: back →
      p.Spares (done ++ (front.flatMap Piece.source ++ (p.text ++ p.margin))) := by
  induction ps generalizing done lineStart pair with
  | nil =>
    intro front p back he
    simp at he
  | cons q ps ih =>
    obtain ⟨rfl, hf, hl⟩ := hl
    have hs : sourceOf (q :: ps) last = q.source ++ sourceOf ps last := by simp [sourceOf]
    rw [hs] at h
    intro front p back he
    cases front with
    | nil =>
      obtain ⟨rfl, rfl⟩ := List.cons_eq_cons.1 he
      exact hf.spares h hp
    | cons r front =>
      obtain ⟨rfl, rfl⟩ := List.cons_eq_cons.1 he
      have hlater := ih hl (hf.solid_nextPair hp) (hf.startsLine h) front p back rfl
      simpa using hlater

/-- A CR that goes with a tag stands alone in the template. -/
theorem Laid.not_mem_margin (hl : Laid lineStart pair ps last) (hp : pair.Solid)
    (ht : Text.NoLoneReturn (sourceOf ps last)) : ∀ p ∈ ps, '\r' ∉ p.margin := by
  induction ps generalizing lineStart pair with
  | nil => simp
  | cons q ps ih =>
    obtain ⟨rfl, hf, hl⟩ := hl
    have hs : sourceOf (q :: ps) last = q.source ++ sourceOf ps last := by simp [sourceOf]
    rw [hs] at ht
    intro p hmem
    rcases List.mem_cons.1 hmem with rfl | hmem
    · intro hr
      obtain ⟨-, u, v, huv, hv⟩ := hf.return_mem_margin_iff.1 hr
      obtain ⟨c, tail, hc, hsource⟩ := p.source_eq hp (sourceOf ps last)
      rw [hsource, huv] at ht
      have hhead := ht u (v ++ c :: tail) (by simp)
      cases v with
      | nil =>
        obtain rfl : c = '\n' := by simpa using hhead
        exact absurd hc (by decide)
      | cons d v =>
        obtain rfl : d = '\n' := by simpa using hhead
        exact hv List.mem_cons_self
    · exact ih hl (hf.solid_nextPair hp) ht.of_append p hmem

/-- **Earlier lines of the template**: read with markers free of blanks, a tag that takes its line
along takes what stands before it on that line.  It takes no LF, and the end of an earlier line only
if that is a CR with no LF between it and the tag, which is a lone one. -/
theorem tokenize_spares {template : Text} {pair : Delimiter} {tokens : List Token}
    (hp : pair.Solid) (h : (tokenize template pair).outcome = .ok tokens) :
    ∃ ps last, sourceOf ps last = template ∧ Laid true pair ps last ∧
      tokensOf true ps last = tokens ∧
      (∀ front p back, ps = front ++ p :: back →
        p.Spares (front.flatMap Piece.source ++ (p.text ++ p.margin))) ∧
      (Text.NoLoneReturn template → ∀ p ∈ ps, '\r' ∉ p.margin) := by
  obtain ⟨ps, last, hs, hl, htok⟩ := outcome_scan_eq_ok_iff_laid.1 h
  have hs : sourceOf ps last = template := hs
  refine ⟨ps, last, hs, hl, htok, ?_, ?_⟩
  · intro front p back he
    have hspares := hl.spares hp (startsLine_nil (sourceOf ps last)) front p back he
    rwa [List.nil_append] at hspares
  · intro ht
    rw [← hs] at ht
    exact hl.not_mem_margin hp ht

/-- A comment behind a line that ends with CR, and one behind a blank line that does. -/
theorem tokenize_spares_blankLine :
    ∃ ps last, sourceOf ps last = "{{!x}}\r {{!y}}\r\n\t\r {{!z}}".toList ∧
      Laid true .braces ps last ∧
      tokensOf true ps last =
        [{ symbol := .comment "x".toList,
           line := { breakAfter := true, firstOnLine := true, lastOnLine := true } },
          { symbol := .comment "y".toList,
            line := { preceding := " ".toList, breakAfter := true, firstOnLine := true,
                      lastOnLine := true } },
          { symbol := .comment "z".toList,
            line := { preceding := "\t\r ".toList, firstOnLine := true, lastOnLine := true,
                      atEnd := true } }] ∧
      (∀ front p back, ps = front ++ p :: back →
        p.Spares (front.flatMap Piece.source ++ (p.text ++ p.margin))) ∧
      (Text.NoLoneReturn "{{!x}}\r {{!y}}\r\n\t\r {{!z}}".toList →
        ∀ p ∈ ps, '\r' ∉ p.margin) :=
  tokenize_spares Delimiter.solid_braces (by decide +kernel)

/-- A field on a line that ends with CR, and a comment on the next one: the comment takes the end of
the field's line along, and has no other text before it. -/
theorem tokenize_takes_return : ∃ tokens, (tokenize "{{a}}\r{{!c}}\rb".toList).outcome = .ok tokens ∧
    tokens.map Token.symbol =
      [.field "a".toList true, .comment "c".toList, .text "b".toList] ∧
    ∃ t ∈ tokens, t.symbol = .comment "c".toList ∧ t.line.standalone = true ∧
      t.line.preceding = ['\r'] := by
  refine ⟨_, (by decide +kernel : (tokenize "{{a}}\r{{!c}}\rb".toList).outcome = .ok
    [{ symbol := .field "a".toList true,
       line := { breakAfter := true, firstOnLine := true, lastOnLine := true } },
      { symbol := .comment "c".toList,
        line := { preceding := ['\r'], breakAfter := true, firstOnLine := true,
                  lastOnLine := true } },
      { symbol := .text "b".toList,
        line := { firstOnLine := true, lastOnLine := true, atEnd := true } }]), rfl, ?_⟩
  exact ⟨_, List.mem_cons_of_mem _ List.mem_cons_self, rfl, rfl, rfl⟩

end Mustache
