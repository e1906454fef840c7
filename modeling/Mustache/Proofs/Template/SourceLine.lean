import Mustache.Proofs.Template.Conservation

/-!
# The line around a tag

A scan looks at the text it has not passed yet, and carries along whether that text starts a line.
In a template without a lone CR, read with markers free of blanks, this is enough to see the tag's
line in the whole template: `Reached` says what the flag means for the text passed so far, each piece
keeps it (`Reached.step`), and so every tag's line is what the whole template says (`AgreesWith`).
-/

namespace Mustache

open Cursor

/-! ### Definitions -/

/-- The line of the piece is what the template says that stands `before` and `behind` its tag. -/
structure Piece.AgreesWith (p : Piece) (before behind : Text) : Prop where
  firstOnLine_iff : p.line.firstOnLine = true ↔
    ∀ c ∈ Text.lastLine before, Text.isBlank c = true
  preceding_eq : p.line.firstOnLine = true → p.line.preceding = Text.lastLine before
  standalone_iff : p.line.standalone = true ↔
    p.line.firstOnLine = true ∧ (behind = [] ∨ ['\n'] <+: behind ∨ ['\r', '\n'] <+: behind)
  /-- What goes with the tag is all that stands before it on its line, and the line's end. -/
  whole_line : p.elided = true → p.margin = Text.lastLine before ∧
    (p.ending = ['\n'] ∨ p.ending = ['\r', '\n'] ∨ p.ending = [] ∧ behind = [])

/-- A scan that has passed `done` and has `rest` left knows whether a line starts: if so, it stands
at a line's start or right before a line's end, and if not, the line it stands in is not blank. -/
structure Reached (done : Text) (lineStart : Bool) (rest : Text) : Prop where
  starts : lineStart = true → Text.lastLine done = [] ∨ rest.head?.all Text.isBreak = true
  inside : lineStart = false → ∃ c ∈ Text.lastLine done, Text.isBlank c = false

variable {p : Piece} {ps : List Piece} {pair : Delimiter} {done rest pre tail behind last : Text}
  {lineStart : Bool} {c : Char}

theorem reached_nil (rest : Text) : Reached [] true rest :=
  ⟨fun _ => .inl rfl, fun h => by simp at h⟩

/-! ### The text before a tag -/

namespace Reached

/-- If a line starts before the tag, the text since the last tag shows all of the tag's line. -/
theorem lastLine_eq (h : Reached done lineStart (pre ++ c :: tail)) (hc : Text.isBlank c = false)
    (ht : Text.NoLoneReturn (done ++ (pre ++ c :: tail)))
    (hs : (lineStart || pre.any Text.isBreak) = true) :
    Text.lastLine (done ++ pre) = Text.lastLine pre := by
  have hcn : c ≠ '\n' := by
    rintro rfl
    exact absurd hc (by decide)
  by_cases hn : '\n' ∈ pre
  · exact Text.lastLine_append_of_mem done hn
  · have ha : pre.any Text.isBreak = false := by
      rw [← Bool.not_eq_true]
      exact fun ha => hn (ht.mem_of_any_isBreak hcn ha)
    rw [Text.lastLine_append_of_not_mem done hn, Text.lastLine_of_not_mem hn]
    rcases h.starts (by simpa [ha] using hs) with hd | hd
    · rw [hd, List.nil_append]
    · -- the line break that is left to be scanned would have to stand in `pre`
      exfalso
      cases pre with
      | nil => simp [Text.isBlank_of_isBreak (by simpa using hd)] at hc
      | cons d pre => simp [show Text.isBreak d = true by simpa using hd] at ha

theorem exists_not_blank (h : Reached done lineStart (pre ++ c :: tail))
    (hs : (lineStart || pre.any Text.isBreak) = false) :
    ∃ d ∈ Text.lastLine (done ++ pre), Text.isBlank d = false := by
  obtain ⟨hl, ha⟩ := Bool.or_eq_false_iff.1 hs
  have hn : '\n' ∉ pre := fun hn => by
    rw [List.any_eq_false] at ha
    exact ha _ hn rfl
  obtain ⟨d, hd, hb⟩ := h.inside hl
  rw [Text.lastLine_append_of_not_mem done hn]
  exact ⟨d, List.mem_append_left _ hd, hb⟩

end Reached

/-! ### One piece -/

theorem Piece.source_eq (p : Piece) (hp : p.pair.Solid) (behind : Text) :
    ∃ c tail, Text.isBlank c = false ∧
      p.source ++ behind = p.text ++ p.margin ++ c :: tail := by
  obtain ⟨c, o, ho⟩ := List.exists_cons_of_ne_nil p.pair.opening_ne_nil
  exact ⟨c, o ++ p.content ++ p.pair.closing ++ p.brace ++ p.ending ++ behind,
    hp.opening c (by simp [ho]), by simp [source, written, ho]⟩

section OnePiece

variable (h : Reached done lineStart (p.source ++ behind)) (hf : p.Fits lineStart behind)
  (hp : p.pair.Solid) (ht : Text.NoLoneReturn (done ++ (p.source ++ behind)))
include h hf hp ht

theorem Reached.agreesWith :
    p.AgreesWith (done ++ (p.text ++ p.margin)) (p.ending ++ behind) := by
  obtain ⟨c, tail, hc, hs⟩ := p.source_eq hp behind
  rw [hs] at h ht
  have hline := hf.line_eq
  have hfirst : p.line.firstOnLine =
      ((lineStart || (p.text ++ p.margin).any Text.isBreak) &&
        (Text.lastLine (p.text ++ p.margin)).all Text.isBlank) := by
    rw [hline]
    rfl
  have hpre : p.line.firstOnLine = true →
      p.line.preceding = Text.lastLine (done ++ (p.text ++ p.margin)) := by
    intro hl
    rw [hfirst, Bool.and_eq_true] at hl
    rw [h.lastLine_eq hc ht hl.1, hline]
    rfl
  have hstand : p.line.standalone = true ↔ p.line.firstOnLine = true ∧
      (p.ending ++ behind = [] ∨ (Text.dropBreak? (p.ending ++ behind)).isSome = true) := by
    rw [hline, Tag.standalone_line]
    simp [Piece.tag]
  have hreturn : Text.NoLoneReturn (done ++ (p.text ++ p.margin ++ p.written) ++
      (p.ending ++ behind)) := by
    rw [← hs] at ht
    simpa [Piece.source] using ht
  constructor
  case firstOnLine_iff =>
    rw [hfirst]
    cases hst : lineStart || (p.text ++ p.margin).any Text.isBreak with
    | true => rw [Bool.true_and, List.all_eq_true, h.lastLine_eq hc ht hst]
    | false =>
      obtain ⟨d, hd, hb⟩ := h.exists_not_blank hst
      simp only [Bool.false_and, Bool.false_eq_true, false_iff]
      exact fun hall => by simp [hall d hd] at hb
  case preceding_eq => exact hpre
  case standalone_iff => rw [hstand, hreturn.isSome_dropBreak?_iff]
  case whole_line =>
    intro he
    have hst : p.line.standalone = true := (Bool.and_eq_true_iff.1 he).2
    obtain ⟨h1, h2⟩ := hstand.1 hst
    refine ⟨(hf.margin_eq.trans (if_pos he)).trans (hpre h1), ?_⟩
    have hend := hf.ending_eq
    rw [if_pos he] at hend
    have hm := hreturn.leadingBreak_mem
    rw [← hend] at hm
    simp only [List.mem_cons, List.not_mem_nil, or_false] at hm
    rcases hm with hm | hm | hm
    · have hn := Text.leadingBreak_eq_nil_iff.1 (hend.symm.trans hm)
      rw [hn, hm] at h2
      exact .inr (.inr ⟨hm, by simpa [hm] using h2⟩)
    · exact .inl hm
    · exact .inr (.inl hm)

/-- A piece leads from a place that the scan knows right to another one. -/
theorem Reached.step : Reached (done ++ p.source) (p.endsLine behind) behind := by
  have ha := h.agreesWith hf hp ht
  cases he : p.elided with
  | true =>
    refine ⟨fun _ => ?_, fun hl => by simp [Piece.endsLine, he] at hl⟩
    rcases (ha.whole_line he).2 with hm | hm | ⟨hm, hb⟩
    · left
      rw [Piece.source, hm, ← List.append_assoc, Text.lastLine_append_break]
      rfl
    · left
      rw [Piece.source, hm, ← List.append_assoc,
        show ['\r', '\n'] = ['\r'] ++ ['\n'] from rfl, ← List.append_assoc,
        Text.lastLine_append_break]
      rfl
    · right
      rw [hm, List.nil_append] at hb
      simp [hb]
  | false =>
    have hend : p.ending = [] := by simpa [he] using hf.ending_eq
    refine ⟨fun hl => .inr ?_, fun _ => ?_⟩
    · have hb : (Text.dropBreak? behind).isSome = true := by
        rw [← Text.decide_leadingBreak_ne_nil]
        simpa [Piece.endsLine, he, hend] using hl
      rw [Text.isSome_dropBreak?] at hb
      cases behind with
      | nil => simp at hb
      | cons d behind => simpa using hb
    · -- the closing marker stands on the line that is reached
      obtain ⟨c, o, ho⟩ := List.exists_cons_of_ne_nil p.pair.closing_ne_nil
      have hn : '\n' ∉ p.pair.closing ++ p.brace := by
        unfold Piece.brace
        split <;> simp [hp.newline_not_mem_closing]
      refine ⟨c, ?_, hp.closing c (by simp [ho])⟩
      have hsrc : done ++ p.source = done ++ (p.text ++ p.margin ++ (p.pair.opening ++ p.content)) ++
          (p.pair.closing ++ p.brace) := by
        simp [Piece.source, Piece.written, hend]
      rw [hsrc, Text.lastLine_append_of_not_mem _ hn]
      simp [ho]

end OnePiece

/-! ### All pieces -/

theorem Piece.Fits.solid_nextPair (hf : p.Fits lineStart behind) (hp : p.pair.Solid) :
    p.nextPair.Solid := by
  unfold nextPair
  cases hm : p.meaning.change? with
  | none => exact hp
  | some pair => exact Tag.solid_of_change? hf.meaning_eq hm

theorem Laid.agreesWith (hl : Laid lineStart pair ps last) (hp : pair.Solid)
    (ht : Text.NoLoneReturn (done ++ sourceOf ps last))
    (h : Reached done lineStart (sourceOf ps last)) :
    ∀ front p back, ps = front ++ p :: back →
      p.AgreesWith (done ++ (front.flatMap Piece.source ++ (p.text ++ p.margin)))
        (p.ending ++ sourceOf back last) := by
  induction ps generalizing done lineStart pair with
  | nil =>
    intro front p back he
    simp at he
  | cons q ps ih =>
    obtain ⟨rfl, hf, hl⟩ := hl
    have hs : sourceOf (q :: ps) last = q.source ++ sourceOf ps last := by simp [sourceOf]
    rw [hs] at ht h
    intro front p back he
    cases front with
    | nil =>
      obtain ⟨rfl, rfl⟩ := List.cons_eq_cons.1 he
      exact h.agreesWith hf hp ht
    | cons r front =>
      obtain ⟨rfl, rfl⟩ := List.cons_eq_cons.1 he
      have := ih hl (hf.solid_nextPair hp) (by simpa using ht) (h.step hf hp ht) front p back rfl
      simpa using this

/-- **Lines of the template**: in a template without a lone CR, read with markers free of blanks,
every token that is no text comes from a piece whose line is what the whole template says about the
place of its tag; and what a tag takes along is its whole line, the end of the line included. -/
theorem tokenize_line_agrees {template : Text} {pair : Delimiter} {tokens : List Token}
    (ht : Text.NoLoneReturn template) (hp : pair.Solid)
    (h : (tokenize template pair).outcome = .ok tokens) :
    ∃ ps last, sourceOf ps last = template ∧ Laid true pair ps last ∧
      tokensOf true ps last = tokens ∧
      ∀ front p back, ps = front ++ p :: back →
        p.AgreesWith (front.flatMap Piece.source ++ (p.text ++ p.margin))
          (p.ending ++ sourceOf back last) := by
  obtain ⟨ps, last, hs, hl, htok⟩ := outcome_scan_eq_ok_iff_laid.1 h
  have hs : sourceOf ps last = template := hs
  have ht : Text.NoLoneReturn ([] ++ sourceOf ps last) := by rwa [List.nil_append, hs]
  exact ⟨ps, last, hs, hl, htok, hl.agreesWith hp ht (reached_nil _)⟩

/-- An opening tag on a line of its own, and two tags that share the next one. -/
theorem tokenize_line_agrees_shared_line :
    ∃ ps last, sourceOf ps last = "a\r\n \t{{#x}}\r\n {{!c}}{{y}}".toList ∧
      Laid true .braces ps last ∧
      tokensOf true ps last =
        [{ symbol := .text "a\r\n".toList, line := { firstOnLine := true } },
          { symbol := .sectionOpen "x".toList false,
            line := { preceding := " \t".toList, breakAfter := true, firstOnLine := true,
                      lastOnLine := true } },
          { symbol := .text " ".toList, line := { firstOnLine := true } },
          { symbol := .comment "c".toList,
            line := { preceding := " ".toList, firstOnLine := true } },
          { symbol := .field "y".toList true, line := { lastOnLine := true, atEnd := true } }] ∧
      ∀ front p back, ps = front ++ p :: back →
        p.AgreesWith (front.flatMap Piece.source ++ (p.text ++ p.margin))
          (p.ending ++ sourceOf back last) :=
  tokenize_line_agrees (by simp [Text.noLoneReturn_cons_iff, Text.noLoneReturn_nil])
    Delimiter.solid_braces (by decide +kernel)

end Mustache
