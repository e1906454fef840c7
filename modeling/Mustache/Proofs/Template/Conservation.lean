import Mustache.Proofs.Template.Passage

/-!
# Every character is accounted for

A template that can be scanned is a row of pieces and a last text: each piece is a text, the margin
that goes with its tag's line, the tag as it is written, and the line break that goes with the line.
`Laid` says what makes such a row the one that the scan reads: which markers are in force, that each
marker is the first one, and when a tag takes parts of its line along.  The tokens are then those of
the pieces in order (`tokensOf`), with nothing lost, doubled or moved.
-/

namespace Mustache

open Cursor

/-! ### Definitions -/

/-- A tag in a template, with the text in front of it. -/
structure Piece where
  /-- The text before the tag that stays. -/
  text : Text
  /-- The blanks before the tag that go with its line. -/
  margin : Text
  /-- The markers in force. -/
  pair : Delimiter
  content : Text
  /-- Does the tag stand in three braces? -/
  triple : Bool
  /-- The line break behind the tag that goes with its line. -/
  ending : Text
  meaning : Meaning
  line : LineInfo

namespace Piece

/-- The third closing brace of a tag in three braces. -/
def brace (p : Piece) : Text := if p.triple then ['}'] else []

/-- The tag as it is written. -/
def written (p : Piece) : Text := p.pair.opening ++ p.content ++ p.pair.closing ++ p.brace

/-- The part of the template that the piece takes up. -/
def source (p : Piece) : Text := p.text ++ p.margin ++ p.written ++ p.ending

/-- Does the tag take its line with it? -/
def elided (p : Piece) : Bool := p.content.head?.any Tag.sigils.contains && p.line.standalone

/-- Does a line start behind the piece, with the text `behind` there? -/
def endsLine (p : Piece) (behind : Text) : Bool :=
  p.elided || Text.leadingBreak (p.ending ++ behind) ≠ []

/-- The markers in force behind the piece. -/
def nextPair (p : Piece) : Delimiter := p.meaning.change?.getD p.pair

/-- The tag of the piece, with the text `behind` the piece. -/
def tag (p : Piece) (behind : Text) : Tag :=
  ⟨p.text ++ p.margin, p.content, p.ending ++ behind, p.triple⟩

/-- The piece is what the scan makes of its part of the template, with the text `behind` it. -/
structure Fits (p : Piece) (lineStart : Bool) (behind : Text) : Prop where
  opening_not_in : ¬ p.pair.opening <:+: p.text ++ p.margin
  opening_first : Text.Clear p.pair.opening (p.text ++ p.margin)
  closing_not_in : ¬ p.pair.closing <:+: p.content
  closing_first : Text.Clear p.pair.closing p.content
  /-- The third brace belongs to the tag exactly in three braces. -/
  triple_iff : p.triple = true ↔ p.pair.opening = ['{', '{'] ∧ p.content.head? = some '{' ∧
    (p.brace ++ (p.ending ++ behind)).head? = some '}'
  meaning_eq : (p.tag behind).meaning = .ok p.meaning
  silent_iff : p.meaning.symbol? = none ↔ p.content = [] ∨ p.content.head? = some '='
  line_eq : p.line = (p.tag behind).line lineStart
  margin_blank : ∀ c ∈ p.margin, Text.isBlank c = true ∧ c ≠ '\n'
  ending_mem : p.ending ∈ [[], ['\n'], ['\r', '\n'], ['\r']]
  /-- A tag that takes its line along takes all of it, and any other tag takes nothing. -/
  margin_eq : p.margin = if p.elided then p.line.preceding else []
  ending_eq : p.ending = if p.elided then Text.leadingBreak (p.ending ++ behind) else []

end Piece

/-- The template that the pieces and the text behind them make up. -/
def sourceOf (ps : List Piece) (last : Text) : Text := ps.flatMap Piece.source ++ last

/-- The pieces and the text behind them are what a scan reads from a place where `pair` is in force
and a line starts or not. -/
def Laid : Bool → Delimiter → List Piece → Text → Prop
  | _, pair, [], last => ¬ pair.opening <:+: last
  | lineStart, pair, p :: ps, last =>
    p.pair = pair ∧ p.Fits lineStart (sourceOf ps last) ∧
      Laid (p.endsLine (sourceOf ps last)) p.nextPair ps last

/-- The tokens of the pieces and of the text behind them: each text that is not empty, and the symbol
of each tag that means one. -/
def tokensOf : Bool → List Piece → Text → List Token
  | lineStart, [], last =>
    if last = [] then []
    else [⟨.text last, { firstOnLine := lineStart, lastOnLine := true, atEnd := true }⟩]
  | lineStart, p :: ps, last =>
    textTokens p.text lineStart ++ p.meaning.symbol?.toList.map (⟨·, p.line⟩) ++
      tokensOf (p.endsLine (sourceOf ps last)) ps last

/-- The piece of a stop. -/
def Stop.piece (s : Stop) : Piece where
  text := s.tag.kept s.cursor.lineStart
  margin := s.tag.margin s.cursor.lineStart
  pair := s.cursor.delimiter
  content := s.tag.content
  triple := s.tag.triple
  ending := s.tag.ending s.cursor.lineStart
  meaning := s.meaning
  line := s.tag.line s.cursor.lineStart

variable {c d : Cursor} {t : Tag} {m : Meaning} {stops : List Stop} {ps : List Piece} {p : Piece}
  {last behind : Text} {lineStart : Bool} {tokens : List Token}

/-! ### From the scan to the pieces -/

theorem tag_piece : (Stop.mk c t m).piece.tag (c.past t m).rest = t := by
  simp only [Piece.tag, Stop.piece, past, Tag.kept_append_margin, Tag.ending_append_rest]

/-- What goes in front of a tag is blank. -/
theorem blank_of_mem_margin {x : Char} (hx : x ∈ t.margin lineStart) :
    Text.isBlank x = true ∧ x ≠ '\n' := by
  unfold Tag.margin at hx
  split at hx
  · next he =>
    have hb : (Text.lastLine t.before).all Text.isBlank = true := by
      simp only [Tag.elided, LineInfo.standalone, Tag.line, Bool.and_eq_true] at he
      exact he.2.1.1.2
    refine ⟨List.all_eq_true.1 hb x hx, ?_⟩
    rintro rfl
    exact Text.not_mem_lastLine _ hx
  · cases hx

theorem elided_piece : (Stop.mk c t m).piece.elided = t.elided c.lineStart := rfl

theorem fits_piece (h : cutTag c.delimiter c.rest = .tag t) (hm : t.meaning = .ok m) :
    (Stop.mk c t m).piece.Fits c.lineStart (c.past t m).rest := by
  obtain ⟨-, hb, hc, ht⟩ := cutTag_eq_tag_iff.1 h
  have hbm : (Stop.mk c t m).piece.text ++ (Stop.mk c t m).piece.margin = t.before :=
    t.kept_append_margin c.lineStart
  have hea : (Stop.mk c t m).piece.ending ++ (c.past t m).rest = t.after :=
    t.ending_append_rest c.lineStart
  constructor
  case opening_not_in => exact hbm ▸ hb.not_infix c.delimiter.opening_ne_nil
  case opening_first => exact hbm ▸ hb
  case closing_not_in => exact hc.not_infix c.delimiter.closing_ne_nil
  case closing_first => exact hc
  case triple_iff =>
    rw [hea]
    exact ht
  case meaning_eq =>
    rw [tag_piece]
    exact hm
  case silent_iff => exact Tag.symbol?_eq_none_iff hm
  case line_eq =>
    rw [tag_piece]
    rfl
  case margin_blank => exact fun x hx => blank_of_mem_margin hx
  case ending_mem =>
    show t.ending c.lineStart ∈ _
    unfold Tag.ending
    split
    · exact Text.leadingBreak_mem _
    · simp
  case margin_eq => rfl
  case ending_eq =>
    rw [hea]
    rfl

theorem source_piece_append (h : cutTag c.delimiter c.rest = .tag t) :
    (Stop.mk c t m).piece.source ++ (c.past t m).rest = c.rest := by
  obtain ⟨hs, -, -, -⟩ := cutTag_eq_tag_iff.1 h
  have hbm := t.kept_append_margin c.lineStart
  have hea := t.ending_append_rest c.lineStart
  show t.kept c.lineStart ++ t.margin c.lineStart ++ (c.delimiter.opening ++ t.content ++
    c.delimiter.closing ++ t.brace) ++ t.ending c.lineStart ++ t.rest c.lineStart = c.rest
  rw [hs, hbm, List.append_assoc _ (t.ending _), hea]
  simp only [List.append_assoc]

theorem endsLine_piece : (Stop.mk c t m).piece.endsLine (c.past t m).rest = (c.past t m).lineStart := by
  have hea : (Stop.mk c t m).piece.ending ++ (c.past t m).rest = t.after :=
    t.ending_append_rest c.lineStart
  unfold Piece.endsLine
  rw [elided_piece, hea]
  show _ = (t.elided c.lineStart || (Text.dropBreak? t.after).isSome)
  rw [Text.decide_leadingBreak_ne_nil]

/-- The stops of a passage over all tags give pieces that are laid as the scan reads them. -/
theorem Passes.laid (h : Passes c stops d) (hd : ¬ d.delimiter.opening <:+: d.rest) :
    sourceOf (stops.map Stop.piece) d.rest = c.rest ∧
      Laid c.lineStart c.delimiter (stops.map Stop.piece) d.rest ∧
      tokensOf c.lineStart (stops.map Stop.piece) d.rest =
        stops.flatMap Stop.tokens ++ d.endTokens := by
  induction h with
  | refl c => exact ⟨by simp [sourceOf], hd, rfl⟩
  | @step c d t m stops cut means later ih =>
    obtain ⟨h1, h2, h3⟩ := ih hd
    refine ⟨?_, ⟨rfl, ?_, ?_⟩, ?_⟩
    · rw [← source_piece_append (m := m) cut, ← h1]
      simp [sourceOf]
    · rw [h1]
      exact fits_piece cut means
    · rw [h1, endsLine_piece]
      exact h2
    · simp only [List.map_cons, tokensOf, h1, endsLine_piece, h3, List.flatMap_cons]
      exact (List.append_assoc _ _ _).symm

/-! ### From the pieces to the scan -/

namespace Piece.Fits

variable (h : p.Fits lineStart behind)
include h

theorem cutTag_eq : cutTag p.pair (p.source ++ behind) = .tag (p.tag behind) := by
  refine cutTag_eq_tag_iff.2 ⟨?_, h.opening_first, h.closing_first, h.triple_iff⟩
  show p.text ++ p.margin ++ (p.pair.opening ++ p.content ++ p.pair.closing ++ p.brace) ++
    p.ending ++ behind = p.text ++ p.margin ++ p.pair.opening ++ p.content ++ p.pair.closing ++
      p.brace ++ (p.ending ++ behind)
  simp only [List.append_assoc]

theorem elided_tag : (p.tag behind).elided lineStart = p.elided := by
  rw [elided, h.line_eq]
  rfl

theorem kept_tag : (p.tag behind).kept lineStart = p.text := by
  have hm : (p.tag behind).margin lineStart = p.margin := by
    rw [Tag.margin, h.elided_tag, h.margin_eq, h.line_eq]
    rfl
  have := (p.tag behind).kept_append_margin lineStart
  rw [hm] at this
  exact List.append_cancel_right this

theorem rest_tag : (p.tag behind).rest lineStart = behind := by
  have he : (p.tag behind).ending lineStart = p.ending := by
    rw [Tag.ending, h.elided_tag, h.ending_eq]
    rfl
  have := (p.tag behind).ending_append_rest lineStart
  rw [he] at this
  exact List.append_cancel_left this

theorem endsLine_tag : (p.tag behind).endsLine lineStart = p.endsLine behind := by
  rw [Tag.endsLine, h.elided_tag, Piece.endsLine, Text.decide_leadingBreak_ne_nil]
  rfl

end Piece.Fits

/-- A row of pieces laid as a scan reads them is read so. -/
theorem outcome_scan_of_laid (h : Laid c.lineStart c.delimiter ps last)
    (hs : sourceOf ps last = c.rest) : c.scan.outcome = .ok (tokensOf c.lineStart ps last) := by
  induction ps generalizing c with
  | nil =>
    obtain rfl : last = c.rest := hs
    exact outcome_scan_of_plain (cutTag_eq_plain_iff.2 h)
  | cons p ps ih =>
    obtain ⟨hp, hf, hl⟩ := h
    have hcut : cutTag c.delimiter c.rest = .tag (p.tag (sourceOf ps last)) := by
      rw [← hs, ← hp, ← hf.cutTag_eq]
      simp [sourceOf]
    have hpast : c.past (p.tag (sourceOf ps last)) p.meaning =
        ⟨sourceOf ps last, p.endsLine (sourceOf ps last), p.nextPair⟩ := by
      rw [past, hf.rest_tag, hf.endsLine_tag, Piece.nextPair, hp]
    rw [outcome_scan_of_tag hcut, hf.meaning_eq, Except.bind, hpast, ih hl rfl]
    simp only [Except.map, tagTokens, hf.kept_tag, ← hf.line_eq]
    rfl

/-- **Pieces of a scan**: a scan gives tokens if and only if what is left is a row of pieces laid as
it reads them, and the tokens are those of the pieces. -/
theorem outcome_scan_eq_ok_iff_laid : c.scan.outcome = .ok tokens ↔
    ∃ ps last, sourceOf ps last = c.rest ∧ Laid c.lineStart c.delimiter ps last ∧
      tokensOf c.lineStart ps last = tokens := by
  constructor
  · intro h
    obtain ⟨stops, d, hp, hd, rfl⟩ := outcome_scan_eq_ok_iff.1 h
    obtain ⟨h1, h2, h3⟩ := hp.laid (cutTag_eq_plain_iff.1 hd)
    exact ⟨_, _, h1, h2, h3⟩
  · rintro ⟨ps, last, hs, hl, rfl⟩
    exact outcome_scan_of_laid hl hs

/-- **Conservation of text**: tokens come out of a template exactly when it is a row of pieces, in
order and without a gap, laid as the scan reads them from a line's start with `pair` in force; and
then they are the tokens of the pieces, in order. -/
theorem tokenize_eq_ok_iff (template : Text) (pair : Delimiter) (tokens : List Token) :
    (tokenize template pair).outcome = .ok tokens ↔
      ∃ ps last, sourceOf ps last = template ∧ Laid true pair ps last ∧
        tokensOf true ps last = tokens :=
  outcome_scan_eq_ok_iff_laid (c := { rest := template, delimiter := pair })

end Mustache
