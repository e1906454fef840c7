import Mathlib.Data.List.Infix
import Mustache.Proofs.Outcome
import Mustache.Proofs.Text.Lines
import Mustache.Proofs.Text.Marker
import Mustache.Template.Tag

/-!
# Tags in a longer text

What `cutTag` finds is settled by the text up to the end of the tag (`cutTag_eq_tag_iff`).  So text
that comes behind whole lines changes no tag of those lines, nor what the tag takes along
(`cutTag_append_right`, `Tag.line_extend`); and whole lines without a tag come out again in front of
the first tag of the text behind them (`cutTag_append_left`, `Tag.line_lead`).
-/

namespace Mustache

open Tag

/-! ### Definitions -/

/-- Neither marker holds a blank. -/
structure Delimiter.Solid (pair : Delimiter) : Prop where
  opening : ∀ c ∈ pair.opening, Text.isBlank c = false
  closing : ∀ c ∈ pair.closing, Text.isBlank c = false

namespace Tag

/-- The third closing brace of a tag in three braces. -/
def brace (t : Tag) : Text := if t.triple then ['}'] else []

/-- The blanks before the tag that go with the tag's line. -/
def margin (t : Tag) (lineStart : Bool) : Text :=
  if t.elided lineStart then Text.lastLine t.before else []

/-- The line break behind the tag that goes with the tag's line. -/
def ending (t : Tag) (lineStart : Bool) : Text :=
  if t.elided lineStart then Text.leadingBreak t.after else []

/-- The words in a change of markers. -/
def markerWords (t : Tag) : List Text := Text.words (Text.dropEnding ['='] t.content.tail)

/-- The tag with more text behind it. -/
def extend (t : Tag) (b : Text) : Tag := { t with after := t.after ++ b }

/-- The tag with more text in front of it. -/
def lead (x : Text) (t : Tag) : Tag := { t with before := x ++ t.before }

end Tag

/-- The same cut with more text in front of the tag. -/
def Cut.lead (x : Text) : Cut → Cut
  | .tag t => .tag (t.lead x)
  | cut => cut

/-! ### Markers without blanks -/

namespace Delimiter

theorem solid_braces : braces.Solid where
  opening c hc := by
    obtain rfl : c = '{' := by simpa [braces] using hc
    decide
  closing c hc := by
    obtain rfl : c = '}' := by simpa [braces] using hc
    decide

theorem solid_of_ofChange {content : Text} {pair : Delimiter} (h : ofChange content = .ok pair) :
    pair.Solid := by
  unfold ofChange at h
  split at h
  · next opening closing hw =>
    have hb := fun w (hm : w ∈ [opening, closing]) => Text.not_blank_of_mem_words (hw ▸ hm)
    unfold ofMarkers at h
    split at h
    · cases h
      exact ⟨hb opening (by simp), hb closing (by simp)⟩
    · cases h
  · cases h

variable {pair : Delimiter}

theorem Solid.newline_not_mem_opening (h : pair.Solid) : '\n' ∉ pair.opening := fun hn =>
  absurd (h.opening _ hn) (by decide)

theorem Solid.newline_not_mem_closing (h : pair.Solid) : '\n' ∉ pair.closing := fun hn =>
  absurd (h.closing _ hn) (by decide)

end Delimiter

/-! ### Cuts -/

variable {pair : Delimiter} {s x : Text} {t : Tag}

theorem cutTag_eq_plain_iff : cutTag pair s = .plain ↔ ¬ pair.opening <:+: s := by
  rw [← Text.breakOn_eq_none_iff]
  unfold cutTag
  cases Text.breakOn pair.opening s with
  | none => simp
  | some p =>
    simp only [reduceCtorEq, iff_false]
    split
    · simp
    · split <;> simp

/-- An opening marker is left without a closing one exactly if none stands behind the first opening
marker. -/
theorem cutTag_eq_unclosed_iff : cutTag pair s = .unclosed ↔ ∃ before body,
    s = before ++ pair.opening ++ body ∧ Text.Clear pair.opening before ∧
      ¬ pair.closing <:+: body := by
  constructor
  · intro h
    unfold cutTag at h
    split at h
    · cases h
    · next before body hb =>
      obtain ⟨hs, hclear⟩ := Text.breakOn_eq_some_iff.1 hb
      split at h
      · next hc => exact ⟨before, body, hs, hclear, Text.breakOn_eq_none_iff.1 hc⟩
      · split at h <;> cases h
  · rintro ⟨before, body, rfl, hclear, hc⟩
    have hb : Text.breakOn pair.opening (before ++ pair.opening ++ body) = some (before, body) :=
      Text.breakOn_of_clear hclear
    unfold cutTag
    simp only [hb, Text.breakOn_eq_none_iff.2 hc]

/-- **The first tag of a text**: the text before it is clear of the opening marker, its content is
clear of the closing one, and it is a triple exactly in double braces, with a brace at the front of
its content and one behind it. -/
theorem cutTag_eq_tag_iff : cutTag pair s = .tag t ↔
    s = t.before ++ pair.opening ++ t.content ++ pair.closing ++ t.brace ++ t.after ∧
      Text.Clear pair.opening t.before ∧ Text.Clear pair.closing t.content ∧
      (t.triple = true ↔ pair.opening = ['{', '{'] ∧ t.content.head? = some '{' ∧
        (t.brace ++ t.after).head? = some '}') := by
  constructor
  · intro h
    unfold cutTag at h
    split at h
    · cases h
    · next before body hb =>
      split at h
      · cases h
      · next content after hc =>
        obtain ⟨rfl, hbc⟩ := Text.breakOn_eq_some_iff.1 hb
        obtain ⟨rfl, hcc⟩ := Text.breakOn_eq_some_iff.1 hc
        split at h
        · next hd =>
          cases h
          obtain ⟨a, rfl⟩ : ∃ a, after = '}' :: a := by
            obtain ⟨-, -, ha⟩ := hd
            exact ⟨after.tail, (List.cons_head?_tail ha).symm⟩
          exact ⟨by simp [brace], hbc, hcc, by simpa [brace] using hd⟩
        · next hd =>
          cases h
          exact ⟨by simp [brace], hbc, hcc, by simpa [brace] using hd⟩
  · rintro ⟨rfl, hb, hc, ht⟩
    have h1 : Text.breakOn pair.opening
        (t.before ++ pair.opening ++ t.content ++ pair.closing ++ t.brace ++ t.after) =
        some (t.before, t.content ++ pair.closing ++ (t.brace ++ t.after)) := by
      rw [← Text.breakOn_of_clear hb]
      simp
    have h2 : Text.breakOn pair.closing (t.content ++ pair.closing ++ (t.brace ++ t.after)) =
        some (t.content, t.brace ++ t.after) := Text.breakOn_of_clear hc
    obtain ⟨before, content, after, triple⟩ := t
    unfold cutTag
    simp only [h1, h2]
    cases triple with
    | true =>
      rw [if_pos (ht.1 rfl)]
      rfl
    | false =>
      rw [if_neg fun hd => by simpa using ht.2 hd]
      rfl

/-! ### Text behind the tag -/

/-- A tag of whole lines is not their end if its closing marker holds no LF. -/
theorem wholeLines_after (h : cutTag pair s = .tag t) (hp : '\n' ∉ pair.closing)
    (hs : Text.WholeLines s) : ∃ y, t.after = y ++ ['\n'] := by
  obtain ⟨rfl, -, -, -⟩ := cutTag_eq_tag_iff.1 h
  rcases Text.wholeLines_iff.1 hs.of_append with ha | ha
  · -- the text would end with the closing marker or a brace
    exfalso
    have he : Text.WholeLines (pair.closing ++ t.brace) := by
      refine Text.WholeLines.of_append (s := t.before ++ pair.opening ++ t.content) ?_
      simpa [ha] using hs
    have hn : '\n' ∉ pair.closing ++ t.brace := by
      unfold brace
      split <;> simp [hp]
    rcases Text.wholeLines_iff.1 he with he | ⟨y, he⟩
    · exact pair.closing_ne_nil (List.append_eq_nil_iff.1 he).1
    · exact hn (by simp [he])
  · exact ha

theorem cutTag_append_right (h : cutTag pair s = .tag t) (ha : t.after ≠ []) (b : Text) :
    cutTag pair (s ++ b) = .tag (t.extend b) := by
  obtain ⟨rfl, hb, hc, ht⟩ := cutTag_eq_tag_iff.1 h
  have hh : (t.brace ++ (t.after ++ b)).head? = (t.brace ++ t.after).head? := by
    rw [← List.append_assoc, List.head?_append_of_ne_nil _ (by simp [ha])]
  refine cutTag_eq_tag_iff.2 ⟨List.append_assoc _ t.after b, hb, hc, ?_⟩
  show t.triple = true ↔ pair.opening = ['{', '{'] ∧ t.content.head? = some '{' ∧
    (t.brace ++ (t.after ++ b)).head? = some '}'
  rwa [hh]

/-! ### Text before the tag -/

theorem cutTag_append_left (hp : '\n' ∉ pair.opening) (hx : ¬ pair.opening <:+: x ++ ['\n'])
    (b : Text) : cutTag pair (x ++ '\n' :: b) = (cutTag pair b).lead (x ++ ['\n']) := by
  unfold cutTag
  rw [Text.breakOn_append_left hp hx]
  rcases Text.breakOn pair.opening b with _ | ⟨before, body⟩
  · rfl
  · simp only [Option.map_some]
    rcases Text.breakOn pair.closing body with _ | ⟨content, after⟩
    · rfl
    · dsimp only
      split
      · simp [Cut.lead, lead]
      · simp [Cut.lead, lead]

namespace Tag

theorem kept_append_margin (t : Tag) (lineStart : Bool) :
    t.kept lineStart ++ t.margin lineStart = t.before := by
  unfold kept margin
  split
  · exact Text.earlierLines_append_lastLine _
  · simp

theorem ending_append_rest (t : Tag) (lineStart : Bool) :
    t.ending lineStart ++ t.rest lineStart = t.after := by
  unfold ending rest
  split
  · exact Text.leadingBreak_append_dropBreak? _
  · simp

/-- A break or the end of the text right behind the tag is all that its standing alone asks of what
comes behind it. -/
theorem standalone_line (t : Tag) (lineStart : Bool) : (t.line lineStart).standalone =
    ((t.line lineStart).firstOnLine && (t.after.isEmpty || (Text.dropBreak? t.after).isSome)) := by
  have hb : ∀ c s, t.after = c :: s → Text.isBreak c = true →
      (t.line lineStart).lastOnLine = true := by
    intro c s h hc
    simp [line, h, isInnerBlank, hc]
  cases h : t.after with
  | nil => simp [LineInfo.standalone, line, h]
  | cons c s =>
    cases hc : Text.isBreak c with
    | true =>
      rw [LineInfo.standalone, hb c s h hc]
      simp [line, h]
    | false => simp [LineInfo.standalone, line, h, Text.isSome_dropBreak?, hc]

theorem line_lead (t : Tag) (x : Text) (lineStart : Bool) :
    (t.lead (x ++ ['\n'])).line lineStart = t.line true := by
  simp [line, lead, Text.lastLine_append_break, Text.isBreak]

theorem line_extend (t : Tag) (b : Text) (lineStart : Bool) (h : ∃ y, t.after = y ++ ['\n']) :
    (t.extend b).line lineStart = t.line lineStart := by
  obtain ⟨y, hy⟩ := h
  have hn : isInnerBlank '\n' = false := by decide
  have ha : y ++ ['\n'] ++ b = y ++ '\n' :: b := by simp
  have hh : ((y.dropWhile isInnerBlank) ++ '\n' :: b).head? =
      ((y.dropWhile isInnerBlank) ++ ['\n']).head? := by
    cases y.dropWhile isInnerBlank <;> rfl
  have he : (y ++ ['\n'] ++ b).isEmpty = (y ++ ['\n']).isEmpty := by cases y <;> rfl
  simp only [line, extend, hy, Text.dropBreak?_append, Option.isSome_map, he]
  simp only [ha, Text.takeWhile_append_of_neg hn, Text.dropWhile_append_of_neg hn, hh]

theorem kept_extend (t : Tag) (b : Text) (lineStart : Bool) (h : ∃ y, t.after = y ++ ['\n']) :
    (t.extend b).kept lineStart = t.kept lineStart := by
  unfold kept elided
  rw [line_extend t b lineStart h]
  rfl

theorem dropBreak?_extend (t : Tag) (b : Text) (h : ∃ y, t.after = y ++ ['\n']) :
    Text.dropBreak? (t.extend b).after = (Text.dropBreak? t.after).map fun u => u ++ b := by
  obtain ⟨y, hy⟩ := h
  simp only [extend, hy, Text.dropBreak?_append]

theorem rest_extend (t : Tag) (b : Text) (lineStart : Bool) (h : ∃ y, t.after = y ++ ['\n']) :
    (t.extend b).rest lineStart = t.rest lineStart ++ b := by
  unfold rest elided
  rw [line_extend t b lineStart h, dropBreak?_extend t b h]
  show (if (t.isStructural && (t.line lineStart).standalone) = true then _ else t.after ++ b) = _
  split
  · cases Text.dropBreak? t.after <;> rfl
  · rfl

theorem endsLine_extend (t : Tag) (b : Text) (lineStart : Bool) (h : ∃ y, t.after = y ++ ['\n']) :
    (t.extend b).endsLine lineStart = t.endsLine lineStart := by
  unfold endsLine elided
  rw [line_extend t b lineStart h, dropBreak?_extend t b h, Option.isSome_map]
  rfl

/-! ### What the tag takes along, with text in front -/

theorem elided_lead (t : Tag) (x : Text) (lineStart : Bool) :
    (t.lead (x ++ ['\n'])).elided lineStart = t.elided true := by
  unfold elided
  rw [line_lead]
  rfl

theorem kept_lead (t : Tag) (x : Text) (lineStart : Bool) :
    (t.lead (x ++ ['\n'])).kept lineStart = x ++ ['\n'] ++ t.kept true := by
  unfold kept
  rw [elided_lead]
  split
  · simp [lead, Text.earlierLines_append_break]
  · rfl

theorem rest_lead (t : Tag) (x : Text) (lineStart : Bool) :
    (t.lead (x ++ ['\n'])).rest lineStart = t.rest true := by
  unfold rest
  rw [elided_lead]
  rfl

theorem endsLine_lead (t : Tag) (x : Text) (lineStart : Bool) :
    (t.lead (x ++ ['\n'])).endsLine lineStart = t.endsLine true := by
  unfold endsLine
  rw [elided_lead]
  rfl

/-! ### What the tag means -/

/-- Only an empty tag and a change of markers leave no symbol behind. -/
theorem symbol?_eq_none_iff {m : Meaning} (h : t.meaning = .ok m) :
    m.symbol? = none ↔ t.content = [] ∨ t.content.head? = some '=' := by
  unfold meaning at h
  split at h
  · next hc =>
    cases h
    simp [hc, Meaning.symbol?]
  · next hc =>
    obtain ⟨pair, -, rfl⟩ := Outcome.map_eq_ok_iff.1 h
    simp [hc, Meaning.symbol?]
  iterate 6
    next hc =>
      cases h
      simp [hc, Meaning.symbol?]
  · next c rest hn _ _ _ _ _ _ hc =>
    have hn : c ≠ '=' := hn
    split at h <;> cases h <;> simp [hc, hn, Meaning.symbol?]

/-- A symbol is a field, or comes from a tag that may take its line along; no tag means a text. -/
theorem symbol?_cases {m : Meaning} {sym : Symbol} (h : t.meaning = .ok m)
    (hs : m.symbol? = some sym) : (∃ name escaped, sym = .field name escaped) ∨
      t.isStructural = true ∧ ∀ content, sym ≠ .text content := by
  unfold meaning at h
  split at h
  · cases h
    cases hs
  · obtain ⟨pair, -, rfl⟩ := Outcome.map_eq_ok_iff.1 h
    cases hs
  iterate 5
    next hc =>
      cases h
      cases hs
      exact .inr ⟨by simp [isStructural, hc, sigils], by simp⟩
  · cases h
    cases hs
    exact .inl ⟨_, _, rfl⟩
  · split at h <;> cases h <;> cases hs <;> exact .inl ⟨_, _, rfl⟩

/-- A field whose markup is not escaped comes from a tag with an ampersand, or in three braces. -/
theorem head?_of_field_false {m : Meaning} {name : Text} (h : t.meaning = .ok m)
    (hs : m.symbol? = some (.field name false)) :
    t.content.head? = some '&' ∨ t.content.head? = some '{' ∧ t.triple = true := by
  unfold meaning at h
  split at h
  · cases h
    cases hs
  · obtain ⟨pair, -, rfl⟩ := Outcome.map_eq_ok_iff.1 h
    cases hs
  iterate 5
    cases h
    cases hs
  · next hc => exact .inl (by rw [hc, List.head?_cons])
  · next hc =>
    split at h
    · next hbrace => exact .inr ⟨by rw [hc, hbrace.1, List.head?_cons], hbrace.2⟩
    · cases h
      cases hs

/-- A tag that does not start with an equals sign means something, and leaves the markers alone. -/
theorem meaning_of_head? (h : t.content.head? ≠ some '=') :
    ∃ m, t.meaning = .ok m ∧ m.change? = none := by
  unfold meaning
  split
  · exact ⟨_, rfl, rfl⟩
  · next hc => simp [hc] at h
  iterate 6 exact ⟨_, rfl, rfl⟩
  · split <;> exact ⟨_, rfl, rfl⟩

theorem meaning_of_sign (h : t.content.head? = some '=') :
    t.meaning = (Delimiter.ofChange t.content).map .change := by
  obtain ⟨rest, hcontent⟩ := List.head?_eq_some_iff.1 h
  simp only [meaning, hcontent]

/-- **Two words are markers**: neither is empty, and neither holds a blank. -/
theorem meaning_of_markerWords {opening closing : Text} (h : t.content.head? = some '=')
    (hw : t.markerWords = [opening, closing]) : ∃ p : Delimiter,
      Delimiter.ofMarkers opening closing = .ok p ∧ p.Solid ∧ t.meaning = .ok (.change p) := by
  have hmem : ∀ w ∈ [opening, closing], w ∈ t.markerWords := fun w hmem => hw ▸ hmem
  have ho : opening ≠ [] := Text.ne_nil_of_mem_words (hmem opening (by simp))
  have hc : closing ≠ [] := Text.ne_nil_of_mem_words (hmem closing (by simp))
  have hpair := Delimiter.ofMarkers_of_ne_nil ho hc
  have hchange : Delimiter.ofChange t.content = .ok ⟨opening, closing, ho, hc⟩ := by
    rw [Delimiter.ofChange]
    rw [markerWords] at hw
    simp only [hw, hpair]
  refine ⟨_, hpair, Delimiter.solid_of_ofChange hchange, ?_⟩
  rw [meaning_of_sign h, hchange]
  rfl

/-- **A tag is refused** only if it is a change of markers and does not name two. -/
theorem meaning_eq_error_iff {e : Error} : t.meaning = .error e ↔
    t.content.head? = some '=' ∧ t.markerWords.length ≠ 2 ∧ e = .badDelimiters t.content := by
  by_cases h : t.content.head? = some '='
  · by_cases hw : t.markerWords.length = 2
    · obtain ⟨opening, closing, hpair⟩ := List.length_eq_two.1 hw
      obtain ⟨p, -, -, hm⟩ := meaning_of_markerWords h hpair
      simp [hm, hw]
    · have hchange : Delimiter.ofChange t.content = .error (.badDelimiters t.content) := by
        rw [Delimiter.ofChange]
        split
        · next opening closing hpair => exact absurd (congrArg List.length hpair) hw
        · rfl
      rw [meaning_of_sign h, Outcome.map_eq_error_iff, hchange]
      simp [h, hw, eq_comm]
  · obtain ⟨m, hm, -⟩ := meaning_of_head? h
    simp [hm, h]

/-- A pair that a tag puts in force is free of blanks. -/
theorem solid_of_change? {m : Meaning} (h : t.meaning = .ok m) (hp : m.change? = some pair) :
    pair.Solid := by
  by_cases hsign : t.content.head? = some '='
  · rw [meaning_of_sign hsign] at h
    obtain ⟨p, hc, rfl⟩ := Outcome.map_eq_ok_iff.1 h
    obtain rfl : p = pair := Option.some.inj hp
    exact Delimiter.solid_of_ofChange hc
  · obtain ⟨m', hm', hnone⟩ := meaning_of_head? hsign
    obtain rfl : m = m' := Except.ok.inj (h.symm.trans hm')
    rw [hnone] at hp
    cases hp

end Tag

end Mustache
