import Mustache.Proofs.Template.Passage

/-!
# Templates in other markers

What a scan gives depends on the markers only as far as it finds the tags by them.  A line at the
start of a template that puts a pair in force is the same as reading what comes behind it with that
pair (`tokenize_header`).  And texts and tags woven together with one pair give the tokens that they
give with any other, as long as both can be told from the texts and the tags (`tokenize_weave`).
-/

namespace Mustache

open Cursor

/-! ### Definitions -/

/-- The content of the tag that puts a pair in force. -/
def Delimiter.changeTo (pair : Delimiter) : Text :=
  '=' :: (pair.opening ++ ' ' :: pair.closing ++ ['='])

/-- The line that puts a pair in force, written in double braces. -/
def Delimiter.header (pair : Delimiter) : Text :=
  braces.opening ++ pair.changeTo ++ braces.closing ++ ['\n']

/-- A text, and behind it tags, written in the given markers, each with a text behind it. -/
def weave (pair : Delimiter) (text : Text) (tags : List (Text × Text)) : Text :=
  text ++ tags.flatMap fun t => pair.opening ++ t.1 ++ pair.closing ++ t.2

/-- The markers can be told from the texts and the tags: the texts do not hold the first character of
the opening marker, and the tags not that of the closing one. -/
structure Delimiter.Told (pair : Delimiter) (text : Text) (tags : List (Text × Text)) : Prop where
  opening : ∀ c ∈ pair.opening.head?, ∀ s ∈ text :: tags.map Prod.snd, c ∉ s
  closing : ∀ c ∈ pair.closing.head?, ∀ s ∈ tags.map Prod.fst, c ∉ s

/-- What is left of the text behind a tag, if the tag takes the end of its line along or if not. -/
def remainder (elided : Bool) (u : Text) : Text :=
  if elided then (Text.dropBreak? u).getD u else u

variable {pair p q : Delimiter} {text content : Text} {tags : List (Text × Text)} {c d : Char}
  {s u v w : Text} {lineStart : Bool}

/-! ### A line that puts a pair in force -/

theorem ofChange_changeTo (hp : pair.Solid) : Delimiter.ofChange pair.changeTo = .ok pair := by
  have hw : Text.words (Text.dropEnding ['='] pair.changeTo.tail) =
      [pair.opening, pair.closing] := by
    rw [Delimiter.changeTo, List.tail_cons, Text.dropEnding_append]
    exact Text.words_pair (by decide) pair.opening_ne_nil pair.closing_ne_nil hp.opening hp.closing
  unfold Delimiter.ofChange
  rw [hw]
  exact Delimiter.ofMarkers_of_ne_nil pair.opening_ne_nil pair.closing_ne_nil

/-- The line is read as one tag, if no closing braces stand in the markers it names. -/
theorem cutTag_header (ho : ¬ Delimiter.braces.closing <:+: pair.opening)
    (hc : ¬ Delimiter.braces.closing <:+: pair.closing) (r : Text) :
    cutTag .braces (pair.header ++ r) = .tag ⟨[], pair.changeTo, '\n' :: r, false⟩ := by
  have hin : ¬ Delimiter.braces.closing <:+: '=' :: (pair.opening ++ ' ' :: pair.closing) := by
    rw [← List.nil_append ('=' :: _), Text.infix_append_cons_iff (by decide), not_or,
      Text.infix_append_cons_iff (by decide), not_or]
    exact ⟨by decide, ho, hc⟩
  refine cutTag_eq_tag_iff.2 ⟨?_, Text.clear_nil _, ?_, by simp [Delimiter.changeTo]⟩
  · simp [Delimiter.header, Tag.brace]
  · exact Text.clear_concat (by decide) hin

/-- **A header is the pair it names.**  Behind a line that puts a pair in force, a template gives the
tokens, or the fault, that it gives when it is read with that pair. -/
theorem tokenize_header (hp : pair.Solid) (ho : ¬ Delimiter.braces.closing <:+: pair.opening)
    (hc : ¬ Delimiter.braces.closing <:+: pair.closing) (r : Text) :
    (tokenize (pair.header ++ r)).outcome = (tokenize r pair).outcome := by
  let t : Tag := ⟨[], pair.changeTo, '\n' :: r, false⟩
  have helided : t.elided true = true := by
    unfold Tag.elided
    rw [Tag.standalone_line]
    rfl
  have hpast : past { rest := pair.header ++ r } t (.change pair) =
      { rest := r, delimiter := pair } := by
    simp only [past, Tag.rest, Tag.endsLine, helided]
    rfl
  have htokens : tagTokens { rest := pair.header ++ r } t (.change pair) = [] := by
    simp only [tagTokens, Tag.kept, helided]
    rfl
  have hmeans : t.meaning = .ok (.change pair) := by
    show (Delimiter.ofChange pair.changeTo).map Meaning.change = _
    rw [ofChange_changeTo hp]
    rfl
  show (scan { rest := pair.header ++ r }).outcome = _
  rw [outcome_scan_of_tag (cutTag_header ho hc r), hmeans, Except.bind, hpast, htokens]
  exact Outcome.map_id _

/-- Markers with equals signs of their own, and a template that changes them once more. -/
theorem tokenize_header_signs :
    (tokenize ("{{==| |==}}\n".toList ++ " =|#x|=\n=|=<% %>=|=<%y%>".toList)).outcome = .ok
      [{ symbol := .sectionOpen "x".toList false,
         line := { preceding := [' '], breakAfter := true, firstOnLine := true,
                   lastOnLine := true } },
        { symbol := .field "y".toList true, line := { lastOnLine := true, atEnd := true } }] :=
  (tokenize_header
    (⟨by simp [Text.isBlank, Text.blankRanges], by simp [Text.isBlank, Text.blankRanges]⟩ :
      Delimiter.Solid ⟨['=', '|'], ['|', '='], by decide, by decide⟩)
    (by decide) (by decide) " =|#x|=\n=|=<% %>=|=<%y%>".toList).trans (by decide +kernel)

/-! ### Texts and tags, woven together -/

@[simp] theorem weave_nil (pair : Delimiter) (text : Text) : weave pair text [] = text := by
  simp [weave]

theorem weave_cons (pair : Delimiter) (text content u : Text) (tags : List (Text × Text)) :
    weave pair text ((content, u) :: tags) =
      text ++ pair.opening ++ content ++ pair.closing ++ weave pair u tags := by
  simp [weave]

/-- Behind its first text a weave ends, or goes on with a character that is not blank. -/
theorem weave_eq (hp : pair.Solid) (tags : List (Text × Text)) :
    tags = [] ∨ ∃ c v, Text.isBlank c = false ∧ ∀ u, weave pair u tags = u ++ c :: v := by
  cases tags with
  | nil => exact .inl rfl
  | cons t tags =>
    obtain ⟨c, o, ho⟩ := List.exists_cons_of_ne_nil pair.opening_ne_nil
    refine .inr ⟨c, o ++ t.1 ++ pair.closing ++ weave pair t.2 tags, ?_, fun u => ?_⟩
    · exact hp.opening c (by simp [ho])
    · rw [weave_cons, ho]
      simp

theorem dropBreak?_weave (hp : pair.Solid) (u : Text) (tags : List (Text × Text)) :
    Text.dropBreak? (weave pair u tags) =
      (Text.dropBreak? u).map fun v => weave pair v tags := by
  rcases weave_eq hp tags with rfl | ⟨c, v, hc, hw⟩
  · simp
  · simp only [hw, Text.dropBreak?_append_cons (Text.isBreak_of_not_blank hc)]

/-- What comes behind a character that is not blank, and which one it is, has no say in the line of a
tag before it. -/
theorem line_append_cons (hc : Text.isBlank c = false) (hd : Text.isBlank d = false)
    (before content u v w : Text) (triple lineStart : Bool) :
    (Tag.mk before content (u ++ c :: v) triple).line lineStart =
      (Tag.mk before content (u ++ d :: w) triple).line lineStart := by
  have hci : Tag.isInnerBlank c = false := by simp [Tag.isInnerBlank, hc]
  have hdi : Tag.isInnerBlank d = false := by simp [Tag.isInnerBlank, hd]
  have hcb := Text.isBreak_of_not_blank hc
  have hdb := Text.isBreak_of_not_blank hd
  have hlast : ((u.dropWhile Tag.isInnerBlank) ++ c :: v).head?.all Text.isBreak =
      ((u.dropWhile Tag.isInnerBlank) ++ d :: w).head?.all Text.isBreak := by
    cases u.dropWhile Tag.isInnerBlank with
    | nil => simp [hcb, hdb]
    | cons e u => rfl
  have hempty : (u ++ c :: v).isEmpty = (u ++ d :: w).isEmpty := by cases u <;> rfl
  simp only [Tag.line, Text.takeWhile_append_of_neg hci, Text.takeWhile_append_of_neg hdi,
    Text.dropWhile_append_of_neg hci, Text.dropWhile_append_of_neg hdi, hlast,
    Text.dropBreak?_append_cons hcb, Text.dropBreak?_append_cons hdb, Option.isSome_map, hempty]

theorem line_weave (hp : p.Solid) (hq : q.Solid) (before content u : Text)
    (tags : List (Text × Text)) (triple lineStart : Bool) :
    (Tag.mk before content (weave p u tags) triple).line lineStart =
      (Tag.mk before content (weave q u tags) triple).line lineStart := by
  rcases weave_eq hp tags with rfl | ⟨c, v, hc, hv⟩
  · simp
  · rcases weave_eq hq tags with rfl | ⟨d, w, hd, hw⟩
    · simp
    · rw [hv, hw]
      exact line_append_cons hc hd before content u v w triple lineStart

theorem remainder_suffix (elided : Bool) (u : Text) : remainder elided u <:+ u := by
  unfold remainder
  split
  · exact ⟨Text.leadingBreak u, Text.leadingBreak_append_dropBreak? u⟩
  · exact List.suffix_refl u

theorem rest_weave (hp : pair.Solid) (before content u : Text) (tags : List (Text × Text))
    (triple lineStart : Bool) :
    (Tag.mk before content (weave pair u tags) triple).rest lineStart = weave pair
      (remainder ((Tag.mk before content (weave pair u tags) triple).elided lineStart) u) tags := by
  unfold Tag.rest remainder
  rw [dropBreak?_weave hp]
  split
  · cases Text.dropBreak? u <;> rfl
  · rfl

namespace Delimiter.Told

theorem tail (h : pair.Told text ((content, u) :: tags)) (hv : v <:+ u) : pair.Told v tags where
  opening c hc s hs := by
    rcases List.mem_cons.1 hs with rfl | hs
    · intro hcv
      exact h.opening c hc u (by simp) (hv.subset hcv)
    · exact h.opening c hc s (by simp [hs])
  closing c hc s hs := h.closing c hc s (by simp [hs])

theorem cutTag_nil (h : pair.Told text []) : cutTag pair text = .plain := by
  have hclear := Text.clear_of_head? pair.opening_ne_nil fun c hc => h.opening c hc text (by simp)
  exact cutTag_eq_plain_iff.2 (hclear.not_infix pair.opening_ne_nil)

/-- The first tag of a weave is read as it was woven, unless it takes up a third brace. -/
theorem cutTag_cons (h : pair.Told text ((content, u) :: tags)) (hc : content.head? ≠ some '{') :
    cutTag pair (weave pair text ((content, u) :: tags)) =
      .tag ⟨text, content, weave pair u tags, false⟩ := by
  refine cutTag_eq_tag_iff.2 ⟨?_, ?_, ?_, by simp [hc]⟩
  · rw [weave_cons]
    simp [Tag.brace]
  · exact Text.clear_of_head? pair.opening_ne_nil fun c hc => h.opening c hc text (by simp)
  · exact Text.clear_of_head? pair.closing_ne_nil fun c hc => h.closing c hc content (by simp)

end Delimiter.Told

/-- One step over a weave: the tag, and then the weave of what is left of the text behind it. -/
theorem outcome_scan_weave_cons (hp : pair.Solid) (h : pair.Told text ((content, u) :: tags))
    (hc : content.head? ≠ some '{') {t : Tag} (ht : t = ⟨text, content, weave pair u tags, false⟩)
    {m : Meaning} (hm : t.meaning = .ok m) (hchange : m.change? = none) (lineStart : Bool) :
    (scan ⟨weave pair text ((content, u) :: tags), lineStart, pair⟩).outcome =
      (scan ⟨weave pair (remainder (t.elided lineStart) u) tags, t.endsLine lineStart, pair⟩).outcome.map
        ((textTokens (t.kept lineStart) lineStart ++
          m.symbol?.toList.map (⟨·, t.line lineStart⟩)) ++ ·) := by
  subst ht
  rw [outcome_scan_of_tag (h.cutTag_cons hc), hm, Except.bind, past, rest_weave hp, hchange]
  rfl

/-- Two weaves of the same texts and tags leave the same tokens. -/
theorem scan_weave (hp : p.Solid) (hq : q.Solid) (htp : p.Told text tags) (htq : q.Told text tags)
    (ht : ∀ t ∈ tags.map Prod.fst, t.head? ≠ some '=' ∧ t.head? ≠ some '{') (lineStart : Bool) :
    ∃ tokens, (scan ⟨weave p text tags, lineStart, p⟩).outcome = .ok tokens ∧
      (scan ⟨weave q text tags, lineStart, q⟩).outcome = .ok tokens := by
  induction tags generalizing text lineStart with
  | nil =>
    rw [weave_nil, weave_nil]
    exact ⟨_, outcome_scan_of_plain htp.cutTag_nil, outcome_scan_of_plain htq.cutTag_nil⟩
  | cons t tags ih =>
    obtain ⟨content, u⟩ := t
    obtain ⟨hne, hnb⟩ := ht content (by simp)
    let tp : Tag := ⟨text, content, weave p u tags, false⟩
    let tq : Tag := ⟨text, content, weave q u tags, false⟩
    obtain ⟨m, hm, hchange⟩ := Tag.meaning_of_head? (t := tp) hne
    -- the tags differ in what comes behind them, and their lines do not see it
    have hline : tp.line lineStart = tq.line lineStart :=
      line_weave hp hq text content u tags false lineStart
    have helided : tp.elided lineStart = tq.elided lineStart :=
      congrArg (fun line => tp.isStructural && LineInfo.standalone line) hline
    have hkept : tp.kept lineStart = tq.kept lineStart := by
      rw [Tag.kept, helided]
      rfl
    have hends : tp.endsLine lineStart = tq.endsLine lineStart := by
      have hbreak : (Text.dropBreak? tp.after).isSome = (Text.dropBreak? tq.after).isSome :=
        congrArg LineInfo.breakAfter hline
      rw [Tag.endsLine, helided, hbreak]
      rfl
    have hrest := remainder_suffix (tq.elided lineStart) u
    obtain ⟨later, h1, h2⟩ := ih (htp.tail hrest) (htq.tail hrest)
      (fun s hs => ht s (by simp [hs])) (tq.endsLine lineStart)
    let front := textTokens (tq.kept lineStart) lineStart ++
      m.symbol?.toList.map (⟨·, tq.line lineStart⟩)
    refine ⟨front ++ later, ?_, ?_⟩
    · rw [outcome_scan_weave_cons hp htp hnb rfl hm hchange, hline, hkept, helided, hends, h1]
      rfl
    · rw [outcome_scan_weave_cons hq htq hnb rfl hm hchange, h2]
      rfl

/-- **Markers can be renamed.**  Texts and tags, written with markers that can be told from both, give
tokens, and the same ones with their lines whichever of the two pairs they are written and read with;
no tag may put other markers in force or start with a brace. -/
theorem tokenize_weave (hp : p.Solid) (hq : q.Solid) (htp : p.Told text tags)
    (htq : q.Told text tags)
    (ht : ∀ t ∈ tags.map Prod.fst, t.head? ≠ some '=' ∧ t.head? ≠ some '{') :
    ∃ tokens, (tokenize (weave p text tags) p).outcome = .ok tokens ∧
      (tokenize (weave q text tags) q).outcome = .ok tokens :=
  scan_weave hp hq htp htq ht true

/-- A section, an empty tag and a comment over two lines, in braces and in a pair of one letter. -/
theorem tokenize_weave_braces :
    let other : Delimiter := ⟨['<'], ['>', '>'], by decide, by decide⟩
    let tags := [("#x".toList, "\r\n".toList), ([], " b\n\t".toList), ("!c\nd".toList, []),
      ("/x".toList, [])]
    ∃ tokens, (tokenize (weave .braces "a\n ".toList tags) .braces).outcome = .ok tokens ∧
      (tokenize (weave other "a\n ".toList tags) other).outcome = .ok tokens :=
  tokenize_weave Delimiter.solid_braces
    ⟨by simp [Text.isBlank, Text.blankRanges], by simp [Text.isBlank, Text.blankRanges]⟩
    ⟨by simp [Delimiter.braces], by simp [Delimiter.braces]⟩ ⟨by simp, by simp⟩ (by simp)

end Mustache
