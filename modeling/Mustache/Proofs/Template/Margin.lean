import Mathlib.Data.List.Chain
import Mustache.Proofs.Template.Build
import Mustache.Proofs.Template.Passage

/-!
# Margins of closing tags

The scan takes the margin of a closing tag's line along, and so nothing is left of it when the tree
is built.  This needs an argument, since the last text of a section's body may stand on an earlier
line: an empty tag and a change of markers leave no token between that text and the closing tag.
`Cursor.Clean` says what the scan has left behind at every place, each tag keeps it (`Clean.step`),
and so the tokens of a scan build without any trimming (`isChain_of_scan`,
`trimmedBody_of_isChain`).
-/

namespace Mustache

open Cursor

/-! ### Definitions -/

/-- A text that stands right before a closing tag with its line for itself ends with a line, and the
tag's margin holds no end of a line. -/
def Token.Apart (t u : Token) : Prop :=
  ∀ content name, t.symbol = .text content → u.symbol = .sectionClose name →
    u.line.standalone = true → content.getLast? = some '\n' ∧ '\n' ∉ u.line.preceding

/-- If the last of the tokens is a text, then it ends with a line. -/
def EndsLine (ts : List Token) : Prop :=
  ∀ t ∈ ts.getLast?, ∀ content, t.symbol = .text content → content.getLast? = some '\n'

/-- A scan that stands at `c` has left texts and closing tags apart, and the text last left, if any,
ends with a line where the scan stands at the start of one. -/
structure Cursor.Clean (c : Cursor) (done : List Token) : Prop where
  apart : done.IsChain Token.Apart
  endsLine : c.lineStart = true → c.rest.head?.any Text.isBreak = false → EndsLine done

variable {t u : Token} {ts us done rest : List Token} {s : Split} {c d : Cursor} {tag : Tag}
  {m : Meaning} {stops : List Stop} {name : Text}

/-! ### Building without trimming -/

theorem apart_of_not_close (h : ∀ name, u.symbol ≠ .sectionClose name) (t : Token) : t.Apart u :=
  fun _ name _ hu => absurd hu (h name)

theorem apart_of_not_text (h : ∀ content, t.symbol ≠ .text content) (u : Token) : t.Apart u :=
  fun content _ ht => absurd ht (h content)

/-- Tokens that close no section keep texts and closing tags apart. -/
theorem isChain_append_of_not_close (h : ts.IsChain Token.Apart)
    (hus : ∀ u ∈ us, ∀ name, u.symbol ≠ .sectionClose name) : (ts ++ us).IsChain Token.Apart := by
  have hall : us.IsChain Token.Apart := by
    induction us with
    | nil => exact List.isChain_nil
    | cons u us ih =>
      refine List.isChain_cons.2 ⟨fun v hv => ?_, ih fun v hv => hus v (by simp [hv])⟩
      exact apart_of_not_close (hus v (by simp [List.mem_of_mem_head? hv])) u
  exact h.append hall fun t _ u hu => apart_of_not_close (hus u (List.mem_of_mem_head? hu)) t

theorem not_close_of_mem_textTokens {k : Text} {lineStart : Bool} (hu : u ∈ textTokens k lineStart)
    (name : Text) : u.symbol ≠ .sectionClose name := by
  unfold textTokens at hu
  split at hu
  · cases hu
  · obtain rfl := List.mem_singleton.1 hu
    simp

theorem not_close_of_mem_endTokens (hu : u ∈ c.endTokens) (name : Text) :
    u.symbol ≠ .sectionClose name := by
  unfold endTokens at hu
  split at hu
  · cases hu
  · obtain rfl := List.mem_singleton.1 hu
    simp [lastToken]

theorem isLeaf_of_isTextOf {k : Text} (h : IsTextOf k ts) : ∀ t ∈ ts, t.isLeaf := by
  intro t ht
  rcases h with ⟨-, rfl⟩ | ⟨line, rfl⟩
  · cases ht
  · obtain rfl := List.mem_singleton.1 ht
    exact ⟨by simp, by simp⟩

/-- Both parts of a cut keep texts and closing tags apart. -/
theorem isChain_of_splitClose (hs : splitClose name 0 rest = some s)
    (h : rest.IsChain Token.Apart) : s.body.IsChain Token.Apart ∧ s.after.IsChain Token.Apart := by
  obtain ⟨⟨close, hrest, -, -⟩, -, -⟩ := splitClose_eq_some_iff.1 hs
  rw [hrest, List.isChain_append, List.isChain_cons] at h
  exact ⟨h.1, h.2.1.2⟩

/-- Of texts and closing tags that are apart nothing is trimmed. -/
theorem trimmedBody_of_isChain (hs : splitClose name 0 rest = some s)
    (h : rest.IsChain Token.Apart) : s.trimmedBody = s.body := by
  obtain ⟨⟨close, hrest, hline, hclose⟩, -, -⟩ := splitClose_eq_some_iff.1 hs
  rw [hrest, List.isChain_append] at h
  unfold Split.trimmedBody
  split
  · next hstand =>
    split
    · next content line hlast =>
      obtain ⟨hend, hmargin⟩ := h.2.2 _ hlast close rfl content name rfl
        (closes_eq_true_iff.1 hclose) (hline ▸ hstand.1)
      rw [hline] at hmargin
      -- the margin would end with the end of a line
      have hsuffix : ¬ s.close.preceding <:+ content := by
        rintro ⟨front, hfront⟩
        rw [← hfront, List.getLast?_append_of_ne_nil _ hstand.2] at hend
        exact hmargin (List.mem_of_getLast? hend)
      have hne : content ≠ [] := by
        rintro rfl
        simp at hend
      rw [Text.dropEnding_of_not_suffix hsuffix]
      simp only [if_neg hne]
      exact List.dropLast_append_getLast? _ hlast
    · rfl
  · rfl

/-- **A section is its body**, if texts and closing tags are apart. -/
theorem build_block_of_isChain {inverted : Bool} (ht : t.symbol = .sectionOpen name inverted)
    (hs : splitClose name 0 rest = some s) (h : rest.IsChain Token.Apart) :
    build (t :: rest) = (build s.body).bind fun children =>
      (build s.after).map (.block name inverted children :: ·) := by
  rw [build_block_trimmed ht hs, trimmedBody_of_isChain hs h]

/-! ### One tag -/

theorem rest_past_suffix (h : cutTag c.delimiter c.rest = .tag tag) (m : Meaning) :
    (c.past tag m).rest <:+ c.rest := by
  obtain ⟨hrest, -, -, -⟩ := cutTag_eq_tag_iff.1 h
  have hafter : tag.rest c.lineStart <:+ tag.after :=
    ⟨tag.ending c.lineStart, tag.ending_append_rest c.lineStart⟩
  rw [hrest]
  exact hafter.trans (List.suffix_append _ _)

/-- The end of the text before a tag holds CR only with LF behind it. -/
theorem any_isBreak_of_suffix {k : Text} (h : cutTag c.delimiter c.rest = .tag tag)
    (hp : c.delimiter.Solid) (hr : Text.NoLoneReturn c.rest) (hk : k <:+ tag.before)
    (hb : '\n' ∉ k) : k.any Text.isBreak = false := by
  obtain ⟨hrest, -, -, -⟩ := cutTag_eq_tag_iff.1 h
  obtain ⟨o, opening, ho⟩ := List.exists_cons_of_ne_nil c.delimiter.opening_ne_nil
  obtain ⟨front, hfront⟩ := hk
  have hon : o ≠ '\n' := by
    rintro rfl
    exact hp.newline_not_mem_opening (by simp [ho])
  have hlone : Text.NoLoneReturn (front ++ (k ++ o :: (opening ++ tag.content ++
      c.delimiter.closing ++ tag.brace ++ tag.after))) := by
    rw [hrest, ho, ← hfront] at hr
    simpa using hr
  rw [← Bool.not_eq_true]
  intro hany
  exact hb (hlone.mem_of_any_isBreak hon hany)

/-- A tag with only blanks before it on its line, and with no end of a line before it, stands on a
line that starts where the scan stands. -/
theorem lineStart_of_firstOnLine (h : cutTag c.delimiter c.rest = .tag tag)
    (hp : c.delimiter.Solid) (hr : Text.NoLoneReturn c.rest)
    (hfirst : (tag.line c.lineStart).firstOnLine = true) (hb : '\n' ∉ tag.before) :
    c.lineStart = true ∧ c.rest.head?.any Text.isBreak = false := by
  have hbefore := any_isBreak_of_suffix h hp hr (List.suffix_refl tag.before) hb
  refine ⟨?_, ?_⟩
  · simp only [Tag.line, hbefore, Bool.or_false, Bool.and_eq_true] at hfirst
    exact hfirst.1
  · obtain ⟨hrest, -, -, -⟩ := cutTag_eq_tag_iff.1 h
    obtain ⟨o, opening, ho⟩ := List.exists_cons_of_ne_nil c.delimiter.opening_ne_nil
    rw [hrest, ho]
    cases hbe : tag.before with
    | nil => exact Text.isBreak_of_not_blank (hp.opening o (by simp [ho]))
    | cons d before =>
      rw [hbe] at hbefore
      simpa using (List.any_eq_false.1 hbefore) d (by simp)

theorem firstOnLine_of_elided (he : tag.elided c.lineStart = true) :
    (tag.line c.lineStart).firstOnLine = true := by
  simp only [Tag.elided, LineInfo.standalone, Bool.and_eq_true] at he
  exact he.2.1.1

/-- A scan that takes nothing along stands at the start of a line only right before its end. -/
theorem elided_of_past (hls : (c.past tag m).lineStart = true)
    (hhead : (c.past tag m).rest.head?.any Text.isBreak = false) :
    tag.elided c.lineStart = true := by
  by_contra he
  have hrest : (c.past tag m).rest = tag.after := if_neg he
  have hbreak : (Text.dropBreak? tag.after).isSome = true := by
    simpa [past, Tag.endsLine, he] using hls
  rw [hrest, ← Text.isSome_dropBreak?, hbreak] at hhead
  cases hhead

namespace Cursor.Clean

theorem nil (c : Cursor) : c.Clean [] := ⟨List.isChain_nil, fun _ _ => by simp [EndsLine]⟩

variable (h : c.Clean done) (hcut : cutTag c.delimiter c.rest = .tag tag)
  (hp : c.delimiter.Solid) (hr : Text.NoLoneReturn c.rest)
include h hcut hp hr

/-- A text before a tag that takes its line along ends with a line, be it the one that the tag
leaves or one before it. -/
theorem endsLine_of_elided (he : tag.elided c.lineStart = true) :
    EndsLine (done ++ textTokens (tag.kept c.lineStart) c.lineStart) := by
  have hkept : tag.kept c.lineStart = Text.earlierLines tag.before := if_pos he
  rw [hkept]
  unfold textTokens
  split
  · next hnil =>
    obtain ⟨hls, hhead⟩ := lineStart_of_firstOnLine hcut hp hr (firstOnLine_of_elided he)
      (Text.earlierLines_eq_nil_iff.1 hnil)
    rw [List.append_nil]
    exact h.endsLine hls hhead
  · next hne =>
    intro t ht content hcontent
    rw [List.getLast?_append_of_ne_nil _ (by simp)] at ht
    obtain rfl : _ = t := by simpa using ht
    obtain rfl : _ = content := by simpa using hcontent
    exact Text.getLast?_earlierLines hne

/-- **One tag** keeps texts and closing tags apart. -/
theorem step (hm : tag.meaning = .ok m) : (c.past tag m).Clean (done ++ c.tagTokens tag m) := by
  have htext : (done ++ textTokens (tag.kept c.lineStart) c.lineStart).IsChain Token.Apart :=
    isChain_append_of_not_close h.apart fun u hu => not_close_of_mem_textTokens hu
  unfold tagTokens
  cases hsym : m.symbol? with
  | none =>
    simp only [Option.toList_none, List.map_nil, List.append_nil]
    exact ⟨htext, fun hls hhead =>
      h.endsLine_of_elided hcut hp hr (elided_of_past hls hhead)⟩
  | some sym =>
    simp only [Option.toList_some, List.map_cons, List.map_nil, ← List.append_assoc]
    constructor
    case apart =>
      refine htext.append (List.isChain_singleton _) fun t ht u hu => ?_
      obtain rfl : _ = u := by simpa using hu
      intro content name hcontent hclose hstand
      have hstruct : tag.isStructural = true := by
        rcases Tag.symbol?_cases hm hsym with ⟨n, e, rfl⟩ | ⟨hstruct, -⟩
        · cases hclose
        · exact hstruct
      have he : tag.elided c.lineStart = true := by
        rw [Tag.elided, hstruct, Bool.true_and]
        exact hstand
      exact ⟨h.endsLine_of_elided hcut hp hr he t ht content hcontent, Text.not_mem_lastLine _⟩
    case endsLine =>
      intro _ _ t ht content hcontent
      obtain rfl : _ = t := by simpa using ht
      rcases Tag.symbol?_cases hm hsym with ⟨n, e, rfl⟩ | ⟨-, hne⟩
      · cases hcontent
      · exact absurd hcontent (hne content)

end Cursor.Clean

/-! ### All tags -/

/-- **A scan leaves nothing to trim**: on its way it keeps texts and closing tags apart. -/
theorem Passes.clean (hpass : Passes c stops d) (hp : c.delimiter.Solid)
    (hr : Text.NoLoneReturn c.rest) (h : c.Clean done) :
    d.Clean (done ++ stops.flatMap Stop.tokens) := by
  induction hpass generalizing done with
  | refl c => simpa using h
  | @step c d t m stops cut means later ih =>
    have hp' := (Passes.step cut means (.refl _)).solid hp
    have hr' : Text.NoLoneReturn (c.past t m).rest := by
      obtain ⟨front, hfront⟩ := rest_past_suffix cut m
      rw [← hfront] at hr
      exact hr.of_append
    have := ih hp' hr' (h.step cut hp hr means)
    rwa [List.append_assoc] at this

/-- Texts and closing tags are apart in the tokens of a text without a lone CR. -/
theorem isChain_of_scan (hp : c.delimiter.Solid) (hr : Text.NoLoneReturn c.rest)
    (h : c.scan.outcome = .ok ts) : ts.IsChain Token.Apart := by
  obtain ⟨stops, d, hpass, -, rfl⟩ := outcome_scan_eq_ok_iff.1 h
  have hclean := hpass.clean hp hr (.nil c)
  exact isChain_append_of_not_close hclean.apart fun u hu => not_close_of_mem_endTokens hu

end Mustache
