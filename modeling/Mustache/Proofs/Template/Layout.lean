import Mustache.Proofs.Template.Origin
import Mustache.Proofs.Template.Parallel
import Mustache.Proofs.Text.Layout

/-!
# Templates laid out

A layout puts blanks and line breaks at the line breaks of a text.  As long as no tag holds a LF, a
scan of the text laid out meets the same tags (`cutTag_lay`): each takes its line along as before
(`Tag.elided_lay`), and stands behind the margin of its line, if it has the line for itself
(`Tag.preceding_lay`).  `Cursor.Ready` is what the scan needs to know where it stands, and a tag
keeps it (`Ready.past`).  So two layouts of one text are scanned to parallel tokens (`scan_lay`),
and parsed to parallel trees (`parse_lay`).
-/

namespace Mustache

open Cursor Outcome Text

/-! ### Definitions -/

/-- No tag that a scan meets from here on holds a LF. -/
def Cursor.Unbroken (c : Cursor) : Prop := ∀ stops d tag, Passes c stops d →
  cutTag d.delimiter d.rest = .tag tag → '\n' ∉ tag.content

/-- Does no tag from here on hold a LF? -/
def Cursor.holdsUnbroken (c : Cursor) : Bool :=
  match h : cutTag c.delimiter c.rest with
  | .tag t => decide ('\n' ∉ t.content) &&
    match t.meaning with
    | .ok m =>
      have := length_past_lt m h
      holdsUnbroken (c.past t m)
    | .error _ => true
  | _ => true
termination_by c.rest.length

/-- The tag in the text laid out. -/
def Tag.lay (g : Layout) (fresh : Bool) (t : Tag) : Tag :=
  ⟨g.upTo fresh t.before, t.content, g.lay false t.after, t.triple⟩

/-- The same place in the text laid out. -/
def Cursor.lay (g : Layout) (fresh : Bool) (c : Cursor) : Cursor :=
  { c with rest := g.lay fresh c.rest }

/-- **A scan can go on in the text laid out**: its tags hold no LF, there is no lone CR, and where a
line starts for the scan one starts for the layout. -/
structure Cursor.Ready (g : Layout) (fresh : Bool) (c : Cursor) : Prop where
  solid : c.delimiter.Solid
  suits : g.Suits c.rest
  unbroken : c.Unbroken
  starts : c.lineStart = true → c.rest.head?.any isBreak = false → fresh = true

/-- **Two layouts differ** in `Q` on any text, and in `P` on any margin. -/
structure Text.Layout.Differ (Q P : Text → Text → Prop) (g h : Layout) : Prop where
  lay (fresh : Bool) (s : Text) : Q (g.lay fresh s) (h.lay fresh s)
  upTo (fresh : Bool) (s : Text) : Q (g.upTo fresh s) (h.upTo fresh s)
  margin {w : Text} (hw : IsInnerBlank w) : P (g.margin ++ w) (h.margin ++ w)

variable {g h : Layout} {fresh : Bool} {pair : Delimiter} {s : Text} {t : Tag} {c : Cursor}
  {m : Meaning} {Q P : Text → Text → Prop}

/-! ### Tags without LF -/

theorem Cursor.Unbroken.content (hc : c.Unbroken) (h : cutTag c.delimiter c.rest = .tag t) :
    '\n' ∉ t.content := hc [] c t (.refl c) h

theorem Cursor.Unbroken.past (hc : c.Unbroken) (h : cutTag c.delimiter c.rest = .tag t)
    (hm : t.meaning = .ok m) : (c.past t m).Unbroken :=
  fun stops d tag hpass hd => hc (⟨c, t, m⟩ :: stops) d tag (.step h hm hpass) hd

/-- Tag by tag: the next one holds no LF, nor do those behind it. -/
theorem unbroken_iff : c.Unbroken ↔ ∀ t, cutTag c.delimiter c.rest = .tag t → '\n' ∉ t.content ∧
    ∀ m, t.meaning = .ok m → (c.past t m).Unbroken := by
  constructor
  · intro hc t h
    exact ⟨hc.content h, fun m hm => hc.past h hm⟩
  · intro h stops d tag hpass hd
    cases hpass with
    | refl c => exact (h tag hd).1
    | @step c d t m stops cut means later => exact (h t cut).2 m means stops d tag later hd

theorem holdsUnbroken_iff : c.holdsUnbroken = true ↔ c.Unbroken := by
  induction hn : c.rest.length using Nat.strong_induction_on generalizing c with
  | h n ih =>
    rw [unbroken_iff, holdsUnbroken]
    split
    · next t ht =>
      have hlater : ∀ m, (c.past t m).holdsUnbroken = true ↔ (c.past t m).Unbroken :=
        fun m => ih _ (hn ▸ length_past_lt m ht) rfl
      cases hm : t.meaning with
      | error e => simp [ht, hm]
      | ok m => simp [ht, hm, hlater m]
    · next h => simpa using fun t ht => absurd ht (h t)

instance (c : Cursor) : Decidable c.Unbroken := decidable_of_iff _ holdsUnbroken_iff

/-! ### Cuts -/

section Cuts

variable (hp : pair.Solid)
include hp

theorem cutTag_lay_of_plain (h : cutTag pair s = .plain) :
    cutTag pair (g.lay fresh s) = .plain := by
  rw [cutTag_eq_plain_iff] at h ⊢
  rwa [Layout.infix_lay_iff pair.opening_ne_nil hp.opening]

theorem cutTag_lay_of_unclosed (h : cutTag pair s = .unclosed) :
    cutTag pair (g.lay fresh s) = .unclosed := by
  obtain ⟨before, body, rfl, hclear, hbody⟩ := cutTag_eq_unclosed_iff.1 h
  refine cutTag_eq_unclosed_iff.2 ⟨g.upTo fresh before, g.lay false body, ?_, ?_, ?_⟩
  · exact g.lay_append_of_not_mem fresh pair.opening_ne_nil hp.newline_not_mem_opening _ _
  · exact Layout.clear_upTo pair.opening_ne_nil hp.opening hclear
  · rwa [Layout.infix_lay_iff pair.closing_ne_nil hp.closing]

/-- **The first tag** is the same in a text laid out, if it holds no LF. -/
theorem cutTag_lay (h : cutTag pair s = .tag t) (hc : '\n' ∉ t.content) :
    cutTag pair (g.lay fresh s) = .tag (t.lay g fresh) := by
  obtain ⟨rfl, hbefore, hcontent, htriple⟩ := cutTag_eq_tag_iff.1 h
  let whole := pair.opening ++ t.content ++ pair.closing ++ t.brace
  have hne : whole ≠ [] := by simp [whole, pair.opening_ne_nil]
  have hnl : '\n' ∉ whole := by
    have hbrace : '\n' ∉ t.brace := by
      unfold Tag.brace
      split <;> decide
    simp [whole, hp.newline_not_mem_opening, hc, hp.newline_not_mem_closing, hbrace]
  have hlay := g.lay_append_of_not_mem fresh hne hnl t.before t.after
  have hhead : (t.brace ++ g.lay false t.after).head? = some '}' ↔
      (t.brace ++ t.after).head? = some '}' := by
    have hprefix : ∀ x : Text, x.head? = some '}' ↔ ['}'] <+: x := fun x => by
      cases x <;> simp [eq_comm]
    have hafter : ['}'] <+: g.lay false t.after ↔ ['}'] <+: t.after :=
      Layout.isPrefix_lay_iff (List.forall_mem_singleton.2 (by decide))
    unfold Tag.brace
    split
    · rfl
    · rw [List.nil_append, List.nil_append, hprefix, hprefix, hafter]
  refine cutTag_eq_tag_iff.2 ⟨?_, ?_, hcontent, ?_⟩
  · show g.lay fresh _ = g.upTo fresh t.before ++ pair.opening ++ t.content ++ pair.closing ++
      t.brace ++ g.lay false t.after
    simp only [whole, List.append_assoc] at hlay ⊢
    exact hlay
  · exact Layout.clear_upTo pair.opening_ne_nil hp.opening hbefore
  · show t.triple = true ↔ _ ∧ _ ∧ (t.brace ++ g.lay false t.after).head? = some '}'
    rw [hhead]
    exact htriple

end Cuts

/-! ### The line of a tag -/

namespace Tag

theorem meaning_lay (g : Layout) (fresh : Bool) (t : Tag) :
    (t.lay g fresh).meaning = t.meaning := rfl

theorem firstOnLine_lay (t : Tag) (lineStart : Bool) :
    ((t.lay g fresh).line lineStart).firstOnLine = (t.line lineStart).firstOnLine := by
  have hlead : ∀ b, (g.lead b).all isBlank = true := fun b =>
    List.all_eq_true.2 (g.isInnerBlank_lead b).blank
  show ((_ || (g.upTo fresh t.before).any isBreak) &&
    (lastLine (g.upTo fresh t.before)).all isBlank) = _
  rw [Layout.any_isBreak_upTo, (g.lines_upTo fresh t.before).2, List.all_append, hlead,
    Bool.true_and]
  rfl

/-- What stands before a tag on its line gets the margin, if the line starts in the text. -/
theorem preceding_lay (lineStart : Bool) (h : (fresh || t.before.any (· = '\n')) = true) :
    ((t.lay g fresh).line lineStart).preceding = g.margin ++ (t.line lineStart).preceding := by
  show lastLine (g.upTo fresh t.before) = _
  rw [(g.lines_upTo fresh t.before).2, h]
  rfl

variable (hs : g.Suits t.after)
include hs

theorem standalone_lay (lineStart : Bool) :
    ((t.lay g fresh).line lineStart).standalone = (t.line lineStart).standalone := by
  have hempty : (g.lay false t.after).isEmpty = t.after.isEmpty := by
    rw [Bool.eq_iff_iff, List.isEmpty_iff, List.isEmpty_iff, Layout.lay_eq_nil_iff]
  rw [standalone_line, standalone_line, firstOnLine_lay]
  show (_ && ((g.lay false t.after).isEmpty || (dropBreak? (g.lay false t.after)).isSome)) = _
  rw [hempty, Layout.dropBreak?_lay hs, Option.isSome_map]

/-- **A tag takes its line along** in a text laid out if it does in the text. -/
theorem elided_lay (lineStart : Bool) :
    (t.lay g fresh).elided lineStart = t.elided lineStart := by
  unfold elided
  rw [standalone_lay hs]
  rfl

theorem kept_lay (lineStart : Bool) : (t.lay g fresh).kept lineStart =
    if t.elided lineStart then g.lay fresh (t.kept lineStart)
    else g.upTo fresh (t.kept lineStart) := by
  unfold kept
  rw [elided_lay hs]
  split
  · exact (g.lines_upTo fresh t.before).1
  · rfl

theorem rest_lay (lineStart : Bool) : (t.lay g fresh).rest lineStart =
    g.lay (t.elided lineStart) (t.rest lineStart) := by
  unfold rest
  rw [elided_lay hs]
  show (if _ then (dropBreak? (g.lay false t.after)).getD (g.lay false t.after)
    else g.lay false t.after) = _
  rw [Layout.dropBreak?_lay hs]
  cases he : t.elided lineStart with
  | false => rfl
  | true =>
    -- a line ends behind the tag, or the text
    have hstand : t.after.isEmpty || (dropBreak? t.after).isSome := by
      have hline := (Bool.and_eq_true_iff.1 he).2
      rw [standalone_line, Bool.and_eq_true] at hline
      exact hline.2
    cases hbreak : dropBreak? t.after with
    | some u => rfl
    | none =>
      rw [hbreak] at hstand
      have hnil : t.after = [] := by simpa using hstand
      rw [hnil]
      rfl

theorem endsLine_lay (lineStart : Bool) :
    (t.lay g fresh).endsLine lineStart = t.endsLine lineStart := by
  unfold endsLine
  rw [elided_lay hs]
  show (_ || (dropBreak? (g.lay false t.after)).isSome) = _
  rw [Layout.dropBreak?_lay hs, Option.isSome_map]

end Tag

/-! ### One step of the scan -/

theorem past_lay (hs : g.Suits t.after) (m : Meaning) : (c.lay g fresh).past (t.lay g fresh) m =
    (c.past t m).lay g (t.elided c.lineStart) := by
  show Cursor.mk _ _ _ = Cursor.mk _ _ _
  rw [Cursor.mk.injEq]
  exact ⟨Tag.rest_lay hs _, Tag.endsLine_lay hs _, rfl⟩

namespace Cursor.Ready

theorem suits_after (hc : c.Ready g fresh) (h : cutTag c.delimiter c.rest = .tag t) :
    g.Suits t.after := by
  obtain ⟨hrest, -⟩ := cutTag_eq_tag_iff.1 h
  have hs := hc.suits
  rw [hrest] at hs
  exact hs.of_append

/-- What stands before a tag at the front of its line has the margin of that line. -/
theorem fresh_of_firstOnLine (hc : c.Ready g fresh) (h : cutTag c.delimiter c.rest = .tag t)
    (hfirst : (t.line c.lineStart).firstOnLine = true) :
    (fresh || t.before.any (· = '\n')) = true := by
  by_cases hb : '\n' ∈ t.before
  · have hany : t.before.any (· = '\n') = true := List.any_eq_true.2 ⟨'\n', hb, rfl⟩
    rw [hany, Bool.or_true]
  · obtain ⟨hstart, hhead⟩ :=
      lineStart_of_firstOnLine h hc.solid hc.suits.noLoneReturn hfirst hb
    rw [hc.starts hstart hhead, Bool.true_or]

theorem isInnerBlank_preceding (hc : c.Ready g fresh) (h : cutTag c.delimiter c.rest = .tag t)
    (hfirst : (t.line c.lineStart).firstOnLine = true) :
    IsInnerBlank (t.line c.lineStart).preceding := by
  have hsuffix : lastLine t.before <:+ t.before := ⟨_, earlierLines_append_lastLine t.before⟩
  have hbreak := any_isBreak_of_suffix h hc.solid hc.suits.noLoneReturn hsuffix
    (not_mem_lastLine t.before)
  have hblank : (lastLine t.before).all isBlank = true := by
    simp only [Tag.line, Bool.and_eq_true] at hfirst
    exact hfirst.2
  intro x hx
  exact ⟨List.all_eq_true.1 hblank x hx, by simpa using List.any_eq_false.1 hbreak x hx⟩

/-- **A tag** leaves a scan where it can go on. -/
theorem past (hc : c.Ready g fresh) (h : cutTag c.delimiter c.rest = .tag t)
    (hm : t.meaning = .ok m) : (c.past t m).Ready g (t.elided c.lineStart) where
  solid := (Passes.step h hm (.refl _)).solid hc.solid
  suits := by
    obtain ⟨front, hfront⟩ := rest_past_suffix h m
    have hs := hc.suits
    rw [← hfront] at hs
    exact hs.of_append
  unbroken := hc.unbroken.past h hm
  starts hstart hhead := elided_of_past hstart hhead

/-- The two tags mean the same, and stand on their lines alike. -/
theorem matches_lay (hg : c.Ready g fresh) (hh : c.Ready h fresh) (hd : g.Differ Q P h)
    (hcut : cutTag c.delimiter c.rest = .tag t) (sym : Symbol) : Token.Matches P
      ⟨sym, (t.lay g fresh).line c.lineStart⟩ ⟨sym, (t.lay h fresh).line c.lineStart⟩ where
  symbol := rfl
  standalone := by
    rw [Tag.standalone_lay (hg.suits_after hcut), Tag.standalone_lay (hh.suits_after hcut)]
  margin hstand := by
    rw [Tag.standalone_lay (hg.suits_after hcut)] at hstand
    have hfirst : (t.line c.lineStart).firstOnLine = true := by
      simp only [LineInfo.standalone, Bool.and_eq_true] at hstand
      exact hstand.1.1
    have hfresh := hg.fresh_of_firstOnLine hcut hfirst
    rw [Tag.preceding_lay _ hfresh, Tag.preceding_lay _ hfresh]
    exact hd.margin (hg.isInnerBlank_preceding hcut hfirst)

/-- **What a tag leaves behind** in two layouts: a text, and the tag. -/
theorem parallel_tagTokens (hg : c.Ready g fresh) (hh : c.Ready h fresh) (hd : g.Differ Q P h)
    (hcut : cutTag c.delimiter c.rest = .tag t) (hm : t.meaning = .ok m) {ts us : List Token}
    (later : Token.Parallel Q P ts us) :
    Token.Parallel Q P ((c.lay g fresh).tagTokens (t.lay g fresh) m ++ ts)
      ((c.lay h fresh).tagTokens (t.lay h fresh) m ++ us) := by
  have htext : Q ((t.lay g fresh).kept c.lineStart) ((t.lay h fresh).kept c.lineStart) := by
    rw [Tag.kept_lay (hg.suits_after hcut), Tag.kept_lay (hh.suits_after hcut)]
    split
    · exact hd.lay _ _
    · exact hd.upTo _ _
  unfold tagTokens
  rw [List.append_assoc, List.append_assoc]
  refine .text (isTextOf_textTokens _ _) (isTextOf_textTokens _ _) htext ?_
  cases hsym : m.symbol? with
  | none => exact later
  | some sym =>
    refine .tag (hg.matches_lay hh hd hcut sym) ?_ later
    rintro content rfl
    rcases Tag.symbol?_cases hm hsym with ⟨name, escaped, hfield⟩ | ⟨-, htext⟩
    · cases hfield
    · exact htext content rfl

end Cursor.Ready

/-! ### All of the scan -/

/-- **Two layouts of one text are scanned in parallel.** -/
theorem scan_lay (hg : c.Ready g fresh) (hh : c.Ready h fresh) (hd : g.Differ Q P h) :
    Related (Token.Parallel Q P) (c.lay g fresh).scan.outcome (c.lay h fresh).scan.outcome := by
  induction hn : c.rest.length using Nat.strong_induction_on generalizing c fresh with
  | h n ih =>
    cases hcut : cutTag c.delimiter c.rest with
    | plain =>
      rw [outcome_scan_of_plain (cutTag_lay_of_plain hg.solid hcut),
        outcome_scan_of_plain (cutTag_lay_of_plain hg.solid hcut)]
      have hend := Token.Parallel.text (P := P) (isTextOf_endTokens (c.lay g fresh))
        (isTextOf_endTokens (c.lay h fresh)) (hd.lay fresh c.rest) .nil
      rw [List.append_nil, List.append_nil] at hend
      exact .ok hend
    | unclosed =>
      rw [outcome_scan_of_unclosed (cutTag_lay_of_unclosed hg.solid hcut),
        outcome_scan_of_unclosed (cutTag_lay_of_unclosed hg.solid hcut)]
      exact .error rfl
    | tag t =>
      have hc := hg.unbroken.content hcut
      rw [outcome_scan_of_tag (cutTag_lay hg.solid hcut hc),
        outcome_scan_of_tag (cutTag_lay hg.solid hcut hc), Tag.meaning_lay, Tag.meaning_lay]
      cases hm : t.meaning with
      | error e => exact .error rfl
      | ok m =>
        have hlater := ih _ (hn ▸ length_past_lt m hcut) (hg.past hcut hm) (hh.past hcut hm) rfl
        rw [Except.bind, Except.bind, past_lay (hg.suits_after hcut),
          past_lay (hh.suits_after hcut)]
        exact hlater.map fun ts us hts => hg.parallel_tagTokens hh hd hcut hm hts

/-- A scan can start in every text that suits the layout. -/
theorem ready_start (hs : g.Suits s) (hu : Cursor.Unbroken { rest := s }) :
    Cursor.Ready g true { rest := s } where
  solid := Delimiter.solid_braces
  suits := hs
  unbroken := hu
  starts _ _ := rfl

theorem tokenize_lay (hg : g.Suits s) (hh : h.Suits s) (hu : Cursor.Unbroken { rest := s })
    (hd : g.Differ Q P h) : Related (Token.Parallel Q P) (tokenize (g.lay true s)).outcome
      (tokenize (h.lay true s)).outcome :=
  scan_lay (ready_start hg hu) (ready_start hh hu) hd

/-- **Two layouts of one text are parsed in parallel**, or end with faults of one kind. -/
theorem parse_lay (hg : g.Suits s) (hh : h.Suits s) (hu : Cursor.Unbroken { rest := s })
    (hd : g.Differ Q P h) : Related (Node.Parallel Q P) (parse (g.lay true s)).outcome
      (parse (h.lay true s)).outcome := by
  simp only [parse, Traced.outcome_bind, Traced.outcome_ofExcept]
  refine (tokenize_lay hg hh hu hd).bind fun ts us hts hus hparallel => ?_
  exact hparallel.build (isChain_of_scan Delimiter.solid_braces (hg.noLoneReturn_lay true) hts)
    (isChain_of_scan Delimiter.solid_braces (hh.noLoneReturn_lay true) hus)

end Mustache
