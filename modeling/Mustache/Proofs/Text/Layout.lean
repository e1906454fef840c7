import Mustache.Proofs.Text.Parts

/-!
# Texts laid out

Two things are done to a text line by line: a margin is put in front of each line that is not empty,
and each line is ended with CR LF in place of LF.  `Layout.lay` does both in one pass over the
characters, with a flag that says whether a line starts; indentation is one of the layouts
(`indent_eq_lay`).

A layout adds blanks and line breaks at line breaks and nothing else.  So it neither makes nor
breaks an occurrence of a marker (`infix_lay_iff`, `clear_upTo`), it can be laid piece by piece
(`lay_append`), and before a tag it adds its margin to the line of the tag at most (`lines_upTo`).
-/

namespace Mustache

namespace Text

/-! ### Definitions -/

/-- The text is blank and breaks no line. -/
def IsInnerBlank (w : Text) : Prop := ∀ c ∈ w, isBlank c = true ∧ isBreak c = false

theorem isInnerBlank_nil : IsInnerBlank [] := fun _ h => absurd h List.not_mem_nil

/-- What a text gets line by line. -/
structure Layout where
  /-- Put in front of a line that is not empty. -/
  margin : Text := []
  /-- Put on a line that is empty and ends with LF. -/
  filler : Text := []
  /-- Do lines end with CR LF?  Else they end with LF. -/
  returns : Bool := false
  margin_blank : IsInnerBlank margin
  filler_blank : IsInnerBlank filler

/-- Does a line start behind `s`, if `fresh` says whether one starts before it? -/
def freshBehind (fresh : Bool) : Text → Bool
  | [] => fresh
  | c :: s => freshBehind (c = '\n') s

namespace Layout

/-- Every line that is not empty gets a margin. -/
def indented (w : Text) (hw : IsInnerBlank w) : Layout where
  margin := w
  margin_blank := hw
  filler_blank := isInnerBlank_nil

/-- What ends a line. -/
def ending (g : Layout) : Text := if g.returns then ['\r', '\n'] else ['\n']

/-- The margin where a line starts. -/
def lead (g : Layout) (fresh : Bool) : Text := if fresh then g.margin else []

/-- What is put on a line that ends at once. -/
def fill (g : Layout) (fresh : Bool) : Text := if fresh then g.filler else []

/-- The text laid out; `fresh` says whether a line starts with it. -/
def lay (g : Layout) : Bool → Text → Text
  | _, [] => []
  | fresh, c :: s =>
    if c = '\n' then g.fill fresh ++ g.ending ++ lay g true s
    else g.lead fresh ++ c :: lay g false s

/-- The text laid out, with the margin of the line that what comes behind it stands on. -/
def upTo (g : Layout) (fresh : Bool) (s : Text) : Text :=
  g.lay fresh s ++ g.lead (freshBehind fresh s)

/-- The text can be laid out with no CR left alone: none is in it, and none gets before another. -/
structure Suits (g : Layout) (s : Text) : Prop where
  noLoneReturn : NoLoneReturn s
  returns : g.returns = true → '\r' ∉ s

end Layout

variable {g : Layout} {s t w k marker : Text} {c : Char} {fresh : Bool}

/-! ### Blanks that break no line -/

theorem IsInnerBlank.append (hw : IsInnerBlank w) (ht : IsInnerBlank t) :
    IsInnerBlank (w ++ t) := by
  intro c hc
  exact (List.mem_append.1 hc).elim (hw c) (ht c)

theorem IsInnerBlank.blank (hw : IsInnerBlank w) : ∀ c ∈ w, isBlank c = true :=
  fun c hc => (hw c hc).1

theorem IsInnerBlank.newline_not_mem (hw : IsInnerBlank w) : '\n' ∉ w := fun h =>
  absurd (hw _ h).2 (by decide)

theorem noLoneReturn_of_not_mem (hs : '\r' ∉ s) : NoLoneReturn s := by
  intro u v h
  exact absurd (by simp [h]) hs

theorem IsInnerBlank.noLoneReturn (hw : IsInnerBlank w) : NoLoneReturn w :=
  noLoneReturn_of_not_mem fun h => absurd (hw _ h).2 (by decide)

theorem IsInnerBlank.any_isBreak (hw : IsInnerBlank w) : w.any isBreak = false :=
  List.any_eq_false.2 fun c hc => by simp [(hw c hc).2]

/-- Blanks behind a text take no part in what holds none. -/
theorem infix_append_blank_iff (hne : k ≠ []) (hk : ∀ c ∈ k, isBlank c = false)
    (hw : ∀ c ∈ w, isBlank c = true) : k <:+: s ++ w ↔ k <:+: s := by
  cases w with
  | nil => rw [List.append_nil]
  | cons c w =>
    have hc : c ∉ k := by
      intro hc
      have hblank := hw c List.mem_cons_self
      rw [hk c hc] at hblank
      cases hblank
    have hnone : ¬ k <:+: w := by
      intro h
      rw [← List.append_nil w,
        infix_append_iff_of_blank hne hk fun d hd => hw d (List.mem_cons_of_mem c hd)] at h
      exact hne (List.infix_nil.1 h)
    rw [infix_append_cons_iff hc, or_iff_left hnone]

/-! ### Where lines start -/

theorem freshBehind_append (fresh : Bool) (s t : Text) :
    freshBehind fresh (s ++ t) = freshBehind (freshBehind fresh s) t := by
  induction s generalizing fresh with
  | nil => rfl
  | cons c s ih => exact ih _

theorem freshBehind_of_not_mem (hne : s ≠ []) (hs : '\n' ∉ s) : freshBehind fresh s = false := by
  induction s generalizing fresh with
  | nil => exact absurd rfl hne
  | cons c s ih =>
    rw [List.mem_cons, not_or] at hs
    have hc : decide (c = '\n') = false := decide_eq_false (Ne.symm hs.1)
    show freshBehind (decide (c = '\n')) s = false
    rw [hc]
    by_cases hnil : s = []
    · rw [hnil]
      rfl
    · exact ih hnil hs.2

/-- Behind whole lines a line starts, and so it does behind no text where one starts before it. -/
theorem freshBehind_earlierLines (fresh : Bool) (s : Text) :
    freshBehind fresh (earlierLines s) = (fresh || s.any (· = '\n')) := by
  by_cases hs : '\n' ∈ s
  · have hne : earlierLines s ≠ [] := fun h => earlierLines_eq_nil_iff.1 h hs
    obtain ⟨x, hx⟩ := List.getLast?_eq_some_iff.1 (getLast?_earlierLines hne)
    have hany : s.any (· = '\n') = true := List.any_eq_true.2 ⟨'\n', hs, rfl⟩
    rw [hx, freshBehind_append, hany, Bool.or_true]
    rfl
  · have hany : s.any (· = '\n') = false := by
      simpa using fun c hc (h : c = '\n') => hs (h ▸ hc)
    rw [earlierLines_eq_nil_iff.2 hs, hany, Bool.or_false]
    rfl

/-! ### Laying out -/

namespace Layout

@[simp] theorem lay_nil (g : Layout) (fresh : Bool) : g.lay fresh [] = [] := rfl

theorem lay_break (g : Layout) (fresh : Bool) (s : Text) :
    g.lay fresh ('\n' :: s) = g.fill fresh ++ g.ending ++ g.lay true s := rfl

theorem lay_char (hc : c ≠ '\n') (fresh : Bool) (s : Text) :
    g.lay fresh (c :: s) = g.lead fresh ++ c :: g.lay false s := if_neg hc

theorem isInnerBlank_lead (g : Layout) (fresh : Bool) : IsInnerBlank (g.lead fresh) := by
  unfold lead
  split
  · exact g.margin_blank
  · exact isInnerBlank_nil

theorem isInnerBlank_fill (g : Layout) (fresh : Bool) : IsInnerBlank (g.fill fresh) := by
  unfold fill
  split
  · exact g.filler_blank
  · exact isInnerBlank_nil

theorem blank_of_mem_ending (hc : c ∈ g.ending) : isBlank c = true := by
  unfold ending at hc
  split at hc
  · rcases List.mem_pair.1 hc with rfl | rfl <;> decide
  · obtain rfl := List.mem_singleton.1 hc
    decide

theorem any_isBreak_ending (g : Layout) : g.ending.any isBreak = true := by
  unfold ending
  split <;> decide

/-- A layout can be laid piece by piece. -/
theorem lay_append (g : Layout) (fresh : Bool) (s t : Text) :
    g.lay fresh (s ++ t) = g.lay fresh s ++ g.lay (freshBehind fresh s) t := by
  induction s generalizing fresh with
  | nil => rfl
  | cons c s ih =>
    by_cases hc : c = '\n'
    · subst hc
      rw [List.cons_append, lay_break, lay_break, ih]
      simp [freshBehind]
    · rw [List.cons_append, lay_char hc, lay_char hc, ih]
      simp [freshBehind, hc]

/-- Inside a line a text without LF stays as it is. -/
theorem lay_false_of_not_mem (hs : '\n' ∉ s) : g.lay false s = s := by
  induction s with
  | nil => rfl
  | cons c s ih =>
    rw [List.mem_cons, not_or] at hs
    rw [lay_char (Ne.symm hs.1), ih hs.2]
    rfl

/-- Where a line starts a text without LF gets the margin, sooner or later. -/
theorem upTo_of_not_mem (g : Layout) (fresh : Bool) (hs : '\n' ∉ s) :
    g.upTo fresh s = g.lead fresh ++ s := by
  cases s with
  | nil => simp [upTo, freshBehind]
  | cons c s =>
    have hstart : freshBehind fresh (c :: s) = false :=
      freshBehind_of_not_mem (List.cons_ne_nil c s) hs
    rw [List.mem_cons, not_or] at hs
    rw [upTo, hstart, lay_char (Ne.symm hs.1), lay_false_of_not_mem hs.2]
    simp [lead]

theorem upTo_append (g : Layout) (fresh : Bool) (s t : Text) :
    g.upTo fresh (s ++ t) = g.lay fresh s ++ g.upTo (freshBehind fresh s) t := by
  rw [upTo, upTo, lay_append, freshBehind_append, List.append_assoc]

/-- Text without LF that is not empty stays as it is, behind the margin of its line. -/
theorem lay_append_of_not_mem (g : Layout) (fresh : Bool) (hne : t ≠ []) (ht : '\n' ∉ t)
    (s u : Text) :
    g.lay fresh (s ++ t ++ u) = g.upTo fresh s ++ t ++ g.lay false u := by
  have hmiddle : g.lay (freshBehind fresh s) t = g.lead (freshBehind fresh s) ++ t := by
    have hup := g.upTo_of_not_mem (freshBehind fresh s) ht
    rwa [upTo, freshBehind_of_not_mem hne ht, lead, if_neg Bool.false_ne_true,
      List.append_nil] at hup
  rw [lay_append, lay_append, freshBehind_append, freshBehind_of_not_mem hne ht, hmiddle, upTo]
  simp only [List.append_assoc]

theorem lay_eq_nil_iff : g.lay fresh s = [] ↔ s = [] := by
  cases s with
  | nil => simp
  | cons c s =>
    by_cases hc : c = '\n'
    · subst hc
      have hend : g.ending ≠ [] := by
        intro h
        have hany := any_isBreak_ending g
        rw [h] at hany
        cases hany
      rw [lay_break]
      simp [hend]
    · rw [lay_char hc]
      simp

theorem any_isBreak_lay (g : Layout) (fresh : Bool) (s : Text) :
    (g.lay fresh s).any isBreak = s.any isBreak := by
  induction s generalizing fresh with
  | nil => rfl
  | cons c s ih =>
    by_cases hc : c = '\n'
    · subst hc
      rw [lay_break, List.any_append, List.any_append, any_isBreak_ending, Bool.or_true,
        Bool.true_or]
      rfl
    · rw [lay_char hc, List.any_append, (g.isInnerBlank_lead fresh).any_isBreak, Bool.false_or,
        List.any_cons, List.any_cons, ih]

theorem any_isBreak_upTo (g : Layout) (fresh : Bool) (s : Text) :
    (g.upTo fresh s).any isBreak = s.any isBreak := by
  rw [upTo, List.any_append, any_isBreak_lay, (g.isInnerBlank_lead _).any_isBreak, Bool.or_false]

/-! ### Markers -/

section Markers

variable (hne : k ≠ []) (hk : ∀ c ∈ k, isBlank c = false)
include hk

/-- Inside a line a layout keeps what a text starts with, as far as it holds no blanks. -/
theorem isPrefix_lay_iff : k <+: g.lay false s ↔ k <+: s := by
  induction k generalizing s with
  | nil => simp
  | cons d k ih =>
    have hd := hk d List.mem_cons_self
    have hrest := fun c hc => hk c (List.mem_cons_of_mem d hc)
    cases s with
    | nil => rfl
    | cons c s =>
      by_cases hc : c = '\n'
      · subst hc
        have hfirst : ∀ x : Text, ¬ d :: k <+: g.ending ++ x := by
          intro x h
          obtain ⟨e, rest, he⟩ : ∃ e rest, g.ending = e :: rest := by
            unfold ending
            split <;> exact ⟨_, _, rfl⟩
          rw [he, List.cons_append, List.cons_prefix_cons] at h
          have hblank : isBlank e = true := blank_of_mem_ending (g := g) (by simp [he])
          rw [← h.1, hd] at hblank
          cases hblank
        have hbreak : ¬ d :: k <+: '\n' :: s := by
          intro h
          rw [(List.cons_prefix_cons.1 h).1] at hd
          exact absurd hd (by decide)
        rw [lay_break]
        exact iff_of_false (hfirst _) hbreak
      · rw [lay_char hc]
        show d :: k <+: c :: g.lay false s ↔ _
        rw [List.cons_prefix_cons, List.cons_prefix_cons, ih hrest]

include hne

/-- **A layout keeps the parts without blanks** and adds none. -/
theorem infix_lay_iff : k <:+: g.lay fresh s ↔ k <:+: s := by
  induction s generalizing fresh with
  | nil => rfl
  | cons c s ih =>
    by_cases hc : c = '\n'
    · subst hc
      have hbreak : k <:+: '\n' :: s ↔ k <:+: s :=
        infix_append_iff_of_blank (w := ['\n']) hne hk (by simp; decide)
      rw [lay_break, List.append_assoc,
        infix_append_iff_of_blank hne hk (g.isInnerBlank_fill fresh).blank,
        infix_append_iff_of_blank hne hk fun _ => blank_of_mem_ending, ih, hbreak]
    · have hprefix : k <+: c :: g.lay false s ↔ k <+: c :: s := by
        have h := isPrefix_lay_iff (g := g) (s := c :: s) hk
        rwa [lay_char hc] at h
      rw [lay_char hc, infix_append_iff_of_blank hne hk (g.isInnerBlank_lead fresh).blank,
        List.infix_cons_iff, List.infix_cons_iff, hprefix, ih]

theorem infix_upTo_iff : k <:+: g.upTo fresh s ↔ k <:+: s := by
  rw [upTo, infix_append_blank_iff hne hk (g.isInnerBlank_lead _).blank, infix_lay_iff hne hk]

end Markers

end Layout

/-- A text is clear of a marker if no occurrence ends before the marker behind it does. -/
theorem clear_iff (hm : marker ≠ []) : Clear marker s ↔ ¬ marker <:+: s ++ marker.dropLast := by
  have hlen := List.length_pos_iff.2 hm
  constructor
  · rintro h ⟨u, v, hu⟩
    have hpre : u ++ marker <+: s ++ marker :=
      (show u ++ marker <+: s ++ marker.dropLast from ⟨v, hu⟩).trans
        ((List.prefix_append_right_inj s).2 (List.dropLast_prefix marker))
    have hle := h u hpre
    have hsum := congrArg List.length hu
    simp only [List.length_append, List.length_dropLast] at hsum
    omega
  · intro h u hu
    by_contra hlt
    refine h (List.IsInfix.trans ⟨u, [], List.append_nil _⟩ (List.IsPrefix.isInfix ?_))
    refine List.prefix_of_prefix_length_le hu
      ((List.prefix_append_right_inj s).2 (List.dropLast_prefix marker)) ?_
    simp only [List.length_append, List.length_dropLast]
    omega

namespace Layout

/-- **A text clear of a marker** is so when it is laid out. -/
theorem clear_upTo (hne : marker ≠ []) (hk : ∀ c ∈ marker, isBlank c = false)
    (h : Clear marker s) : Clear marker (g.upTo fresh s) := by
  have hnl : '\n' ∉ marker.dropLast := fun hn =>
    absurd (hk _ ((List.dropLast_prefix marker).subset hn)) (by decide)
  have hback : g.upTo fresh s ++ marker.dropLast = g.lay fresh s ++
      (g.upTo (freshBehind fresh s) [] ++ marker.dropLast) := by
    simp [upTo, freshBehind]
  rw [clear_iff hne] at h ⊢
  by_cases hlast : marker.dropLast = []
  · rw [hlast, List.append_nil] at h ⊢
    rwa [infix_upTo_iff hne hk]
  · have hlay := g.lay_append_of_not_mem fresh hlast hnl s []
    rw [lay_nil, List.append_nil, List.append_nil] at hlay
    rwa [← hlay, infix_lay_iff hne hk]

/-! ### Line breaks -/

/-- The lines before the last one are laid out as lines. -/
theorem wholeLines_lay (hs : WholeLines s) : WholeLines (g.lay fresh s) := by
  rcases wholeLines_iff.1 hs with rfl | ⟨x, rfl⟩
  · simp [WholeLines]
  · have hlast : ∃ y, g.ending = y ++ ['\n'] := by
      unfold ending
      split
      · exact ⟨['\r'], rfl⟩
      · exact ⟨[], rfl⟩
    obtain ⟨y, hy⟩ := hlast
    refine wholeLines_iff.2 (.inr ⟨g.lay fresh x ++ (g.fill (freshBehind fresh x) ++ y), ?_⟩)
    rw [lay_append, lay_break, hy]
    simp

end Layout

/-- Whole lines come before the last line of a text, and what comes behind them is the last line. -/
theorem lines_of_wholeLines (hs : WholeLines s) (ht : '\n' ∉ t) :
    earlierLines (s ++ t) = s ∧ lastLine (s ++ t) = t := by
  rcases wholeLines_iff.1 hs with rfl | ⟨x, rfl⟩
  · exact ⟨earlierLines_eq_nil_iff.2 ht, lastLine_of_not_mem ht⟩
  · rw [List.append_assoc, List.singleton_append]
    refine ⟨?_, ?_⟩
    · rw [earlierLines_append_break, earlierLines_eq_nil_iff.2 ht]
    · rw [lastLine_append_break, lastLine_of_not_mem ht]

theorem wholeLines_earlierLines (s : Text) : WholeLines (earlierLines s) := by
  by_cases h : earlierLines s = []
  · simp [WholeLines, h]
  · intro c hc
    rw [getLast?_earlierLines h] at hc
    exact (Option.some.inj hc).symm

namespace Layout

/-- **The last line of a text that is laid out** gets the margin and stays as it is otherwise; the
lines before it are laid out. -/
theorem upTo_eq (g : Layout) (fresh : Bool) (s : Text) : g.upTo fresh s =
    g.lay fresh (earlierLines s) ++
      (g.lead (fresh || s.any (· = '\n')) ++ lastLine s) := by
  conv => lhs; rw [← earlierLines_append_lastLine s]
  rw [upTo_append, upTo_of_not_mem _ _ (not_mem_lastLine s), freshBehind_earlierLines]

theorem lines_upTo (g : Layout) (fresh : Bool) (s : Text) :
    earlierLines (g.upTo fresh s) = g.lay fresh (earlierLines s) ∧
      lastLine (g.upTo fresh s) = g.lead (fresh || s.any (· = '\n')) ++ lastLine s := by
  rw [upTo_eq]
  refine lines_of_wholeLines (wholeLines_lay (wholeLines_earlierLines s)) ?_
  rw [List.mem_append, not_or]
  exact ⟨(g.isInnerBlank_lead _).newline_not_mem, not_mem_lastLine s⟩

theorem Suits.of_append (h : g.Suits (s ++ t)) : g.Suits t where
  noLoneReturn := h.noLoneReturn.of_append
  returns hr hmem := h.returns hr (List.mem_append_right s hmem)

theorem Suits.returns_eq_false (h : g.Suits s) (hs : '\r' ∈ s) : g.returns = false := by
  rw [← Bool.not_eq_true]
  intro hr
  exact h.returns hr hs

/-- Inside a line a break stays one, with nothing before it. -/
theorem head?_lay_break (hr : g.returns = false) (s : Text) :
    (g.lay false ('\n' :: s)).head? = some '\n' := by
  rw [lay_break, ending, hr]
  rfl

/-- A text that suits a layout has no lone CR when it is laid out. -/
theorem Suits.noLoneReturn_lay (h : g.Suits s) (fresh : Bool) : NoLoneReturn (g.lay fresh s) := by
  induction s generalizing fresh with
  | nil => exact noLoneReturn_nil
  | cons c s ih =>
    have hrest := ih (Suits.of_append (s := [c]) h)
    by_cases hc : c = '\n'
    · subst hc
      have hend : NoLoneReturn g.ending := by
        unfold ending
        split <;> simp [noLoneReturn_cons_iff, noLoneReturn_nil]
      rw [lay_break, List.append_assoc]
      exact (g.isInnerBlank_fill fresh).noLoneReturn.append (hend.append (hrest true))
    · rw [lay_char hc]
      refine (g.isInnerBlank_lead fresh).noLoneReturn.append
        (noLoneReturn_cons_iff.2 ⟨fun hr => ?_, hrest false⟩)
      subst hr
      have hhead := (noLoneReturn_cons_iff.1 h.noLoneReturn).1 rfl
      rw [← List.cons_head?_tail hhead]
      exact head?_lay_break (h.returns_eq_false List.mem_cons_self) s.tail

/-- A layout ends a line where the text does. -/
theorem dropBreak?_lay (h : g.Suits s) :
    dropBreak? (g.lay false s) = (dropBreak? s).map (g.lay true) := by
  cases s with
  | nil => rfl
  | cons c s =>
    by_cases hn : c = '\n'
    · subst hn
      rw [lay_break]
      unfold ending
      split <;> rfl
    · by_cases hr : c = '\r'
      · subst hr
        have hret : g.returns = false := h.returns_eq_false List.mem_cons_self
        obtain ⟨t, rfl⟩ : ∃ t, s = '\n' :: t := by
          have hhead := (noLoneReturn_cons_iff.1 h.noLoneReturn).1 rfl
          exact ⟨s.tail, (List.cons_head?_tail hhead).symm⟩
        rw [lay_char (by decide), lay_break, ending, hret]
        rfl
      · rw [lay_char hn]
        show dropBreak? (c :: g.lay false s) = _
        simp [dropBreak?, hn, hr]

end Layout

/-! ### Indentation -/

theorem intercalate_append_cons (sep u l : Text) (ls : List Text) :
    sep.intercalate ((u ++ l) :: ls) = u ++ sep.intercalate (l :: ls) := by
  cases ls with
  | nil => simp
  | cons l' ls => simp [List.intercalate_cons_cons]

/-- **Indentation is a layout**, by lines as it is defined or by characters. -/
theorem indent_eq_lay (hw : IsInnerBlank w) (s : Text) :
    indent w s = (Layout.indented w hw).lay true s := by
  let line (l : Text) : Text := if l = [] then l else w ++ l
  -- inside a line the first piece has its margin already
  suffices h : ∃ l ls, s.splitOn '\n' = l :: ls ∧
      ['\n'].intercalate (line l :: ls.map line) = (Layout.indented w hw).lay true s ∧
      ['\n'].intercalate (l :: ls.map line) = (Layout.indented w hw).lay false s by
    obtain ⟨l, ls, hs, hline, -⟩ := h
    rw [← hline, indent, hs, List.map_cons]
  induction s with
  | nil => exact ⟨[], [], rfl, rfl, rfl⟩
  | cons c s ih =>
    obtain ⟨l, ls, hs, hstart, hinside⟩ := ih
    rw [List.splitOn_cons_eq_if_modifyHead, hs]
    by_cases hc : c = '\n'
    · subst hc
      refine ⟨[], l :: ls, rfl, ?_, ?_⟩
      · rw [Layout.lay_break, ← hstart]
        simp [line, List.intercalate_cons_cons, Layout.fill, Layout.ending, Layout.indented]
      · rw [Layout.lay_break, ← hstart]
        simp [line, List.intercalate_cons_cons, Layout.fill, Layout.ending, Layout.indented]
    · have hfull : line (c :: l) = w ++ [c] ++ l := by simp [line]
      refine ⟨c :: l, ls, by simp [hc], ?_, ?_⟩
      · rw [Layout.lay_char hc, hfull, intercalate_append_cons, hinside]
        simp [Layout.lead, Layout.indented]
      · rw [Layout.lay_char hc, ← hinside]
        exact intercalate_append_cons ['\n'] [c] l _

theorem indent_nil (s : Text) : indent [] s = s := by
  have hline : (fun line : Text => if line = [] then line else [] ++ line) = id := by
    funext line
    simp
  rw [indent, hline, List.map_id, List.intercalate_splitOn]

end Text

end Mustache
