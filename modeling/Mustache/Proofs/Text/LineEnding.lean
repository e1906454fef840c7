import Mustache.Proofs.Text.Layout

/-!
# Line endings

A text with LF for its line ends, and the same with CR LF (`crlf`).  Indentation tells the two
apart: it leaves an empty line alone that ends with LF, and puts its margin before the CR of one
that ends with CR LF. So the two texts, indented, are two layouts (`exists_lay_indent_crlf`) that
differ in their line ends and in blanks before some of them (`returned_lay`), and in nothing but the
line ends if no line is empty (`lay_eq_crlf`).

CR LF for LF is a layout itself (`crlf_eq_lay`), and no cut tells the two apart: markers, blanks at
the ends, words and lines are found at the same places.
-/

namespace Mustache

namespace Text

/-! ### Definitions -/

/-- Every LF written as CR LF. -/
def crlf (s : Text) : Text := replaceChar '\n' ['\r', '\n'] s

/-- A line that ends with LF is empty. -/
def HasEmptyLine (s : Text) : Prop := ['\n'] <+: s ∨ ['\n', '\n'] <:+: s

/-- **The second text is the first with CR LF for LF**, and with blanks before some of the line
ends. -/
inductive Returned : Text → Text → Prop
  | nil : Returned [] []
  | char {s t : Text} {c : Char} (hc : c ≠ '\n') (later : Returned s t) : Returned (c :: s) (c :: t)
  | line {s t w : Text} (hw : IsInnerBlank w) (later : Returned s t) :
      Returned ('\n' :: s) (w ++ '\r' :: '\n' :: t)

/-- Lines end with CR LF, and get a margin, or a filler if they are empty. -/
def Layout.returning (w f : Text) (hw : IsInnerBlank w) (hf : IsInnerBlank f) : Layout where
  margin := w
  filler := f
  returns := true
  margin_blank := hw
  filler_blank := hf

variable {h : Layout} {s t w : Text}

/-! ### CR LF for LF -/

theorem crlf_nil : crlf [] = [] := rfl

theorem crlf_cons (c : Char) (s : Text) :
    crlf (c :: s) = (if c = '\n' then ['\r', '\n'] else [c]) ++ crlf s := rfl

theorem crlf_append (s t : Text) : crlf (s ++ t) = crlf s ++ crlf t := List.flatMap_append

theorem crlf_of_not_mem (hs : '\n' ∉ s) : crlf s = s := by
  induction s with
  | nil => rfl
  | cons c s ih =>
    rw [List.mem_cons, not_or] at hs
    rw [crlf_cons, if_neg (Ne.symm hs.1), ih hs.2]
    rfl

/-- **A text with CR LF, indented**: the empty lines, which hold CR now, get the margin too. -/
theorem indent_crlf_eq_lay (hw : IsInnerBlank w) (s : Text) :
    indent w (crlf s) = (Layout.returning w w hw hw).lay true s := by
  rw [indent_eq_lay hw]
  generalize true = fresh
  induction s generalizing fresh with
  | nil => rfl
  | cons c s ih =>
    by_cases hc : c = '\n'
    · subst hc
      show (Layout.indented w hw).lay fresh ('\r' :: '\n' :: crlf s) = _
      rw [Layout.lay_char (by decide), Layout.lay_break, Layout.lay_break, ih]
      simp [Layout.lead, Layout.fill, Layout.ending, Layout.indented, Layout.returning]
    · rw [crlf_cons, if_neg hc, List.singleton_append, Layout.lay_char hc, Layout.lay_char hc, ih]
      rfl

/-- Where no line is empty, what empty lines get makes no difference. -/
theorem lay_of_not_hasEmptyLine (hw : IsInnerBlank w) (hs : ¬ HasEmptyLine s) :
    (Layout.returning w w hw hw).lay true s =
      (Layout.returning w [] hw isInnerBlank_nil).lay true s := by
  suffices h : ∀ fresh, (fresh = true → ¬ ['\n'] <+: s) → ¬ ['\n', '\n'] <:+: s →
      (Layout.returning w w hw hw).lay fresh s =
        (Layout.returning w [] hw isInnerBlank_nil).lay fresh s from
    h true (fun _ h => hs (.inl h)) fun h => hs (.inr h)
  clear hs
  induction s with
  | nil => exact fun _ _ _ => rfl
  | cons c s ih =>
    intro fresh hfirst hpair
    rw [List.infix_cons_iff, not_or] at hpair
    by_cases hc : c = '\n'
    · subst hc
      have hfresh : fresh = false := by
        rw [← Bool.not_eq_true]
        intro h
        exact hfirst h ⟨s, rfl⟩
      have hnext : ¬ ['\n'] <+: s := fun h => hpair.1 (List.cons_prefix_cons.2 ⟨rfl, h⟩)
      rw [Layout.lay_break, Layout.lay_break, ih true (fun _ => hnext) hpair.2, hfresh]
      rfl
    · rw [Layout.lay_char hc, Layout.lay_char hc, ih false nofun hpair.2]
      rfl

/-- **An indented text and the same with CR LF** are two layouts that share the margin; if the
margin is empty or no line is, then the one is the other with CR LF. -/
theorem exists_lay_indent_crlf (hw : IsInnerBlank w) (s : Text) : ∃ h : Layout, h.margin = w ∧
    h.returns = true ∧ (w = [] ∨ ¬ HasEmptyLine s → h.filler = []) ∧
      indent w (crlf s) = h.lay true s := by
  by_cases hfree : w = [] ∨ ¬ HasEmptyLine s
  · refine ⟨Layout.returning w [] hw isInnerBlank_nil, rfl, rfl, fun _ => rfl, ?_⟩
    rw [indent_crlf_eq_lay hw]
    rcases hfree with rfl | hfree
    · rfl
    · exact lay_of_not_hasEmptyLine hw hfree
  · exact ⟨Layout.returning w w hw hw, rfl, rfl, fun h => absurd h hfree, indent_crlf_eq_lay hw s⟩

/-! ### Texts with CR LF and blanks -/

namespace Returned

theorem of_not_mem (hs : '\n' ∉ s) : Returned s s := by
  induction s with
  | nil => exact .nil
  | cons c s ih =>
    rw [List.mem_cons, not_or] at hs
    exact .char (Ne.symm hs.1) (ih hs.2)

theorem append {s' t' : Text} (hs : Returned s s') (ht : Returned t t') :
    Returned (s ++ t) (s' ++ t') := by
  induction hs with
  | nil => exact ht
  | char hc _ ih => exact .char hc ih
  | line hw _ ih =>
    rw [List.append_assoc, List.cons_append, List.cons_append]
    exact .line hw ih

end Returned

theorem lead_eq_of_margin (hw : IsInnerBlank w) (hm : h.margin = w) (fresh : Bool) :
    h.lead fresh = (Layout.indented w hw).lead fresh := by
  simp only [Layout.lead, hm, Layout.indented]

/-- The two layouts differ in the line ends, and in blanks before some of them. -/
theorem returned_lay (hw : IsInnerBlank w) (hm : h.margin = w) (hr : h.returns = true)
    (fresh : Bool) (s : Text) : Returned ((Layout.indented w hw).lay fresh s) (h.lay fresh s) := by
  induction s generalizing fresh with
  | nil => exact .nil
  | cons c s ih =>
    by_cases hc : c = '\n'
    · subst hc
      have hline := Returned.line (h.isInnerBlank_fill fresh) (ih true)
      rw [Layout.lay_break, Layout.lay_break]
      simpa [Layout.ending, Layout.fill, Layout.indented, hr] using hline
    · rw [Layout.lay_char hc, Layout.lay_char hc, lead_eq_of_margin hw hm]
      exact (Returned.of_not_mem (Layout.isInnerBlank_lead _ fresh).newline_not_mem).append
        (.char hc (ih false))

/-- Where empty lines get nothing, the line ends are all that the two layouts differ in. -/
theorem lay_eq_crlf (hw : IsInnerBlank w) (hm : h.margin = w) (hr : h.returns = true)
    (hf : h.filler = []) (fresh : Bool) (s : Text) :
    h.lay fresh s = crlf ((Layout.indented w hw).lay fresh s) := by
  induction s generalizing fresh with
  | nil => rfl
  | cons c s ih =>
    by_cases hc : c = '\n'
    · subst hc
      rw [Layout.lay_break, Layout.lay_break, crlf_append, ih]
      refine congrArg (· ++ _) ?_
      simp [Layout.fill, Layout.ending, Layout.indented, hf, hr, crlf_cons, crlf_nil]
    · have hkeep := crlf_of_not_mem ((Layout.indented w hw).isInnerBlank_lead fresh).newline_not_mem
      rw [Layout.lay_char hc, Layout.lay_char hc, crlf_append, crlf_cons, if_neg hc, ih,
        lead_eq_of_margin hw hm, hkeep]
      rfl

/-! ### CR LF for LF, and cuts -/

namespace Layout

/-- Lines end with CR LF, and nothing else is done to them. -/
def ended : Layout := returning [] [] isInnerBlank_nil isInnerBlank_nil

@[simp] theorem lead_ended (fresh : Bool) : ended.lead fresh = [] := by
  unfold lead
  split <;> rfl

@[simp] theorem fill_ended (fresh : Bool) : ended.fill fresh = [] := by
  unfold fill
  split <;> rfl

end Layout

theorem crlf_break (s : Text) : crlf ('\n' :: s) = '\r' :: '\n' :: crlf s := rfl

theorem crlf_char {c : Char} (hc : c ≠ '\n') (s : Text) : crlf (c :: s) = c :: crlf s := by
  rw [crlf_cons, if_neg hc, List.singleton_append]

theorem crlf_eq_lay (fresh : Bool) (s : Text) : crlf s = Layout.ended.lay fresh s := by
  induction s generalizing fresh with
  | nil => rfl
  | cons c s ih =>
    by_cases hc : c = '\n'
    · subst hc
      rw [crlf_break, Layout.lay_break, Layout.fill_ended, ih true]
      rfl
    · rw [crlf_char hc, Layout.lay_char hc, Layout.lead_ended, ih false, List.nil_append]

theorem crlf_eq_upTo (fresh : Bool) (s : Text) : crlf s = Layout.ended.upTo fresh s := by
  rw [Layout.upTo, Layout.lead_ended, List.append_nil, crlf_eq_lay fresh]

theorem infix_crlf_iff {k : Text} (hne : k ≠ []) (hk : ∀ c ∈ k, isBlank c = false) :
    k <:+: crlf s ↔ k <:+: s := by
  rw [crlf_eq_lay true]
  exact Layout.infix_lay_iff hne hk

theorem Clear.crlf {marker : Text} (h : Clear marker s) (hne : marker ≠ [])
    (hk : ∀ c ∈ marker, isBlank c = false) : Clear marker (crlf s) := by
  rw [crlf_eq_upTo true]
  exact Layout.clear_upTo hne hk h

theorem earlierLines_crlf (s : Text) : earlierLines (crlf s) = crlf (earlierLines s) := by
  rw [crlf_eq_upTo true, crlf_eq_lay true]
  exact (Layout.ended.lines_upTo true s).1

theorem lastLine_crlf (s : Text) : lastLine (crlf s) = lastLine s := by
  rw [crlf_eq_upTo true, (Layout.ended.lines_upTo true s).2, Layout.lead_ended, List.nil_append]

theorem any_isBreak_crlf (s : Text) : (crlf s).any isBreak = s.any isBreak := by
  rw [crlf_eq_lay true, Layout.any_isBreak_lay]

theorem crlf_eq_nil_iff : crlf s = [] ↔ s = [] := by
  rw [crlf_eq_lay true]
  exact Layout.lay_eq_nil_iff

theorem dropBreak?_crlf (hs : '\r' ∉ s) : dropBreak? (crlf s) = (dropBreak? s).map crlf := by
  have hsuits : Layout.ended.Suits s := ⟨noLoneReturn_of_not_mem hs, fun _ => hs⟩
  have hcrlf : crlf = Layout.ended.lay true := funext (crlf_eq_lay true)
  rw [crlf_eq_lay false, Layout.dropBreak?_lay hsuits, hcrlf]

/-- What does not tell CR from LF says the same of what comes first. -/
theorem map_head?_crlf {α : Type} {f : Char → α} (hf : f '\r' = f '\n') (s : Text) :
    (crlf s).head?.map f = s.head?.map f := by
  cases s with
  | nil => rfl
  | cons c s =>
    by_cases hc : c = '\n'
    · subst hc
      exact congrArg some hf
    · rw [crlf_char hc, List.head?_cons, List.head?_cons]

theorem head?_crlf_eq_some_iff {x : Char} (hx : isBreak x = false) :
    (crlf s).head? = some x ↔ s.head? = some x := by
  have hne : ∀ c, isBreak c = true → (c == x) = false := by
    intro c hc
    refine beq_false_of_ne ?_
    rintro rfl
    exact absurd hc (by simp [hx])
  have hmap : ∀ o : Option Char, o = some x ↔ o.map (· == x) = some true := by
    intro o
    cases o <;> simp
  rw [hmap, hmap, map_head?_crlf ((hne '\r' rfl).trans (hne '\n' rfl).symm)]

theorem getLast?_crlf (s : Text) : (crlf s).getLast? = s.getLast? := by
  induction s using List.reverseRecOn with
  | nil => rfl
  | append_singleton s c _ =>
    by_cases hc : c = '\n'
    · subst hc
      simp [crlf_append, crlf_break, crlf_nil]
    · simp [crlf_append, crlf_char hc, crlf_nil]

section Predicate

variable {p : Char → Bool} (hp : p '\r' = p '\n')
include hp

theorem dropWhile_crlf (s : Text) : (crlf s).dropWhile p = crlf (s.dropWhile p) := by
  induction s with
  | nil => rfl
  | cons c s ih =>
    by_cases hc : c = '\n'
    · subst hc
      rw [crlf_break, List.dropWhile_cons, List.dropWhile_cons, List.dropWhile_cons, hp, ih]
      cases p '\n' <;> rfl
    · rw [crlf_char hc, List.dropWhile_cons, List.dropWhile_cons, ih]
      split
      · rfl
      · rw [crlf_char hc]

theorem rdropWhile_crlf (s : Text) : (crlf s).rdropWhile p = crlf (s.rdropWhile p) := by
  induction s using List.reverseRecOn with
  | nil => rfl
  | append_singleton s c ih =>
    by_cases hc : c = '\n'
    · subst hc
      have hend : crlf (s ++ ['\n']) = crlf s ++ ['\r'] ++ ['\n'] := by
        simp [crlf_append, crlf_break, crlf_nil]
      rw [hend, List.rdropWhile_concat, List.rdropWhile_concat, List.rdropWhile_concat, hp, ih]
      cases p '\n' with
      | true => rfl
      | false => exact hend.symm
    · have hend : crlf (s ++ [c]) = crlf s ++ [c] := by simp [crlf_append, crlf_char hc, crlf_nil]
      rw [hend, List.rdropWhile_concat, List.rdropWhile_concat, ih]
      split
      · rfl
      · exact hend.symm

end Predicate

/-- A run that ends at line breaks is the same. -/
theorem takeWhile_crlf {p : Char → Bool} (hr : p '\r' = false) (hn : p '\n' = false) (s : Text) :
    (crlf s).takeWhile p = s.takeWhile p := by
  induction s with
  | nil => rfl
  | cons c s ih =>
    by_cases hc : c = '\n'
    · subst hc
      rw [crlf_break, List.takeWhile_cons_of_neg (by simp [hr]),
        List.takeWhile_cons_of_neg (by simp [hn])]
    · rw [crlf_char hc, List.takeWhile_cons, List.takeWhile_cons, ih]

theorem strip_crlf (s : Text) : strip (crlf s) = crlf (strip s) := by
  rw [strip_eq_rdropWhile, strip_eq_rdropWhile, dropWhile_crlf (by decide),
    rdropWhile_crlf (by decide)]

/-- Words do not tell the line ends between them. -/
theorem words_crlf (s : Text) : words (crlf s) = words s := by
  induction hn : s.length using Nat.strong_induction_on generalizing s with
  | h n ih =>
    by_cases hs : '\n' ∈ s
    · obtain ⟨x, y, rfl, hx⟩ := List.eq_append_cons_of_mem hs
      have hy : words (crlf y) = words y := ih y.length (by simp at hn; omega) y rfl
      rw [crlf_append, crlf_break, crlf_of_not_mem hx, words_append_cons (by decide),
        words_append_cons (by decide), ← List.nil_append ('\n' :: crlf y),
        words_append_cons (by decide), hy]
      rfl
    · rw [crlf_of_not_mem hs]

theorem dropEnding_crlf {c : Char} (hc : isBreak c = false) (s : Text) :
    dropEnding [c] (crlf s) = crlf (dropEnding [c] s) := by
  have hcn : c ≠ '\n' := by
    rintro rfl
    exact absurd hc (by decide)
  by_cases hs : [c] <:+ s
  · obtain ⟨u, rfl⟩ := hs
    rw [crlf_append, crlf_char hcn, crlf_nil, dropEnding_append, dropEnding_append]
  · have hlast : ∀ t : Text, [c] <:+ t ↔ t.getLast? = some c := by
      intro t
      constructor
      · rintro ⟨u, rfl⟩
        simp
      · intro h
        obtain ⟨u, rfl⟩ := List.getLast?_eq_some_iff.1 h
        exact ⟨u, rfl⟩
    have hs' : ¬ [c] <:+ crlf s := by rwa [hlast, getLast?_crlf, ← hlast]
    rw [dropEnding_of_not_suffix hs, dropEnding_of_not_suffix hs']

end Text

end Mustache
