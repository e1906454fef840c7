import Mathlib.Data.List.Infix
import Mustache.Text.Line

/-!
# Lines and blanks

What the two ends of a text say about its lines.  `lastLine` looks behind the last LF only, so it
does not see what stands before that (`lastLine_append_break`); `leadingBreak` is the line break that
`dropBreak?` drops, and it sees no further than to the first LF (`dropBreak?_append`).
-/

namespace Mustache

namespace Text

variable {s t u v : Text}

/-! ### Definitions -/

/-- The line break at the front of a text: CR LF, LF or CR, and nothing if there is none. -/
def leadingBreak : Text → Text
  | '\r' :: '\n' :: _ => ['\r', '\n']
  | '\r' :: _ => ['\r']
  | '\n' :: _ => ['\n']
  | _ => []

/-- The text is empty or ends with LF. -/
def WholeLines (s : Text) : Prop := ∀ c ∈ s.getLast?, c = '\n'

/-- Every CR is followed by LF. -/
def NoLoneReturn (s : Text) : Prop := ∀ u v, s = u ++ '\r' :: v → v.head? = some '\n'

theorem isBlank_of_isBreak {c : Char} (h : isBreak c = true) : isBlank c = true := by
  rcases (by simpa [isBreak] using h : c = '\n' ∨ c = '\r') with rfl | rfl <;> decide

theorem isBreak_of_not_blank {c : Char} (h : isBlank c = false) : isBreak c = false := by
  rw [← Bool.not_eq_true]
  intro hb
  simp [isBlank_of_isBreak hb] at h

/-! ### Words -/

theorem eq_false_of_mem_splitOnP {p : Char → Bool} {w : Text} (h : w ∈ s.splitOnP p) :
    ∀ c ∈ w, p c = false := by
  induction s generalizing w with
  | nil =>
    obtain rfl : w = [] := by simpa using h
    simp
  | cons d s ih =>
    rw [List.splitOnP_cons_eq_if_modifyHead] at h
    split at h
    · rcases List.mem_cons.1 h with rfl | h
      · simp
      · exact ih h
    · next hd =>
      obtain ⟨v, vs, hv⟩ := List.exists_cons_of_ne_nil (List.splitOnP_ne_nil p s)
      rw [hv, List.modifyHead_cons] at h
      rcases List.mem_cons.1 h with rfl | h
      · simpa [hd] using ih (hv ▸ List.mem_cons_self)
      · exact ih (hv ▸ List.mem_cons_of_mem v h)

/-- No piece that `words` gives holds a blank. -/
theorem not_blank_of_mem_words {w : Text} (h : w ∈ words s) : ∀ c ∈ w, isBlank c = false :=
  eq_false_of_mem_splitOnP (List.mem_filter.1 h).1

/-- Words end at a blank. -/
theorem words_append_cons {b : Char} (hb : isBlank b = true) (s t : Text) :
    words (s ++ b :: t) = words s ++ words t := by
  rw [words, List.splitOnP_append_cons s t hb, List.filter_append]
  rfl

/-- Two texts without blanks, and a blank between them, are two words. -/
theorem words_pair {b : Char} (hb : isBlank b = true) (hs : s ≠ []) (ht : t ≠ [])
    (hsb : ∀ c ∈ s, isBlank c = false) (htb : ∀ c ∈ t, isBlank c = false) :
    words (s ++ b :: t) = [s, t] := by
  rw [words, List.splitOnP_append_cons s t hb, List.splitOnP_eq_singleton hsb,
    List.splitOnP_eq_singleton htb]
  simp [hs, ht]

/-! ### The last line -/

theorem lastLine_concat (s : Text) (c : Char) :
    lastLine (s ++ [c]) = if c = '\n' then [] else lastLine s ++ [c] := by
  by_cases h : c = '\n' <;> simp [lastLine, h]

theorem not_mem_lastLine (s : Text) : '\n' ∉ lastLine s := by
  induction s using List.reverseRecOn with
  | nil => simp [lastLine]
  | append_singleton s c ih =>
    rw [lastLine_concat]
    split
    · simp
    · next h => simp [ih, Ne.symm h]

theorem lastLine_append_break (s t : Text) : lastLine (s ++ '\n' :: t) = lastLine t := by
  induction t using List.reverseRecOn with
  | nil => simp [lastLine]
  | append_singleton t c ih =>
    rw [← List.cons_append, ← List.append_assoc, lastLine_concat, lastLine_concat, ih]

theorem lastLine_append_of_mem (s : Text) (h : '\n' ∈ t) : lastLine (s ++ t) = lastLine t := by
  obtain ⟨u, v, rfl⟩ := List.append_of_mem h
  rw [← List.append_assoc, lastLine_append_break, lastLine_append_break]

/-- Text without LF only makes the last line longer. -/
theorem lastLine_append_of_not_mem (s : Text) (h : '\n' ∉ t) :
    lastLine (s ++ t) = lastLine s ++ t := by
  induction t using List.reverseRecOn with
  | nil => simp
  | append_singleton t c ih =>
    simp only [List.mem_append, List.mem_singleton, not_or] at h
    rw [← List.append_assoc, lastLine_concat, if_neg (Ne.symm h.2), ih h.1, List.append_assoc]

theorem lastLine_of_not_mem (h : '\n' ∉ s) : lastLine s = s := lastLine_append_of_not_mem [] h

theorem earlierLines_append_break (s t : Text) :
    earlierLines (s ++ '\n' :: t) = s ++ '\n' :: earlierLines t := by
  have h : earlierLines (s ++ '\n' :: t) ++ lastLine t =
      s ++ '\n' :: earlierLines t ++ lastLine t := by
    rw [← lastLine_append_break s t, earlierLines_append_lastLine, lastLine_append_break,
      List.append_assoc, List.cons_append, earlierLines_append_lastLine]
  exact List.append_cancel_right h

theorem earlierLines_concat (s : Text) (c : Char) :
    earlierLines (s ++ [c]) = if c = '\n' then s ++ [c] else earlierLines s := by
  by_cases h : c = '\n' <;> simp [earlierLines, h]

theorem earlierLines_eq_nil_iff : earlierLines s = [] ↔ '\n' ∉ s := by
  constructor
  · intro h
    have hs := earlierLines_append_lastLine s
    rw [h, List.nil_append] at hs
    exact hs ▸ not_mem_lastLine s
  · intro h
    have hs := earlierLines_append_lastLine s
    rw [lastLine_of_not_mem h] at hs
    exact List.append_left_eq_self.1 hs

/-- What stands before the last line ends with a line. -/
theorem getLast?_earlierLines (h : earlierLines s ≠ []) : (earlierLines s).getLast? = some '\n' := by
  induction s using List.reverseRecOn with
  | nil => simp [earlierLines] at h
  | append_singleton s c ih =>
    rw [earlierLines_concat] at h ⊢
    split at h
    · next hc => simp [hc]
    · next hc =>
      rw [if_neg hc]
      exact ih h

/-! ### Whole lines -/

theorem wholeLines_iff : WholeLines s ↔ s = [] ∨ ∃ t, s = t ++ ['\n'] := by
  induction s using List.reverseRecOn with
  | nil => simp [WholeLines]
  | append_singleton s c _ => simp [WholeLines]

/-- What stands at the end of whole lines is whole lines. -/
theorem WholeLines.of_append (h : WholeLines (s ++ t)) : WholeLines t := by
  intro c hc
  exact h c (by simp [Option.mem_def.1 hc])

/-- A character that ends the run ends it for good. -/
theorem takeWhile_append_of_neg {p : Char → Bool} {c : Char} (hc : p c = false) (s t : Text) :
    (s ++ c :: t).takeWhile p = s.takeWhile p := by
  induction s with
  | nil => simp [hc]
  | cons d s ih => simp only [List.cons_append, List.takeWhile_cons, ih]

theorem dropWhile_append_of_neg {p : Char → Bool} {c : Char} (hc : p c = false) (s t : Text) :
    (s ++ c :: t).dropWhile p = s.dropWhile p ++ c :: t := by
  induction s with
  | nil => simp [hc]
  | cons d s ih =>
    simp only [List.cons_append, List.dropWhile_cons, ih]
    split
    · rfl
    · rfl

/-! ### The line break at the front -/

theorem leadingBreak_append_dropBreak? (s : Text) :
    leadingBreak s ++ (dropBreak? s).getD s = s := by
  unfold leadingBreak dropBreak?
  split <;> simp_all

theorem isSome_dropBreak? (s : Text) : (dropBreak? s).isSome = s.head?.any isBreak := by
  unfold dropBreak?
  split
  · rfl
  · rfl
  · rfl
  · next h1 h2 h3 =>
    cases s with
    | nil => rfl
    | cons c s =>
      have hr : c ≠ '\r' := fun h => h2 s (by rw [h])
      have hn : c ≠ '\n' := fun h => h3 s (by rw [h])
      simp [isBreak, hr, hn]

theorem leadingBreak_eq_nil_iff : leadingBreak s = [] ↔ (dropBreak? s).isSome = false := by
  unfold leadingBreak dropBreak?
  split <;> simp_all

theorem decide_leadingBreak_ne_nil (s : Text) :
    decide (leadingBreak s ≠ []) = (dropBreak? s).isSome := by
  rw [Bool.eq_iff_iff, decide_eq_true_iff, ne_eq, leadingBreak_eq_nil_iff, Bool.not_eq_false]

theorem leadingBreak_mem (s : Text) :
    leadingBreak s ∈ [[], ['\n'], ['\r', '\n'], ['\r']] := by
  unfold leadingBreak
  split <;> simp

/-- Text behind a LF has no say in the line break at the front. -/
theorem dropBreak?_append (s t : Text) :
    dropBreak? (s ++ ['\n'] ++ t) = (dropBreak? (s ++ ['\n'])).map fun u => u ++ t := by
  match s with
  | [] => rfl
  | [c] =>
    by_cases hr : c = '\r'
    · subst hr
      rfl
    · by_cases hn : c = '\n'
      · subst hn
        rfl
      · simp [dropBreak?, hr, hn]
  | c :: d :: s =>
    by_cases hr : c = '\r'
    · subst hr
      by_cases hd : d = '\n'
      · subst hd
        rfl
      · simp [dropBreak?, hd]
    · by_cases hn : c = '\n'
      · subst hn
        rfl
      · simp [dropBreak?, hr, hn]

/-- A character that breaks no line keeps what comes behind it out of the line break at the front. -/
theorem dropBreak?_append_cons {c : Char} (hc : isBreak c = false) (s t : Text) :
    dropBreak? (s ++ c :: t) = (dropBreak? s).map fun u => u ++ c :: t := by
  have hn : c ≠ '\n' := by
    rintro rfl
    exact absurd hc (by decide)
  have hr : c ≠ '\r' := by
    rintro rfl
    exact absurd hc (by decide)
  match s with
  | [] => simp [dropBreak?, hn, hr]
  | [d] =>
    by_cases hdr : d = '\r'
    · subst hdr
      simp [dropBreak?, hn]
    · by_cases hdn : d = '\n' <;> simp [dropBreak?, hdr, hdn]
  | d :: e :: s =>
    by_cases hdr : d = '\r'
    · subst hdr
      by_cases he : e = '\n' <;> simp [dropBreak?, he]
    · by_cases hdn : d = '\n' <;> simp [dropBreak?, hdr, hdn]

/-! ### Texts without a lone CR -/

theorem noLoneReturn_nil : NoLoneReturn [] := fun u v h => by simp at h

theorem noLoneReturn_cons_iff {c : Char} :
    NoLoneReturn (c :: s) ↔ (c = '\r' → s.head? = some '\n') ∧ NoLoneReturn s := by
  constructor
  · intro h
    exact ⟨fun hc => h [] s (by rw [hc]; rfl), fun u v hs => h (c :: u) v (by rw [hs]; rfl)⟩
  · rintro ⟨h1, h2⟩ u v hs
    cases u with
    | nil =>
      obtain ⟨rfl, rfl⟩ := List.cons_eq_cons.1 hs
      exact h1 rfl
    | cons d u => exact h2 u v (List.cons_eq_cons.1 hs).2

theorem NoLoneReturn.of_append (h : NoLoneReturn (s ++ t)) : NoLoneReturn t := by
  intro u v ht
  exact h (s ++ u) v (by rw [ht, List.append_assoc])

theorem NoLoneReturn.append (hs : NoLoneReturn s) (ht : NoLoneReturn t) : NoLoneReturn (s ++ t) := by
  induction s with
  | nil => exact ht
  | cons c s ih =>
    obtain ⟨hc, hs⟩ := noLoneReturn_cons_iff.1 hs
    refine noLoneReturn_cons_iff.2 ⟨fun hr => ?_, ih hs⟩
    show (s ++ t).head? = some '\n'
    rw [List.head?_append, hc hr, Option.some_or]

/-- In such a text a character that is no LF never stands right behind a CR. -/
theorem NoLoneReturn.mem_of_any_isBreak {c : Char} (h : NoLoneReturn (u ++ (s ++ c :: t)))
    (hc : c ≠ '\n') (hs : s.any isBreak = true) : '\n' ∈ s := by
  obtain ⟨d, hd, hb⟩ := List.any_eq_true.1 hs
  rcases (by simpa [isBreak] using hb : d = '\n' ∨ d = '\r') with rfl | rfl
  · exact hd
  · obtain ⟨x, y, rfl⟩ := List.append_of_mem hd
    have hy := h (u ++ x) (y ++ c :: t) (by simp)
    cases y with
    | nil => exact absurd (by simpa using hy) hc
    | cons e y =>
      have he : e = '\n' := by simpa using hy
      simp [he]

theorem leadingBreak_prefix (s : Text) : leadingBreak s <+: s :=
  ⟨_, leadingBreak_append_dropBreak? s⟩

theorem NoLoneReturn.leadingBreak_mem (h : NoLoneReturn (u ++ s)) :
    leadingBreak s ∈ [[], ['\n'], ['\r', '\n']] := by
  have hm := Text.leadingBreak_mem s
  simp only [List.mem_cons, List.not_mem_nil, or_false] at hm ⊢
  rcases hm with hm | hm | hm | hm
  · exact .inl hm
  · exact .inr (.inl hm)
  · exact .inr (.inr hm)
  · -- a lone CR at the front
    exfalso
    obtain ⟨v, rfl⟩ := hm ▸ leadingBreak_prefix s
    have hv := h u v rfl
    cases v with
    | nil => simp at hv
    | cons e v =>
      obtain rfl : e = '\n' := by simpa using hv
      simp [leadingBreak] at hm

theorem NoLoneReturn.isSome_dropBreak?_iff (h : NoLoneReturn (u ++ s)) :
    (dropBreak? s).isSome = true ↔ ['\n'] <+: s ∨ ['\r', '\n'] <+: s := by
  constructor
  · intro hs
    have hm := h.leadingBreak_mem
    simp only [List.mem_cons, List.not_mem_nil, or_false] at hm
    rcases hm with hm | hm | hm
    · simp [leadingBreak_eq_nil_iff.1 hm] at hs
    · exact .inl (hm ▸ leadingBreak_prefix s)
    · exact .inr (hm ▸ leadingBreak_prefix s)
  · rintro (⟨v, rfl⟩ | ⟨v, rfl⟩) <;> rfl

end Text

end Mustache
