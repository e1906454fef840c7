import Mathlib.Data.List.DropRight
import Mathlib.Data.List.Infix
import Mustache.Proofs.Text.Lines
import Mustache.Proofs.Text.Marker

/-!
# Parts of a text

Cuts give parts of a text: what is left without the blanks at its ends, without a marker at its end,
or between two separators.  Indentation puts blanks before lines, so a part without blanks stands in
the indented text exactly if it stands in the text (`infix_indent_iff`).
-/

namespace Mustache

namespace Text

/-! ### Definitions -/

/-- The text can stand before a tag on its line: it is blank and holds no LF. -/
def IsMargin (w : Text) : Prop := ∀ c ∈ w, isBlank c = true ∧ c ≠ '\n'

variable {k s t w marker : Text} {c : Char}

theorem isMargin_nil : IsMargin [] := fun _ h => absurd h List.not_mem_nil

/-- A blank last line is a margin. -/
theorem isMargin_lastLine (h : (lastLine s).all isBlank = true) : IsMargin (lastLine s) := by
  intro c hc
  refine ⟨List.all_eq_true.1 h c hc, ?_⟩
  rintro rfl
  exact not_mem_lastLine s hc

/-! ### Cuts -/

theorem strip_isInfix (s : Text) : strip s <:+: s := by
  have hfront : s.dropWhile isBlank <:+ s := List.dropWhile_suffix isBlank
  have hback : strip s <+: s.dropWhile isBlank :=
    List.reverse_suffix.1 (by simpa [strip] using List.dropWhile_suffix isBlank)
  exact hback.isInfix.trans hfront.isInfix

theorem strip_eq_rdropWhile (s : Text) : strip s = (s.dropWhile isBlank).rdropWhile isBlank := rfl

theorem strip_append_cons (hc : isBlank c = false) (s t : Text) :
    strip (s ++ c :: t) = s.dropWhile isBlank ++ c :: t.rdropWhile isBlank := by
  rw [strip, dropWhile_append_of_neg hc, List.reverse_append, List.reverse_cons, List.append_assoc,
    List.singleton_append, dropWhile_append_of_neg hc]
  simp [List.rdropWhile]

/-- What is blank up to its end, behind something that is not, is made shorter by `strip`. -/
theorem strip_eq_dropWhile_iff : strip s = s.dropWhile isBlank ↔
    ∀ front c, s = front ++ [c] → isBlank c = true → ∀ d ∈ front, isBlank d = true := by
  rw [strip_eq_rdropWhile, List.rdropWhile_eq_self_iff]
  constructor
  · rintro h front c rfl hc d hd
    by_contra hblank
    -- then the last character is left when the blanks at the front are gone
    obtain ⟨u, v, rfl⟩ := List.append_of_mem hd
    have hkept : (u ++ d :: (v ++ [c])).dropWhile isBlank = u.dropWhile isBlank ++ d :: (v ++ [c]) :=
      dropWhile_append_of_neg (by simpa using hblank) u (v ++ [c])
    simp [hkept, hc] at h
  · intro h hne hlast
    have hs : s ≠ [] := by
      rintro rfl
      exact hne rfl
    have hc : (s.dropWhile isBlank).getLast hne = s.getLast hs :=
      (List.dropWhile_suffix isBlank).getLast hne
    rw [hc] at hlast
    have hall := h s.dropLast (s.getLast hs) (List.dropLast_append_getLast hs).symm hlast
    refine hne (List.dropWhile_eq_nil_iff.2 fun d hd => ?_)
    rw [← List.dropLast_append_getLast hs, List.mem_append, List.mem_singleton] at hd
    rcases hd with hd | rfl
    · exact hall d hd
    · exact hlast

/-- Where `strip` cuts nothing, no blank stands in front. -/
theorem dropWhile_of_strip (h : strip s = s) : s.dropWhile isBlank = s := by
  have hsub : (strip s).Sublist (s.dropWhile isBlank) := by
    rw [strip_eq_rdropWhile]
    exact (List.rdropWhile_prefix isBlank _).sublist
  rw [h] at hsub
  exact (List.dropWhile_sublist isBlank).antisymm hsub

/-- Where `strip` cuts nothing, no blank stands at the end. -/
theorem rdropWhile_of_strip (h : strip s = s) : s.rdropWhile isBlank = s := by
  have hs : strip s = s.rdropWhile isBlank := by rw [strip_eq_rdropWhile, dropWhile_of_strip h]
  rw [← hs, h]

theorem dropEnding_isPrefix (marker s : Text) : dropEnding marker s <+: s := by
  unfold dropEnding
  cases h : behind? marker.reverse s.reverse with
  | none => exact List.prefix_refl s
  | some front =>
    have hs := behind?_eq_some_iff.1 h
    exact ⟨marker, by simpa using (congrArg List.reverse hs).symm⟩

theorem infix_intercalate {sep : Text} {ls : List Text} (h : t ∈ ls) :
    t <:+: sep.intercalate ls := by
  induction ls with
  | nil => cases h
  | cons l ls ih =>
    cases ls with
    | nil =>
      obtain rfl := List.mem_singleton.1 h
      rw [List.intercalate_singleton]
    | cons l' ls =>
      rw [List.intercalate_cons_cons]
      rcases List.mem_cons.1 h with rfl | h
      · exact (List.prefix_append t _).isInfix.trans (List.prefix_append _ _).isInfix
      · exact (ih h).trans (List.suffix_append _ _).isInfix

/-- What stands between two separators is a part of the text. -/
theorem infix_of_mem_splitOn {c : Char} (h : t ∈ s.splitOn c) : t <:+: s := by
  have hs : t <:+: [c].intercalate (s.splitOn c) := infix_intercalate h
  rwa [List.intercalate_splitOn] at hs

/-- The first part of a cut text ends before the first separator. -/
theorem head_splitOn (s : Text) (c : Char) :
    (s.splitOn c).head (List.splitOn_ne_nil c s) = s.takeWhile (· ≠ c) := by
  induction s with
  | nil => rfl
  | cons d s ih =>
    by_cases hd : d = c
    · simp [List.splitOn_cons_eq_if_modifyHead, hd]
    · obtain ⟨l, ls, hl⟩ := List.exists_cons_of_ne_nil (List.splitOn_ne_nil c s)
      have hl' : l = s.takeWhile (· ≠ c) := by simpa [hl] using ih
      simp [List.splitOn_cons_eq_if_modifyHead, hd, hl, hl']

theorem takeWhile_append_cons (h : c ∉ s) (t : Text) : (s ++ c :: t).takeWhile (· ≠ c) = s := by
  have hall : ∀ d ∈ s, decide (d ≠ c) = true := by
    intro d hd
    exact decide_eq_true fun he => h (he ▸ hd)
  rw [List.takeWhile_append_of_pos hall]
  simp

/-! ### Indentation -/

/-- A text without LF is part of joined lines exactly if it is part of one of them. -/
theorem infix_intercalate_iff {ls : List Text} (hk : '\n' ∉ k) (hne : ls ≠ []) :
    k <:+: ['\n'].intercalate ls ↔ ∃ l ∈ ls, k <:+: l := by
  induction ls with
  | nil => exact absurd rfl hne
  | cons l ls ih =>
    cases ls with
    | nil => simp
    | cons l' ls =>
      have hjoin : ['\n'].intercalate (l :: l' :: ls) =
          l ++ '\n' :: ['\n'].intercalate (l' :: ls) := by
        simp [List.intercalate_cons_cons]
      rw [hjoin, infix_append_cons_iff hk, ih (by simp)]
      simp

/-- Blanks in front of a text take no part in what holds none. -/
theorem infix_append_iff_of_blank (hne : k ≠ []) (hk : ∀ c ∈ k, isBlank c = false)
    (hw : ∀ c ∈ w, isBlank c = true) : k <:+: w ++ s ↔ k <:+: s := by
  induction w with
  | nil => rfl
  | cons c w ih =>
    have hc : c ∉ k := by
      intro hc
      have hblank := hw c List.mem_cons_self
      rw [hk c hc] at hblank
      cases hblank
    rw [List.cons_append, ← List.nil_append (c :: (w ++ s)), infix_append_cons_iff hc,
      ih fun d hd => hw d (List.mem_cons_of_mem c hd)]
    simp [hne]

/-- **Indentation keeps the parts without blanks** and adds none. -/
theorem infix_indent_iff (hne : k ≠ []) (hk : ∀ c ∈ k, isBlank c = false)
    (hw : ∀ c ∈ w, isBlank c = true) : k <:+: indent w s ↔ k <:+: s := by
  have hnl : '\n' ∉ k := fun h => absurd (hk _ h) (by decide)
  have hlines : s.splitOn '\n' ≠ [] := List.splitOn_ne_nil '\n' s
  have hline : ∀ l : Text, (k <:+: if l = [] then l else w ++ l) ↔ k <:+: l := by
    intro l
    split
    · rfl
    · exact infix_append_iff_of_blank hne hk hw
  have hs : k <:+: s ↔ ∃ l ∈ s.splitOn '\n', k <:+: l := by
    rw [← infix_intercalate_iff hnl hlines, List.intercalate_splitOn]
  rw [hs, indent, infix_intercalate_iff hnl (by simp)]
  simp only [List.mem_map, exists_exists_and_eq_and, hline]

end Text

end Mustache
