import Mustache.Proofs.Text.Layout

/-!
# Margins act on texts

Indentation works on the lines of a text one by one.  A margin that holds no LF neither makes nor
joins lines and leaves the empty ones empty, so the lines of the indented text are the indented lines
(`splitOn_indent`).  From this follow the laws that nested partials live on: two margins in turn are
one margin (`indent_indent`), and lines can be indented apart (`indent_append_break`).
`indent_action` puts them together.
-/

namespace Mustache

namespace Text

/-! ### Definitions -/

/-- The line with a margin in front, unless it is empty. -/
def indentLine (margin line : Text) : Text := if line = [] then line else margin ++ line

variable {s w b line : Text}

/-! ### One line -/

theorem indentLine_eq_nil_iff : indentLine w line = [] ↔ line = [] := by
  unfold indentLine
  split
  · rfl
  · next h => simp [h]

theorem newline_not_mem_indentLine (hw : '\n' ∉ w) (hline : '\n' ∉ line) :
    '\n' ∉ indentLine w line := by
  unfold indentLine
  split
  · exact hline
  · rw [List.mem_append, not_or]
    exact ⟨hw, hline⟩

theorem indentLine_indentLine (a b line : Text) :
    indentLine a (indentLine b line) = indentLine (a ++ b) line := by
  by_cases h : line = []
  · rw [h]
    rfl
  · have hb : indentLine b line ≠ [] := mt indentLine_eq_nil_iff.1 h
    rw [indentLine, if_neg hb, indentLine, if_neg h, indentLine, if_neg h, List.append_assoc]

/-! ### All lines -/

theorem newline_not_mem_of_mem_splitOn (h : line ∈ s.splitOn '\n') : '\n' ∉ line := by
  rw [List.splitOn_eq_splitOnP] at h
  intro hmem
  have hfalse := eq_false_of_mem_splitOnP h '\n' hmem
  simp at hfalse

theorem indent_eq (w s : Text) :
    indent w s = ['\n'].intercalate ((s.splitOn '\n').map (indentLine w)) := rfl

theorem map_indentLine_splitOn_ne_nil (w s : Text) : (s.splitOn '\n').map (indentLine w) ≠ [] :=
  mt List.map_eq_nil_iff.1 (List.splitOn_ne_nil '\n' s)

/-- **The lines of an indented text** are the indented lines. -/
theorem splitOn_indent (hw : '\n' ∉ w) (s : Text) :
    (indent w s).splitOn '\n' = (s.splitOn '\n').map (indentLine w) := by
  refine List.splitOn_intercalate '\n' (fun l hl => ?_) (map_indentLine_splitOn_ne_nil w s)
  obtain ⟨line, hline, rfl⟩ := List.mem_map.1 hl
  exact newline_not_mem_indentLine hw (newline_not_mem_of_mem_splitOn hline)

/-- **Two margins in turn** are one, as long as the inner one stays on its line. -/
theorem indent_indent (a : Text) (hb : '\n' ∉ b) (s : Text) :
    indent a (indent b s) = indent (a ++ b) s := by
  -- the inner margin leaves the lines apart, so the outer one meets each of them again
  have hline : indentLine a ∘ indentLine b = indentLine (a ++ b) :=
    funext fun line => indentLine_indentLine a b line
  rw [indent_eq, splitOn_indent hb, List.map_map, hline, indent_eq]

theorem intercalate_append {sep : Text} {ls ls' : List Text} (h : ls ≠ []) (h' : ls' ≠ []) :
    sep.intercalate (ls ++ ls') = sep.intercalate ls ++ sep ++ sep.intercalate ls' := by
  induction ls with
  | nil => exact absurd rfl h
  | cons l ls ih =>
    by_cases hls : ls = []
    · rw [hls, List.singleton_append, List.intercalate_cons_of_ne_nil h', List.intercalate_singleton]
    · have hall : ls ++ ls' ≠ [] := by simp [hls]
      rw [List.cons_append, List.intercalate_cons_of_ne_nil hall, ih hls,
        List.intercalate_cons_of_ne_nil hls]
      simp only [List.append_assoc]

/-- **Lines can be indented apart.** -/
theorem indent_append_break (w s t : Text) :
    indent w (s ++ '\n' :: t) = indent w s ++ '\n' :: indent w t := by
  have hs := map_indentLine_splitOn_ne_nil w s
  have ht := map_indentLine_splitOn_ne_nil w t
  rw [indent_eq, List.splitOn_append_cons_self, List.map_append, intercalate_append hs ht,
    List.append_assoc]
  rfl

/-- **Margins act on texts**: no margin changes nothing, and two margins in turn are one.  They act
on each line by itself: a line break stays where it is and all lines, as many as there were, get
the margin, but those that are empty stay empty. -/
theorem indent_action :
    (∀ t : Text, indent [] t = t) ∧
      (∀ a b t : Text, '\n' ∉ b → indent a (indent b t) = indent (a ++ b) t) ∧
      (∀ a t t' : Text, indent a (t ++ '\n' :: t') = indent a t ++ '\n' :: indent a t') ∧
      ∀ a t : Text, '\n' ∉ a →
        ((indent a t).splitOn '\n').length = (t.splitOn '\n').length ∧
          (∀ i : Nat, ((indent a t).splitOn '\n')[i]? = some [] ↔ (t.splitOn '\n')[i]? = some []) ∧
          ∀ (i : Nat) (line : Text), (t.splitOn '\n')[i]? = some line → line ≠ [] →
            ((indent a t).splitOn '\n')[i]? = some (a ++ line) := by
  refine ⟨indent_nil, fun a b t hb => indent_indent a hb t, indent_append_break, ?_⟩
  intro a t ha
  rw [splitOn_indent ha]
  refine ⟨List.length_map _, fun i => ?_, fun i line hline hne => ?_⟩
  · rw [List.getElem?_map, Option.map_eq_some_iff]
    simp only [indentLine_eq_nil_iff, exists_eq_right]
  · rw [List.getElem?_map, hline, Option.map_some, indentLine, if_neg hne]

/-- A text with an empty line inside and one at its end, indented twice. -/
theorem indent_action_emptyLines :
    let s : Text := "x\n\n y\n".toList
    indent "  ".toList (indent "\t".toList s) = "  \tx\n\n  \t y\n".toList ∧
      ((indent "\t".toList s).splitOn '\n').length = 4 ∧
      ((indent "\t".toList s).splitOn '\n')[3]? = some [] ∧
      ((indent "\t".toList s).splitOn '\n')[2]? = some "\t y".toList := by
  intro s
  obtain ⟨-, htwice, -, hlines⟩ := indent_action
  obtain ⟨hlength, hempty, hfull⟩ := hlines "\t".toList s (by decide)
  refine ⟨?_, hlength, (hempty 3).2 (by decide), hfull 2 " y".toList (by decide) (by decide)⟩
  rw [htwice _ _ s (by decide)]
  decide

end Text

end Mustache
