import Mathlib.Data.List.Infix
import Mustache.Text.Basic

/-!
# First occurrences of a marker

`breakOn` cuts a text at the first occurrence of a marker.  `Clear marker s` says that no occurrence
starts inside `s` when the marker stands right behind `s`.  That is all the cut depends on
(`breakOn_eq_some_iff`), so a cut can be found again when text is added in front of it that ends with
a character that the marker does not hold (`breakOn_append_left`).
-/

namespace Mustache

namespace Text

variable {marker s x b before after : Text}

/-- No occurrence of the marker starts inside `s` when the marker stands right behind `s`. -/
def Clear (marker s : Text) : Prop := ∀ u, u ++ marker <+: s ++ marker → s.length ≤ u.length

theorem clear_nil (marker : Text) : Clear marker [] := fun _ _ => Nat.zero_le _

theorem clear_cons_iff {c : Char} :
    Clear marker (c :: s) ↔ ¬ marker <+: c :: (s ++ marker) ∧ Clear marker s := by
  constructor
  · intro h
    refine ⟨fun hp => ?_, fun u hu => ?_⟩
    · have := h [] hp
      simp at this
    · have := h (c :: u) (List.cons_prefix_cons.2 ⟨rfl, hu⟩)
      simpa using this
  · rintro ⟨h1, h2⟩ u hu
    cases u with
    | nil => exact absurd hu h1
    | cons d u =>
      have := h2 u (List.cons_prefix_cons.1 hu).2
      simpa using this

/-- A clear text holds no occurrence of the marker. -/
theorem Clear.not_infix (h : Clear marker s) (hm : marker ≠ []) : ¬ marker <:+: s := by
  rintro ⟨u, v, rfl⟩
  have h1 := h u ⟨v ++ marker, by simp⟩
  have h2 := List.length_pos_iff.2 hm
  simp only [List.length_append] at h1
  omega

/-- A marker at the front of `s`, with the marker behind it, shows already in `s` and the marker. -/
theorem prefix_append_marker (h : marker <+: s ++ marker ++ after) : marker <+: s ++ marker :=
  List.prefix_of_prefix_length_le h (List.prefix_append _ _) (by simp)

theorem behind?_eq_none_iff : behind? marker s = none ↔ ¬ marker <+: s := by
  rw [Option.eq_none_iff_forall_ne_some]
  constructor
  · rintro h ⟨t, rfl⟩
    exact h t (behind?_eq_some_iff.2 rfl)
  · intro h t ht
    exact h ⟨t, (behind?_eq_some_iff.1 ht).symm⟩

theorem clear_of_breakOn (h : breakOn marker s = some (before, after)) : Clear marker before := by
  induction s generalizing before after with
  | nil =>
    obtain ⟨u, -, he⟩ := Option.map_eq_some_iff.1 h
    cases he
    exact clear_nil marker
  | cons c rest ih =>
    simp only [breakOn] at h
    split at h
    · cases h
      exact clear_nil marker
    · next hn =>
      obtain ⟨⟨b, a⟩, hb, he⟩ := Option.map_eq_some_iff.1 h
      cases he
      refine clear_cons_iff.2 ⟨fun hp => behind?_eq_none_iff.1 hn ?_, ih hb⟩
      rw [eq_append_of_breakOn hb]
      exact hp.trans ⟨a, by simp⟩

theorem breakOn_of_clear (h : Clear marker before) :
    breakOn marker (before ++ marker ++ after) = some (before, after) := by
  induction before with
  | nil =>
    cases hs : marker ++ after with
    | nil =>
      obtain ⟨rfl, rfl⟩ := List.append_eq_nil_iff.1 hs
      rfl
    | cons c rest =>
      have : behind? marker (c :: rest) = some after := behind?_eq_some_iff.2 hs.symm
      simp [hs, breakOn, this]
  | cons c before ih =>
    obtain ⟨h1, h2⟩ := clear_cons_iff.1 h
    have hn : behind? marker (c :: (before ++ marker ++ after)) = none :=
      behind?_eq_none_iff.2 fun hp => h1 (prefix_append_marker (s := c :: before) hp)
    simp only [List.cons_append, breakOn, hn, ih h2, Option.map_some]

/-- **The cut at a marker**: it is the one whose front is clear of the marker. -/
theorem breakOn_eq_some_iff :
    breakOn marker s = some (before, after) ↔ s = before ++ marker ++ after ∧ Clear marker before :=
  ⟨fun h => ⟨eq_append_of_breakOn h, clear_of_breakOn h⟩,
    fun ⟨h1, h2⟩ => h1 ▸ breakOn_of_clear h2⟩

/-- A text has no cut if and only if it does not hold the marker. -/
theorem breakOn_eq_none_iff : breakOn marker s = none ↔ ¬ marker <:+: s := by
  induction s with
  | nil => simp [breakOn, behind?_eq_none_iff]
  | cons c rest ih =>
    rw [List.infix_cons_iff, not_or, ← ih, ← behind?_eq_none_iff]
    simp only [breakOn]
    split
    · next h => simp [h]
    · next h => simp [h]

/-! ### Text added in front -/

/-- An occurrence of the marker cannot reach over a character that the marker does not hold. -/
theorem prefix_of_prefix_append_cons {c : Char} {y : Text} (hc : c ∉ marker)
    (h : marker <+: x ++ c :: y) : marker <+: x := by
  rcases List.prefix_or_prefix_of_prefix h (List.prefix_append x (c :: y)) with h' | h'
  · exact h'
  · obtain ⟨t, rfl⟩ := h'
    cases t with
    | nil => simp
    | cons d t =>
      have hd := List.cons_prefix_cons.1 ((List.prefix_append_right_inj x).1 h)
      exact absurd (by simp [hd.1]) hc

theorem breakOn_append_left {c : Char} (hc : c ∉ marker) (hx : ¬ marker <:+: x ++ [c]) (b : Text) :
    breakOn marker (x ++ c :: b) =
      (breakOn marker b).map fun (before, after) => (x ++ c :: before, after) := by
  have hm : marker ≠ [] := by
    rintro rfl
    exact hx (List.nil_infix)
  induction x with
  | nil =>
    have hn : behind? marker (c :: b) = none := behind?_eq_none_iff.2 fun hp => by
      have := prefix_of_prefix_append_cons (x := []) hc hp
      exact hm (List.prefix_nil.1 this)
    simp only [List.nil_append, breakOn, hn]
  | cons d x ih =>
    rw [List.cons_append, List.infix_cons_iff, not_or] at hx
    have hn : behind? marker (d :: (x ++ c :: b)) = none := behind?_eq_none_iff.2 fun hp =>
      hx.1 ((prefix_of_prefix_append_cons (x := d :: x) hc hp).trans ⟨[c], by simp⟩)
    simp only [List.cons_append, breakOn, hn, ih hx.2, Option.map_map]
    rfl

/-! ### Texts clear of a marker -/

/-- An occurrence of the marker stands on one side of a character that the marker does not hold. -/
theorem infix_append_cons_iff {c : Char} {y : Text} (hc : c ∉ marker) :
    marker <:+: x ++ c :: y ↔ marker <:+: x ∨ marker <:+: y := by
  constructor
  · intro h
    induction x with
    | nil =>
      rcases List.infix_cons_iff.1 h with h | h
      · exact .inl (prefix_of_prefix_append_cons (x := []) hc h).isInfix
      · exact .inr h
    | cons d x ih =>
      rcases List.infix_cons_iff.1 h with h | h
      · exact .inl (prefix_of_prefix_append_cons (x := d :: x) hc h).isInfix
      · rcases ih h with h | h
        · exact .inl (h.trans (List.suffix_cons d x).isInfix)
        · exact .inr h
  · rintro (⟨u, v, rfl⟩ | ⟨u, v, rfl⟩)
    · exact ⟨u, v ++ c :: y, by simp⟩
    · exact ⟨x ++ c :: u, v, by simp⟩

/-- Text without the marker is clear of it, once a character that the marker does not hold ends it. -/
theorem clear_concat {c : Char} (hc : c ∉ marker) (hx : ¬ marker <:+: x) :
    Clear marker (x ++ [c]) := by
  intro u hu
  by_contra hlt
  have hlen : u.length ≤ x.length := by
    rw [List.length_append, List.length_singleton] at hlt
    omega
  obtain ⟨v, rfl⟩ : u <+: x :=
    List.prefix_of_prefix_length_le ((List.prefix_append u marker).trans hu)
      ⟨[c] ++ marker, by simp⟩ hlen
  have hv : marker <+: v ++ c :: marker := by simpa using hu
  exact hx ((prefix_of_prefix_append_cons hc hv).isInfix.trans (List.suffix_append u v).isInfix)

/-- Text without the first character of the marker is clear of the marker. -/
theorem clear_of_head? (hm : marker ≠ []) (h : ∀ c ∈ marker.head?, c ∉ s) : Clear marker s := by
  obtain ⟨c, rest, rfl⟩ := List.exists_cons_of_ne_nil hm
  have hc : c ∉ s := h c rfl
  induction s with
  | nil => exact clear_nil _
  | cons d s ih =>
    rw [List.mem_cons, not_or] at hc
    refine clear_cons_iff.2 ⟨fun hp => hc.1 (List.cons_prefix_cons.1 hp).1, ih ?_ hc.2⟩
    rintro _ ⟨⟩
    exact hc.2

/-! ### The end of a text -/

theorem dropEnding_append (s marker : Text) : dropEnding marker (s ++ marker) = s := by
  unfold dropEnding
  rw [List.reverse_append, behind?_eq_some_iff.2 rfl]
  exact List.reverse_reverse s

theorem dropEnding_of_not_suffix (h : ¬ marker <:+ s) : dropEnding marker s = s := by
  unfold dropEnding
  rw [behind?_eq_none_iff.2 fun hp => h (List.reverse_prefix.1 hp)]

end Text

end Mustache
