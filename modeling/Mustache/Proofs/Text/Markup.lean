import Mathlib.Data.List.Infix
import Mustache.Text.Markup

/-!
# Escaped text

Markup reads a text as text, and nothing else, if none of its characters opens a tag or ends an attribute
and every ampersand starts a reference (`Escaped`).  Escaped texts can be joined (`Escaped.append`), and
`escapeMarkup` writes a reference for each reserved character by itself (`escapeMarkup_eq_flatMap`), so
whatever it gives is escaped (`escaped_escapeMarkup`).  No reference is the front of another one, so an
escaped text shows which text it is written for (`escapeMarkup_injective`); and escaping it once more
changes it, unless there was nothing to escape (`escapeMarkup_substitution`).
-/

namespace Mustache

namespace Text

/-! ### Definitions -/

/-- The characters that markup gives a meaning. -/
def reserved : List Char := ['&', '<', '>', '"', '\'']

/-- The five references. -/
def referenceTexts : List Text := ["&amp;", "&lt;", "&gt;", "&quot;", "&#39;"].map String.toList

/-- One of the references comes first. -/
def StartsReference (s : Text) : Prop := ∃ ref ∈ referenceTexts, ref <+: s

instance (s : Text) : Decidable (StartsReference s) :=
  inferInstanceAs (Decidable (∃ ref ∈ referenceTexts, ref <+: s))

/-- **Text that holds no markup**: of the reserved characters there are ampersands only, and each starts a
reference. -/
structure Escaped (s : Text) : Prop where
  bare : ∀ c ∈ s, c ∉ ['<', '>', '"', '\'']
  ampersand : ∀ rest, '&' :: rest <:+ s → StartsReference ('&' :: rest)

/-- What a character is written as: its reference, if it is reserved. -/
def reference : Char → Text
  | '&' => "&amp;".toList
  | '<' => "&lt;".toList
  | '>' => "&gt;".toList
  | '"' => "&quot;".toList
  | '\'' => "&#39;".toList
  | c => [c]

variable {s t : Text} {c : Char}

/-! ### Texts without markup -/

theorem escaped_iff : Escaped s ↔ (s.all fun c => c ∉ ['<', '>', '"', '\'']) = true ∧
    ∀ t ∈ s.tails, t.head? = some '&' → StartsReference t := by
  simp only [List.all_eq_true, decide_eq_true_eq]
  constructor
  · rintro ⟨hbare, hamp⟩
    refine ⟨hbare, fun t ht hhead => ?_⟩
    obtain ⟨rest, rfl⟩ := List.head?_eq_some_iff.1 hhead
    exact hamp rest ((List.mem_tails _ _).1 ht)
  · rintro ⟨hbare, hamp⟩
    exact ⟨hbare, fun rest h => hamp _ ((List.mem_tails _ _).2 h) rfl⟩

instance (s : Text) : Decidable (Escaped s) := decidable_of_iff' _ escaped_iff

example : Escaped "a &amp;lt; b".toList := by decide
example : ¬ Escaped "a &nbsp; b".toList := by decide

theorem escaped_of_not_reserved (h : ∀ c ∈ s, c ∉ reserved) : Escaped s where
  bare c hc hin := h c hc (List.mem_cons_of_mem '&' hin)
  ampersand _ hrest := absurd List.mem_cons_self (h '&' (hrest.subset List.mem_cons_self))

theorem escaped_nil : Escaped [] := escaped_of_not_reserved fun _ h => absurd h List.not_mem_nil

theorem Escaped.append (hs : Escaped s) (ht : Escaped t) : Escaped (s ++ t) where
  bare c hc := (List.mem_append.1 hc).elim (hs.bare c) (ht.bare c)
  ampersand rest := by
    rintro ⟨u, hu⟩
    rcases List.append_eq_append_iff.1 hu with ⟨front, rfl, hfront⟩ | ⟨back, rfl, hback⟩
    · cases front with
      | nil => exact ht.ampersand rest ⟨[], hfront⟩
      | cons c front =>
        -- the ampersand is in `s`, and so is the reference that it starts
        obtain ⟨rfl, rfl⟩ := List.cons_eq_cons.1 hfront
        obtain ⟨ref, href, hpre⟩ := hs.ampersand front (List.suffix_append u _)
        exact ⟨ref, href, hpre.trans (List.prefix_append ('&' :: front) t)⟩
    · exact ht.ampersand rest ⟨back, hback.symm⟩

theorem escaped_flatMap {f : Char → Text} (h : ∀ c, Escaped (f c)) (s : Text) :
    Escaped (s.flatMap f) := by
  induction s with
  | nil => exact escaped_nil
  | cons c s ih =>
    rw [List.flatMap_cons]
    exact (h c).append ih

/-! ### References -/

theorem mem_reserved_iff : c ∈ reserved ↔ c = '&' ∨ c = '<' ∨ c = '>' ∨ c = '"' ∨ c = '\'' := by
  simp [reserved]

theorem reference_of_not_reserved (h : c ∉ reserved) : reference c = [c] := by
  unfold reference
  split
  iterate 5 exact absurd (by decide) h
  rfl

theorem escaped_reference (c : Char) : Escaped (reference c) := by
  by_cases hc : c ∈ reserved
  · rcases mem_reserved_iff.1 hc with rfl | rfl | rfl | rfl | rfl <;> decide
  · rw [reference_of_not_reserved hc]
    exact escaped_of_not_reserved (by simpa using hc)

/-- Replacements that are made in the whole text are made in each of its characters. -/
theorem foldl_replaceChar (table : List (Char × Text)) (s : Text) :
    table.foldl (fun t entry => replaceChar entry.1 entry.2 t) s =
      s.flatMap fun c => table.foldl (fun t entry => replaceChar entry.1 entry.2 t) [c] := by
  induction table generalizing s with
  | nil => simp
  | cons entry table ih =>
    rw [List.foldl_cons, ih, replaceChar, List.flatMap_assoc]
    refine congrArg (List.flatMap · s) (funext fun c => ?_)
    rw [← ih, List.foldl_cons, replaceChar, List.flatMap_singleton]

theorem replaceChar_singleton_of_ne {a : Char} (h : c ≠ a) (new : Text) :
    replaceChar a new [c] = [c] := by
  rw [replaceChar, List.flatMap_singleton, if_neg h]

theorem escapeMarkup_singleton (c : Char) : escapeMarkup [c] = reference c := by
  by_cases hc : c ∈ reserved
  · rcases mem_reserved_iff.1 hc with rfl | rfl | rfl | rfl | rfl <;> decide
  · rw [reference_of_not_reserved hc]
    simp only [mem_reserved_iff, not_or] at hc
    obtain ⟨hamp, hlt, hgt, hquot, hapos⟩ := hc
    simp only [escapeMarkup, references, List.foldl_cons, List.foldl_nil,
      replaceChar_singleton_of_ne hamp, replaceChar_singleton_of_ne hlt,
      replaceChar_singleton_of_ne hgt, replaceChar_singleton_of_ne hquot,
      replaceChar_singleton_of_ne hapos]

/-- **Escaping goes character by character**: no replacement finds what an earlier one wrote. -/
theorem escapeMarkup_eq_flatMap (s : Text) : escapeMarkup s = s.flatMap reference := by
  rw [escapeMarkup, foldl_replaceChar]
  exact congrArg (List.flatMap · s) (funext escapeMarkup_singleton)

/-- **Escaping leaves no markup.** -/
theorem escaped_escapeMarkup (s : Text) : Escaped (escapeMarkup s) := by
  rw [escapeMarkup_eq_flatMap]
  exact escaped_flatMap escaped_reference s

/-! ### What escaping shows of a text -/

theorem head?_reference_eq_iff : (reference c).head? = some '&' ↔ c ∈ reserved := by
  by_cases hc : c ∈ reserved
  · refine iff_of_true ?_ hc
    rcases mem_reserved_iff.1 hc with rfl | rfl | rfl | rfl | rfl <;> rfl
  · rw [reference_of_not_reserved hc, List.head?_cons, Option.some_inj]
    exact iff_of_false (fun h => hc (h ▸ List.mem_cons_self)) hc

theorem reference_ne_nil (c : Char) : reference c ≠ [] := by
  by_cases hc : c ∈ reserved
  · intro h
    have hhead := head?_reference_eq_iff.2 hc
    rw [h] at hhead
    cases hhead
  · rw [reference_of_not_reserved hc]
    exact List.cons_ne_nil c []

/-- No reference is the front of another one, nor of a character that is written as itself. -/
theorem eq_of_isPrefix_reference {d : Char} (h : reference c <+: reference d) : c = d := by
  have hhead : (reference d).head? = (reference c).head? := by
    obtain ⟨rest, hrest⟩ := h
    rw [← hrest, List.head?_append_of_ne_nil _ (reference_ne_nil c)]
  by_cases hc : c ∈ reserved
  · have hd : d ∈ reserved :=
      head?_reference_eq_iff.1 (hhead.trans (head?_reference_eq_iff.2 hc))
    revert h
    rcases mem_reserved_iff.1 hc with rfl | rfl | rfl | rfl | rfl <;>
      rcases mem_reserved_iff.1 hd with rfl | rfl | rfl | rfl | rfl <;> decide
  · have hd : d ∉ reserved := fun hd =>
      hc (head?_reference_eq_iff.1 (hhead.symm.trans (head?_reference_eq_iff.2 hd)))
    rw [reference_of_not_reserved hc, reference_of_not_reserved hd, List.cons_prefix_cons] at h
    exact h.1

/-- **What a character is written as** tells which one it was, whatever comes behind it. -/
theorem reference_append_inj {d : Char} (h : reference c ++ s = reference d ++ t) :
    c = d ∧ s = t := by
  have hcd : c = d := by
    have hc : reference c <+: reference d ++ t := ⟨s, h⟩
    have hd : reference d <+: reference d ++ t := List.prefix_append _ _
    rcases List.prefix_or_prefix_of_prefix hc hd with hpre | hpre
    · exact eq_of_isPrefix_reference hpre
    · exact (eq_of_isPrefix_reference hpre).symm
  subst hcd
  exact ⟨rfl, List.append_cancel_left h⟩

theorem escapeMarkup_nil : escapeMarkup [] = [] := by decide

theorem escapeMarkup_cons (c : Char) (s : Text) :
    escapeMarkup (c :: s) = reference c ++ escapeMarkup s := by
  rw [escapeMarkup_eq_flatMap, escapeMarkup_eq_flatMap, List.flatMap_cons]

/-- Escaped texts show the texts that they are written for. -/
theorem escapeMarkup_injective : Function.Injective escapeMarkup := by
  intro s t h
  induction s generalizing t with
  | nil =>
    cases t with
    | nil => rfl
    | cons d t =>
      rw [escapeMarkup_nil, escapeMarkup_cons] at h
      exact absurd (List.append_eq_nil_iff.1 h.symm).1 (reference_ne_nil d)
  | cons c s ih =>
    cases t with
    | nil =>
      rw [escapeMarkup_nil, escapeMarkup_cons] at h
      exact absurd (List.append_eq_nil_iff.1 h).1 (reference_ne_nil c)
    | cons d t =>
      rw [escapeMarkup_cons, escapeMarkup_cons] at h
      obtain ⟨rfl, hrest⟩ := reference_append_inj h
      rw [ih hrest]

theorem length_le_escapeMarkup (s : Text) : s.length ≤ (escapeMarkup s).length := by
  induction s with
  | nil => exact Nat.zero_le _
  | cons c s ih =>
    have hpos := List.length_pos_iff.2 (reference_ne_nil c)
    rw [escapeMarkup_cons, List.length_append, List.length_cons]
    omega

/-- Escaping changes every text that holds a reserved character, and no other: it makes it longer. -/
theorem escapeMarkup_eq_self_iff : escapeMarkup s = s ↔ ∀ c ∈ s, c ∉ reserved := by
  induction s with
  | nil => simp [escapeMarkup_nil]
  | cons c s ih =>
    rw [escapeMarkup_cons, List.forall_mem_cons]
    by_cases hc : c ∈ reserved
    · have hlong : 1 < (reference c).length := by
        rcases mem_reserved_iff.1 hc with rfl | rfl | rfl | rfl | rfl <;> decide
      refine iff_of_false (fun h => ?_) fun h => h.1 hc
      have hlen := congrArg List.length h
      have hle := length_le_escapeMarkup s
      rw [List.length_append, List.length_cons] at hlen
      omega
    · rw [reference_of_not_reserved hc, List.singleton_append, List.cons_inj_right, ih]
      exact (and_iff_right hc).symm

/-- **Escaping is one substitution**, made in all characters at once.  So it goes text by text, loses
nothing, leaves of the reserved characters only ampersands, and comes to an end after one time
exactly on the texts that it does not change. -/
theorem escapeMarkup_substitution :
    (∀ s, escapeMarkup s = s.flatMap reference) ∧
      (∀ s t, escapeMarkup (s ++ t) = escapeMarkup s ++ escapeMarkup t) ∧
      Function.Injective escapeMarkup ∧
      (∀ s, ∀ c ∈ escapeMarkup s, c ∉ ['<', '>', '"', '\'']) ∧
      ∀ s, escapeMarkup (escapeMarkup s) = escapeMarkup s ↔ ∀ c ∈ s, c ∉ reserved := by
  refine ⟨escapeMarkup_eq_flatMap, fun s t => ?_, escapeMarkup_injective, fun s => ?_, fun s => ?_⟩
  · rw [escapeMarkup_eq_flatMap, escapeMarkup_eq_flatMap, escapeMarkup_eq_flatMap,
      List.flatMap_append]
  · exact (escaped_escapeMarkup s).bare
  · rw [escapeMarkup_injective.eq_iff, escapeMarkup_eq_self_iff]

end Text

end Mustache
