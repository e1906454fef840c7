import Mathlib.Data.List.Infix
import Mathlib.Data.List.Perm.Basic
import Mustache.Fields
import Mustache.Text.Backslash

/-!
# Backslash pairs in one pass

Data is decoded one kind of pair after the other (`unescape`).  A single pass from left to right that
looks letters up in a table (`decode`) gives the same: what a pass writes is neither a backslash nor a
letter of the table, so no later pass meets a pair that an earlier one has made (`decode_append`).  So
the kinds can be taken in any order, and what has been decoded holds no pair any more
(`decoded_decode`); a pass changes exactly the texts that hold one (`decode_eq_self_iff`).
-/

namespace Mustache

namespace Text

/-! ### Definitions -/

/-- The letters that stand for a control character behind a backslash. -/
def controls : List (Char × Char) := [('n', '\n'), ('r', '\r'), ('t', '\t')]

/-- The text with the pairs of a table decoded, those of one row after those of the other. -/
def decodeEach (table : List (Char × Char)) (s : Text) : Text :=
  table.foldl (fun t row => replacePair '\\' row.1 row.2 t) s

/-- **One pass from left to right**: a backslash before a letter of the table gives the character that
the letter stands for, and every other character is copied. -/
def decode (table : List (Char × Char)) : Text → Text
  | [] => []
  | [c] => [c]
  | c :: d :: rest =>
    if c = '\\' then
      match table.lookup d with
      | some new => new :: decode table rest
      | none => c :: decode table (d :: rest)
    else c :: decode table (d :: rest)

/-- The text holds no pair of the table. -/
def Decoded (table : List (Char × Char)) (s : Text) : Prop :=
  ∀ row ∈ table, ¬ ['\\', row.1] <:+: s

/-- No character that the table writes can be part of a pair, and no letter is a backslash. -/
structure Lasting (table : List (Char × Char)) : Prop where
  letter : ∀ row ∈ table, row.1 ≠ '\\'
  written : ∀ row ∈ table, row.2 ≠ '\\' ∧ ∀ row' ∈ table, row.2 ≠ row'.1

/-- A pass over `c :: s` copies its first character. -/
def Copied (table : List (Char × Char)) (c : Char) (s : Text) : Prop :=
  c = '\\' → ∀ d ∈ s.head?, table.lookup d = none

variable {table table' : List (Char × Char)} {s : Text} {c d new : Char}

/-! ### Tables -/

theorem lookup_eq_none (h : ∀ row ∈ table, c ≠ row.1) : table.lookup c = none :=
  List.lookup_eq_none_iff.2 fun row hrow => by simpa using h row hrow

/-- Where no letter has two rows, their order does not matter. -/
theorem lookup_perm (h : table.Perm table') (hletters : (table.map Prod.fst).Nodup) (c : Char) :
    table.lookup c = table'.lookup c := by
  induction h with
  | nil => rfl
  | cons row _ ih => rw [List.lookup_cons, List.lookup_cons, ih (List.nodup_cons.1 hletters).2]
  | swap row row' table =>
    have hne : row'.1 ≠ row.1 := by
      intro he
      simp [he] at hletters
    rw [List.lookup_cons, List.lookup_cons, List.lookup_cons, List.lookup_cons]
    cases hc : c == row.1 with
    | false => rfl
    | true =>
      have hc' : (c == row'.1) = false := by
        rw [beq_iff_eq.1 hc]
        simpa using hne.symm
      rw [hc']
  | trans h _ ih ih' =>
    exact (ih hletters).trans (ih' ((h.map Prod.fst).nodup_iff.1 hletters))

theorem Lasting.subset (h : Lasting table) (hsub : table' ⊆ table) : Lasting table' where
  letter row hrow := h.letter row (hsub hrow)
  written row hrow :=
    ⟨(h.written row (hsub hrow)).1, fun row' hrow' =>
      (h.written row (hsub hrow)).2 row' (hsub hrow')⟩

theorem lasting_controls : Lasting controls where
  letter := by decide
  written := by decide

/-! ### One pass -/

theorem decode_pair (h : table.lookup d = some new) (s : Text) :
    decode table ('\\' :: d :: s) = new :: decode table s := by
  rw [decode, if_pos rfl, h]

theorem decode_copied (h : Copied table c s) : decode table (c :: s) = c :: decode table s := by
  cases s with
  | nil => rfl
  | cons d s =>
    rw [decode]
    by_cases hc : c = '\\'
    · rw [if_pos hc, h hc d rfl]
    · rw [if_neg hc]

/-- A text is used up by a pass that decodes a pair or copies a character at its front. -/
theorem pass_induction {motive : Text → Prop} (table : List (Char × Char)) (nil : motive [])
    (pair : ∀ d new s, table.lookup d = some new → motive s → motive ('\\' :: d :: s))
    (copied : ∀ c s, Copied table c s → motive s → motive (c :: s)) (s : Text) : motive s := by
  fun_induction decode table s with
  | case1 => exact nil
  | case2 c => exact copied c [] (fun _ d hd => by cases hd) nil
  | case3 d rest new hd ih => exact pair d new rest hd ih
  | case4 d rest hd ih =>
    refine copied '\\' (d :: rest) (fun _ e he => ?_) ih
    cases he
    exact hd
  | case5 c d rest hc ih => exact copied c (d :: rest) (fun hc' => absurd hc' hc) ih

theorem decode_congr (h : ∀ c, table.lookup c = table'.lookup c) (s : Text) :
    decode table s = decode table' s := by
  induction s using pass_induction table with
  | nil => rfl
  | pair d new s hd ih => rw [decode_pair hd, decode_pair ((h d).symm.trans hd), ih]
  | copied c s hc ih =>
    have hc' : Copied table' c s := fun hb d hd => (h d).symm.trans (hc hb d hd)
    rw [decode_copied hc, decode_copied hc', ih]

/-- What stands in front after a pass stood there before, or was written by the pass. -/
theorem mem_head?_decode (h : d ∈ (decode table s).head?) :
    d ∈ s.head? ∨ ∃ row ∈ table, d = row.2 := by
  induction s using pass_induction table with
  | nil => cases h
  | pair e new s he =>
    rw [decode_pair he] at h
    cases h
    exact .inr ⟨_, mem_of_lookup_eq_some he, rfl⟩
  | copied c s hc =>
    rw [decode_copied hc] at h
    exact .inl h

/-- A pass leaves copied what it writes no letter behind. -/
theorem Copied.after (h : Copied table' c s) (hletters : ∀ row ∈ table, table'.lookup row.2 = none) :
    Copied table' c (decode table s) := by
  intro hb d hd
  rcases mem_head?_decode hd with hd | ⟨row, hrow, rfl⟩
  · exact h hb d hd
  · exact hletters row hrow

theorem copied_append_iff :
    Copied (table ++ table') c s ↔ Copied table c s ∧ Copied table' c s := by
  simp only [Copied, List.lookup_append, Option.or_eq_none_iff]
  exact ⟨fun h => ⟨fun hb d hd => (h hb d hd).1, fun hb d hd => (h hb d hd).2⟩,
    fun h hb d hd => ⟨h.1 hb d hd, h.2 hb d hd⟩⟩

/-- **Passes in a row** are one pass with all of their rows. -/
theorem decode_append (h : Lasting (table ++ table')) (s : Text) :
    decode (table ++ table') s = decode table' (decode table s) := by
  have hwritten : ∀ row ∈ table, row.2 ≠ '\\' ∧ table'.lookup row.2 = none := by
    intro row hrow
    obtain ⟨hbackslash, hletter⟩ := h.written row (List.mem_append_left table' hrow)
    exact ⟨hbackslash, lookup_eq_none fun row' hrow' =>
      hletter row' (List.mem_append_right table hrow')⟩
  induction s using pass_induction (table ++ table') with
  | nil => rfl
  | pair d new s hd ih =>
    rw [decode_pair hd]
    rw [List.lookup_append, Option.or_eq_some_iff] at hd
    rcases hd with hd | ⟨hnone, hd⟩
    · -- the first pass decodes the pair, and the second one copies what it has written
      have hnew := (hwritten _ (mem_of_lookup_eq_some hd)).1
      rw [decode_pair hd, decode_copied fun hb => absurd hb hnew, ih]
    · -- the first pass copies both characters, and the second one decodes them
      have hletter : d ≠ '\\' := h.letter _ (List.mem_append_right table (mem_of_lookup_eq_some hd))
      have hkept : Copied table '\\' (d :: s) := by
        rintro - e he
        cases he
        exact hnone
      rw [decode_copied hkept, decode_copied fun hb => absurd hb hletter, decode_pair hd, ih]
  | copied c s hc ih =>
    obtain ⟨hfirst, hsecond⟩ := copied_append_iff.1 hc
    have hafter : Copied table' c (decode table s) :=
      hsecond.after fun row hrow => (hwritten row hrow).2
    rw [decode_copied hc, decode_copied hfirst, decode_copied hafter, ih]

/-- **After a pass** no pair is left. -/
theorem decoded_decode (h : Lasting table) (s : Text) : Decoded table (decode table s) := by
  intro row hrow
  induction s using pass_induction table with
  | nil => simp [decode]
  | pair d new s hd ih =>
    have hnew : '\\' ≠ new := (h.written _ (mem_of_lookup_eq_some hd)).1.symm
    rw [decode_pair hd, List.infix_cons_iff, List.cons_prefix_cons]
    rintro (⟨hb, -⟩ | hin)
    · exact hnew hb
    · exact ih hin
  | copied c s hc ih =>
    have hafter : Copied table c (decode table s) :=
      hc.after fun row hrow => lookup_eq_none (h.written row hrow).2
    rw [decode_copied hc, List.infix_cons_iff, List.cons_prefix_cons]
    rintro (⟨hb, rest, hrest⟩ | hin)
    · have hhead : row.1 ∈ (decode table s).head? := by
        rw [← hrest]
        rfl
      have hnone := List.lookup_eq_none_iff.1 (hafter hb.symm row.1 hhead) row hrow
      simp at hnone
    · exact ih hin

/-- A pass changes exactly the texts that hold a pair. -/
theorem decode_eq_self_iff (h : Lasting table) : decode table s = s ↔ Decoded table s := by
  constructor
  · intro hs
    rw [← hs]
    exact decoded_decode h s
  · intro hs
    induction s using pass_induction table with
    | nil => rfl
    | pair d new s hd => exact absurd ⟨[], s, rfl⟩ (hs _ (mem_of_lookup_eq_some hd))
    | copied c s hc ih =>
      have hrest : Decoded table s := fun row hrow hin =>
        hs row hrow (hin.trans (List.suffix_cons c s).isInfix)
      rw [decode_copied hc, ih hrest]

/-! ### One kind of pair after the other -/

/-- Replacing one kind of pair is a pass with one row. -/
theorem replacePair_eq_decode (d new : Char) (s : Text) :
    replacePair '\\' d new s = decode [(d, new)] s := by
  induction s using pass_induction [(d, new)] with
  | nil => rfl
  | pair e new' s he ih =>
    obtain ⟨rfl, rfl⟩ : e = d ∧ new' = new := by simpa using mem_of_lookup_eq_some he
    rw [decode_pair he, replacePair, if_pos ⟨rfl, rfl⟩, ih]
  | copied c s hc ih =>
    rw [decode_copied hc]
    cases s with
    | nil => rfl
    | cons e s =>
      have hpair : ¬ (c = '\\' ∧ e = d) := by
        rintro ⟨hb, rfl⟩
        simpa using hc hb e rfl
      rw [replacePair, if_neg hpair, ih]

/-- **One row after the other** decodes what one pass does. -/
theorem decodeEach_eq_decode (h : Lasting table) (s : Text) : decodeEach table s = decode table s := by
  induction table generalizing s with
  | nil => exact ((decode_eq_self_iff h).2 fun row hrow => absurd hrow List.not_mem_nil).symm
  | cons row table ih =>
    have hrest : Lasting table := h.subset (List.subset_cons_self row table)
    calc decodeEach (row :: table) s
        = decodeEach table (replacePair '\\' row.1 row.2 s) := rfl
      _ = decode table (decode [row] s) := by rw [replacePair_eq_decode, ih hrest]
      _ = decode (row :: table) s := (@decode_append [row] table h s).symm

theorem unescape_eq_decode (s : Text) : unescape s = decode controls s :=
  decodeEach_eq_decode lasting_controls s

/-- **Decoding data is one pass** over it.  So it does not matter which kind of pair is taken first, no
pair is left, and to decode once more changes nothing. -/
theorem unescape_onePass :
    (∀ s, unescape s = decode controls s) ∧
      (∀ order, order.Perm controls → ∀ s, decodeEach order s = unescape s) ∧
      (∀ s, Decoded controls (unescape s)) ∧ ∀ s, unescape (unescape s) = unescape s := by
  have hdecoded : ∀ s, Decoded controls (unescape s) := by
    intro s
    rw [unescape_eq_decode]
    exact decoded_decode lasting_controls s
  refine ⟨unescape_eq_decode, fun order horder s => ?_, hdecoded, fun s => ?_⟩
  · have hlasting : Lasting order := lasting_controls.subset horder.subset
    have hletters : (order.map Prod.fst).Nodup := (horder.map Prod.fst).nodup_iff.2 (by decide)
    rw [decodeEach_eq_decode hlasting, unescape_eq_decode, decode_congr (lookup_perm horder hletters)]
  · rw [unescape_eq_decode (unescape s)]
    exact (decode_eq_self_iff lasting_controls).2 (hdecoded s)

/-- The kinds taken the other way round, in a text with backslashes in a row. -/
theorem unescape_onePass_reversed :
    [('t', '\t'), ('r', '\r'), ('n', '\n')].Perm controls ∧
      decodeEach [('t', '\t'), ('r', '\r'), ('n', '\n')] "\\\\n\\\\\\tr\\".toList =
        unescape "\\\\n\\\\\\tr\\".toList ∧
      unescape "\\\\n\\\\\\tr\\".toList = "\\\n\\\\\tr\\".toList := by
  have horder : [('t', '\t'), ('r', '\r'), ('n', '\n')].Perm controls := by decide
  exact ⟨horder, unescape_onePass.2.1 _ horder _, by decide⟩

end Text

end Mustache
