import Mathlib.Data.List.Dedup
import Mathlib.Data.List.Nodup
import Mathlib.Data.List.Perm.Subperm
import Mathlib.Data.List.TakeWhile
import Mustache.Text.Surrogate

/-!
# Stand-ins and what they stand for

Stand-ins are kept apart from each other (`StandIns.unit_char`) and from the text that they are taken
apart from (`StandIns.free_apart`), as long as there are enough of them
(`StandIns.length_chars_apart`).  A text without them is written as it is; in any other text the first
of them in a row are at fault (`StandIns.exists_of_encode_eq_error`).
-/

namespace Mustache

namespace StandIns

variable {standIns : StandIns} {used s t : Text} {c : Char} {unit : Nat} {octets : List UInt8}
  {f : Fault}

/-! ### What a character stands for -/

theorem stands_iff : standIns.stands c = true ↔ c ∈ standIns.chars := by
  rw [stands, Bool.and_eq_true, List.contains_iff_mem]
  exact ⟨And.right, fun h => ⟨standIns.ideographic c h, h⟩⟩

/-- **What stands in for a lone surrogate** stands for it and for no other. -/
theorem unit_char (hunit : isSurrogate unit = true) (hlen : standIns.chars.length = 0x800) :
    standIns.stands (standIns.char unit) = true ∧
      standIns.unit (standIns.char unit) = unit := by
  simp only [isSurrogate, Bool.and_eq_true, decide_eq_true_eq] at hunit
  have hlt : unit - 0xD800 < standIns.chars.length := by omega
  have hchar : standIns.char unit = standIns.chars[unit - 0xD800] := by
    rw [char, List.getElem?_eq_getElem hlt, Option.getD_some]
  rw [hchar, stands_iff, StandIns.unit, standIns.nodup.idxOf_getElem]
  exact ⟨List.getElem_mem hlt, Nat.add_sub_cancel' hunit.1⟩

/-- **The text that stand-ins are taken apart from** holds none of them. -/
theorem free_apart (h : ∀ c ∈ s, c ∈ used) : (apart used).Free s := by
  intro c hc
  rw [Bool.eq_false_iff, ne_eq, stands_iff]
  intro hmem
  have hfree := (List.mem_filter.1 (List.mem_of_mem_take hmem)).2
  have hideograph := (apart used).ideographic c hmem
  simp [h c hc, hideograph] at hfree

/-- **There are enough stand-ins** unless nearly all of the block occurs in the text. -/
theorem length_chars_apart (h : (used.filter isIdeograph).dedup.length ≤ 0x9EE0) :
    (apart used).chars.length = 0x800 := by
  let taken := used.filter isIdeograph
  let free := ideographs.filter fun c => !taken.contains c
  have hrest : (ideographs.filter taken.contains).length ≤ taken.dedup.length := by
    refine (List.subperm_of_subset (nodup_ideographs.filter _) fun c hc => ?_).length_le
    simpa using (List.mem_filter.1 hc).2
  have hall : (ideographs.filter taken.contains).length + free.length = 0xA6E0 := by
    rw [← List.length_append, (List.filter_append_perm taken.contains ideographs).length_eq]
    simp [ideographs]
  have htaken : taken.dedup.length ≤ 0x9EE0 := h
  have hfree : 0x800 ≤ free.length := by omega
  exact List.length_take_of_le hfree

/-! ### Texts without stand-ins -/

theorem free_of_not_ideograph (h : s.any isIdeograph = false) : standIns.Free s := by
  intro c hc
  rw [stands, Bool.eq_false_iff.2 (List.any_eq_false.1 h c hc), Bool.false_and]

theorem spell_append (s t : Text) : standIns.spell (s ++ t) = standIns.spell s ++ standIns.spell t :=
  List.flatMap_append

/-- A text without lone surrogates is spelled as it is. -/
theorem spell_of_free (h : standIns.Free s) : standIns.spell s = s := by
  induction s with
  | nil => rfl
  | cons c s ih =>
    obtain ⟨hc, hs⟩ := List.forall_mem_cons.1 h
    rw [← List.singleton_append, spell_append, ih hs, spell, List.flatMap_singleton, hc]
    rfl

/-! ### Octets -/

theorem dropWhile_eq_nil_iff_free :
    s.dropWhile (!standIns.stands ·) = [] ↔ standIns.Free s := by
  simp only [List.dropWhile_eq_nil_iff, Bool.not_eq_true', Free]

/-- **A text without lone surrogates** has octets, and no other text does. -/
theorem encode_eq_ok_iff :
    standIns.encode s = .ok octets ↔ standIns.Free s ∧ octets = Utf8.encode s := by
  rw [← dropWhile_eq_nil_iff_free, encode]
  cases s.dropWhile (!standIns.stands ·) with
  | nil => simp [eq_comm]
  | cons c back => simp

/-- **A text with lone surrogates** is at fault for the first of them, together with those that follow
it in a row. -/
theorem exists_of_encode_eq_error (h : standIns.encode s = .error f) :
    ∃ front back, s = front ++ (f.surrogates ++ back) ∧ standIns.Free front ∧
      f.position = front.length ∧ f.surrogates ≠ [] ∧
      (∀ c ∈ f.surrogates, standIns.stands c = true) ∧
      ∀ c, back.head? = some c → standIns.stands c = false := by
  have hparts : s.takeWhile (!standIns.stands ·) ++ s.dropWhile (!standIns.stands ·) = s :=
    List.takeWhile_append_dropWhile
  have hlen := congrArg List.length hparts
  have hfirst := List.head?_dropWhile_not (!standIns.stands ·) s
  have hfront : standIns.Free (s.takeWhile (!standIns.stands ·)) := fun c hc => by
    simpa using List.mem_takeWhile_imp hc
  rw [encode] at h
  cases hback : s.dropWhile (!standIns.stands ·) with
  | nil => simp [hback] at h
  | cons c back =>
    rw [hback] at h hparts hlen hfirst
    cases h
    have hc : standIns.stands c = true := by simpa using hfirst
    refine ⟨_, (c :: back).dropWhile standIns.stands, ?_, hfront, ?_, ?_,
      fun d hd => List.mem_takeWhile_imp hd, fun d hd => ?_⟩
    · rw [List.takeWhile_append_dropWhile, hparts]
    · rw [List.length_append] at hlen
      show s.length - (c :: back).length = _
      omega
    · simp [hc]
    · have hnext := List.head?_dropWhile_not standIns.stands (c :: back)
      rw [hd] at hnext
      exact hnext

end StandIns

end Mustache
