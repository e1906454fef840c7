import Mustache.Proofs.Json.Reader
import Mustache.Proofs.Outcome
import Mustache.Proofs.Text.Surrogate

/-!
# The characters of strings

A string is read to characters that its text spells, one by one or by an escape, and to stand-ins for
the lone surrogates in it (`Json.mem_spelled_of_readString`).  So if the text spells no stand-in, there
are stand-ins in the string just where escapes spell lone surrogates
(`Json.exists_unit_of_readString`).
-/

namespace Mustache

namespace Json

variable {standIns : StandIns} {opening s t rest cs text : Text} {c : Char}

/-! ### One piece -/

theorem joinUnits_cases (standIns : StandIns) (unit : Nat) (rest : Text) :
    (isSurrogate unit = true ∧ (joinUnits standIns unit rest).1 = standIns.char unit) ∨
      joinUnits .none unit rest = joinUnits standIns unit rest := by
  unfold joinUnits
  cases pairedUnits? unit rest with
  | some joined => exact .inr rfl
  | none =>
    by_cases h : isSurrogate unit = true
    · exact .inl ⟨h, if_pos h⟩
    · exact .inr (by simp only [if_neg h])

/-- **A character of a string** does not depend on the stand-ins unless it is one for a surrogate. -/
theorem nextPiece_char_cases (h : nextPiece standIns opening s = .char c rest) :
    (∃ unit, isSurrogate unit = true ∧ c = standIns.char unit) ∨
      nextPiece .none [] s = .char c rest := by
  revert h
  fun_cases nextPiece standIns opening s with
  | case4 digits unit behind hx joined =>
    intro h
    cases h
    rcases joinUnits_cases standIns unit behind with ⟨hunit, hchar⟩ | hsame
    · exact .inl ⟨unit, hunit, hchar⟩
    · exact .inr (by simp only [nextPiece, hx, hsame, joined])
  | case6 letter tail hu d hd =>
    intro h
    cases h
    exact .inr (by simp [nextPiece, hd])
  | case9 d tail hquote hlast hunit hletter hcontrol =>
    intro h
    cases h
    have hbackslash : c ≠ '\\' := by
      rintro rfl
      cases rest with
      | nil => exact hlast rfl rfl
      | cons e rest => exact hletter e rest rfl rfl
    exact .inr (nextPiece_cons ⟨hquote, hbackslash, hcontrol⟩ _ _)
  | _ => nofun

theorem mem_spelled_of_nextPiece (h : nextPiece .none [] s = .char c rest) : c ∈ spelled s := by
  obtain ⟨d, tail, rfl, -⟩ := suffix_of_nextPiece_char h
  simp [spelled, h]

theorem spelled_subset_of_suffix (h : t <:+ s) : spelled t ⊆ spelled s := by
  induction s with
  | nil =>
    rw [List.suffix_nil.1 h]
    exact fun _ hc => hc
  | cons d s ih =>
    rcases List.suffix_cons_iff.1 h with rfl | h
    · exact fun _ hc => hc
    · intro c hc
      have hc := ih h hc
      rw [spelled]
      split
      · exact .tail _ (.tail _ hc)
      · exact .tail _ hc

/-- A text spells all of its own characters. -/
theorem subset_spelled (s : Text) : s ⊆ spelled s := by
  induction s with
  | nil => exact fun _ hc => hc
  | cons d s ih =>
    rw [spelled]
    split
    · exact List.cons_subset_cons _ fun c hc => .tail _ (ih hc)
    · exact List.cons_subset_cons _ ih

/-! ### Whole strings -/

/-- **A string is read** to characters that its text spells, and to stand-ins for surrogates. -/
theorem mem_spelled_of_readString (h : readString standIns opening s = .ok (cs, rest)) :
    ∀ c ∈ cs, (∃ unit, isSurrogate unit = true ∧ c = standIns.char unit) ∨ c ∈ spelled s := by
  fun_induction readString standIns opening s generalizing cs rest with
  | case1 => cases h
  | case2 s behind hp =>
    cases h
    simp
  | case3 s d behind hp _ ih =>
    obtain ⟨⟨ds, rest'⟩, hds, h⟩ := Outcome.bind_eq_ok_iff.1 h
    cases h
    obtain ⟨e, tail, rfl, hsuffix⟩ := suffix_of_nextPiece_char hp
    have hspelled := spelled_subset_of_suffix (hsuffix.trans (List.suffix_cons e tail))
    refine List.forall_mem_cons.2 ⟨?_, fun c hc => (ih hds c hc).imp_right (@hspelled c)⟩
    exact (nextPiece_char_cases hp).imp_right mem_spelled_of_nextPiece

/-- **A stand-in in a string** is there for a lone surrogate, unless the text spells it. -/
theorem exists_unit_of_readString (hfree : standIns.Free (spelled s))
    (h : readString standIns opening s = .ok (cs, rest)) (hc : c ∈ cs)
    (hstands : standIns.stands c = true) : ∃ unit, isSurrogate unit = true ∧ c = standIns.char unit := by
  refine (mem_spelled_of_readString h c hc).resolve_right fun hspelled => ?_
  rw [hfree c hspelled] at hstands
  cases hstands

end Json

end Mustache
