import Mathlib.Data.List.ReduceOption
import Mustache.Command.Program
import Mustache.Proofs.Json.Escape
import Mustache.Proofs.Outcome

/-!
# Lone surrogates in a run

The stand-ins of a run occur in no text that it reads, and no escape in such a text spells one
(`Options.free_spelled`).  So templates and partials from files are free of them
(`Options.free_of_readText`, `Options.free_of_readFile`), and the strings of JSON texts hold them just
for lone surrogates (`Options.exists_unit_of_readString`).
-/

namespace Mustache

open Outcome

namespace Command

variable {o : Options} {s : Surroundings} {files : Files} {path : Path} {name text : Text}
  {octets : List UInt8} {readBefore : Bool}

/-! ### Texts that are read -/

theorem Files.exists_mem_of_read (h : files.read path = .ok octets) :
    ∃ l, (l, .file octets) ∈ files.entries := by
  obtain ⟨l, -, h⟩ := bind_eq_ok_iff.1 h
  unfold entry? at h
  cases hlookup : files.entries.lookup l with
  | some entry =>
    cases entry with
    | file found =>
      simp only [hlookup] at h
      cases h
      exact ⟨l, mem_of_lookup_eq_some hlookup⟩
    | directory => simp [hlookup] at h
  | none =>
    -- Nothing is stored there: at best it is the directory of something.
    by_cases hbelow : (l.isPrefixOf files.workingDirectory ||
        files.entries.any fun other => l.isPrefixOf other.1) = true
    · simp [hlookup, hbelow] at h
    · simp [hlookup, hbelow] at h

namespace Surroundings

theorem mem_texts_of_readFile (h : readFile s.files name path = .ok text) : text ∈ s.texts := by
  unfold readFile at h
  split at h
  · cases h
  · cases hread : s.files.read path with
    | error o => simp [hread] at h
    | ok octets =>
      cases hdecode : Utf8.decode octets with
      | error fault => simp [hread, hdecode] at h
      | ok content =>
        simp only [hread, hdecode] at h
        cases h
        obtain ⟨l, hmem⟩ := Files.exists_mem_of_read hread
        have hcontent : Text.foldBreaks content =
            Text.foldBreaks ((Utf8.decode octets).toOption.getD []) := by rw [hdecode]; rfl
        simp only [texts, List.mem_append, List.mem_cons, List.mem_filterMap]
        exact .inl (.inl (.inl (.inr ⟨_, hmem, congrArg some hcontent.symm⟩)))

/-- Standard input that was read before has nothing left. -/
theorem mem_texts_of_readText (h : s.readText readBefore name = .ok text) :
    text = [] ∨ text ∈ s.texts := by
  unfold readText at h
  split at h
  · cases readBefore with
    | true =>
      have hnothing : Utf8.decode [] = .ok [] := by rw [Utf8.decode, Utf8.decodeFrom]
      rw [if_pos rfl, hnothing] at h
      cases h
      refine .inl ?_
      unfold fold
      split <;> rfl
    | false =>
      refine .inr ?_
      cases hdecode : Utf8.decode s.stdin with
      | error fault => simp [hdecode] at h
      | ok content =>
        simp only [Bool.false_eq_true, if_false, hdecode] at h
        cases h
        simp [texts, hdecode, Except.toOption]
  · exact .inr (mem_texts_of_readFile h)

end Surroundings

namespace Options

/-- JSON on the command line is a text that is read. -/
theorem mem_texts_of_data (h : given o.data = some text) : text ∈ o.texts := by
  obtain ⟨hdata, -⟩ := Option.filter_eq_some_iff.1 h
  exact .tail _ (List.reduceOption_mem_iff.2 (by simp [hdata]))

/-! ### Stand-ins -/

/-- **No stand-in is spelled** in the texts of a run. -/
theorem free_spelled (h : text ∈ o.texts ++ s.texts) : (o.standIns s).Free (Json.spelled text) :=
  StandIns.free_apart fun _ hc => List.mem_flatMap.2 ⟨text, h, hc⟩

theorem free_of_mem_texts (h : text ∈ o.texts ++ s.texts) : (o.standIns s).Free text :=
  fun c hc => free_spelled h c (Json.subset_spelled text hc)

/-- **A text that is read** holds no stand-in. -/
theorem free_of_readText (h : s.readText readBefore name = .ok text) : (o.standIns s).Free text := by
  rcases s.mem_texts_of_readText h with rfl | hmem
  · exact List.forall_mem_nil _
  · exact free_of_mem_texts (List.mem_append_right _ hmem)

theorem free_of_readFile (h : readFile s.files name path = .ok text) : (o.standIns s).Free text :=
  free_of_mem_texts (List.mem_append_right _ (s.mem_texts_of_readFile h))

/-- **A stand-in in a JSON string** is there for a lone surrogate: no text that a run reads spells one
itself. -/
theorem exists_unit_of_readString (h : text ∈ o.texts ++ s.texts) {opening t cs rest : Text} {c : Char}
    (ht : t <:+ text) (hread : Json.readString (o.standIns s) opening t = .ok (cs, rest))
    (hc : c ∈ cs) (hstands : (o.standIns s).stands c = true) :
    ∃ unit, isSurrogate unit = true ∧ c = (o.standIns s).char unit := by
  refine Json.exists_unit_of_readString (fun d hd => ?_) hread hc hstands
  exact free_spelled h d (Json.spelled_subset_of_suffix ht hd)

end Options

end Command

end Mustache
