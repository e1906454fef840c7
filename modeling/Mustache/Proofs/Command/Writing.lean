import Mathlib.Data.List.Basic
import Mustache.Command.Files
import Mustache.Fields
import Mustache.Proofs.Outcome

/-!
# Writing a file

A file is written at the location that its path leads to, and nothing else changes: neither what is
stored anywhere else, nor whether there is a directory there (`Files.entry?_of_write`).  No directory
comes into being, since all that is above the file is on the way to it and occupied before
(`occupied_of_follow`).  Afterwards the path leads to what was written (`Files.read_of_write`).
-/

namespace Mustache

open Outcome

namespace Command

namespace Files

/-- There is something at the location or below it. -/
def Occupied (files : Files) (l : Location) : Prop :=
  l <+: files.workingDirectory ∨ ∃ other ∈ files.entries, l <+: other.1

variable {files after : Files} {l l' other : Location} {names : List Text} {path : Path}
  {octets : List UInt8} {entry : Entry}

theorem Occupied.mono (h : files.Occupied l) (hl : l' <+: l) : files.Occupied l' := by
  rcases h with h | ⟨entry, hmem, h⟩
  · exact .inl (hl.trans h)
  · exact .inr ⟨entry, hmem, hl.trans h⟩

theorem occupied_iff : (l.isPrefixOf files.workingDirectory ||
    files.entries.any fun other => l.isPrefixOf other.1) = true ↔ files.Occupied l := by
  simp [Occupied]

theorem occupied_of_entry? (h : files.entry? l = some entry) : files.Occupied l := by
  unfold entry? at h
  cases hlookup : files.entries.lookup l with
  | some stored =>
    exact .inr ⟨(l, stored), mem_of_lookup_eq_some hlookup, List.prefix_refl l⟩
  | none =>
    rw [hlookup] at h
    exact occupied_iff.1 (Option.ite_none_right_eq_some.1 h).1

/-- What is at a location depends on what is stored there, and on whether there is anything below. -/
theorem entry?_congr (hlookup : after.entries.lookup l = files.entries.lookup l)
    (hoccupied : after.Occupied l ↔ files.Occupied l) : after.entry? l = files.entry? l := by
  rw [ entry?, entry?, hlookup]
  split
  · rfl
  · rw [Bool.eq_iff_iff.2 (occupied_iff.trans (hoccupied.trans occupied_iff.symm))]

/-- Where names lead to, all that is above is occupied. -/
theorem occupied_of_descend (h : files.descend l names = .ok l')
    (hl : files.Occupied l.dropLast) : files.Occupied l'.dropLast := by
  induction names generalizing l with
  | nil =>
    cases h
    exact hl
  | cons name rest ih =>
    rw [descend] at h
    cases hentry : files.entry? l with
    | none => simp [hentry] at h
    | some entry =>
      cases entry with
      | file octets => simp [hentry] at h
      | directory =>
        rw [hentry] at h
        have hhere := occupied_of_entry? hentry
        refine ih h ?_
        split
        · exact hhere.mono ((List.dropLast_prefix _).trans (List.dropLast_prefix l))
        · rwa [List.dropLast_concat]

theorem occupied_of_follow (h : files.follow path = .ok l) : files.Occupied l.dropLast := by
  refine occupied_of_descend h ?_
  split
  · exact .inl (List.dropLast_prefix _)
  · exact .inl List.nil_prefix

theorem prefix_dropLast_of_ne (h : other <+: l) (hne : other ≠ l) : other <+: l.dropLast := by
  rcases List.eq_nil_or_concat l with rfl | ⟨front, name, rfl⟩
  · exact absurd (List.prefix_nil.1 h) hne
  · rw [List.concat_eq_append] at h hne ⊢
    rw [List.dropLast_concat]
    exact (List.prefix_concat_iff.1 h).resolve_left hne

theorem write_eq_ok_iff : files.write path octets = .ok after ↔
    ∃ l, files.follow path = .ok l ∧ files.entry? l ≠ some .directory ∧
      after = { files with
        entries := (l, .file octets) :: files.entries.filter fun other => other.1 ≠ l } := by
  show (files.follow path).bind _ = _ ↔ _
  rw [bind_eq_ok_iff]
  refine exists_congr fun l => and_congr_right fun _ => ?_
  by_cases h : files.entry? l = some .directory
  · simp [h]
  · rw [if_neg h]
    show Except.ok _ = Except.ok _ ↔ _
    rw [Except.ok.injEq, eq_comm]
    exact ⟨fun hafter => ⟨h, hafter⟩, fun hafter => hafter.2⟩

theorem lookup_filter_ne (entries : List (Location × Entry)) (h : other ≠ l) :
    (entries.filter fun e => e.1 ≠ l).lookup other = entries.lookup other := by
  induction entries with
  | nil => rfl
  | cons e rest ih =>
    by_cases hl : e.1 = l
    · have hother : (other == e.1) = false := by simpa [hl] using h
      rw [List.filter_cons_of_neg (by simpa using hl), ih, List.lookup_cons, hother]
    · rw [List.filter_cons_of_pos (by simpa using hl), List.lookup_cons, List.lookup_cons, ih]

/-- **A file that is written** is the one thing that changes. -/
theorem entry?_of_write (h : files.write path octets = .ok after) :
    ∃ l, files.follow path = .ok l ∧ files.entry? l ≠ some .directory ∧
      after.entry? l = some (.file octets) ∧
      ∀ other, other ≠ l → after.entry? other = files.entry? other := by
  obtain ⟨l, hfollow, hentry, rfl⟩ := write_eq_ok_iff.1 h
  refine ⟨l, hfollow, hentry, ?_, fun other hother => ?_⟩
  · rw [ entry?, List.lookup_cons_self]
  · refine entry?_congr ?_ ⟨?_, ?_⟩
    · rw [List.lookup_cons, beq_eq_false_iff_ne.2 hother, lookup_filter_ne _ hother]
    · rintro (hbelow | ⟨e, hmem, hbelow⟩)
      · exact .inl hbelow
      · rcases List.mem_cons.1 hmem with rfl | hmem
        · exact (occupied_of_follow hfollow).mono (prefix_dropLast_of_ne hbelow hother)
        · exact .inr ⟨e, (List.mem_filter.1 hmem).1, hbelow⟩
    · rintro (hbelow | ⟨e, hmem, hbelow⟩)
      · exact .inl hbelow
      · by_cases he : e.1 = l
        · exact .inr ⟨_, List.mem_cons_self, he ▸ hbelow⟩
        · have hkept : e ∈ files.entries.filter fun other => other.1 ≠ l :=
            List.mem_filter.2 ⟨hmem, decide_eq_true he⟩
          exact .inr ⟨e, List.mem_cons_of_mem _ hkept, hbelow⟩

/-- Names lead the same way as long as the directories on it stay. -/
theorem descend_congr (h : files.descend l names = .ok l')
    (hsame : ∀ other, files.entry? other = some .directory → after.entry? other = some .directory) :
    after.descend l names = .ok l' := by
  induction names generalizing l with
  | nil => exact h
  | cons name rest ih =>
    rw [descend] at *
    cases hentry : files.entry? l with
    | none => simp [hentry] at h
    | some entry =>
      cases entry with
      | file octets => simp [hentry] at h
      | directory =>
        rw [hentry] at h
        rw [hsame l hentry]
        exact ih h

/-- **What is written** is what can be read afterwards. -/
theorem read_of_write (h : files.write path octets = .ok after) : after.read path = .ok octets := by
  obtain ⟨l, hfollow, hentry, hnew, hsame⟩ := entry?_of_write h
  have hafter : after.follow path = .ok l := by
    have hdirectory : ∀ other, files.entry? other = some .directory →
        after.entry? other = some .directory := by
      intro other hother
      have hne : other ≠ l := by
        rintro rfl
        exact hentry hother
      rw [hsame other hne, hother]
    have hwd : after.workingDirectory = files.workingDirectory := by
      obtain ⟨_, _, _, rfl⟩ := write_eq_ok_iff.1 h
      rfl
    rw [follow, hwd]
    exact descend_congr hfollow hdirectory
  show (after.follow path).bind _ = _
  rw [hafter, Except.bind, hnew]
  rfl

end Files

end Command

end Mustache
