import Mustache.Proofs.Render.Shadowing
import Mustache.Proofs.Value.Path

/-!
# Fields see no more than sections

A field and a section ask the stack alike.  Where the stack has no answer, a section asks the root, and
a field does so unless an entry holds the leading key of its name.  So whatever a field finds, a section
finds; they differ exactly where an entry hides the root from the field and the root has an answer
(`Scope.fieldValue_ne_sectionValue_iff`).  An entry that holds the leading key of a name without dots
holds the name, and what holds the front of a dotted name may lack the rest of it; so the names for
which the two never differ are those without dots, and `.` (`Scope.fieldValue_le_sectionValue`).
-/

namespace Mustache

namespace Scope

variable {s : Scope} {path : Text} {v : Value}

/-- The leading key of a path is all of it only if there is no dot to cut it at. -/
theorem leadingKey_eq_self_iff : leadingKey path = path ↔ path = ['.'] ∨ '.' ∉ path := by
  by_cases h : path = ['.']
  · exact iff_of_true (if_pos h) (.inl h)
  · rw [leadingKey_eq_takeWhile h, List.takeWhile_eq_self_iff]
    simp [h, List.forall_mem_ne']

/-- **What a field finds, a section finds.** -/
theorem sectionValue_of_fieldValue (h : s.fieldValue path = some v) :
    s.sectionValue path = some v := by
  rw [fieldValue_eq, Option.or_eq_some_iff] at h
  rw [sectionValue_eq, Option.or_eq_some_iff]
  refine h.imp id fun ⟨hnone, hroot⟩ => ⟨hnone, ?_⟩
  split at hroot
  · cases hroot
  · exact hroot

/-- **A field finds less than a section** exactly if an entry that leads nowhere hides a root that has
an answer. -/
theorem fieldValue_ne_sectionValue_iff : s.fieldValue path ≠ s.sectionValue path ↔
    (∀ entry ∈ s.stack, entry.lookup path = none) ∧
      (∃ entry ∈ s.stack, (entry.lookup (leadingKey path)).isSome = true) ∧
      (s.root.lookup path).isSome = true := by
  rw [← innermost_eq_none_iff, ← isSome_innermost_iff, fieldValue_eq, sectionValue_eq]
  cases s.innermost path with
  | some w => simp
  | none =>
    by_cases hkey : (s.innermost (leadingKey path)).isSome = true
    · rw [if_pos hkey]
      cases s.root.lookup path <;> simp [hkey]
    · simp [hkey]

/-- A dotted path leads nowhere in a mapping of nothings. -/
theorem lookup_mapping_null (h : path ≠ ['.']) (hdot : '.' ∈ path) (key : Text) :
    (Value.mapping [(key, .null)]).lookup path = none := by
  obtain ⟨k, k', rest, hkeys⟩ := Value.exists_pathKeys_eq hdot
  rw [Value.lookup, if_neg h, hkeys, Value.walk, List.lookup_cons]
  cases k == key with
  | false => rfl
  | true => rfl

/-- **A dotted field can be hidden**: some scope has an answer for a section of its name only. -/
theorem exists_fieldValue_ne_sectionValue (h : path ≠ ['.']) (hdot : '.' ∈ path) :
    ∃ s : Scope, s.fieldValue path ≠ s.sectionValue path := by
  -- the entry holds the leading key with nothing below it, the root all keys of the path
  let entry : Value := .mapping [(Text.strip (leadingKey path), .null)]
  let root : Value := Value.null.nest (Value.pathKeys path)
  have hentry : (entry.lookup (leadingKey path)).isSome = true := by
    rw [isSome_lookup_leadingKey h]
    simp [entry, Value.holds]
  have hroot : root.lookup path = some .null := by rw [Value.lookup, if_neg h, walk_nest]
  refine ⟨{ root := root, stack := [entry] }, fieldValue_ne_sectionValue_iff.2 ⟨?_, ?_, ?_⟩⟩
  · exact List.forall_mem_singleton.2 (lookup_mapping_null h hdot _)
  · exact ⟨entry, List.mem_singleton_self entry, hentry⟩
  · rw [hroot]
    rfl

/-- **Fields see no more than sections**: in no scope does a field find what a section of its name does
not.  The names that give both the same in every scope are those without dots, and `.`; for any other
name the two differ exactly where the stack has no answer, one of its entries holds the leading key,
and the root has an answer. -/
theorem fieldValue_le_sectionValue (path : Text) :
    (∀ (s : Scope) (v : Value), s.fieldValue path = some v → s.sectionValue path = some v) ∧
      ((∀ s : Scope, s.fieldValue path = s.sectionValue path) ↔ path = ['.'] ∨ '.' ∉ path) ∧
      ∀ s : Scope, s.fieldValue path ≠ s.sectionValue path ↔
        (∀ entry ∈ s.stack, entry.lookup path = none) ∧
          (∃ entry ∈ s.stack, (entry.lookup (leadingKey path)).isSome = true) ∧
          (s.root.lookup path).isSome = true := by
  refine ⟨fun s v => sectionValue_of_fieldValue, ⟨fun hall => ?_, fun h s => ?_⟩,
    fun s => fieldValue_ne_sectionValue_iff⟩
  · by_contra hname
    obtain ⟨hne, hdot⟩ := not_or.1 hname
    obtain ⟨s, hs⟩ := exists_fieldValue_ne_sectionValue hne (not_not.1 hdot)
    exact hs (hall s)
  · exact fieldValue_eq_sectionValue (leadingKey_eq_self_iff.2 h)

/-- A dotted name with a blank before its dot: above a null, an entry with the front of the name hides
the root; above an empty sequence the root is seen. -/
theorem fieldValue_le_sectionValue_hidden :
    let root : Value := .mapping [("a ".toList, .mapping [(['b'], .scalar ['1'])])]
    let hidden : Scope := { root := root, stack := [.null, .mapping [(['a'], .scalar ['x'])]] }
    let bare : Scope := { root := root, stack := [.null, .sequence []] }
    hidden.fieldValue "a .b".toList ≠ hidden.sectionValue "a .b".toList ∧
      bare.fieldValue "a .b".toList = some (.scalar ['1']) ∧
      bare.sectionValue "a .b".toList = some (.scalar ['1']) := by
  intro root hidden bare
  have hfield : bare.fieldValue "a .b".toList = some (.scalar ['1']) := by decide
  have hsees := fieldValue_le_sectionValue "a .b".toList
  exact ⟨(hsees.2.2 hidden).2 (by decide), hfield, hsees.1 bare _ hfield⟩

end Scope

end Mustache
