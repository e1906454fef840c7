import Mathlib.Data.List.Perm.Subperm
import Mustache.Proofs.Value.Lookup
import Mustache.Value.Equality
import Mustache.Value.OfJson

/-!
# Values that hold the same data

Equality without key order is meant for values that hold each key once: writing fields never doubles a
key, so all values that are read from JSON do (`Value.proper_ofJson`).  Then equal values have the same
keys, and equal values under each of them (`Value.bisimulation_sameData`).  Values that are equal once
the fields under one key are taken out of them, at every depth, are alike for all lookups of other keys
(`Value.bisimulation_without`).
-/

namespace Mustache

namespace Value

/-! ### Definitions -/

/-- No key stands twice in a mapping, at any depth. -/
inductive Proper : Value → Prop
  | null : Proper .null
  | scalar (text : Text) : Proper (.scalar text)
  | sequence {items : List Value} (h : ∀ v ∈ items, Proper v) : Proper (.sequence items)
  | mapping {fields : List (Text × Value)} (hkeys : (Fields.keys fields).Nodup)
    (h : ∀ p ∈ fields, Proper p.2) : Proper (.mapping fields)

/-- The two values are equal but for the order of keys.  Key by key this is the same data as long as
the first holds each key once. -/
def SameData (a b : Value) : Prop := a.Proper ∧ a.equiv b = true

mutual

/-- The value without the fields under a key, at every depth. -/
def without (k : Text) : Value → Value
  | null => null
  | scalar text => scalar text
  | sequence items => sequence (withoutItems k items)
  | mapping fields => mapping (withoutFields k fields)

/-- `without` along a list of values. -/
def withoutItems (k : Text) : List Value → List Value
  | [] => []
  | v :: rest => without k v :: withoutItems k rest

/-- `without` along a list of fields. -/
def withoutFields (k : Text) : List (Text × Value) → List (Text × Value)
  | [] => []
  | (key, v) :: rest =>
    if key = k then withoutFields k rest else (key, without k v) :: withoutFields k rest

end

variable {a b v : Value} {k key : Text} {items items' : List Value}
  {fields fields' : List (Text × Value)}

/-! ### Proper values -/

@[simp] theorem proper_sequence_iff : (sequence items).Proper ↔ ∀ v ∈ items, v.Proper := by
  constructor
  · intro h
    cases h with
    | sequence h => exact h
  · exact .sequence

@[simp] theorem proper_mapping_iff : (mapping fields).Proper ↔
    (Fields.keys fields).Nodup ∧ ∀ p ∈ fields, p.2.Proper := by
  constructor
  · intro h
    cases h with
    | mapping hkeys h => exact ⟨hkeys, h⟩
  · rintro ⟨hkeys, h⟩
    exact .mapping hkeys h

attribute [simp] Proper.null Proper.scalar

/-! ### Equality -/

theorem equivItems_iff :
    equivItems items items' = true ↔ List.Forall₂ (fun a b => equiv a b = true) items items' := by
  induction items generalizing items' with
  | nil => cases items' <;> simp [equivItems]
  | cons v items ih => cases items' <;> simp [equivItems, ih]

theorem equivFields_iff : equivFields fields fields' = true ↔
    ∀ p ∈ fields, ∃ w, fields'.lookup p.1 = some w ∧ equiv p.2 w = true := by
  induction fields with
  | nil => simp [equivFields]
  | cons p fields ih =>
    obtain ⟨key, v⟩ := p
    rw [equivFields, Bool.and_eq_true, ih, List.forall_mem_cons]
    cases fields'.lookup key with
    | none => simp
    | some w => simp

theorem lookup_eq_none_iff_not_mem {α : Type} {fields : Fields α} :
    fields.lookup key = none ↔ key ∉ Fields.keys fields := by
  rw [List.lookup_eq_none_iff, Fields.keys, List.mem_map]
  constructor
  · rintro h ⟨p, hp, rfl⟩
    simpa using h p hp
  · intro h p hp
    have hne : key ≠ p.1 := fun hk => h ⟨p, hp, hk.symm⟩
    simpa using hne

/-- As many keys, all of them among those of the other mapping, are the same keys. -/
theorem keys_perm_of_equivFields (hkeys : (Fields.keys fields).Nodup)
    (hlength : fields.length = fields'.length) (h : equivFields fields fields' = true) :
    (Fields.keys fields).Perm (Fields.keys fields') := by
  have hsub : Fields.keys fields ⊆ Fields.keys fields' := by
    intro key hkey
    obtain ⟨p, hp, rfl⟩ := List.mem_map.1 hkey
    obtain ⟨w, hw, -⟩ := equivFields_iff.1 h p hp
    exact List.mem_map.2 ⟨(p.1, w), mem_of_lookup_eq_some hw, rfl⟩
  have hle : (Fields.keys fields').length ≤ (Fields.keys fields).length := by
    simp [Fields.keys, hlength]
  exact (hkeys.subperm hsub).perm_of_length_le hle

/-- **Equal data** is told apart by no lookup. -/
theorem bisimulation_sameData : Bisimulation (fun _ => True) SameData := by
  rintro a b ⟨ha, hab⟩
  cases ha with
  | null =>
    cases b with
    | null => exact .null
    | scalar _ | sequence _ | mapping _ => simp [equiv] at hab
  | scalar s =>
    cases b with
    | scalar t =>
      obtain rfl : s = t := by simpa [equiv] using hab
      exact .scalar s
    | null | sequence _ | mapping _ => simp [equiv] at hab
  | @sequence items hproper =>
    cases b with
    | sequence items' =>
      have hitems := equivItems_iff.1 (by simpa [equiv] using hab)
      refine .sequence (List.forall₂_iff_get.2 ⟨hitems.length_eq, fun i h₁ h₂ => ?_⟩)
      exact ⟨hproper _ (List.get_mem items ⟨i, h₁⟩), (List.forall₂_iff_get.1 hitems).2 i h₁ h₂⟩
    | null | scalar _ | mapping _ => simp [equiv] at hab
  | @mapping fields hkeys hproper =>
    cases b with
    | mapping fields' =>
      obtain ⟨hlength, hfields⟩ : fields.length = fields'.length ∧
          equivFields fields fields' = true := by simpa [equiv] using hab
      refine .mapping fun key _ => ?_
      cases hv : fields.lookup key with
      | none =>
        have hkey : key ∉ Fields.keys fields' := fun hmem =>
          lookup_eq_none_iff_not_mem.1 hv
            ((keys_perm_of_equivFields hkeys hlength hfields).symm.subset hmem)
        rw [lookup_eq_none_iff_not_mem.2 hkey]
        exact .none
      | some v =>
        have hmem := mem_of_lookup_eq_some hv
        obtain ⟨w, hw, hvw⟩ := equivFields_iff.1 hfields _ hmem
        have hw : fields'.lookup key = some w := hw
        rw [hw]
        exact .some ⟨hproper _ hmem, hvw⟩
    | null | scalar _ | sequence _ => simp [equiv] at hab

/-! ### Values without a key -/

theorem withoutItems_eq_map : withoutItems k items = items.map (without k) := by
  induction items with
  | nil => rfl
  | cons v items ih => rw [withoutItems, ih, List.map_cons]

theorem lookup_withoutFields (h : key ≠ k) :
    (withoutFields k fields).lookup key = (fields.lookup key).map (without k) := by
  induction fields with
  | nil => rfl
  | cons p fields ih =>
    obtain ⟨l, v⟩ := p
    by_cases hl : l = k
    · have hkey : (key == l) = false := by simpa [hl] using h
      rw [withoutFields, if_pos hl, ih, List.lookup_cons, hkey]
    · rw [withoutFields, if_neg hl]
      by_cases hkey : key = l
      · simp [hkey]
      · have hkey' : (key == l) = false := by simpa using hkey
        rw [List.lookup_cons, List.lookup_cons, hkey']
        exact ih

theorem exists_of_mem_withoutFields {p : Text × Value} (h : p ∈ withoutFields k fields) :
    ∃ v, (p.1, v) ∈ fields ∧ p.2 = v.without k := by
  induction fields with
  | nil => cases h
  | cons q fields ih =>
    obtain ⟨l, v⟩ := q
    rw [withoutFields] at h
    split at h
    · obtain ⟨w, hw, hp⟩ := ih h
      exact ⟨w, List.mem_cons_of_mem _ hw, hp⟩
    · rcases List.mem_cons.1 h with rfl | h
      · exact ⟨v, List.mem_cons_self, rfl⟩
      · obtain ⟨w, hw, hp⟩ := ih h
        exact ⟨w, List.mem_cons_of_mem _ hw, hp⟩

theorem keys_withoutFields_sublist :
    (Fields.keys (withoutFields k fields)).Sublist (Fields.keys fields) := by
  induction fields with
  | nil => exact .slnil
  | cons p fields ih =>
    obtain ⟨l, v⟩ := p
    rw [withoutFields]
    split
    · exact ih.cons l
    · exact ih.cons_cons l

theorem Proper.without (h : a.Proper) (k : Text) : (a.without k).Proper := by
  induction h with
  | null => exact .null
  | scalar text => exact .scalar text
  | sequence _ ih =>
    rw [Value.without, withoutItems_eq_map]
    refine .sequence fun v hv => ?_
    obtain ⟨w, hw, rfl⟩ := List.mem_map.1 hv
    exact ih w hw
  | mapping hkeys _ ih =>
    rw [Value.without]
    refine .mapping (hkeys.sublist keys_withoutFields_sublist) fun p hp => ?_
    obtain ⟨v, hv, hp⟩ := exists_of_mem_withoutFields hp
    rw [hp]
    exact ih _ hv

/-- **Equal data but for the fields under `k`** is told apart by no lookup of other keys. -/
theorem bisimulation_without (k : Text) :
    Bisimulation (· ≠ k) fun a b => SameData (a.without k) (b.without k) := by
  intro a b h
  have hmatches := bisimulation_sameData h
  cases a with
  | null =>
    cases b with
    | null => exact .null
    | scalar _ | sequence _ | mapping _ => cases hmatches
  | scalar s =>
    cases b with
    | scalar t =>
      cases hmatches
      exact .scalar s
    | null | sequence _ | mapping _ => cases hmatches
  | sequence items =>
    cases b with
    | sequence items' =>
      rw [without, without, withoutItems_eq_map, withoutItems_eq_map] at hmatches
      cases hmatches with
      | sequence hitems =>
        exact .sequence (List.forall₂_map_right_iff.1 (List.forall₂_map_left_iff.1 hitems))
    | null | scalar _ | mapping _ => cases hmatches
  | mapping fields =>
    cases b with
    | mapping fields' =>
      cases hmatches with
      | mapping hfields =>
        refine .mapping fun key hkey => ?_
        have hrel := hfields key trivial
        rw [lookup_withoutFields hkey, lookup_withoutFields hkey] at hrel
        exact rel_of_rel_map hrel
    | null | scalar _ | sequence _ => cases hmatches

/-! ### Values from JSON -/

theorem exists_mem_of_mem_put {α : Type} {fields : Fields α} {x : α} {p : Text × α}
    (h : p ∈ Fields.put key x fields) : p.2 = x ∨ p ∈ fields := by
  induction fields with
  | nil =>
    obtain rfl := List.mem_singleton.1 h
    exact .inl rfl
  | cons q fields ih =>
    rw [Fields.put] at h
    split at h
    · rcases List.mem_cons.1 h with rfl | h
      · exact .inl rfl
      · exact .inr (List.mem_cons_of_mem q h)
    · rcases List.mem_cons.1 h with rfl | h
      · exact .inr List.mem_cons_self
      · exact (ih h).imp_right (List.mem_cons_of_mem q)

/-- Fields that pairs spell hold values of the pairs. -/
theorem forall_mem_ofPairs {α : Type} {P : α → Prop} {pairs : List (Text × α)}
    (h : ∀ p ∈ pairs, P p.2) : ∀ p ∈ Fields.ofPairs pairs, P p.2 := by
  have hall : ∀ (pairs : List (Text × α)) (fields : Fields α), (∀ p ∈ pairs, P p.2) →
      (∀ p ∈ fields, P p.2) → ∀ p ∈ Fields.putAll fields pairs, P p.2 := by
    intro pairs
    induction pairs with
    | nil => exact fun fields _ hf => hf
    | cons q pairs ih =>
      intro fields hp hf
      refine ih (Fields.put q.1 q.2 fields) (fun p hp' => hp p (List.mem_cons_of_mem q hp')) ?_
      intro p hmem
      rcases exists_mem_of_mem_put hmem with hp' | hp'
      · exact hp' ▸ hp q List.mem_cons_self
      · exact hf p hp'
  exact hall pairs [] h fun p hp => absurd hp List.not_mem_nil

mutual

/-- **Values from JSON** hold each key once. -/
theorem proper_ofJson : ∀ j : Json, (ofJson j).Proper
  | .scalar s => by
    cases s with
    | null => exact .null
    | string s => exact .scalar _
    | _ => exact .scalar _
  | .array items => by
    rw [ofJson]
    exact .sequence (proper_ofJsonItems items)
  | .object members => by
    rw [ofJson]
    exact .mapping (Fields.nodup_keys_ofPairs _) (forall_mem_ofPairs (proper_ofJsonMembers members))

theorem proper_ofJsonItems : ∀ items : List Json, ∀ v ∈ ofJsonItems items, v.Proper
  | [], _, h => absurd h List.not_mem_nil
  | item :: rest, v, h => by
    rw [ofJsonItems] at h
    rcases List.mem_cons.1 h with rfl | h
    · exact proper_ofJson item
    · exact proper_ofJsonItems rest v h

theorem proper_ofJsonMembers : ∀ members : List (Text × Json),
    ∀ p ∈ ofJsonMembers members, p.2.Proper
  | [], _, h => absurd h List.not_mem_nil
  | (key, item) :: rest, p, h => by
    rw [ofJsonMembers] at h
    rcases List.mem_cons.1 h with rfl | h
    · exact proper_ofJson item
    · exact proper_ofJsonMembers rest p h

end

end Value

end Mustache
