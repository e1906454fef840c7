import Mustache.Proofs.Value.Equality

/-!
# Equality without key order is an equivalence

Values that no lookup tells apart are equal (`Value.equiv_of_bisimulation`), and equal values are told
apart by none (`Value.bisimulation_sameData`).  So equality is reflexive, symmetric and transitive on
values that hold each key once: what a lookup tells apart does not depend on the side it is on, nor on
a value in between.
-/

namespace Mustache

namespace Value

variable {known : Text → Prop} {R S : Value → Value → Prop} {a b c : Value}
  {fields fields' : List (Text × Value)}

/-! ### Matches from the other side, and in a row -/

theorem rel_flip {α β : Type} {P : α → β → Prop} {x : Option α} {y : Option β}
    (h : Option.Rel P x y) : Option.Rel (fun b a => P a b) y x := by
  cases h with
  | none => exact .none
  | some h => exact .some h

theorem rel_comp {α β γ : Type} {P : α → β → Prop} {Q : β → γ → Prop} {x : Option α} {y : Option β}
    {z : Option γ} (h : Option.Rel P x y) (h' : Option.Rel Q y z) :
    Option.Rel (Relation.Comp P Q) x z := by
  cases h with
  | none =>
    cases h' with
    | none => exact .none
  | some h =>
    cases h' with
    | some h' => exact .some ⟨_, h, h'⟩

theorem Matches.flip (h : Matches known R a b) : Matches known (fun y x => R x y) b a := by
  cases h with
  | null => exact .null
  | scalar text => exact .scalar text
  | sequence h => exact .sequence h.flip
  | mapping h => exact .mapping fun key hkey => rel_flip (h key hkey)

theorem forall₂_comp {α β γ : Type} {P : α → β → Prop} {Q : β → γ → Prop} {l : List α} {l' : List β}
    {l'' : List γ} (h : List.Forall₂ P l l') (h' : List.Forall₂ Q l' l'') :
    List.Forall₂ (Relation.Comp P Q) l l'' := by
  induction h generalizing l'' with
  | nil =>
    cases h' with
    | nil => exact .nil
  | cons hab _ ih =>
    cases h' with
    | cons hbc htail => exact .cons ⟨_, hab, hbc⟩ (ih htail)

theorem Matches.comp (h : Matches known R a b) (h' : Matches known S b c) :
    Matches known (Relation.Comp R S) a c := by
  cases h with
  | null =>
    cases h' with
    | null => exact .null
  | scalar text =>
    cases h' with
    | scalar _ => exact .scalar text
  | sequence h =>
    cases h' with
    | sequence h' => exact .sequence (forall₂_comp h h')
  | mapping h =>
    cases h' with
    | mapping h' => exact .mapping fun key hkey => rel_comp (h key hkey) (h' key hkey)

/-- Fields that are found under the same keys are as many, if no key stands twice. -/
theorem length_eq_of_isSome_lookup (h : (Fields.keys fields).Nodup)
    (h' : (Fields.keys fields').Nodup)
    (hsome : ∀ key, (fields.lookup key).isSome = (fields'.lookup key).isSome) :
    fields.length = fields'.length := by
  have hmem : ∀ key, key ∈ Fields.keys fields ↔ key ∈ Fields.keys fields' := by
    intro key
    have hkey := hsome key
    rw [Bool.eq_iff_iff, Option.isSome_iff_ne_none, Option.isSome_iff_ne_none, ne_eq, ne_eq,
      lookup_eq_none_iff_not_mem, lookup_eq_none_iff_not_mem, not_not, not_not] at hkey
    exact hkey
  have hlength := ((List.perm_ext_iff_of_nodup h h').2 hmem).length_eq
  simpa [Fields.keys] using hlength

/-- **What no lookup tells apart is equal.** -/
theorem equiv_of_bisimulation (hR : Bisimulation (fun _ => True) R)
    (hproper : ∀ a b, R a b → b.Proper) (ha : a.Proper) (h : R a b) : a.equiv b = true := by
  induction ha generalizing b with
  | null =>
    cases hR h with
    | null => rfl
  | scalar text =>
    cases hR h with
    | scalar _ => simp [equiv]
  | @sequence items _ ih =>
    cases hR h with
    | @sequence _ items' hitems =>
      rw [equiv, equivItems_iff]
      refine List.forall₂_iff_get.2 ⟨hitems.length_eq, fun i h₁ h₂ => ?_⟩
      exact ih _ (List.get_mem items ⟨i, h₁⟩) ((List.forall₂_iff_get.1 hitems).2 i h₁ h₂)
  | @mapping fields hkeys _ ih =>
    have hb := hproper _ _ h
    cases hR h with
    | @mapping _ fields' hfields =>
      have hlength := length_eq_of_isSome_lookup hkeys (proper_mapping_iff.1 hb).1
        fun key => isSome_eq_of_rel (hfields key trivial)
      rw [equiv, hlength, beq_self_eq_true, Bool.true_and, equivFields_iff]
      intro p hp
      have hrel := hfields p.1 trivial
      rw [lookup_of_mem hkeys hp] at hrel
      generalize hw : fields'.lookup p.1 = w at hrel
      cases hrel with
      | some hpw => exact ⟨_, rfl, ih p hp hpw⟩

/-! ### The laws of an equivalence -/

theorem equiv_refl (ha : a.Proper) : a.equiv a = true := by
  have hid : Bisimulation (fun _ => True) fun a b => a = b ∧ b.Proper := by
    rintro a b ⟨rfl, ha⟩
    cases ha with
    | null => exact .null
    | scalar text => exact .scalar text
    | sequence hitems => exact .sequence (List.forall₂_same.2 fun v hv => ⟨rfl, hitems v hv⟩)
    | @mapping fields hkeys hfields =>
      refine .mapping fun key _ => ?_
      cases hv : fields.lookup key with
      | none => exact .none
      | some v => exact .some ⟨rfl, hfields _ (mem_of_lookup_eq_some hv)⟩
  exact equiv_of_bisimulation hid (fun a b h => h.2) ha ⟨rfl, ha⟩

/-- What is equal to a value that holds each key once does so as well. -/
theorem Proper.of_equiv (ha : a.Proper) (h : a.equiv b = true) : b.Proper := by
  induction ha generalizing b with
  | null =>
    cases bisimulation_sameData ⟨.null, h⟩ with
    | null => exact .null
  | scalar text =>
    cases bisimulation_sameData ⟨.scalar text, h⟩ with
    | scalar _ => exact .scalar text
  | @sequence items hitems ih =>
    cases bisimulation_sameData ⟨.sequence hitems, h⟩ with
    | @sequence _ items' hrel =>
      refine .sequence fun w hw => ?_
      obtain ⟨i, hi, rfl⟩ := List.getElem_of_mem hw
      have hi' : i < items.length := hrel.length_eq ▸ hi
      exact ih _ (List.getElem_mem hi') ((List.forall₂_iff_get.1 hrel).2 i hi' hi).2
  | @mapping fields hkeys hfields ih =>
    have hmatches := bisimulation_sameData ⟨.mapping hkeys hfields, h⟩
    cases b with
    | mapping fields' =>
      obtain ⟨hlength, heq⟩ : fields.length = fields'.length ∧
          equivFields fields fields' = true := by simpa [equiv] using h
      have hkeys' : (Fields.keys fields').Nodup :=
        (keys_perm_of_equivFields hkeys hlength heq).nodup_iff.1 hkeys
      refine .mapping hkeys' fun p hp => ?_
      cases hmatches with
      | mapping hrel =>
        have hkey := hrel p.1 trivial
        rw [lookup_of_mem hkeys' hp] at hkey
        generalize hv : fields.lookup p.1 = v at hkey
        cases hkey with
        | some hvp => exact ih _ (mem_of_lookup_eq_some hv) hvp.2
    | null | scalar _ | sequence _ => cases hmatches

theorem equiv_symm (ha : a.Proper) (h : a.equiv b = true) : b.equiv a = true := by
  have hflip : Bisimulation (fun _ => True) fun y x => SameData x y := by
    intro y x hxy
    exact (bisimulation_sameData hxy).flip
  exact equiv_of_bisimulation hflip (fun y x hxy => hxy.1) (ha.of_equiv h) ⟨ha, h⟩

theorem equiv_trans (ha : a.Proper) (h : a.equiv b = true) (h' : b.equiv c = true) :
    a.equiv c = true := by
  have hcomp : Bisimulation (fun _ => True) (Relation.Comp SameData SameData) := by
    rintro x z ⟨y, hxy, hyz⟩
    exact (bisimulation_sameData hxy).comp (bisimulation_sameData hyz)
  refine equiv_of_bisimulation hcomp ?_ ha ⟨b, ⟨ha, h⟩, ha.of_equiv h, h'⟩
  rintro x z ⟨y, -, hyz⟩
  exact hyz.1.of_equiv hyz.2

end Value

end Mustache
