import Mathlib.Data.Finset.Card
import Mathlib.Data.Finset.Image
import Mustache.Proofs.Value.Equivalence
import Mustache.Value.Hash

/-!
# Hash sets of values

Equality of values does not see the order of keys, and hashes do.  So a hash set has a member for each
hash among equal values, and not one in all: it counts the classes of equal values exactly if equal
values have one hash.  Where hashes do not collide that takes equal values with their keys in one
order, at every depth (`Value.hashSetSize_eq_classCount_iff`).
-/

namespace Mustache

namespace Value

/-! ### Definitions -/

/-- The values of a set that are equal to `v`. -/
def classIn (s : Finset Value) (v : Value) : Finset Value := s.filter fun w => v.equiv w = true

/-- How many classes of equal values there are in a list. -/
def classCount (vs : List Value) : Nat := (vs.toFinset.image (classIn vs.toFinset)).card

variable {α : Type} {h : Hasher α} {a b : Value} {vs ws : List Value}
  {items : List Value} {fields : List (Text × Value)}

/-! ### Hashes that do not collide -/

theorem hashItems_eq_map : hashItems h items = items.map (hash h) := by
  induction items with
  | nil => rfl
  | cons v items ih => rw [hashItems, ih, List.map_cons]

theorem hashFields_eq_map :
    hashFields h fields = fields.map fun p => h.tuple [h.text p.1, p.2.hash h] := by
  induction fields with
  | nil => rfl
  | cons p fields ih => rw [hashFields, ih, List.map_cons]

/-- **Equal values with one hash are the same**, the order of keys included, if neither texts nor
tuples collide. -/
theorem eq_of_hash_eq (htext : Function.Injective h.text) (htuple : Function.Injective h.tuple)
    (ha : a.Proper) (hab : a.equiv b = true) (hhash : a.hash h = b.hash h) : a = b := by
  induction ha generalizing b with
  | null =>
    cases bisimulation_sameData ⟨.null, hab⟩ with
    | null => rfl
  | scalar text =>
    cases bisimulation_sameData ⟨.scalar text, hab⟩ with
    | scalar _ => rfl
  | @sequence items hitems ih =>
    cases bisimulation_sameData ⟨.sequence hitems, hab⟩ with
    | @sequence _ items' hrel =>
      have hlist : items.map (hash h) = items'.map (hash h) := by
        rw [hash, hash, hashItems_eq_map, hashItems_eq_map] at hhash
        exact htuple (by simpa using htuple hhash)
      refine congrArg sequence (List.ext_getElem hrel.length_eq fun i h₁ h₂ => ?_)
      have hi : items[i].hash h = items'[i].hash h := by
        simpa [h₁, h₂] using congrArg (fun l => l[i]?) hlist
      exact ih _ (List.getElem_mem h₁) ((List.forall₂_iff_get.1 hrel).2 i h₁ h₂).2 hi
  | @mapping fields hkeys hfields ih =>
    have hb : b.Proper := (Proper.mapping hkeys hfields).of_equiv hab
    cases bisimulation_sameData ⟨.mapping hkeys hfields, hab⟩ with
    | @mapping _ fields' hrel =>
      have hlist := htuple hhash
      rw [hashFields_eq_map, hashFields_eq_map] at hlist
      have hlength : fields.length = fields'.length := by
        simpa using congrArg List.length hlist
      refine congrArg mapping (List.ext_getElem hlength fun i h₁ h₂ => ?_)
      -- the keys at one place are the same, so both lookups of that key end at this place
      have hi : h.tuple [h.text fields[i].1, fields[i].2.hash h] =
          h.tuple [h.text fields'[i].1, fields'[i].2.hash h] := by
        simpa [h₁, h₂] using congrArg (fun l => l[i]?) hlist
      obtain ⟨hkey, hvalue⟩ : h.text fields[i].1 = h.text fields'[i].1 ∧
          fields[i].2.hash h = fields'[i].2.hash h := by simpa using htuple hi
      have hkey : fields[i].1 = fields'[i].1 := htext hkey
      have hlookup := hrel fields[i].1 trivial
      have hleft : fields.lookup fields[i].1 = some fields[i].2 :=
        lookup_of_mem hkeys (List.getElem_mem h₁)
      have hright : fields'.lookup fields'[i].1 = some fields'[i].2 :=
        lookup_of_mem (proper_mapping_iff.1 hb).1 (List.getElem_mem h₂)
      rw [hleft, hkey, hright] at hlookup
      cases hlookup with
      | some hsame => exact Prod.ext hkey (ih _ (List.getElem_mem h₁) hsame.2 hvalue)

/-! ### Counting -/

/-- The values of `f` on a list are that on its first element and those on the rest that differ. -/
theorem image_toFinset_cons {β γ : Type} [DecidableEq β] [DecidableEq γ] (f : β → γ) (x : β)
    (l : List β) : (x :: l).toFinset.image f =
      insert (f x) ((l.filter fun y => f y ≠ f x).toFinset.image f) := by
  ext z
  simp only [List.toFinset_cons, Finset.image_insert, Finset.mem_insert, Finset.mem_image,
    List.mem_toFinset, List.mem_filter, decide_eq_true_iff]
  constructor
  · rintro (rfl | ⟨y, hy, rfl⟩)
    · exact .inl rfl
    · by_cases hyx : f y = f x
      · exact .inl hyx
      · exact .inr ⟨y, ⟨hy, hyx⟩, rfl⟩
  · rintro (rfl | ⟨y, ⟨hy, -⟩, rfl⟩)
    · exact .inl rfl
    · exact .inr ⟨y, hy, rfl⟩

/-- Removing doubles leaves one for each value of `f`, if `f` tells apart what counts as different. -/
theorem length_eraseDupsBy {β γ : Type} [DecidableEq β] [DecidableEq γ] {r : β → β → Bool}
    {f : β → γ} {l : List β} (hr : ∀ x ∈ l, ∀ y ∈ l, r x y = true ↔ f x = f y) :
    (l.eraseDupsBy r).length = (l.toFinset.image f).card := by
  induction hn : l.length using Nat.strong_induction_on generalizing l with
  | _ n ih =>
    cases l with
    | nil => rfl
    | cons x l =>
      have hfilter : l.filter (fun y => r y x = false) = l.filter fun y => f y ≠ f x := by
        refine List.filter_congr fun y hy => ?_
        rw [decide_eq_decide, ← Bool.not_eq_true,
          hr y (List.mem_cons_of_mem x hy) x List.mem_cons_self]
      have hsub : ∀ y ∈ l.filter (fun y => f y ≠ f x), y ∈ x :: l := fun y hy =>
        List.mem_cons_of_mem x (List.mem_of_mem_filter hy)
      have hshorter : (l.filter fun y => f y ≠ f x).length < n := by
        rw [← hn]
        exact Nat.lt_succ_of_le (List.length_filter_le _ l)
      have hrest := ih _ hshorter (fun y hy z hz => hr y (hsub y hy) z (hsub z hz)) rfl
      have hnew : f x ∉ (l.filter fun y => f y ≠ f x).toFinset.image f := by simp
      rw [List.eraseDupsBy_cons, List.length_cons, hfilter, hrest, image_toFinset_cons,
        Finset.card_insert_of_notMem hnew]

theorem distinct_eq_card (vs : List Value) : distinct vs = vs.toFinset.card := by
  have hid : ∀ x ∈ vs, ∀ y ∈ vs, (x == y) = true ↔ id x = id y := by simp
  rw [distinct, List.eraseDups, length_eraseDupsBy hid, Finset.image_id]

/-- Values of a list are in one class exactly if they are equal. -/
theorem classIn_eq_iff (hvs : ∀ v ∈ vs, v.Proper) (ha : a ∈ vs) (hb : b ∈ vs) :
    classIn vs.toFinset a = classIn vs.toFinset b ↔ a.equiv b = true := by
  constructor
  · intro hclass
    have hmem : b ∈ classIn vs.toFinset b :=
      Finset.mem_filter.2 ⟨List.mem_toFinset.2 hb, equiv_refl (hvs b hb)⟩
    rw [← hclass] at hmem
    exact (Finset.mem_filter.1 hmem).2
  · intro hab
    refine Finset.filter_congr fun c _ => ⟨fun hac => ?_, fun hbc => ?_⟩
    · exact equiv_trans (hvs b hb) (equiv_symm (hvs a ha) hab) hac
    · exact equiv_trans (hvs a ha) hab hbc

section Sizes

variable [DecidableEq α]

/-- A hash set has a member for each pair of a hash and a class. -/
theorem hashSetSize_eq_card (hvs : ∀ v ∈ vs, v.Proper) : hashSetSize h vs =
    (vs.toFinset.image fun v => (v.hash h, classIn vs.toFinset v)).card := by
  have hpair : ∀ x ∈ vs, ∀ y ∈ vs, (decide (x.hash h = y.hash h) && x.equiv y) = true ↔
      (x.hash h, classIn vs.toFinset x) = (y.hash h, classIn vs.toFinset y) := by
    intro x hx y hy
    rw [Bool.and_eq_true, decide_eq_true_iff, Prod.mk.injEq, classIn_eq_iff hvs hx hy]
  rw [hashSetSize, length_eraseDupsBy hpair]

theorem hashSetSize_le_distinct (hvs : ∀ v ∈ vs, v.Proper) : hashSetSize h vs ≤ distinct vs := by
  rw [hashSetSize_eq_card hvs, distinct_eq_card]
  exact Finset.card_image_le

/-- The classes are the second parts of the pairs that are counted. -/
theorem classCount_eq_card (vs : List Value) : classCount vs =
    ((vs.toFinset.image fun v => (v.hash h, classIn vs.toFinset v)).image Prod.snd).card := by
  rw [Finset.image_image]
  rfl

theorem classCount_le_hashSetSize (hvs : ∀ v ∈ vs, v.Proper) :
    classCount vs ≤ hashSetSize h vs := by
  rw [hashSetSize_eq_card hvs, classCount_eq_card (h := h)]
  exact Finset.card_image_le

/-- **A hash set counts classes** exactly if equal values have one hash. -/
theorem classCount_eq_hashSetSize_iff (hvs : ∀ v ∈ vs, v.Proper) :
    classCount vs = hashSetSize h vs ↔
      ∀ a ∈ vs, ∀ b ∈ vs, a.equiv b = true → a.hash h = b.hash h := by
  rw [hashSetSize_eq_card hvs, classCount_eq_card (h := h), Finset.card_image_iff]
  constructor
  · intro hinj a ha b hb hab
    have hclass : classIn vs.toFinset a = classIn vs.toFinset b := (classIn_eq_iff hvs ha hb).2 hab
    have hpair := hinj (Finset.mem_coe.2 (Finset.mem_image_of_mem _ (List.mem_toFinset.2 ha)))
      (Finset.mem_coe.2 (Finset.mem_image_of_mem _ (List.mem_toFinset.2 hb))) hclass
    exact congrArg Prod.fst hpair
  · intro hhash p hp q hq hpq
    obtain ⟨a, ha, rfl⟩ := Finset.mem_image.1 (Finset.mem_coe.1 hp)
    obtain ⟨b, hb, rfl⟩ := Finset.mem_image.1 (Finset.mem_coe.1 hq)
    rw [List.mem_toFinset] at ha hb
    have hab := (classIn_eq_iff hvs ha hb).1 hpq
    exact Prod.ext (hhash a ha b hb hab) hpq

theorem hashSetSize_perm (hvs : ∀ v ∈ vs, v.Proper) (hperm : ws.Perm vs) :
    hashSetSize h ws = hashSetSize h vs := by
  have hws : ∀ v ∈ ws, v.Proper := fun v hv => hvs v (hperm.subset hv)
  rw [hashSetSize_eq_card hvs, hashSetSize_eq_card hws, List.toFinset_eq_of_perm ws vs hperm]

/-- Hashes without collisions keep apart whatever is not the same. -/
theorem hashSetSize_eq_distinct (htext : Function.Injective h.text)
    (htuple : Function.Injective h.tuple) (hvs : ∀ v ∈ vs, v.Proper) :
    hashSetSize h vs = distinct vs := by
  rw [hashSetSize_eq_card hvs, distinct_eq_card]
  refine Finset.card_image_of_injOn fun a ha b hb hab => ?_
  rw [Finset.mem_coe, List.mem_toFinset] at ha hb
  obtain ⟨hhash, hclass⟩ := Prod.mk.inj hab
  have hequiv := (classIn_eq_iff hvs ha hb).1 hclass
  exact eq_of_hash_eq htext htuple (hvs a ha) hequiv hhash

/-- **What a hash set counts.**  The order in which values are put in makes no difference.  There is at
least one member for each class of equal values, and at most one for each value with its order of keys;
there is one for each class exactly if equal values have one hash.  Hashes without collisions are the
same for equal values only if these have their keys in one order, and then the set holds every value
with every order of its keys. -/
theorem hashSetSize_eq_classCount_iff (h : Hasher α) (hvs : ∀ v ∈ vs, v.Proper) :
    (∀ ws : List Value, ws.Perm vs → hashSetSize h ws = hashSetSize h vs) ∧
      (classCount vs ≤ hashSetSize h vs ∧ hashSetSize h vs ≤ distinct vs) ∧
      (classCount vs = hashSetSize h vs ↔
        ∀ a ∈ vs, ∀ b ∈ vs, a.equiv b = true → a.hash h = b.hash h) ∧
      (Function.Injective h.text → Function.Injective h.tuple →
        hashSetSize h vs = distinct vs ∧
          ∀ a ∈ vs, ∀ b ∈ vs, a.equiv b = true → (a.hash h = b.hash h ↔ a = b)) := by
  refine ⟨fun ws hperm => hashSetSize_perm hvs hperm,
    ⟨classCount_le_hashSetSize hvs, hashSetSize_le_distinct hvs⟩,
    classCount_eq_hashSetSize_iff hvs, fun htext htuple => ?_⟩
  refine ⟨hashSetSize_eq_distinct htext htuple hvs, fun a ha b _ hab => ?_⟩
  constructor
  · exact eq_of_hash_eq htext htuple (hvs a ha) hab
  · rintro rfl
    rfl

end Sizes

/-- Three values that are equal, two of them with one order of keys: one class, and two members. -/
theorem hashSetSize_eq_classCount_iff_lossless :
    let ab : Value := .mapping [(['a'], .scalar ['1']), (['b'], .sequence [.null])]
    let ba : Value := .mapping [(['b'], .sequence [.null]), (['a'], .scalar ['1'])]
    (∀ v ∈ [ab, ba, ab], v.Proper) ∧ classCount [ab, ba, ab] = 1 ∧
      hashSetSize .lossless [ab, ba, ab] = 2 ∧
      (classCount [ab, ba, ab] = hashSetSize .lossless [ab, ba, ab] ↔
        ∀ a ∈ [ab, ba, ab], ∀ b ∈ [ab, ba, ab],
          a.equiv b = true → a.hash .lossless = b.hash .lossless) := by
  intro ab ba
  have hvs : ∀ v ∈ [ab, ba, ab], v.Proper := by simp [ab, ba, Fields.keys]
  obtain ⟨-, -, hiff, hinj⟩ := hashSetSize_eq_classCount_iff .lossless hvs
  have hsize := (hinj (fun _ _ => Value.scalar.inj) (fun _ _ => Value.sequence.inj)).1
  exact ⟨hvs, by decide, hsize.trans (by decide), hiff⟩

/-- Two equal values with their keys in different orders have different hashes, and both stay in a
hash set. -/
theorem hash_ne_of_key_order :
    let ab : Value := .mapping [(['a'], .scalar ['1']), (['b'], .scalar ['2'])]
    let ba : Value := .mapping [(['b'], .scalar ['2']), (['a'], .scalar ['1'])]
    ab.equiv ba = true ∧ ab.hash .lossless ≠ ba.hash .lossless ∧ classCount [ab, ba] = 1 ∧
      hashSetSize .lossless [ab, ba] = 2 ∧ distinct [ab, ba] = 2 := by
  decide

end Value

end Mustache
