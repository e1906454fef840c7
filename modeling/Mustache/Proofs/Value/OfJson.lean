import Mustache.Proofs.Json.Proper
import Mustache.Proofs.Value.Path

/-!
# Lookups in values from JSON

A tree whose objects hold each key once becomes a value member by member: an object gives a mapping with
the same keys in the same order (`Value.ofJson_object`).  So a walk along keys leads from the value to
the value of what the keys lead to in the tree (`Value.walk_ofJson_eq_some_iff`), and ends where they
come to a tree without a member under the next key (`Value.walk_ofJson_eq_none_iff`).
`Value.lookup_ofJson` says this of lookups, and of values that are read from a text.
-/

namespace Mustache

/-! ### Definitions -/

namespace Json

/-- **Keys lead from a tree to another** through objects: each of them is the key of a member, and the
rest leads on from there. -/
inductive Leads : Json → List Text → Json → Prop
  | here (t : Json) : Leads t [] t
  | member {members : List (Text × Json)} {key : Text} {t u : Json} {keys : List Text}
    (hmem : (key, t) ∈ members) (h : Leads t keys u) : Leads (.object members) (key :: keys) u

/-- The tree is an object with a member under the key. -/
def HasMember (key : Text) : Json → Prop
  | .object members => key ∈ Fields.keys members
  | _ => False

end Json

/-- **Lookups in the value are walks in the tree.** -/
structure Value.Reflects (v : Value) (t : Json) : Prop where
  /-- A path finds the value of the tree that its segments lead to. -/
  found : ∀ path w, v.lookup path = some w ↔
    ∃ u, t.Leads (Value.segments path) u ∧ Value.ofJson u = w
  /-- A path finds nothing if its segments lead to a tree without a member under the next one. -/
  absent : ∀ path, v.lookup path = none ↔ ∃ front key back u,
    Value.segments path = front ++ key :: back ∧ t.Leads front u ∧ ¬ u.HasMember key
  /-- An object is reached as a mapping of all its members, each under its own key, in their order. -/
  members : ∀ keys members, t.Leads keys (.object members) →
    v.walk keys = some (.mapping (members.map fun m => (m.1, Value.ofJson m.2)))

/-! ### Trees -/

namespace Json

variable {t u : Json} {key : Text} {keys : List Text} {members : List (Text × Json)}

theorem HasMember.exists_mem (h : t.HasMember key) :
    ∃ members u, t = .object members ∧ (key, u) ∈ members := by
  cases t with
  | scalar _ => exact absurd h id
  | array _ => exact absurd h id
  | object members =>
    obtain ⟨⟨_, u⟩, hmem, rfl⟩ := List.mem_map.1 h
    exact ⟨members, u, rfl, hmem⟩

theorem Proper.of_mem (h : (Json.object members).Proper) (hmem : (key, t) ∈ members) : t.Proper :=
  (proper_object_iff.1 h).2 _ hmem

theorem Proper.of_leads (ht : t.Proper) (h : t.Leads keys u) : u.Proper := by
  induction h with
  | here _ => exact ht
  | member hmem _ ih => exact ih (ht.of_mem hmem)

end Json

/-! ### Fields with each key once -/

namespace Fields

variable {α : Type} {fields : Fields α}

theorem put_of_not_mem {key : Text} (h : key ∉ keys fields) (value : α) :
    put key value fields = fields ++ [(key, value)] := by
  induction fields with
  | nil => rfl
  | cons p fields ih =>
    rw [keys_cons, List.mem_cons, not_or] at h
    rw [put, if_neg (Ne.symm h.1), ih h.2, List.cons_append]

/-- **Pairs with each key once** are the fields that they spell. -/
theorem ofPairs_of_nodup (h : (keys fields).Nodup) : ofPairs fields = fields := by
  induction fields using List.reverseRecOn with
  | nil => rfl
  | append_singleton fields p ih =>
    rw [keys, List.map_append, List.nodup_append] at h
    obtain ⟨hfields, -, hp⟩ := h
    have hnew : p.1 ∉ keys fields := fun hmem => hp _ hmem p.1 (by simp) rfl
    rw [ofPairs, putAll, List.foldl_append]
    show put p.1 p.2 (ofPairs fields) = _
    rw [ih hfields, put_of_not_mem hnew]

theorem lookup_map {β : Type} (f : α → β) (fields : Fields α) (key : Text) :
    (fields.map fun p => (p.1, f p.2)).lookup key = (fields.lookup key).map f := by
  induction fields with
  | nil => rfl
  | cons p fields ih =>
    rw [List.map_cons, List.lookup_cons, List.lookup_cons, ih]
    cases key == p.1 with
    | false => rfl
    | true => rfl

end Fields

namespace Value

variable {t u : Json} {v : Value} {key : Text} {keys : List Text}
  {members : List (Text × Json)}

/-! ### Values of trees -/

theorem ofJsonItems_eq_map (items : List Json) : ofJsonItems items = items.map ofJson := by
  induction items with
  | nil => rfl
  | cons x items ih => rw [ofJsonItems, ih, List.map_cons]

theorem ofJsonMembers_eq_map (members : List (Text × Json)) :
    ofJsonMembers members = members.map fun p => (p.1, ofJson p.2) := by
  induction members with
  | nil => rfl
  | cons p members ih => rw [ofJsonMembers, ih, List.map_cons]

/-- **The value of an object** has its keys in their order, each with the value of its member. -/
theorem ofJson_object (h : (Fields.keys members).Nodup) :
    ofJson (.object members) = mapping (members.map fun m => (m.1, ofJson m.2)) := by
  have hkeys : (Fields.keys (members.map fun m => (m.1, ofJson m.2))).Nodup := by
    rw [Fields.keys, List.map_map]
    exact h
  rw [ofJson, ofJsonMembers_eq_map, ofPairs, Fields.ofPairs_of_nodup hkeys]

/-- A member is found under its key, and a walk goes on in its value. -/
theorem walk_ofJson_of_mem (ht : (Json.object members).Proper) (hmem : (key, t) ∈ members)
    (keys : List Text) :
    (ofJson (.object members)).walk (key :: keys) = (ofJson t).walk keys := by
  cases ht with
  | object hkeys _ =>
    rw [ofJson_object hkeys, walk, Fields.lookup_map, lookup_of_mem hkeys hmem]
    rfl

/-- A tree without a member under the key gives a value in which a walk along the key ends. -/
theorem walk_ofJson_of_not_hasMember (ht : t.Proper) (h : ¬ t.HasMember key) (keys : List Text) :
    (ofJson t).walk (key :: keys) = none := by
  cases ht with
  | scalar x => cases x <;> rfl
  | array _ => rfl
  | @object members hkeys _ =>
    have hnone : members.lookup key = none := lookup_eq_none_iff_not_mem.2 h
    rw [ofJson_object hkeys, walk, Fields.lookup_map, hnone]
    rfl

/-! ### Walks -/

theorem walk_ofJson_of_leads (ht : t.Proper) (h : t.Leads keys u) :
    (ofJson t).walk keys = some (ofJson u) := by
  induction h with
  | here t => exact walk_nil _
  | member hmem _ ih => rw [walk_ofJson_of_mem ht hmem, ih (ht.of_mem hmem)]

/-- **A walk leads or ends**: along the keys to a tree, or along some of them to a tree that has no
member under the next one. -/
theorem leads_or_ends (keys : List Text) (t : Json) : (∃ u, t.Leads keys u) ∨
    ∃ front key back u, keys = front ++ key :: back ∧ t.Leads front u ∧ ¬ u.HasMember key := by
  induction keys generalizing t with
  | nil => exact .inl ⟨t, .here t⟩
  | cons key keys ih =>
    by_cases hkey : t.HasMember key
    · obtain ⟨members, t', rfl, hmem⟩ := hkey.exists_mem
      rcases ih t' with ⟨u, hu⟩ | ⟨front, key', back, u, rfl, hu, hkey'⟩
      · exact .inl ⟨u, .member hmem hu⟩
      · exact .inr ⟨key :: front, key', back, u, rfl, .member hmem hu, hkey'⟩
    · exact .inr ⟨[], key, keys, t, rfl, .here t, hkey⟩

/-- A walk ends in the value of a tree where it ends in the tree. -/
theorem walk_ofJson_of_ends (ht : t.Proper) {front back : List Text} (hu : t.Leads front u)
    (hkey : ¬ u.HasMember key) : (ofJson t).walk (front ++ key :: back) = none := by
  rw [walk_append, walk_ofJson_of_leads ht hu]
  exact walk_ofJson_of_not_hasMember (ht.of_leads hu) hkey back

/-- **A walk in the value of a tree** leads to the values of what its keys lead to in the tree. -/
theorem walk_ofJson_eq_some_iff (ht : t.Proper) :
    (ofJson t).walk keys = some v ↔ ∃ u, t.Leads keys u ∧ ofJson u = v := by
  constructor
  · intro h
    rcases leads_or_ends keys t with ⟨u, hu⟩ | ⟨front, key, back, u, rfl, hu, hkey⟩
    · rw [walk_ofJson_of_leads ht hu, Option.some_inj] at h
      exact ⟨u, hu, h⟩
    · rw [walk_ofJson_of_ends ht hu hkey] at h
      cases h
  · rintro ⟨u, hu, rfl⟩
    exact walk_ofJson_of_leads ht hu

/-- **A walk in the value of a tree** ends where its keys lead out of the tree's objects, or to an
object without the next key. -/
theorem walk_ofJson_eq_none_iff (ht : t.Proper) : (ofJson t).walk keys = none ↔
    ∃ front key back u, keys = front ++ key :: back ∧ t.Leads front u ∧ ¬ u.HasMember key := by
  constructor
  · intro h
    rcases leads_or_ends keys t with ⟨u, hu⟩ | hends
    · rw [walk_ofJson_of_leads ht hu] at h
      cases h
    · exact hends
  · rintro ⟨front, key, back, u, rfl, hu, hkey⟩
    exact walk_ofJson_of_ends ht hu hkey

/-! ### Lookups -/

theorem reflects_ofJson (ht : t.Proper) : (ofJson t).Reflects t where
  found path v := by rw [lookup_eq_walk, walk_ofJson_eq_some_iff ht]
  absent path := by rw [lookup_eq_walk, walk_ofJson_eq_none_iff ht]
  members keys members h := by
    cases ht.of_leads h with
    | object hkeys _ => rw [walk_ofJson_of_leads ht h, ofJson_object hkeys]

/-- **Values from JSON are looked up in their trees**, if these hold each key once in an object, which
is so for all trees that are read from a text. -/
theorem lookup_ofJson : (∀ t : Json, t.Proper → (ofJson t).Reflects t) ∧
    ∀ text standIns v, ofJsonText text standIns = .ok v →
      ∃ t, Json.read text standIns = .ok t ∧ v.Reflects t := by
  refine ⟨fun t => reflects_ofJson, fun text standIns v h => ?_⟩
  obtain ⟨t, hread, rfl⟩ := Outcome.map_eq_ok_iff.1 h
  exact ⟨t, hread, reflects_ofJson (Json.proper_of_read hread)⟩

/-- A key that is written like a line feed in a string, and a null below it. -/
theorem lookup_ofJson_null :
    let t : Json := .object
      [("s".toList, .array [.object []]),
        ("a\\n".toList, .object [("".toList, .scalar (.string "x\\n".toList)),
          ("b".toList, .scalar .null)])]
    t.Proper ∧ t.Leads (segments "a\\n.b".toList) (.scalar .null) ∧
      (ofJson t).lookup "a\\n.b".toList = some null := by
  intro t
  have ht : t.Proper := by simp [t]
  have hsegments : segments "a\\n.b".toList = ["a\\n".toList, "b".toList] := by decide
  have hleads : t.Leads (segments "a\\n.b".toList) (.scalar .null) := by
    rw [hsegments]
    exact .member (.tail _ (.head _)) (.member (.tail _ (.head _)) (.here _))
  exact ⟨ht, hleads, ((lookup_ofJson.1 t ht).found _ null).2 ⟨_, hleads, rfl⟩⟩

end Value

end Mustache
