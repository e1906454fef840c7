import Mustache.Proofs.Json.Reader
import Mustache.Proofs.Text.Backslash
import Mustache.Proofs.Value.OfJson

/-!
# Reading what was printed

A value written on one line is JSON as long as its texts and keys hold nothing that a string would
have to escape (`Value.Plain`).  From any place where a value is owed the reader goes over such a line
and comes back with the tree of the value (`Value.readsBack`), and from that tree the value itself is
made again, its keys in their order (`Value.ofJsonText_pretty`).
-/

namespace Mustache

open Json

/-! ### Definitions -/

namespace Value

/-- All texts and keys in the value are plain. -/
inductive Plain : Value → Prop
  | null : Plain .null
  | scalar {text : Text} (h : text.Plain) : Plain (.scalar text)
  | sequence {items : List Value} (h : ∀ v ∈ items, Plain v) : Plain (.sequence items)
  | mapping {fields : List (Text × Value)} (hkeys : ∀ p ∈ fields, Text.Plain p.1)
    (h : ∀ p ∈ fields, Plain p.2) : Plain (.mapping fields)

mutual

/-- The JSON tree of a value. -/
def toJson : Value → Json
  | null => .scalar .null
  | scalar text => .scalar (.string text)
  | sequence items => .array (toJsonItems items)
  | mapping fields => .object (toJsonFields fields)

/-- The JSON trees of the items of a sequence. -/
def toJsonItems : List Value → List Json
  | [] => []
  | v :: rest => toJson v :: toJsonItems rest

/-- The JSON trees of the fields of a mapping, under the same keys. -/
def toJsonFields : List (Text × Value) → List (Text × Json)
  | [] => []
  | (key, v) :: rest => (key, toJson v) :: toJsonFields rest

end

/-- From any place where a value is owed, the reader goes over the printed value to the place behind
it, with the value's tree in hand. -/
def ReadsBack (v : Value) (standIns : StandIns) : Prop :=
  ∀ (frames : List Json.Frame) (rest : Text),
    readValue standIns frames (v.pretty ++ rest) = resume standIns frames v.toJson rest

end Value

namespace Value

variable {standIns : StandIns} {v : Value} {s key : Text} {items : List Value}
  {fields : List (Text × Value)}

/-! ### Plain values -/

@[simp] theorem plain_sequence_iff : (sequence items).Plain ↔ ∀ v ∈ items, v.Plain := by
  constructor
  · intro h
    cases h with
    | sequence h => exact h
  · exact .sequence

@[simp] theorem plain_mapping_iff : (mapping fields).Plain ↔
    (∀ p ∈ fields, Text.Plain p.1) ∧ ∀ p ∈ fields, p.2.Plain := by
  constructor
  · intro h
    cases h with
    | mapping hkeys h => exact ⟨hkeys, h⟩
  · rintro ⟨hkeys, h⟩
    exact .mapping hkeys h

@[simp] theorem plain_scalar_iff : (scalar s).Plain ↔ s.Plain := by
  constructor
  · intro h
    cases h with
    | scalar h => exact h
  · exact .scalar

attribute [simp] Plain.null

/-- No escape that the values of JSON data may hold is in a plain text. -/
theorem unescape_of_plain (h : s.Plain) : Text.unescape s = s := by
  rw [Text.unescape_eq_decode, Text.decode_eq_self_iff Text.lasting_controls]
  intro row _ hpair
  exact (h '\\' (hpair.subset List.mem_cons_self)).2.1 rfl

/-! ### Printed values -/

theorem toJsonItems_eq_map (items : List Value) : toJsonItems items = items.map toJson := by
  induction items with
  | nil => rfl
  | cons v items ih => rw [toJsonItems, ih, List.map_cons]

theorem toJsonFields_eq_map (fields : List (Text × Value)) :
    toJsonFields fields = fields.map fun p => (p.1, p.2.toJson) := by
  induction fields with
  | nil => rfl
  | cons p fields ih => rw [toJsonFields, ih, List.map_cons]

theorem prettyItems_eq_map (items : List Value) : prettyItems items = items.map pretty := by
  induction items with
  | nil => rfl
  | cons v items ih => rw [prettyItems, ih, List.map_cons]

theorem prettyFields_eq_map (fields : List (Text × Value)) : prettyFields fields =
    fields.map fun p => quote p.1 ++ (": ".toList ++ p.2.pretty) := by
  induction fields with
  | nil => rfl
  | cons p fields ih => rw [prettyFields, ih, List.map_cons, List.append_assoc]

theorem intercalate_cons (sep l : Text) (ls : List Text) :
    sep.intercalate (l :: ls) = l ++ ls.flatMap (sep ++ ·) := by
  induction ls generalizing l with
  | nil => simp
  | cons l' ls ih =>
    rw [List.intercalate_cons_cons, ih, List.flatMap_cons, List.append_assoc, List.append_assoc]

/-- A printed value starts with what starts no gap, no end of an array and no byte order mark. -/
theorem exists_pretty_eq_cons (v : Value) :
    ∃ c s, v.pretty = c :: s ∧ isGap c = false ∧ c ≠ ']' ∧ c ≠ '\ufeff' := by
  cases v with
  | null => exact ⟨_, _, rfl, rfl, by decide⟩
  | scalar text => exact ⟨_, _, rfl, rfl, by decide⟩
  | sequence items => exact ⟨_, _, rfl, rfl, by decide⟩
  | mapping fields => exact ⟨_, _, rfl, rfl, by decide⟩

/-- Behind an item of an array the reader goes over the items that are left. -/
theorem resume_items (h : ∀ v ∈ items, v.ReadsBack standIns) (done : List Json) (x : Json)
    (frames : List Json.Frame) (rest : Text) :
    resume standIns (.array done :: frames) x
        (items.flatMap (fun v => ", ".toList ++ v.pretty) ++ ']' :: rest) =
      resume standIns frames (.array (done.reverse ++ x :: items.map toJson)) rest := by
  induction items generalizing done x with
  | nil => exact resume_array_close done frames x rest
  | cons v items ih =>
    obtain ⟨c, s, hv, hgap, -⟩ := exists_pretty_eq_cons v
    have hitems := ih (fun w hw => h w (List.mem_cons_of_mem v hw)) (x :: done) v.toJson
    rw [List.flatMap_cons, List.append_assoc, List.append_assoc, hv, List.cons_append,
      resume_array_comma hgap, ← List.cons_append, ← hv, h v List.mem_cons_self, hitems,
      List.reverse_cons, List.append_assoc, List.singleton_append, List.map_cons]

/-- Where a member is owed the reader goes over a field with a plain key. -/
theorem readMember_field (hkey : key.Plain) (hv : v.ReadsBack standIns) (frames : List Json.Frame)
    (members : List (Text × Json)) (rest : Text) :
    readMember standIns frames members (quote key ++ (": ".toList ++ (v.pretty ++ rest))) =
      resume standIns (.object members key :: frames) v.toJson rest := by
  obtain ⟨c, s, hpretty, hgap, -⟩ := exists_pretty_eq_cons v
  rw [hpretty, List.cons_append, readMember_quote hkey hgap, ← List.cons_append, ← hpretty]
  exact hv _ rest

/-- Behind a member of an object the reader goes over the fields that are left. -/
theorem resume_fields (hkeys : ∀ p ∈ fields, Text.Plain p.1)
    (h : ∀ p ∈ fields, p.2.ReadsBack standIns)
    (members : List (Text × Json)) (key : Text) (x : Json) (frames : List Json.Frame) (rest : Text) :
    resume standIns (.object members key :: frames) x
        (fields.flatMap (fun p => ", ".toList ++ (quote p.1 ++ (": ".toList ++ p.2.pretty))) ++
          '}' :: rest) =
      resume standIns frames (.object (Fields.ofPairs (members.reverse ++
        (key, x) :: fields.map fun p => (p.1, p.2.toJson)))) rest := by
  induction fields generalizing members key x with
  | nil => exact resume_object_close members key frames x rest
  | cons p fields ih =>
    have hfields := ih (fun q hq => hkeys q (List.mem_cons_of_mem p hq))
      (fun q hq => h q (List.mem_cons_of_mem p hq)) ((key, x) :: members) p.1 p.2.toJson
    rw [List.flatMap_cons]
    simp only [List.append_assoc] at hfields ⊢
    rw [resume_object_comma, readMember_field (hkeys p List.mem_cons_self) (h p List.mem_cons_self),
      hfields, List.reverse_cons, List.append_assoc, List.singleton_append, List.map_cons]

/-- The keys of a mapping are the keys of its tree. -/
theorem ofPairs_toJson (h : (Fields.keys fields).Nodup) :
    Fields.ofPairs (fields.map fun p => (p.1, p.2.toJson)) =
      fields.map fun p => (p.1, p.2.toJson) := by
  refine Fields.ofPairs_of_nodup ?_
  rw [Fields.keys, List.map_map]
  exact h

/-- **The reader goes over a printed value** and has the value's tree in hand. -/
theorem readsBack (hv : v.Proper) (hp : v.Plain) : v.ReadsBack standIns := by
  induction hv with
  | null => exact readValue_null
  | scalar text => exact readValue_quote (plain_scalar_iff.1 hp)
  | @sequence items _ ih =>
    intro frames rest
    have hreads : ∀ w ∈ items, w.ReadsBack standIns := fun w hw =>
      ih w hw (plain_sequence_iff.1 hp w hw)
    cases items with
    | nil => exact readValue_array_nil frames rest
    | cons v items =>
      obtain ⟨c, s, hpretty, hgap, hc, -⟩ := exists_pretty_eq_cons v
      have hitems := resume_items (fun w hw => hreads w (List.mem_cons_of_mem v hw)) [] v.toJson
        frames rest
      have htext : (sequence (v :: items)).pretty ++ rest =
          '[' :: (v.pretty ++ (items.flatMap (fun w => ", ".toList ++ w.pretty) ++ ']' :: rest)) := by
        simp [pretty, prettyItems_eq_map, intercalate_cons, List.flatMap_map]
      rw [htext, hpretty, List.cons_append, readValue_array_cons hgap hc, ← List.cons_append,
        ← hpretty, hreads v List.mem_cons_self, hitems, toJson, toJsonItems_eq_map]
      rfl
  | @mapping fields hkeys _ ih =>
    intro frames rest
    obtain ⟨hplain, hvalues⟩ := plain_mapping_iff.1 hp
    have hreads : ∀ q ∈ fields, q.2.ReadsBack standIns := fun q hq => ih q hq (hvalues q hq)
    cases fields with
    | nil => exact readValue_object_nil frames rest
    | cons p fields =>
      have hfields := resume_fields (fun q hq => hplain q (List.mem_cons_of_mem p hq))
        (fun q hq => hreads q (List.mem_cons_of_mem p hq)) [] p.1 p.2.toJson frames rest
      have htext : (mapping (p :: fields)).pretty ++ rest =
          '{' :: (quote p.1 ++ (": ".toList ++ (p.2.pretty ++
            (fields.flatMap (fun q => ", ".toList ++ (quote q.1 ++
              (": ".toList ++ q.2.pretty))) ++ '}' :: rest)))) := by
        simp [pretty, prettyFields_eq_map, intercalate_cons, List.flatMap_map]
      have hmembers := ofPairs_toJson hkeys
      rw [List.map_cons] at hmembers
      rw [htext, readValue_object_cons, readMember_field (hplain p List.mem_cons_self)
        (hreads p List.mem_cons_self), hfields, List.reverse_nil, List.nil_append, hmembers,
        toJson, toJsonFields_eq_map, List.map_cons]

/-! ### Values from their trees -/

/-- **The tree of a plain value** is turned into the value again. -/
theorem ofJson_toJson (hv : v.Proper) (hp : v.Plain) : ofJson v.toJson = v := by
  induction hv with
  | null => rfl
  | scalar text => rw [toJson, ofJson, unescape_of_plain (plain_scalar_iff.1 hp)]
  | @sequence items _ ih =>
    have hitems : ∀ w ∈ items, (ofJson ∘ toJson) w = id w := fun w hw =>
      ih w hw (plain_sequence_iff.1 hp w hw)
    rw [toJson, ofJson, toJsonItems_eq_map, ofJsonItems_eq_map, List.map_map,
      List.map_congr_left hitems, List.map_id]
  | @mapping fields hkeys _ ih =>
    have hfields : ∀ p ∈ fields, ((fun q : Text × Json => (q.1, ofJson q.2)) ∘
        fun q => (q.1, q.2.toJson)) p = id p := fun p hmem =>
      congrArg (Prod.mk p.1) (ih p hmem ((plain_mapping_iff.1 hp).2 p hmem))
    rw [toJson, ofJson, toJsonFields_eq_map, ofJsonMembers_eq_map, List.map_map,
      List.map_congr_left hfields, List.map_id, ofPairs, Fields.ofPairs_of_nodup hkeys]

/-! ### The whole -/

/-- A printed value is read as a whole. -/
theorem read_pretty (hv : v.Proper) (hp : v.Plain) :
    Json.read v.pretty standIns = .ok v.toJson := by
  obtain ⟨c, s, hpretty, hgap, -, hmark⟩ := exists_pretty_eq_cons v
  have hread : readValue standIns [] v.pretty = .ok (v.toJson, []) := by
    have hback : v.ReadsBack standIns := readsBack hv hp
    have h := hback [] []
    rw [List.append_nil] at h
    rw [h, resume]
  have hskip : skipGap v.pretty = v.pretty := by rw [hpretty, skipGap_cons hgap]
  rw [Json.read, if_neg (by simpa [hpretty] using hmark), hskip, hread]
  rfl

/-- **Printing and reading** give a value back, with its keys in their order, if each key stands once
in a mapping and nothing in its texts and keys has to be escaped.  So two such values that are printed
alike are the same. -/
theorem ofJsonText_pretty (hv : v.Proper) (hp : v.Plain) :
    (∀ standIns, ofJsonText v.pretty standIns = .ok v) ∧
      ∀ w : Value, w.Proper → w.Plain → w.pretty = v.pretty → w = v := by
  have hback : ∀ (w : Value) standIns, w.Proper → w.Plain →
      ofJsonText w.pretty standIns = .ok w := by
    intro w standIns hw hw'
    rw [ofJsonText, read_pretty hw hw']
    exact congrArg Except.ok (ofJson_toJson hw hw')
  refine ⟨fun standIns => hback v standIns hv hp, fun w hw hw' h => ?_⟩
  have hsame : (.ok w : Except Fault Value) = .ok v := by
    rw [← hback w .none hw hw', h, hback v .none hv hp]
  exact Except.ok.inj hsame

/-- Nested collections, empty ones among them, a text that is no constant, keys that are not in order,
and a key that looks like the reader's own signs. -/
theorem ofJsonText_pretty_nested :
    let v : Value := .mapping
      [("b".toList, .sequence [.null, .scalar "null".toList, .sequence [], .mapping []]),
        ("a, ]: \x7b".toList, .mapping [([], .scalar "é".toList)])]
    v.Proper ∧ v.Plain ∧ (∀ standIns, ofJsonText v.pretty standIns = .ok v) ∧
      ∀ w : Value, w.Proper → w.Plain → w.pretty = v.pretty → w = v := by
  intro v
  have hv : v.Proper := by simp [v]
  have hp : v.Plain := by simp [v, Text.Plain]
  exact ⟨hv, hp, ofJsonText_pretty hv hp⟩

end Value

end Mustache
