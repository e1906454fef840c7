import Mustache.Json.Reader
import Mustache.Proofs.Outcome
import Mustache.Proofs.Value.Equality

/-!
# Trees that are read hold each key once

The reader goes from place to place, with the arrays and objects around it in its frames, until it
stands behind a value with nothing open around it (`ends_or_advances`).  A step puts together trees from
trees that it has read before (`Step`), and an object from fields that hold each key once.  So no key
stands twice in an object of a tree that is read (`proper_of_read`), however often the text names it.
-/

namespace Mustache

namespace Json

/-! ### Definitions -/

/-- **No key stands twice** in an object, at any depth. -/
inductive Proper : Json → Prop
  | scalar (x : Scalar) : Proper (.scalar x)
  | array {items : List Json} (h : ∀ t ∈ items, Proper t) : Proper (.array items)
  | object {members : List (Text × Json)} (hkeys : (Fields.keys members).Nodup)
    (h : ∀ m ∈ members, Proper m.2) : Proper (.object members)

/-- Where the reader stands. -/
inductive Place where
  /-- Where a value is owed. -/
  | value
  /-- Where a member is owed, behind the members before it, the last one first. -/
  | member (members : List (Text × Json))
  /-- Behind a value. -/
  | behind (t : Json)

/-- What the reader makes of the text behind a place. -/
def Place.read (standIns : StandIns) (frames : List Frame) :
    Place → Text → Except Fault (Json × Text)
  | value, s => readValue standIns frames s
  | member members, s => readMember standIns frames members s
  | behind t, s => resume standIns frames t s

/-- **One step of the reader**: what is open around it and where it stands, before and after. -/
inductive Step : List Frame → Place → List Frame → Place → Prop
  | scalar (frames : List Frame) (x : Scalar) : Step frames .value frames (.behind (.scalar x))
  | emptyArray (frames : List Frame) : Step frames .value frames (.behind (.array []))
  | openArray (frames : List Frame) : Step frames .value (.array [] :: frames) .value
  | item (frames : List Frame) (items : List Json) (t : Json) :
    Step (.array items :: frames) (.behind t) (.array (t :: items) :: frames) .value
  | closeArray (frames : List Frame) (items : List Json) (t : Json) :
    Step (.array items :: frames) (.behind t) frames (.behind (.array (t :: items).reverse))
  | emptyObject (frames : List Frame) : Step frames .value frames (.behind (.object []))
  | openObject (frames : List Frame) : Step frames .value frames (.member [])
  | key (frames : List Frame) (members : List (Text × Json)) (key : Text) :
    Step frames (.member members) (.object members key :: frames) .value
  | member (frames : List Frame) (members : List (Text × Json)) (key : Text) (t : Json) :
    Step (.object members key :: frames) (.behind t) frames (.member ((key, t) :: members))
  | closeObject (frames : List Frame) (members : List (Text × Json)) (key : Text) (t : Json) :
    Step (.object members key :: frames) (.behind t) frames
      (.behind (.object (Fields.ofPairs ((key, t) :: members).reverse)))

/-- A step leads from the place to another one, with less of the text left and the same result. -/
def Advances (standIns : StandIns) (frames : List Frame) (p : Place) (s : Text)
    (result : Json × Text) : Prop :=
  ∃ frames' p' s', Step frames p frames' p' ∧ s'.length < s.length ∧
    p'.read standIns frames' s' = .ok result

/-- The trees that an open array or object holds so far are proper. -/
def Frame.Proper : Frame → Prop
  | array items => ∀ t ∈ items, t.Proper
  | object members _ => ∀ m ∈ members, m.2.Proper

/-- The trees that the reader has in hand are proper. -/
def Place.Proper : Place → Prop
  | value => True
  | member members => ∀ m ∈ members, m.2.Proper
  | behind t => t.Proper

variable {standIns : StandIns} {frames frames' : List Frame} {p p' : Place}
  {s rest text : Text} {t u : Json} {items : List Json} {members : List (Text × Json)}

/-! ### Proper trees -/

@[simp] theorem proper_array_iff : (array items).Proper ↔ ∀ t ∈ items, t.Proper := by
  constructor
  · intro h
    cases h with
    | array h => exact h
  · exact .array

@[simp] theorem proper_object_iff : (object members).Proper ↔
    (Fields.keys members).Nodup ∧ ∀ m ∈ members, m.2.Proper := by
  constructor
  · intro h
    cases h with
    | object hkeys h => exact ⟨hkeys, h⟩
  · rintro ⟨hkeys, h⟩
    exact .object hkeys h

attribute [simp] Proper.scalar

/-! ### Steps -/

theorem advances_value (h : readValue standIns frames s = .ok (t, rest)) :
    Advances standIns frames .value s (t, rest) := by
  rw [readValue.eq_def] at h
  split at h
  · split at h
    · cases h
    · next cs s' hs =>
      exact ⟨_, _, s', .scalar frames _, Nat.lt_succ_of_lt (length_readString_lt hs), h⟩
  · split at h
    · next s' hs =>
      exact ⟨_, _, s', .emptyObject frames, Nat.lt_succ_of_lt (length_of_skipGap_cons hs), h⟩
    · exact ⟨_, _, _, .openObject frames, Nat.lt_succ_of_le (length_skipGap_le _), h⟩
  · split at h
    · next s' hs =>
      exact ⟨_, _, s', .emptyArray frames, Nat.lt_succ_of_lt (length_of_skipGap_cons hs), h⟩
    · exact ⟨_, _, _, .openArray frames, Nat.lt_succ_of_le (length_skipGap_le _), h⟩
  · split at h
    · cases h
    · cases h
    · next x s' hs => exact ⟨_, _, s', .scalar frames x, length_readScalar_lt hs, h⟩

theorem advances_member (h : readMember standIns frames members s = .ok (t, rest)) :
    Advances standIns frames (.member members) s (t, rest) := by
  rw [readMember.eq_def] at h
  split at h
  · split at h
    · cases h
    · next key s' hs =>
      have hkey := length_readString_lt hs
      split at h
      · next s'' hs' =>
        have hcolon := length_of_skipGap_cons hs'
        have hgap := length_skipGap_le s''
        refine ⟨_, _, _, .key frames members key, ?_, h⟩
        rw [List.length_cons]
        omega
      · cases h
  · cases h

theorem advances_behind {frame : Frame}
    (h : resume standIns (frame :: frames) u s = .ok (t, rest)) :
    Advances standIns (frame :: frames) (.behind u) s (t, rest) := by
  cases frame with
  | array items =>
    rw [resume] at h
    split at h
    · next s' hs => exact ⟨_, _, s', .closeArray frames items u, length_of_skipGap_cons hs, h⟩
    · next s' hs =>
      have hgap := length_skipGap_le s'
      exact ⟨_, _, _, .item frames items u, hgap.trans_lt (length_of_skipGap_cons hs), h⟩
    · cases h
  | object members key =>
    rw [resume] at h
    split at h
    · next s' hs => exact ⟨_, _, s', .closeObject frames members key u, length_of_skipGap_cons hs, h⟩
    · next s' hs =>
      have hgap := length_skipGap_le s'
      exact ⟨_, _, _, .member frames members key u, hgap.trans_lt (length_of_skipGap_cons hs), h⟩
    · cases h

/-- **The reader has come to its end**, or makes a step and goes on with less of the text. -/
theorem ends_or_advances (h : p.read standIns frames s = .ok (t, rest)) :
    (frames = [] ∧ p = .behind t) ∨ Advances standIns frames p s (t, rest) := by
  cases p with
  | value => exact .inr (advances_value h)
  | member members => exact .inr (advances_member h)
  | behind u =>
    cases frames with
    | nil =>
      rw [Place.read, resume] at h
      cases h
      exact .inl ⟨rfl, rfl⟩
    | cons frame frames => exact .inr (advances_behind h)

/-- **A step makes proper trees** of proper trees. -/
theorem Step.proper (h : Step frames p frames' p') (hframes : ∀ f ∈ frames, f.Proper)
    (hp : p.Proper) : (∀ f ∈ frames', f.Proper) ∧ p'.Proper := by
  cases h with
  | scalar _ x => exact ⟨hframes, .scalar x⟩
  | emptyArray => exact ⟨hframes, .array fun _ h => absurd h List.not_mem_nil⟩
  | openArray =>
    exact ⟨List.forall_mem_cons.2 ⟨fun _ h => absurd h List.not_mem_nil, hframes⟩, trivial⟩
  | item _ items t =>
    obtain ⟨hitems, hrest⟩ := List.forall_mem_cons.1 hframes
    exact ⟨List.forall_mem_cons.2 ⟨List.forall_mem_cons.2 ⟨hp, hitems⟩, hrest⟩, trivial⟩
  | closeArray _ items t =>
    obtain ⟨hitems, hrest⟩ := List.forall_mem_cons.1 hframes
    have hall : ∀ u ∈ t :: items, u.Proper := List.forall_mem_cons.2 ⟨hp, hitems⟩
    exact ⟨hrest, .array fun u hu => hall u (List.mem_reverse.1 hu)⟩
  | emptyObject => exact ⟨hframes, .object List.nodup_nil fun _ h => absurd h List.not_mem_nil⟩
  | openObject => exact ⟨hframes, fun _ h => absurd h List.not_mem_nil⟩
  | key _ members key => exact ⟨List.forall_mem_cons.2 ⟨hp, hframes⟩, trivial⟩
  | member _ members key t =>
    obtain ⟨hmembers, hrest⟩ := List.forall_mem_cons.1 hframes
    have ht : t.Proper := hp
    exact ⟨hrest, List.forall_mem_cons.2 ⟨ht, hmembers⟩⟩
  | closeObject _ members key t =>
    obtain ⟨hmembers, hrest⟩ := List.forall_mem_cons.1 hframes
    have ht : t.Proper := hp
    have hall : ∀ m ∈ (key, t) :: members, m.2.Proper := List.forall_mem_cons.2 ⟨ht, hmembers⟩
    exact ⟨hrest, .object (Fields.nodup_keys_ofPairs _)
      (Value.forall_mem_ofPairs fun m hm => hall m (List.mem_reverse.1 hm))⟩

/-! ### Runs -/

/-- From any place the reader comes back with a proper tree, if those that it has in hand are. -/
theorem proper_of_place (hframes : ∀ f ∈ frames, f.Proper) (hp : p.Proper)
    (h : p.read standIns frames s = .ok (t, rest)) : t.Proper := by
  induction hn : s.length using Nat.strong_induction_on generalizing frames p s with
  | _ n ih =>
    rcases ends_or_advances h with ⟨-, rfl⟩ | ⟨frames', p', s', hstep, hlt, h'⟩
    · exact hp
    · obtain ⟨hframes', hp'⟩ := hstep.proper hframes hp
      exact ih s'.length (hn ▸ hlt) hframes' hp' h' rfl

/-- **A tree that is read** holds each key of an object once. -/
theorem proper_of_read (h : Json.read text standIns = .ok t) : t.Proper := by
  rw [Json.read] at h
  split at h
  · cases h
  · obtain ⟨⟨u, rest⟩, hvalue, h⟩ := Outcome.bind_eq_ok_iff.1 h
    have hu : u.Proper :=
      proper_of_place (p := .value) (fun _ hf => absurd hf List.not_mem_nil) trivial hvalue
    simp only at h
    split at h
    · cases h
      exact hu
    · cases h

end Json

end Mustache
