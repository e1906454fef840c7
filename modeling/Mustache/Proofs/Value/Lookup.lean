import Mathlib.Data.List.Forall2
import Mustache.Proofs.Text.Parts
import Mustache.Value.Lookup

/-!
# What a lookup sees

A lookup reads the keys of its path and nothing else of a value.  `Value.Matches` compares the heads of
two values as far as the keys in `known` go, and leaves what lies below to a relation `R`; if `R` never
relates values that do not match (`Value.Bisimulation`), then lookups of known paths give related
values again (`Value.Bisimulation.lookup`).
-/

namespace Mustache

namespace Value

/-! ### Definitions -/

/-- **Two values match** if they are of one shape, with the same text, with related items, or with related
fields under every known key. -/
inductive Matches (known : Text → Prop) (R : Value → Value → Prop) : Value → Value → Prop
  | null : Matches known R .null .null
  | scalar (text : Text) : Matches known R (.scalar text) (.scalar text)
  | sequence {items items' : List Value} (h : List.Forall₂ R items items') :
    Matches known R (.sequence items) (.sequence items')
  | mapping {fields fields' : List (Text × Value)}
    (h : ∀ key, known key → Option.Rel R (fields.lookup key) (fields'.lookup key)) :
    Matches known R (.mapping fields) (.mapping fields')

/-- Related values match. -/
def Bisimulation (known : Text → Prop) (R : Value → Value → Prop) : Prop :=
  ∀ ⦃a b⦄, R a b → Matches known R a b

variable {known : Text → Prop} {R : Value → Value → Prop} {a b v : Value} {key path text : Text}
  {fields : List (Text × Value)}

/-! ### Options in a relation -/

theorem isSome_eq_of_rel {α β : Type} {P : α → β → Prop} {x : Option α} {y : Option β}
    (h : Option.Rel P x y) : x.isSome = y.isSome := by
  cases h with
  | none => rfl
  | some _ => rfl

theorem rel_of_rel_map {α β γ δ : Type} {P : γ → δ → Prop} {f : α → γ} {g : β → δ}
    {x : Option α} {y : Option β} (h : Option.Rel P (x.map f) (y.map g)) :
    Option.Rel (fun a b => P (f a) (g b)) x y := by
  cases x with
  | none =>
    cases y with
    | none => exact .none
    | some b => cases h
  | some a =>
    cases y with
    | none => cases h
    | some b =>
      cases h with
      | some hab => exact .some hab

/-- Two searches in step find related results. -/
theorem rel_findSome? {α β γ δ : Type} {P : γ → δ → Prop} {f : α → Option γ} {g : β → Option δ}
    {l : List α} {l' : List β} (h : List.Forall₂ (fun a b => Option.Rel P (f a) (g b)) l l') :
    Option.Rel P (l.findSome? f) (l'.findSome? g) := by
  induction h with
  | nil => exact .none
  | @cons a b _ _ hab _ ih =>
    rw [List.findSome?_cons, List.findSome?_cons]
    generalize f a = x at hab
    generalize g b = y at hab
    cases hab with
    | none => exact ih
    | some hcd => exact .some hcd

theorem any_isSome_eq_of_rel {α β γ δ : Type} {P : γ → δ → Prop} {f : α → Option γ}
    {g : β → Option δ} {l : List α} {l' : List β}
    (h : List.Forall₂ (fun a b => Option.Rel P (f a) (g b)) l l') :
    (l.any fun a => (f a).isSome) = l'.any fun b => (g b).isSome := by
  induction h with
  | nil => rfl
  | cons hab _ ih => rw [List.any_cons, List.any_cons, ih, isSome_eq_of_rel hab]

/-! ### Keys -/

theorem lookup_of_mem {α : Type} {fields : Fields α} {v : α} (hkeys : (Fields.keys fields).Nodup)
    (h : (key, v) ∈ fields) : fields.lookup key = some v := by
  induction fields with
  | nil => cases h
  | cons q fields ih =>
    rw [Fields.keys_cons, List.nodup_cons] at hkeys
    rcases List.mem_cons.1 h with rfl | h
    · exact List.lookup_cons_self
    · have hne : (key == q.1) = false := by
        rw [beq_eq_false_iff_ne]
        rintro rfl
        exact hkeys.1 (List.mem_map.2 ⟨_, h, rfl⟩)
      rw [List.lookup_cons, hne]
      exact ih hkeys.2 h

/-- Fields that hold each key once are found wherever they stand. -/
theorem lookup_eq_some_iff_mem {α : Type} {fields : Fields α} {v : α}
    (hkeys : (Fields.keys fields).Nodup) : fields.lookup key = some v ↔ (key, v) ∈ fields :=
  ⟨mem_of_lookup_eq_some, lookup_of_mem hkeys⟩

/-- The keys of a path are parts of it. -/
theorem infix_of_mem_pathKeys (h : key ∈ pathKeys path) : key <:+: path :=
  (Text.infix_of_mem_splitOn h).trans (Text.strip_isInfix path)

/-- A path without dots is one key. -/
theorem pathKeys_of_not_mem (h : '.' ∉ path) : pathKeys path = [Text.strip path] :=
  List.splitOn_eq_singleton fun hmem => h ((Text.strip_isInfix path).subset hmem)

/-- A path without dots, and without blanks around it, is looked up as a key. -/
theorem lookup_mapping_of_key (hstrip : Text.strip path = path) (hdot : '.' ∉ path)
    (fields : List (Text × Value)) : (mapping fields).lookup path = fields.lookup path := by
  have hne : path ≠ ['.'] := by
    rintro rfl
    exact hdot List.mem_cons_self
  have hkeys : pathKeys path = [path] := by rw [pathKeys_of_not_mem hdot, hstrip]
  rw [lookup, if_neg hne, hkeys]
  unfold walk
  cases fields.lookup path with
  | none => rfl
  | some v => exact walk_nil v

/-- A path with a dot leads to no text in a mapping that holds nothing but texts. -/
theorem text?_lookup_of_dot
    (hfields : ∀ key v, fields.lookup key = some v → ∃ s, v = .scalar s)
    (hdot : '.' ∈ Text.strip path) : ((mapping fields).lookup path).bind text? = none := by
  unfold lookup
  by_cases hpath : path = ['.']
  · rw [if_pos hpath]
    rfl
  · rw [if_neg hpath]
    have hjoin : ['.'].intercalate (pathKeys path) = Text.strip path :=
      List.intercalate_splitOn _
    cases hkeys : pathKeys path with
    | nil => exact absurd hkeys (List.splitOn_ne_nil _ _)
    | cons key rest =>
      cases rest with
      | nil =>
        -- There are at least two keys: a single one would be the path, and hold its dot.
        have hmem : key ∈ (Text.strip path).splitOnP (· == '.') := by
          show key ∈ pathKeys path
          rw [hkeys]
          exact List.mem_cons_self
        have hkey : key = Text.strip path := by simpa [hkeys] using hjoin
        exact absurd (Text.eq_false_of_mem_splitOnP hmem '.' (hkey ▸ hdot)) (by decide)
      | cons key' rest =>
        rw [walk]
        cases hv : fields.lookup key with
        | none => rfl
        | some v =>
          obtain ⟨s, rfl⟩ := hfields key v hv
          rfl

/-- Mappings with the same fields under all keys have the same text at a path. -/
theorem text?_lookup_congr {fields' : List (Text × Value)}
    (h : ∀ key, fields.lookup key = fields'.lookup key) (path : Text) :
    ((mapping fields).lookup path).bind text? = ((mapping fields').lookup path).bind text? := by
  unfold lookup
  split
  · rfl
  · cases pathKeys path with
    | nil => rfl
    | cons key rest => rw [walk, walk, h key]

/-- In a mapping of texts a path finds the text under itself: the dots in it lead nowhere. -/
theorem mem_of_lookup_texts (hfields : ∀ p ∈ fields, ∃ s, p.2 = .scalar s)
    (h : ((mapping fields).lookup path).bind text? = some text) :
    (Text.strip path, .scalar text) ∈ fields := by
  unfold lookup at h
  split at h
  · cases h
  · have hjoin : ['.'].intercalate (pathKeys path) = Text.strip path :=
      List.intercalate_splitOn _
    cases hkeys : pathKeys path with
    | nil => exact absurd hkeys (List.splitOn_ne_nil _ _)
    | cons key rest =>
      rw [hkeys, walk] at h
      rw [hkeys] at hjoin
      cases hv : fields.lookup key with
      | none => simp [hv] at h
      | some v =>
        have hmem := mem_of_lookup_eq_some hv
        obtain ⟨s, rfl⟩ := hfields _ hmem
        cases rest with
        | nil =>
          obtain rfl : s = text := by simpa [hv, text?] using h
          rw [← hjoin, List.intercalate_singleton]
          exact hmem
        | cons key' rest => simp [hv, walk] at h

/-! ### Related values -/

namespace Bisimulation

theorem text?_eq (hR : Bisimulation known R) (h : R a b) : a.text? = b.text? := by
  cases hR h with
  | null => rfl
  | scalar text => rfl
  | sequence _ => rfl
  | mapping _ => rfl

theorem walk (hR : Bisimulation known R) {keys : List Text} (hkeys : ∀ key ∈ keys, known key)
    (h : R a b) : Option.Rel R (a.walk keys) (b.walk keys) := by
  induction keys generalizing a b with
  | nil =>
    rw [walk_nil, walk_nil]
    exact .some h
  | cons key rest ih =>
    have hrest := fun k hk => hkeys k (List.mem_cons_of_mem key hk)
    cases hR h with
    | null => exact .none
    | scalar text => exact .none
    | sequence _ => exact .none
    | @mapping fields fields' hfields =>
      have hkey := hfields key (hkeys key List.mem_cons_self)
      simp only [Value.walk]
      generalize fields.lookup key = x at hkey
      generalize fields'.lookup key = y at hkey
      cases hkey with
      | none => exact .none
      | some hvw => exact ih hrest hvw

/-- **A known path** leads to related values. -/
theorem lookup (hR : Bisimulation known R) (hpath : ∀ key ∈ pathKeys path, known key) (h : R a b) :
    Option.Rel R (a.lookup path) (b.lookup path) := by
  unfold Value.lookup
  split
  · exact .some h
  · exact hR.walk hpath h

end Bisimulation

end Value

end Mustache
