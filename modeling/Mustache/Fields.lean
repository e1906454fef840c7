import Mustache.Text.Basic

/-!
# Fields

Key-value pairs in the order in which their keys first arrived.  Putting a pair under a key that is
present replaces the value in place; a new key goes to the end.
-/

namespace Mustache

/-- What a lookup in a table finds stands in a row of it. -/
theorem mem_of_lookup_eq_some {κ α : Type} [BEq κ] [LawfulBEq κ] {table : List (κ × α)} {key : κ}
    {value : α} (h : table.lookup key = some value) : (key, value) ∈ table := by
  obtain ⟨front, back, rfl, -⟩ := List.lookup_eq_some_iff.1 h
  exact List.mem_append_right front List.mem_cons_self

/-- Pairs of a key and a value, in order. -/
abbrev Fields (α : Type) := List (Text × α)

namespace Fields

variable {α : Type}

/-- The fields after writing `value` under `key`. -/
def put (key : Text) (value : α) : Fields α → Fields α
  | [] => [(key, value)]
  | (k, v) :: rest => if k = key then (k, value) :: rest else (k, v) :: put key value rest

/-- The fields after writing all of `pairs`, from first to last. -/
def putAll (fields : Fields α) (pairs : List (Text × α)) : Fields α :=
  pairs.foldl (fun acc pair => put pair.1 pair.2 acc) fields

/-- The fields that a list of pairs spells: a repeated key keeps its first place and takes its last
value. -/
def ofPairs (pairs : List (Text × α)) : Fields α := putAll [] pairs

/-- The keys in order. -/
def keys (fields : Fields α) : List Text := fields.map Prod.fst

@[simp] theorem keys_nil : keys ([] : Fields α) = [] := rfl

@[simp] theorem keys_cons (pair : Text × α) (rest : Fields α) :
    keys (pair :: rest) = pair.1 :: keys rest := rfl

theorem keys_put_of_mem {key : Text} (value : α) {fields : Fields α} (h : key ∈ keys fields) :
    keys (put key value fields) = keys fields := by
  induction fields with
  | nil => simp at h
  | cons pair rest ih =>
    by_cases hk : pair.1 = key
    · simp [put, hk]
    · have hr : key ∈ keys rest := by
        rcases List.mem_cons.1 h with h | h
        · exact absurd h.symm hk
        · exact h
      simp [put, hk, ih hr]

theorem keys_put_of_not_mem {key : Text} (value : α) {fields : Fields α} (h : key ∉ keys fields) :
    keys (put key value fields) = keys fields ++ [key] := by
  induction fields with
  | nil => rfl
  | cons pair rest ih =>
    simp only [keys_cons, List.mem_cons, not_or] at h
    simp [put, Ne.symm h.1, ih h.2]

theorem nodup_keys_put {key : Text} (value : α) {fields : Fields α} (h : (keys fields).Nodup) :
    (keys (put key value fields)).Nodup := by
  by_cases hk : key ∈ keys fields
  · rwa [keys_put_of_mem value hk]
  · rw [keys_put_of_not_mem value hk, List.nodup_append]
    refine ⟨h, by simp, ?_⟩
    rintro a ha b hb rfl
    exact hk (List.mem_singleton.1 hb ▸ ha)

/-- No key stands twice in the fields that a list of pairs spells. -/
theorem nodup_keys_ofPairs (pairs : List (Text × α)) : (keys (ofPairs pairs)).Nodup := by
  have step : ∀ (pairs : List (Text × α)) (fields : Fields α), (keys fields).Nodup →
      (keys (putAll fields pairs)).Nodup := by
    intro pairs
    induction pairs with
    | nil => intro fields h; exact h
    | cons pair rest ih => intro fields h; exact ih _ (nodup_keys_put pair.2 h)
  exact step pairs [] (by simp)

end Fields

end Mustache
