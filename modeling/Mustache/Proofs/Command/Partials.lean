import Mathlib.Data.List.Induction
import Mustache.Command.Program
import Mustache.Proofs.Outcome

/-!
# Partials from a directory

The files of a directory are loaded in the order of their names, each under its own name without the
ending, and a later file of the same name goes before an earlier one.  `Files.HoldsPartials` says so
of the fields that come out, by what a lookup finds; `loadDirectory` ends with such fields
(`holdsPartials_of_loadDirectory`), or with what is wrong with the first file that gives no text.
-/

namespace Mustache

open Outcome

/-! ### Definitions -/

namespace Command

/-- The names of the files in a directory that hold partials, in order. -/
def Files.partialFiles? (files : Files) (dir : Path) : Option (List Text) :=
  (files.list? dir).map fun names => names.filter partialSuffix.isSuffixOf

/-- The text of a file in a directory. -/
def Files.readIn (files : Files) (dir : Path) (fileName : Text) : Except Failure Text :=
  readFile files (dir.child fileName).toText (dir.child fileName)

/-- **The partials of a directory.**  All its files that hold partials can be read, and a key has the
text of the last of them, in the order of their names, that holds a partial of that name. -/
structure Files.HoldsPartials (files : Files) (dir : Path) (names : List Text)
    (found : Fields Value) : Prop where
  listed : files.partialFiles? dir = some names
  sorted : names.Pairwise fun a b => Text.notAfter a b = true
  readable : ∀ name ∈ names, ∃ text, files.readIn dir name = .ok text
  keys : (Fields.keys found).Nodup
  lookup_iff (key : Text) (v : Value) : found.lookup key = some v ↔ ∃ name text,
    (names.filter fun name => partialName name = key).getLast? = some name ∧
      files.readIn dir name = .ok text ∧ v = .scalar text

end Command

/-! ### Fields written over fields -/

namespace Fields

variable {α : Type}

theorem lookup_cons_eq (p : Text × α) (rest : Fields α) (key : Text) :
    (p :: rest).lookup key = if key = p.1 then some p.2 else rest.lookup key := by
  by_cases h : key = p.1
  · rw [if_pos h, h]
    exact List.lookup_cons_self
  · rw [if_neg h, List.lookup_cons, beq_eq_false_iff_ne.2 h]

theorem lookup_put (k : Text) (v : α) (fields : Fields α) (key : Text) :
    (put k v fields).lookup key = if key = k then some v else fields.lookup key := by
  induction fields with
  | nil => exact lookup_cons_eq (k, v) [] key
  | cons p rest ih =>
    obtain ⟨l, w⟩ := p
    rw [put]
    by_cases hl : l = k
    · subst hl
      rw [if_pos rfl, lookup_cons_eq, lookup_cons_eq]
      split <;> rfl
    · rw [if_neg hl, lookup_cons_eq, lookup_cons_eq, ih]
      by_cases h : key = l
      · rw [if_pos h, if_pos h, if_neg (h ▸ hl)]
      · rw [if_neg h, if_neg h]

/-- Of the pairs with one key the last one is written last. -/
theorem lookup_putAll (fields : Fields α) (pairs : List (Text × α)) (key : Text) :
    (putAll fields pairs).lookup key = (pairs.reverse.lookup key).or (fields.lookup key) := by
  induction pairs generalizing fields with
  | nil => rfl
  | cons p rest ih =>
    show (putAll (put p.1 p.2 fields) rest).lookup key = _
    rw [ih, lookup_put, List.reverse_cons, List.lookup_append, Option.or_assoc, lookup_cons_eq]
    split <;> rfl

theorem nodup_keys_putAll {fields : Fields α} (h : (keys fields).Nodup)
    (pairs : List (Text × α)) : (keys (putAll fields pairs)).Nodup := by
  induction pairs generalizing fields with
  | nil => exact h
  | cons p rest ih => exact ih (nodup_keys_put p.2 h)

end Fields

/-! ### The order of texts -/

namespace Text

theorem notAfter_trans (a b c : Text) (hab : notAfter a b = true)
    (hbc : notAfter b c = true) : notAfter a c = true := by
  induction a generalizing b c with
  | nil => rfl
  | cons x a ih =>
    cases b with
    | nil => cases hab
    | cons y b =>
      cases c with
      | nil => cases hbc
      | cons z c =>
        simp only [notAfter, Bool.or_eq_true, Bool.and_eq_true, decide_eq_true_eq] at *
        rcases hab with hxy | ⟨rfl, hab⟩
        · rcases hbc with hyz | ⟨rfl, -⟩
          · exact .inl (Nat.lt_trans hxy hyz)
          · exact .inl hxy
        · rcases hbc with hyz | ⟨rfl, hbc⟩
          · exact .inl hyz
          · exact .inr ⟨rfl, ih b c hab hbc⟩

theorem notAfter_total (a b : Text) : (notAfter a b || notAfter b a) = true := by
  induction a generalizing b with
  | nil => rfl
  | cons x a ih =>
    cases b with
    | nil => rfl
    | cons y b =>
      have hrest := ih b
      simp only [notAfter, Bool.or_eq_true, Bool.and_eq_true, decide_eq_true_eq] at *
      rcases Nat.lt_trichotomy x.toNat y.toNat with h | h | h
      · exact .inl (.inl h)
      · obtain rfl : x = y := Char.toNat_inj.1 h
        exact hrest.imp (fun h => .inr ⟨rfl, h⟩) fun h => .inr ⟨rfl, h⟩
      · exact .inr (.inl h)

end Text

namespace Command

variable {files : Files} {dir : Path} {names : List Text} {found : Fields Value} {f : Failure}
  {key : Text} {v : Value}

/-! ### The order of the files -/

/-- **The files of a directory** come in the order of their names. -/
theorem sorted_of_partialFiles? (h : files.partialFiles? dir = some names) :
    names.Pairwise fun a b => Text.notAfter a b = true := by
  obtain ⟨all, hall, rfl⟩ := Option.map_eq_some_iff.1 h
  refine List.Pairwise.filter _ ?_
  unfold Files.list? at hall
  split at hall
  · cases hall
  · split at hall
    · cases hall
      exact List.pairwise_mergeSort Text.notAfter_trans Text.notAfter_total _
    · cases hall

theorem Files.HoldsPartials.isSuffixOf_of_mem (h : files.HoldsPartials dir names found) :
    ∀ name ∈ names, partialSuffix.isSuffixOf name = true := by
  obtain ⟨all, -, rfl⟩ := Option.map_eq_some_iff.1 h.listed
  exact fun name hname => (List.mem_filter.1 hname).2

/-! ### Loading -/

theorem outcome_loadPartial (files : Files) (dir : Path) (found : Fields Value) (name : Text) :
    (loadPartial files dir found name).outcome = (files.readIn dir name).map fun text =>
      Fields.put (partialName name) (.scalar text) found := by
  simp only [loadPartial, Traced.outcome_bind, Traced.outcome_ofExcept, Traced.outcome_tell,
    Traced.outcome_pure, Files.readIn]
  cases readFile files (dir.child name).toText (dir.child name) <;> rfl

/-- Files that can all be read are written one over the other. -/
theorem outcome_foldlM_loadPartial {texts : Text → Text}
    (h : ∀ name ∈ names, files.readIn dir name = .ok (texts name)) (found : Fields Value) :
    (names.foldlM (loadPartial files dir) found).outcome = .ok (Fields.putAll found
      (names.map fun name => (partialName name, .scalar (texts name)))) := by
  induction names generalizing found with
  | nil => rfl
  | cons name rest ih =>
    rw [List.foldlM_cons, Traced.outcome_bind, outcome_loadPartial, h name List.mem_cons_self]
    exact ih (fun n hn => h n (List.mem_cons_of_mem name hn)) _

/-- The first file that cannot be read ends the fold. -/
theorem outcome_foldlM_loadPartial_error {front back : List Text} {name : Text}
    (hfront : ∀ n ∈ front, ∃ text, files.readIn dir n = .ok text)
    (h : files.readIn dir name = .error f) (found : Fields Value) :
    ((front ++ name :: back).foldlM (loadPartial files dir) found).outcome = .error f := by
  induction front generalizing found with
  | nil =>
    rw [List.nil_append, List.foldlM_cons, Traced.outcome_bind, outcome_loadPartial, h]
    rfl
  | cons n front ih =>
    obtain ⟨text, htext⟩ := hfront n List.mem_cons_self
    rw [List.cons_append, List.foldlM_cons, Traced.outcome_bind, outcome_loadPartial, htext]
    exact ih (fun m hm => hfront m (List.mem_cons_of_mem n hm)) _

/-- Either all files can be read, or there is a first one that cannot. -/
theorem readable_or_exists_first (files : Files) (dir : Path) (names : List Text) :
    (∀ name ∈ names, ∃ text, files.readIn dir name = .ok text) ∨
      ∃ front name back f, names = front ++ name :: back ∧
        (∀ n ∈ front, ∃ text, files.readIn dir n = .ok text) ∧
        files.readIn dir name = .error f := by
  induction names with
  | nil => exact .inl fun _ h => absurd h List.not_mem_nil
  | cons name rest ih =>
    cases hname : files.readIn dir name with
    | error f => exact .inr ⟨[], name, rest, f, rfl, fun _ h => absurd h List.not_mem_nil, hname⟩
    | ok text =>
      rcases ih with hall | ⟨front, other, back, f, rfl, hfront, hother⟩
      · exact .inl (List.forall_mem_cons.2 ⟨⟨text, hname⟩, hall⟩)
      · exact .inr ⟨name :: front, other, back, f, rfl,
          List.forall_mem_cons.2 ⟨⟨text, hname⟩, hfront⟩, hother⟩

/-- A directory whose files can all be read is loaded to their texts. -/
theorem outcome_loadDirectory (names : List Text) (texts : Text → Text)
    (hlisted : files.partialFiles? dir = some names)
    (htexts : ∀ name ∈ names, files.readIn dir name = .ok (texts name)) :
    (loadDirectory files dir).outcome = .ok (Fields.putAll []
      (names.map fun name => (partialName name, .scalar (texts name)))) := by
  obtain ⟨all, hall, hnames⟩ := Option.map_eq_some_iff.1 hlisted
  simp only [loadDirectory, hall, hnames]
  exact outcome_foldlM_loadPartial htexts []

/-- The first file that cannot be read ends the loading. -/
theorem outcome_loadDirectory_error {front back : List Text} {name : Text}
    (hlisted : files.partialFiles? dir = some (front ++ name :: back))
    (hfront : ∀ n ∈ front, ∃ text, files.readIn dir n = .ok text)
    (h : files.readIn dir name = .error f) : (loadDirectory files dir).outcome = .error f := by
  obtain ⟨all, hall, hnames⟩ := Option.map_eq_some_iff.1 hlisted
  simp only [loadDirectory, hall, hnames]
  exact outcome_foldlM_loadPartial_error hfront h []

/-- The last of some named texts that has a key. -/
theorem lookup_reverse_map (names : List Text) (texts : Text → Text) (key : Text) :
    ((names.map fun name => (partialName name, Value.scalar (texts name))).reverse.lookup key) =
      ((names.filter fun name => partialName name = key).getLast?).map fun name =>
        .scalar (texts name) := by
  induction names using List.reverseRecOn with
  | nil => rfl
  | append_singleton names name ih =>
    rw [List.map_append, List.reverse_append, List.map_singleton, List.reverse_singleton,
      List.singleton_append, Fields.lookup_cons_eq, ih, List.filter_append, List.getLast?_append]
    by_cases h : key = partialName name
    · simp [h]
    · simp [h, Ne.symm h]

/-- **A directory whose files can be read** is loaded to its partials. -/
theorem exists_loadDirectory (hlisted : files.partialFiles? dir = some names)
    (hreadable : ∀ name ∈ names, ∃ text, files.readIn dir name = .ok text) :
    ∃ found, (loadDirectory files dir).outcome = .ok found ∧
      files.HoldsPartials dir names found := by
  let texts (name : Text) : Text := (files.readIn dir name).toOption.getD []
  have htexts : ∀ name ∈ names, files.readIn dir name = .ok (texts name) := by
    intro name hname
    obtain ⟨text, htext⟩ := hreadable name hname
    simp [texts, htext, Except.toOption]
  let pairs := names.map fun name => (partialName name, Value.scalar (texts name))
  refine ⟨Fields.putAll [] pairs, outcome_loadDirectory names texts hlisted htexts, hlisted,
    sorted_of_partialFiles? hlisted, hreadable, Fields.nodup_keys_putAll (by simp) pairs,
    fun key v => ?_⟩
  rw [Fields.lookup_putAll, lookup_reverse_map]
  simp only [List.lookup_nil, Option.or_none, Option.map_eq_some_iff]
  refine exists_congr fun name => ⟨?_, ?_⟩
  · rintro ⟨hlast, rfl⟩
    have hmem := (List.mem_filter.1 (List.mem_of_getLast? hlast)).1
    exact ⟨texts name, hlast, htexts name hmem, rfl⟩
  · rintro ⟨text, hlast, htext, rfl⟩
    have hmem := (List.mem_filter.1 (List.mem_of_getLast? hlast)).1
    cases (htexts name hmem).symm.trans htext
    exact ⟨hlast, rfl⟩

/-- **What is loaded from a directory** is its partials. -/
theorem holdsPartials_of_loadDirectory (h : (loadDirectory files dir).outcome = .ok found) :
    ∃ names, files.HoldsPartials dir names found := by
  cases hlist : files.list? dir with
  | none => simp [loadDirectory, hlist] at h
  | some all =>
    obtain ⟨names, hlisted⟩ : ∃ names, files.partialFiles? dir = some names :=
      ⟨_, by rw [Files.partialFiles?, hlist, Option.map_some]⟩
    rcases readable_or_exists_first files dir names with hall | ⟨front, name, back, f, hn, hf, hx⟩
    · obtain ⟨found', hload, hholds⟩ := exists_loadDirectory hlisted hall
      cases hload.symm.trans h
      exact ⟨names, hholds⟩
    · subst hn
      cases (outcome_loadDirectory_error hlisted hf hx).symm.trans h

end Command

end Mustache
