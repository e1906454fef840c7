import Mustache.Proofs.Render.Stack
import Mustache.Proofs.Value.Lookup

/-!
# What hides the root from a field

A field is looked up in the root only if no stack entry holds its leading key.  That key is cut from
the path before blanks are taken off (`Scope.leadingKey`), and a lookup takes them off before it cuts
the path into keys (`Value.firstKey`).  So the root is hidden by what holds the first key of the path
exactly if no blank stands right before the path's first dot (`fieldValue_firstKey_iff`); with such a
blank another key hides the root.
-/

namespace Mustache

open Scope Text

/-! ### Definitions -/

namespace Value

/-- The first of the keys that a path leads along. -/
def firstKey (path : Text) : Text := (pathKeys path).head (List.splitOn_ne_nil '.' (strip path))

/-- Is the value a mapping that holds the key? -/
def holds (key : Text) : Value → Bool
  | mapping fields => (fields.lookup key).isSome
  | _ => false

/-- The value `v` under the keys, each in a mapping of its own. -/
def nest (v : Value) : List Text → Value
  | [] => v
  | key :: rest => mapping [(key, nest v rest)]

end Value

/-- No blank stands right before the first dot of the path, unless all before it is blank. -/
def Scope.Unspaced (path : Text) : Prop :=
  ∀ front c back, path = front ++ c :: '.' :: back → '.' ∉ front → isBlank c = true →
    ∀ d ∈ front, isBlank d = true

variable {v w : Value} {s t path key : Text} {scope : Scope} {c : Char}

/-! ### The first key of a path -/

theorem leadingKey_eq_takeWhile (h : path ≠ ['.']) : leadingKey path = path.takeWhile (· ≠ '.') :=
  if_neg h

theorem dot_not_mem_leadingKey (h : path ≠ ['.']) : '.' ∉ leadingKey path := by
  rw [leadingKey_eq_takeWhile h]
  intro hdot
  simpa using List.mem_takeWhile_imp hdot

theorem firstKey_eq_takeWhile (path : Text) :
    Value.firstKey path = (strip path).takeWhile (· ≠ '.') :=
  head_splitOn (strip path) '.'

/-- Where the path is cut at its first dot, it is unspaced if nothing but blanks, or no blank, stands
right before the cut. -/
theorem unspaced_append_iff (h : '.' ∉ s) (t : Text) : Unspaced (s ++ '.' :: t) ↔
    ∀ front c, s = front ++ [c] → isBlank c = true → ∀ d ∈ front, isBlank d = true := by
  constructor
  · rintro hpath front c rfl hc
    have hfront : '.' ∉ front := fun hdot => h (List.mem_append_left [c] hdot)
    exact hpath front c t (by simp) hfront hc
  · intro hs front c back hpath hfront hc
    have hdot : '.' ∉ front ++ [c] := by
      have hne : c ≠ '.' := by
        rintro rfl
        exact absurd hc (by decide)
      simp [hfront, Ne.symm hne]
    have hcut : s ++ '.' :: t = (front ++ [c]) ++ '.' :: back := by simpa using hpath
    refine hs front c ?_ hc
    rw [← takeWhile_append_cons h t, hcut, takeWhile_append_cons hdot back]

/-- **The leading key is the first key**, once its blanks are off, exactly if the path is unspaced. -/
theorem strip_leadingKey_eq_iff (h : path ≠ ['.']) :
    strip (leadingKey path) = Value.firstKey path ↔ Unspaced path := by
  rw [leadingKey_eq_takeWhile h, firstKey_eq_takeWhile]
  by_cases hdot : '.' ∈ path
  · obtain ⟨front, back, rfl, hfront⟩ := List.eq_append_cons_of_mem hdot
    have hkept : '.' ∉ front.dropWhile isBlank := fun hmem =>
      hfront ((List.dropWhile_sublist isBlank).subset hmem)
    rw [strip_append_cons (by decide), takeWhile_append_cons hfront, takeWhile_append_cons hkept,
      strip_eq_dropWhile_iff, unspaced_append_iff hfront]
  · have hwhole : ∀ u : Text, '.' ∉ u → u.takeWhile (· ≠ '.') = u := by
      intro u hu
      refine List.takeWhile_eq_self_iff.2 fun d hd => ?_
      exact decide_eq_true fun he => hu (he ▸ hd)
    have hstripped : '.' ∉ strip path := fun hmem => hdot ((strip_isInfix path).subset hmem)
    rw [hwhole path hdot, hwhole (strip path) hstripped]
    refine iff_of_true rfl ?_
    rintro front c back rfl
    exact absurd (by simp) hdot

/-! ### What holds a key -/

theorem isSome_walk_singleton (v : Value) (key : Text) :
    (v.walk [key]).isSome = v.holds key := by
  cases v with
  | mapping fields =>
    rw [Value.walk, Value.holds]
    cases fields.lookup key with
    | none => rfl
    | some w => simp
  | null => rfl
  | scalar s => rfl
  | sequence items => rfl

/-- **The leading key** of a path is found in the values that hold it, without its blanks. -/
theorem isSome_lookup_leadingKey (h : path ≠ ['.']) (v : Value) :
    (v.lookup (leadingKey path)).isSome = v.holds (strip (leadingKey path)) := by
  have hdot : '.' ∉ leadingKey path := dot_not_mem_leadingKey h
  have hne : leadingKey path ≠ ['.'] := by
    intro he
    exact hdot (he ▸ List.mem_cons_self)
  rw [Value.lookup, if_neg hne, Value.pathKeys_of_not_mem hdot, isSome_walk_singleton]

theorem pathKeys_eq_cons (path : Text) :
    ∃ rest, Value.pathKeys path = Value.firstKey path :: rest :=
  ⟨_, (List.cons_head_tail (List.splitOn_ne_nil '.' (strip path))).symm⟩

/-- A path leads only into values that hold its first key. -/
theorem lookup_eq_none_of_not_holds (h : path ≠ ['.'])
    (hv : v.holds (Value.firstKey path) = false) : v.lookup path = none := by
  obtain ⟨rest, hkeys⟩ := pathKeys_eq_cons path
  have hwalk : v.walk [Value.firstKey path] = none := by
    rw [← Option.not_isSome_iff_eq_none, isSome_walk_singleton, hv]
    exact Bool.false_ne_true
  rw [Value.lookup, if_neg h, hkeys, ← List.singleton_append, Value.walk_append, hwalk]
  rfl

theorem walk_nest (v : Value) (keys : List Text) : (v.nest keys).walk keys = some v := by
  induction keys with
  | nil => exact Value.walk_nil v
  | cons key rest ih => simpa [Value.nest, Value.walk] using ih

/-! ### What hides the root -/

namespace Scope

/-- An entry that holds the leading key hides the root: the stack answers alone. -/
theorem fieldValue_of_holds (h : path ≠ ['.'])
    (hstack : ∃ entry ∈ scope.stack, entry.holds (strip (leadingKey path)) = true) :
    scope.fieldValue path = scope.innermost path := by
  obtain ⟨entry, hmem, hholds⟩ := hstack
  have hhidden : (scope.innermost (leadingKey path)).isSome = true :=
    isSome_innermost_iff.2 ⟨entry, hmem, (isSome_lookup_leadingKey h entry).trans hholds⟩
  rw [fieldValue_eq, if_pos hhidden, Option.or_none]

/-- Without such an entry the root answers where the stack does not. -/
theorem fieldValue_of_not_holds (h : path ≠ ['.'])
    (hstack : ∀ entry ∈ scope.stack, entry.holds (strip (leadingKey path)) = false) :
    scope.fieldValue path = (scope.innermost path).or (scope.root.lookup path) := by
  have hbare : ¬ (scope.innermost (leadingKey path)).isSome = true := by
    rw [isSome_innermost_iff]
    rintro ⟨entry, hmem, hfound⟩
    rw [isSome_lookup_leadingKey h, hstack entry hmem] at hfound
    cases hfound
  rw [fieldValue_eq, if_neg hbare]

end Scope

/-- **What hides the root from a field.**  It is hidden exactly by the stack entries that hold the
first key of the path if and only if the path is unspaced; then the stack alone answers below such
an entry, and the root alone where there is none. -/
theorem fieldValue_firstKey_iff (h : path ≠ ['.']) :
    (∀ (root : Value) (stack : List Value),
      ((∃ entry ∈ stack, entry.holds (Value.firstKey path) = true) →
        Scope.fieldValue ⟨root, stack⟩ path = stack.findSome? fun entry => entry.lookup path) ∧
      ((∀ entry ∈ stack, entry.holds (Value.firstKey path) = false) →
        Scope.fieldValue ⟨root, stack⟩ path = root.lookup path)) ↔ Unspaced path := by
  rw [← strip_leadingKey_eq_iff h]
  constructor
  · intro hrule
    by_contra hkey
    -- an entry under the leading key hides the root, though it does not hold the first key
    let entry : Value := .mapping [(strip (leadingKey path), .null)]
    have hother : entry.holds (Value.firstKey path) = false := by
      have hne : (Value.firstKey path == strip (leadingKey path)) = false := by
        simpa using Ne.symm hkey
      simp [entry, Value.holds, List.lookup_cons, hne]
    let root : Value := Value.null.nest (Value.pathKeys path)
    have hfound : root.lookup path = some .null := by rw [Value.lookup, if_neg h, walk_nest]
    have hroot : Scope.fieldValue ⟨root, [entry]⟩ path = root.lookup path :=
      (hrule root [entry]).2 (by simpa using hother)
    have hhidden : Scope.fieldValue ⟨root, [entry]⟩ path = Scope.innermost ⟨root, [entry]⟩ path :=
      fieldValue_of_holds h ⟨entry, List.mem_singleton_self entry, by simp [entry, Value.holds]⟩
    rw [hroot, hfound, innermost] at hhidden
    simp [lookup_eq_none_of_not_holds h hother] at hhidden
  · intro hkey root stack
    constructor
    · intro hstack
      rw [← hkey] at hstack
      exact fieldValue_of_holds h hstack
    · intro hstack
      have hnone : Scope.innermost ⟨root, stack⟩ path = none := by
        rw [innermost, List.findSome?_eq_none_iff]
        intro entry hmem
        exact lookup_eq_none_of_not_holds h (hstack entry hmem)
      rw [← hkey] at hstack
      rw [fieldValue_of_not_holds h hstack, hnone, Option.none_or]

/-- Blanks around a path and behind its dots are no blanks right before its first dot. -/
theorem fieldValue_firstKey_blanks :
    " a. b .c ".toList ≠ ['.'] ∧ ∀ (root : Value) (stack : List Value),
      ((∃ entry ∈ stack, entry.holds ['a'] = true) →
        Scope.fieldValue ⟨root, stack⟩ " a. b .c ".toList =
          stack.findSome? fun entry => entry.lookup " a. b .c ".toList) ∧
      ((∀ entry ∈ stack, entry.holds ['a'] = false) →
        Scope.fieldValue ⟨root, stack⟩ " a. b .c ".toList = root.lookup " a. b .c ".toList) := by
  have hne : " a. b .c ".toList ≠ ['.'] := by decide
  have hkey : Value.firstKey " a. b .c ".toList = ['a'] := by decide
  have hunspaced : Unspaced " a. b .c ".toList :=
    (strip_leadingKey_eq_iff hne).1 (by decide)
  have hrule := (fieldValue_firstKey_iff hne).2 hunspaced
  rw [hkey] at hrule
  exact ⟨hne, hrule⟩

/-- The first key of the path ends with a blank.  No stack entry holds it, and the root is hidden all
the same, by an entry that holds the key without its blank. -/
theorem fieldValue_blank_before_dot :
    let root : Value := .mapping [("a ".toList, .mapping [(['b'], .scalar ['1'])])]
    let stack : List Value := [.mapping [(['a'], .scalar ['x'])]]
    (∀ entry ∈ stack, entry.holds (Value.firstKey "a .b".toList) = false) ∧
      root.lookup "a .b".toList = some (.scalar ['1']) ∧
      Scope.fieldValue ⟨root, stack⟩ "a .b".toList = none := by
  decide

end Mustache
