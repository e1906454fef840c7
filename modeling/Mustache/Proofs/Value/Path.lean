import Mustache.Proofs.Text.Parts
import Mustache.Value.Lookup

/-!
# Paths in parts

A lookup is a walk along the segments of its path (`Value.lookup_eq_walk`).  Two paths with a dot
between them have the segments of the one and then those of the other, empty ones included, as long as
no blank is lost at the seam and none of the three is the path `.`, which has no segment at all
(`Value.segments_joined`).  So the joined path leads where its second part leads from the value at the
first (`Value.lookup_joined`).
-/

namespace Mustache

open Text

namespace Value

/-- The keys that a lookup follows, one after the other.  The path `.` is the value itself and has
none. -/
def segments (path : Text) : List Text := if path = ['.'] then [] else pathKeys path

variable {p q : Text}

theorem segments_of_ne {path : Text} (h : path ≠ ['.']) : segments path = pathKeys path := if_neg h

theorem lookup_eq_walk (v : Value) (path : Text) : v.lookup path = v.walk (segments path) := by
  rw [lookup, segments]
  split
  · exact (walk_nil v).symm
  · rfl

/-- The keys of a joined path are those of its two parts, without the blanks at its ends. -/
theorem pathKeys_append (p q : Text) : pathKeys (p ++ '.' :: q) =
    (p.dropWhile isBlank).splitOn '.' ++ (q.rdropWhile isBlank).splitOn '.' := by
  rw [pathKeys, strip_append_cons (by decide), List.splitOn_append_cons_self]

/-- A path with a dot has two keys at least. -/
theorem exists_pathKeys_eq {path : Text} (h : '.' ∈ path) :
    ∃ key key' rest, pathKeys path = key :: key' :: rest := by
  obtain ⟨front, back, rfl⟩ := List.append_of_mem h
  obtain ⟨key, keys, hkeys⟩ :=
    List.exists_cons_of_ne_nil (List.splitOn_ne_nil '.' (front.dropWhile isBlank))
  obtain ⟨key', keys', hkeys'⟩ :=
    List.exists_cons_of_ne_nil (List.splitOn_ne_nil '.' (back.rdropWhile isBlank))
  rw [pathKeys_append, hkeys, hkeys']
  cases keys with
  | nil => exact ⟨key, key', keys', rfl⟩
  | cons key₁ keys => exact ⟨key, key₁, _, rfl⟩

/-- Two paths without blanks around them, joined by a dot, keep their segments. -/
theorem segments_joined (hp : strip p = p) (hq : strip q = q) (hp' : p ≠ ['.']) (hq' : q ≠ ['.'])
    (hpq : p ++ '.' :: q ≠ ['.']) : segments (p ++ '.' :: q) = segments p ++ segments q := by
  rw [segments_of_ne hpq, segments_of_ne hp', segments_of_ne hq', pathKeys_append,
    dropWhile_of_strip hp, rdropWhile_of_strip hq, pathKeys, pathKeys, hp, hq]

/-- **Lookups compose along dots**: behind a dot a path leads on from the value that its front leads
to, and nowhere if the front leads nowhere. -/
theorem lookup_joined (hp : strip p = p) (hq : strip q = q) (hp' : p ≠ ['.']) (hq' : q ≠ ['.'])
    (hpq : p ++ '.' :: q ≠ ['.']) (v : Value) :
    v.lookup (p ++ '.' :: q) = (v.lookup p).bind fun w => w.lookup q := by
  simp only [lookup_eq_walk]
  rw [segments_joined hp hq hp' hq' hpq, walk_append]

/-- Empty segments at the seam and on both sides of it, a blank inside, and a null at the end. -/
theorem lookup_joined_empty :
    let v : Value := .mapping
      [(['a'], .mapping [([], .mapping [([], .mapping [("b c".toList, .null)])])])]
    strip "a.".toList = "a.".toList ∧ strip ".b c".toList = ".b c".toList ∧ "a.".toList ≠ ['.'] ∧
      ".b c".toList ≠ ['.'] ∧ "a.".toList ++ '.' :: ".b c".toList ≠ ['.'] ∧
      v.lookup ("a.".toList ++ '.' :: ".b c".toList) =
        ((v.lookup "a.".toList).bind fun w => w.lookup ".b c".toList) ∧
      v.lookup "a...b c".toList = some .null := by
  intro v
  have hp : strip "a.".toList = "a.".toList := by decide
  have hq : strip ".b c".toList = ".b c".toList := by decide
  exact ⟨hp, hq, by decide, by decide, by decide,
    lookup_joined hp hq (by decide) (by decide) (by decide) v, by decide⟩

end Value

end Mustache
