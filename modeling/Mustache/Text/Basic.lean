/-!
# Text

Text is a list of code points.  This module holds the cuts and replacements that the template
scanner, the values and the command line share: breaking a text at the first occurrence of a
marker, dropping a marker from the end, and replacing a character or a pair of characters.
-/

namespace Mustache

/-- A text is the list of its code points, so lengths, cuts and positions count code points. -/
abbrev Text := List Char

namespace Text

/-- The text behind `front`, if the text starts with it. -/
def behind? : Text → Text → Option Text
  | [], s => some s
  | _ :: _, [] => none
  | a :: front, b :: s => if a = b then behind? front s else none

/-- The parts of a text before and after the first occurrence of `marker`, if there is one. -/
def breakOn (marker : Text) : Text → Option (Text × Text)
  | [] => (behind? marker []).map fun after => ([], after)
  | c :: rest =>
    match behind? marker (c :: rest) with
    | some after => some ([], after)
    | none => (breakOn marker rest).map fun (before, after) => (c :: before, after)

/-- The text without `ending`, if it ends so; otherwise the text itself. -/
def dropEnding (ending s : Text) : Text :=
  match behind? ending.reverse s.reverse with
  | some front => front.reverse
  | none => s

/-- Every occurrence of the character `c` written as the text `new`. -/
def replaceChar (c : Char) (new : Text) (s : Text) : Text :=
  s.flatMap fun x => if x = c then new else [x]

/-- Every occurrence of the pair `a`, `b`, from left to right, written as the character `new`. -/
def replacePair (a b new : Char) : Text → Text
  | x :: y :: rest =>
    if x = a ∧ y = b then new :: replacePair a b new rest
    else x :: replacePair a b new (y :: rest)
  | short => short

/-- Does a text come no later than another one in the order of code points? -/
def notAfter : Text → Text → Bool
  | [], _ => true
  | _ :: _, [] => false
  | a :: s, b :: t => a.toNat < b.toNat || (a = b && notAfter s t)

/-! ### Parts of a text -/

theorem behind?_eq_some_iff {front s rest : Text} :
    behind? front s = some rest ↔ s = front ++ rest := by
  induction front generalizing s with
  | nil => simp [behind?]
  | cons a front ih =>
    cases s with
    | nil => simp [behind?]
    | cons b s =>
      by_cases h : a = b
      · simp [behind?, h, ih]
      · simp [behind?, h, Ne.symm h]

/-- The two parts of a broken text stand around the marker. -/
theorem eq_append_of_breakOn {marker s before after : Text}
    (h : breakOn marker s = some (before, after)) : s = before ++ marker ++ after := by
  induction s generalizing before after with
  | nil =>
    obtain ⟨u, hu, he⟩ := Option.map_eq_some_iff.1 h
    cases he
    simpa using behind?_eq_some_iff.1 hu
  | cons c rest ih =>
    simp only [breakOn] at h
    split at h
    · next u hu =>
      cases h
      simpa using behind?_eq_some_iff.1 hu
    · obtain ⟨⟨b, a⟩, hb, he⟩ := Option.map_eq_some_iff.1 h
      cases he
      rw [ih hb]
      simp

theorem length_of_behind? {front s rest : Text} (h : behind? front s = some rest) :
    front.length + rest.length = s.length := by
  rw [behind?_eq_some_iff.1 h, List.length_append]

theorem length_of_breakOn {marker s before after : Text}
    (h : breakOn marker s = some (before, after)) :
    before.length + marker.length + after.length = s.length := by
  rw [eq_append_of_breakOn h, List.length_append, List.length_append]

end Text

end Mustache
