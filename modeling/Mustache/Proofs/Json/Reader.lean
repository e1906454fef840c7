import Mustache.Json.Reader
import Mustache.Value.Printer

/-!
# Steps of the reader

What the reader does at one place of a text that is written on one line: at a word, at a plain text in
quotes, at the start of an array or object, behind a key, and behind a value inside an array or object.
Each step is an equation for any open frames and any text behind, so that steps can be put in a row.
-/

namespace Mustache

/-! ### Definitions -/

/-- Nothing in the text has to be escaped in a string: no quote, no backslash and no control
character. -/
def Text.Plain (s : Text) : Prop := ∀ c ∈ s, c ≠ '"' ∧ c ≠ '\\' ∧ ¬ c < ' '

namespace Json

open Value (quote)

variable {standIns : StandIns} {s key : Text} {c : Char}

/-! ### Words -/

/-- Outside strings a printed value holds no gap but those behind commas and colons. -/
theorem skipGap_cons (h : isGap c = false) (s : Text) : skipGap (c :: s) = c :: s :=
  List.dropWhile_cons_of_neg (by simp [h])

theorem skipGap_space (h : isGap c = false) (s : Text) : skipGap (' ' :: c :: s) = c :: s := by
  rw [skipGap, List.dropWhile_cons_of_pos rfl]
  exact skipGap_cons h s

/-- A plain character of a string stands for itself. -/
theorem nextPiece_cons (hc : c ≠ '"' ∧ c ≠ '\\' ∧ ¬ c < ' ') (opening rest : Text) :
    nextPiece standIns opening (c :: rest) = .char c rest := by
  unfold nextPiece
  split <;> simp_all

/-- **A plain text in quotes** is read as it is. -/
theorem readString_quoted (h : s.Plain) (opening rest : Text) :
    readString standIns opening (s ++ '"' :: rest) = .ok (s, rest) := by
  induction s with
  | nil =>
    rw [List.nil_append, readString]
    split
    · next e hp => cases hp
    · next rest' hp =>
      cases hp
      rfl
    · next c rest' hp => cases hp
  | cons c s ih =>
    have hpiece : nextPiece standIns opening (c :: (s ++ '"' :: rest)) =
        .char c (s ++ '"' :: rest) :=
      nextPiece_cons (h c List.mem_cons_self) opening _
    rw [List.cons_append, readString]
    split
    · next e hp => simp [hpiece] at hp
    · next rest' hp => simp [hpiece] at hp
    · next c' rest' hp =>
      rw [hpiece] at hp
      cases hp
      rw [ih fun d hd => h d (List.mem_cons_of_mem c hd)]
      rfl

/-! ### One step of the reader -/

theorem readValue_null (frames : List Frame) (rest : Text) :
    readValue standIns frames ("null".toList ++ rest) =
      resume standIns frames (.scalar .null) rest := by
  have hword : readScalar ('n' :: 'u' :: 'l' :: 'l' :: rest) = some (.ok (.null, rest)) := by
    simp [readScalar, constants, constantAt?, Text.behind?]
  show readValue standIns frames ('n' :: 'u' :: 'l' :: 'l' :: rest) = _
  rw [readValue]
  · split
    · next hs => simp [hword] at hs
    · next e hs => simp [hword] at hs
    · next x rest' hs =>
      rw [hword] at hs
      cases hs
      rfl
  · simp
  · simp
  · simp

theorem readValue_quote (h : s.Plain) (frames : List Frame) (rest : Text) :
    readValue standIns frames (quote s ++ rest) =
      resume standIns frames (.scalar (.string s)) rest := by
  have htext : quote s ++ rest = '"' :: (s ++ '"' :: rest) := by simp [quote]
  rw [htext, readValue]
  split
  · next e hs =>
    rw [readString_quoted h] at hs
    cases hs
  · next cs rest' hs =>
    rw [readString_quoted h] at hs
    cases hs
    rfl

theorem readValue_array_nil (frames : List Frame) (rest : Text) :
    readValue standIns frames ('[' :: ']' :: rest) = resume standIns frames (.array []) rest := by
  rw [readValue]
  split
  · next rest' hs =>
    rw [skipGap_cons rfl] at hs
    cases hs
    rfl
  · next hs => exact absurd (skipGap_cons rfl rest) (hs rest)

theorem readValue_array_cons (hgap : isGap c = false) (hc : c ≠ ']') (frames : List Frame)
    (s : Text) : readValue standIns frames ('[' :: c :: s) =
      readValue standIns (.array [] :: frames) (c :: s) := by
  rw [readValue]
  split
  · next rest' hs =>
    rw [skipGap_cons hgap] at hs
    cases hs
    exact absurd rfl hc
  · exact congrArg (readValue standIns _) (skipGap_cons hgap s)

theorem readValue_object_nil (frames : List Frame) (rest : Text) :
    readValue standIns frames ('{' :: '}' :: rest) = resume standIns frames (.object []) rest := by
  rw [readValue]
  split
  · next rest' hs =>
    rw [skipGap_cons rfl] at hs
    cases hs
    rfl
  · next hs => exact absurd (skipGap_cons rfl rest) (hs rest)

theorem readValue_object_cons (frames : List Frame) (key s : Text) :
    readValue standIns frames ('{' :: (quote key ++ s)) =
      readMember standIns frames [] (quote key ++ s) := by
  show readValue standIns frames ('{' :: '"' :: (key ++ ['"'] ++ s)) = _
  rw [readValue]
  split
  · next rest' hs =>
    rw [skipGap_cons rfl] at hs
    cases hs
  · exact congrArg (readMember standIns _ _) (skipGap_cons rfl _)

theorem readMember_quote (h : key.Plain) (hgap : isGap c = false) (frames : List Frame)
    (members : List (Text × Json)) (s : Text) :
    readMember standIns frames members (quote key ++ (": ".toList ++ c :: s)) =
      readValue standIns (.object members key :: frames) (c :: s) := by
  have htext : quote key ++ (": ".toList ++ c :: s) =
      '"' :: (key ++ '"' :: ':' :: ' ' :: c :: s) := by simp [quote]
  rw [htext, readMember]
  split
  · next e hs =>
    rw [readString_quoted h] at hs
    cases hs
  · next key' rest' hs =>
    rw [readString_quoted h] at hs
    cases hs
    split
    · next rest'' hs =>
      rw [skipGap_cons rfl] at hs
      cases hs
      exact congrArg (readValue standIns _) (skipGap_space hgap s)
    · next hs => exact absurd (skipGap_cons rfl _) (hs _)

theorem resume_array_close (done : List Json) (frames : List Frame) (x : Json) (rest : Text) :
    resume standIns (.array done :: frames) x (']' :: rest) =
      resume standIns frames (.array (done.reverse ++ [x])) rest := by
  rw [resume]
  split
  · next rest' hs =>
    rw [skipGap_cons rfl] at hs
    cases hs
    rw [List.reverse_cons]
  · next rest' hs =>
    rw [skipGap_cons rfl] at hs
    cases hs
  · next hs _ => exact absurd (skipGap_cons rfl rest) (hs rest)

theorem resume_array_comma (hgap : isGap c = false) (done : List Json) (frames : List Frame)
    (x : Json) (s : Text) :
    resume standIns (.array done :: frames) x (", ".toList ++ c :: s) =
      readValue standIns (.array (x :: done) :: frames) (c :: s) := by
  show resume standIns (.array done :: frames) x (',' :: ' ' :: c :: s) = _
  rw [resume]
  split
  · next rest' hs =>
    rw [skipGap_cons rfl] at hs
    cases hs
  · next rest' hs =>
    rw [skipGap_cons rfl] at hs
    cases hs
    exact congrArg (readValue standIns _) (skipGap_space hgap s)
  · next hs => exact absurd (skipGap_cons rfl _) (hs _)

theorem resume_object_close (members : List (Text × Json)) (key : Text) (frames : List Frame)
    (x : Json) (rest : Text) :
    resume standIns (.object members key :: frames) x ('}' :: rest) =
      resume standIns frames (.object (Fields.ofPairs (members.reverse ++ [(key, x)]))) rest := by
  rw [resume]
  split
  · next rest' hs =>
    rw [skipGap_cons rfl] at hs
    cases hs
    rw [List.reverse_cons]
  · next rest' hs =>
    rw [skipGap_cons rfl] at hs
    cases hs
  · next hs _ => exact absurd (skipGap_cons rfl rest) (hs rest)

theorem resume_object_comma (members : List (Text × Json)) (key key' : Text) (frames : List Frame)
    (x : Json) (s : Text) :
    resume standIns (.object members key :: frames) x (", ".toList ++ (quote key' ++ s)) =
      readMember standIns frames ((key, x) :: members) (quote key' ++ s) := by
  show resume standIns (.object members key :: frames) x
    (',' :: ' ' :: '"' :: (key' ++ ['"'] ++ s)) = _
  rw [resume]
  split
  · next rest' hs =>
    rw [skipGap_cons rfl] at hs
    cases hs
  · next rest' hs =>
    rw [skipGap_cons rfl] at hs
    cases hs
    exact congrArg (readMember standIns _ _) (skipGap_space rfl _)
  · next hs => exact absurd (skipGap_cons rfl _) (hs _)

end Json

end Mustache
