import Mustache.Json.Lexeme

/-!
# Reading JSON text

The reader keeps the arrays and objects that are still open in a list of frames, innermost first,
so that it only ever moves on in the text.  It stands at one of three places: where a value is owed
(`readValue`), where a member of an object is owed (`readMember`), or behind a value (`resume`).
-/

namespace Mustache

namespace Json

/-- An array or object that is still open. -/
inductive Frame where
  /-- An array, with its items so far, the last one first. -/
  | array (items : List Json)
  /-- An object, with its members so far, the last one first, and the key whose value is owed. -/
  | object (members : List (Text × Json)) (key : Text)

/-- The fault of a reason found at `rest`. -/
def stop {α : Type} (reason : Reason) (rest : Text) : Except Fault α := .error (.at reason rest)

mutual

/-- Reads on from a place where a value is owed. -/
def readValue (standIns : StandIns) (frames : List Frame) (s : Text) : Except Fault (Json × Text) :=
  match s with
  | '"' :: tail =>
    match h : readString standIns ('"' :: tail) tail with
    | .error e => .error e
    | .ok (cs, rest) =>
      have := length_readString_lt h
      resume standIns frames (.scalar (.string cs)) rest
  | '{' :: tail =>
    match h : skipGap tail with
    | '}' :: rest =>
      have := length_of_skipGap_cons h
      resume standIns frames (.object []) rest
    | rest =>
      have := length_of_skipGap h
      readMember standIns frames [] rest
  | '[' :: tail =>
    match h : skipGap tail with
    | ']' :: rest =>
      have := length_of_skipGap_cons h
      resume standIns frames (.array []) rest
    | rest =>
      have := length_of_skipGap h
      readValue standIns (.array [] :: frames) rest
  | s =>
    match h : readScalar s with
    | none => stop .noValue s
    | some (.error e) => .error e
    | some (.ok (v, rest)) =>
      have := length_readScalar_lt h
      resume standIns frames (.scalar v) rest
termination_by s.length

/-- Reads on from a place where a member of an object is owed, behind the members before it. -/
def readMember (standIns : StandIns) (frames : List Frame) (members : List (Text × Json))
    (s : Text) : Except Fault (Json × Text) :=
  match s with
  | '"' :: tail =>
    match h : readString standIns ('"' :: tail) tail with
    | .error e => .error e
    | .ok (key, rest) =>
      have := length_readString_lt h
      match h : skipGap rest with
      | ':' :: rest =>
        have := length_of_skipGap_cons h
        have := length_skipGap_le rest
        readValue standIns (.object members key :: frames) (skipGap rest)
      | rest => stop .noColon rest
  | s => stop .noPropertyName s
termination_by s.length

/-- Reads on behind a value: it is the whole, or it goes into the innermost frame. -/
def resume (standIns : StandIns) (frames : List Frame) (v : Json) (s : Text) :
    Except Fault (Json × Text) :=
  match frames with
  | [] => .ok (v, s)
  | .array items :: outer =>
    match h : skipGap s with
    | ']' :: rest =>
      have := length_of_skipGap_cons h
      resume standIns outer (.array (v :: items).reverse) rest
    | ',' :: rest =>
      have := length_of_skipGap_cons h
      have := length_skipGap_le rest
      readValue standIns (.array (v :: items) :: outer) (skipGap rest)
    | rest => stop .noComma rest
  | .object members key :: outer =>
    match h : skipGap s with
    | '}' :: rest =>
      have := length_of_skipGap_cons h
      resume standIns outer (.object (Fields.ofPairs ((key, v) :: members).reverse)) rest
    | ',' :: rest =>
      have := length_of_skipGap_cons h
      have := length_skipGap_le rest
      readMember standIns outer ((key, v) :: members) (skipGap rest)
    | rest => stop .noComma rest
termination_by s.length

end

/-- The tree that a text spells, with stand-ins for the lone surrogates in it. -/
def read (text : Text) (standIns : StandIns := .none) : Except Fault Json :=
  if text.head? = some '\ufeff' then stop .byteOrderMark text
  else do
    let (v, rest) ← readValue standIns [] (skipGap text)
    match skipGap rest with
    | [] => return v
    | rest => stop .extraData rest

end Json

end Mustache
