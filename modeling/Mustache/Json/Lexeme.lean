import Mustache.Json.Basic
import Mustache.Json.Fault
import Mustache.Text.Surrogate

/-!
# The words of JSON text

Strings, numbers and the constants.  Each reader takes the text from the word's place on and gives
the text behind the word, which is shorter (`length_readString_lt`, `length_readScalar_lt`).
-/

namespace Mustache

namespace Json

/-- The characters between the words of a JSON text. -/
def isGap (c : Char) : Bool := c = ' ' || c = '\t' || c = '\n' || c = '\r'

/-- The text from its first word on. -/
def skipGap (s : Text) : Text := s.dropWhile isGap

theorem length_dropWhile_le (p : Char → Bool) (s : Text) : (s.dropWhile p).length ≤ s.length :=
  (List.dropWhile_suffix p).length_le

theorem length_skipGap_le (s : Text) : (skipGap s).length ≤ s.length := length_dropWhile_le _ s

theorem length_of_skipGap {s rest : Text} (h : skipGap s = rest) : rest.length ≤ s.length :=
  h ▸ length_skipGap_le s

theorem length_of_skipGap_cons {s rest : Text} {c : Char} (h : skipGap s = c :: rest) :
    rest.length < s.length :=
  length_of_skipGap h

/-! ### Strings -/

/-- The value of a hexadecimal digit. -/
def hexDigit? (c : Char) : Option Nat :=
  if '0' ≤ c ∧ c ≤ '9' then some (c.toNat - 48)
  else if 'a' ≤ c ∧ c ≤ 'f' then some (c.toNat - 87)
  else if 'A' ≤ c ∧ c ≤ 'F' then some (c.toNat - 55)
  else none

/-- The number of four hexadecimal digits, if they do not end the text. -/
def hexUnit? : Text → Option (Nat × Text)
  | a :: b :: c :: d :: rest => do
    let a ← hexDigit? a
    let b ← hexDigit? b
    let c ← hexDigit? c
    let d ← hexDigit? d
    if rest = [] then none else some (((a * 16 + b) * 16 + c) * 16 + d, rest)
  | _ => none

/-- The character that a letter behind a backslash stands for. -/
def escape? : Char → Option Char
  | '"' => some '"'
  | '\\' => some '\\'
  | '/' => some '/'
  | 'b' => some '\x08'
  | 'f' => some '\x0c'
  | 'n' => some '\n'
  | 'r' => some '\r'
  | 't' => some '\t'
  | _ => none

/-- The second half of a character written as two units. -/
def lowUnit? : Text → Option (Nat × Text)
  | '\\' :: 'u' :: rest =>
    match hexUnit? rest with
    | some (low, rest) => if 0xDC00 ≤ low ∧ low ≤ 0xDFFF then some (low, rest) else none
    | none => none
  | _ => none

/-- The character that a unit makes up together with the one behind it, if they do. -/
def pairedUnits? (unit : Nat) (rest : Text) : Option (Char × Text) :=
  if 0xD800 ≤ unit ∧ unit ≤ 0xDBFF then
    (lowUnit? rest).map fun (low, rest) =>
      (Char.ofNat (0x10000 + (unit - 0xD800) * 0x400 + (low - 0xDC00)), rest)
  else none

/-- The character of a unit and of the text behind it.  Two units may make up one character; a
surrogate that does not is a lone one, and its stand-in goes in its place. -/
def joinUnits (standIns : StandIns) (unit : Nat) (rest : Text) : Char × Text :=
  match pairedUnits? unit rest with
  | some joined => joined
  | none => (if isSurrogate unit then standIns.char unit else Char.ofNat unit, rest)

/-- What stands next in a string. -/
inductive Piece where
  | char (c : Char) (rest : Text)
  /-- The closing quote. -/
  | close (rest : Text)
  | fault (fault : Fault)

/-- The next piece of a string; `opening` is the text from its opening quote on. -/
def nextPiece (standIns : StandIns) (opening : Text) : Text → Piece
  | [] => .fault (.at .unterminatedString opening)
  | '"' :: rest => .close rest
  | ['\\'] => .fault (.at .unterminatedString opening)
  | '\\' :: 'u' :: rest =>
    match hexUnit? rest with
    | some (unit, rest) =>
      let joined := joinUnits standIns unit rest
      .char joined.1 joined.2
    | none => .fault (.at .badUnicodeEscape ('u' :: rest))
  | '\\' :: letter :: rest =>
    match escape? letter with
    | some c => .char c rest
    | none => .fault (.at .badEscape ('\\' :: letter :: rest))
  | c :: rest => if c < ' ' then .fault (.at .controlCharacter (c :: rest)) else .char c rest

/-- The characters of a text, and those that an escape would spell wherever one stands in it. -/
def spelled : Text → Text
  | [] => []
  | c :: rest =>
    match nextPiece .none [] (c :: rest) with
    | .char d _ => c :: d :: spelled rest
    | _ => c :: spelled rest

theorem suffix_of_hexUnit? {s rest : Text} {n : Nat} (h : hexUnit? s = some (n, rest)) :
    rest <:+ s := by
  unfold hexUnit? at h
  split at h
  · simp only [Option.bind_eq_bind, Option.bind_eq_some_iff] at h
    obtain ⟨_, -, _, -, _, -, _, -, h⟩ := h
    split at h
    · cases h
    · cases h
      exact List.suffix_append [_, _, _, _] _
  · cases h

theorem suffix_of_lowUnit? {s rest : Text} {low : Nat} (h : lowUnit? s = some (low, rest)) :
    rest <:+ s := by
  unfold lowUnit? at h
  split at h
  · split at h
    · next hx =>
      split at h
      · cases h
        exact (suffix_of_hexUnit? hx).trans (List.suffix_append ['\\', 'u'] _)
      · cases h
    · cases h
  · cases h

theorem suffix_joinUnits (standIns : StandIns) (unit : Nat) (rest : Text) :
    (joinUnits standIns unit rest).2 <:+ rest := by
  unfold joinUnits
  split
  · next joined h =>
    unfold pairedUnits? at h
    split at h
    · obtain ⟨⟨low, tail⟩, hlow, rfl⟩ := Option.map_eq_some_iff.1 h
      exact suffix_of_lowUnit? hlow
    · cases h
  · exact List.suffix_refl rest

variable {standIns : StandIns}

/-- A character of a string takes at least one character of the text. -/
theorem suffix_of_nextPiece_char {opening s rest : Text} {c : Char}
    (h : nextPiece standIns opening s = .char c rest) : ∃ d tail, s = d :: tail ∧ rest <:+ tail := by
  unfold nextPiece at h
  split at h
  · cases h
  · cases h
  · cases h
  · next tail =>
    split at h
    · next unit behind hx =>
      cases h
      have hrest := (suffix_joinUnits standIns unit behind).trans (suffix_of_hexUnit? hx)
      exact ⟨_, _, rfl, hrest.trans (List.suffix_cons _ _)⟩
    · cases h
  · split at h
    · cases h
      exact ⟨_, _, rfl, List.suffix_cons _ _⟩
    · cases h
  · split at h
    · cases h
    · cases h
      exact ⟨_, _, rfl, List.suffix_refl _⟩

theorem length_of_nextPiece_char {opening s rest : Text} {c : Char}
    (h : nextPiece standIns opening s = .char c rest) : rest.length < s.length := by
  obtain ⟨d, tail, rfl, hrest⟩ := suffix_of_nextPiece_char h
  exact Nat.lt_succ_of_le hrest.length_le

theorem length_of_nextPiece_close {opening s rest : Text}
    (h : nextPiece standIns opening s = .close rest) : rest.length < s.length := by
  unfold nextPiece at h
  split at h
  · cases h
  · cases h
    simp
  · cases h
  · split at h <;> cases h
  · split at h <;> cases h
  · split at h <;> cases h

/-- The rest of a string behind its opening quote, and the text behind the string. -/
def readString (standIns : StandIns) (opening s : Text) : Except Fault (Text × Text) :=
  match h : nextPiece standIns opening s with
  | .fault e => .error e
  | .close rest => .ok ([], rest)
  | .char c rest => do
    have := length_of_nextPiece_char h
    let (cs, rest) ← readString standIns opening rest
    return (c :: cs, rest)
termination_by s.length

theorem length_readString_lt {opening s rest cs : Text}
    (h : readString standIns opening s = .ok (cs, rest)) :
    rest.length < s.length := by
  fun_induction readString standIns opening s generalizing cs rest with
  | case1 => cases h
  | case2 s rest' hp =>
    cases h
    exact length_of_nextPiece_close hp
  | case3 s c rest' hp this ih =>
    simp only [bind, Except.bind] at h
    split at h
    · cases h
    · next v hv =>
      cases h
      exact Nat.lt_trans (ih hv) this

/-! ### Numbers and constants -/

/-- The number that decimal digits spell. -/
def ofDigits (digits : Text) : Nat := digits.foldl (fun n c => 10 * n + (c.toNat - 48)) 0

/-- The digits of the whole part of a number: a lone zero, or digits that do not start with one. -/
def wholeDigits? : Text → Option (Text × Text)
  | '0' :: rest => some (['0'], rest)
  | s =>
    if s.head?.any Char.isDigit then some (s.takeWhile Char.isDigit, s.dropWhile Char.isDigit)
    else none

/-- The digits behind a decimal point, if there is one with a digit behind it. -/
def fractionDigits? : Text → Option (Text × Text)
  | '.' :: rest =>
    if rest.head?.any Char.isDigit then
      some (rest.takeWhile Char.isDigit, rest.dropWhile Char.isDigit)
    else none
  | _ => none

/-- A sign and the text behind it; without a sign it is positive. -/
def takeSign : Text → Bool × Text
  | '-' :: rest => (true, rest)
  | '+' :: rest => (false, rest)
  | s => (false, s)

/-- The exponent of a number, if there is one with a digit. -/
def exponent? : Text → Option (Int × Text)
  | mark :: rest =>
    let (negative, digits) := takeSign rest
    if (mark = 'e' ∨ mark = 'E') ∧ digits.head?.any Char.isDigit then
      let size : Int := ofDigits (digits.takeWhile Char.isDigit)
      some (if negative then -size else size, digits.dropWhile Char.isDigit)
    else none
  | [] => none

/-- The number of an optional minus sign and a text that starts with digits.  A fraction or an
exponent makes it a binary64 number, rounded to nearest. -/
def readNumber (negative : Bool) (s : Text) : Option (Except Fault (Scalar × Text)) := do
  let (whole, rest) ← wholeDigits? s
  let (fraction, rest) := (fractionDigits? rest).getD ([], rest)
  match exponent? rest with
  | some (exponent, rest) =>
    let x := Binary64.ofDecimal negative (ofDigits (whole ++ fraction)) (exponent - fraction.length)
    return .ok (.real x, rest)
  | none =>
    if fraction = [] then
      if Text.digitLimit < whole.length then return .error (.tooManyDigits whole.length)
      let n : Int := ofDigits whole
      return .ok (.integer (if negative then -n else n), rest)
    else
      let x := Binary64.ofDecimal negative (ofDigits (whole ++ fraction)) (-fraction.length)
      return .ok (.real x, rest)

/-- The words that stand for a scalar. -/
def constants : List (Text × Scalar) :=
  [("null".toList, .null), ("true".toList, .bool true), ("false".toList, .bool false),
   ("NaN".toList, .real .nan), ("Infinity".toList, .real (.infinite false)),
   ("-Infinity".toList, .real (.infinite true))]

/-- The scalar of a constant that a text starts with. -/
def constantAt? (s : Text) (constant : Text × Scalar) : Option (Scalar × Text) :=
  (Text.behind? constant.1 s).map fun rest => (constant.2, rest)

/-- The constant or number at the front of a text, if there is one. -/
def readScalar (s : Text) : Option (Except Fault (Scalar × Text)) :=
  match constants.findSome? (constantAt? s) with
  | some found => some (.ok found)
  | none =>
    match s with
    | '-' :: digits => readNumber true digits
    | _ => readNumber false s

theorem length_of_wholeDigits? {s whole rest : Text} (h : wholeDigits? s = some (whole, rest)) :
    rest.length < s.length := by
  unfold wholeDigits? at h
  split at h
  · cases h
    simp
  · split at h
    · next hd =>
      cases h
      cases s with
      | nil => simp at hd
      | cons c s =>
        simp only [List.head?_cons, Option.any_some] at hd
        simp only [List.dropWhile_cons, hd, if_true, List.length_cons]
        exact Nat.lt_succ_of_le (length_dropWhile_le _ _)
    · cases h

theorem length_of_fractionDigits? {s digits rest : Text}
    (h : fractionDigits? s = some (digits, rest)) : rest.length ≤ s.length := by
  unfold fractionDigits? at h
  split at h
  · split at h
    · cases h
      exact Nat.le_succ_of_le (length_dropWhile_le _ _)
    · cases h
  · cases h

theorem length_takeSign_le (s : Text) : (takeSign s).2.length ≤ s.length := by
  unfold takeSign
  split <;> simp

theorem length_of_exponent? {s rest : Text} {n : Int} (h : exponent? s = some (n, rest)) :
    rest.length ≤ s.length := by
  unfold exponent? at h
  split at h
  · next mark tail =>
    have := length_takeSign_le tail
    simp only at h
    split at h
    · cases h
      refine Nat.le_trans (length_dropWhile_le _ _) ?_
      simp only [List.length_cons]
      omega
    · cases h
  · cases h

theorem length_readNumber_lt {negative : Bool} {s rest : Text} {v : Scalar}
    (h : readNumber negative s = some (.ok (v, rest))) : rest.length < s.length := by
  unfold readNumber at h
  simp only [Option.bind_eq_bind, Option.bind_eq_some_iff] at h
  obtain ⟨⟨whole, r1⟩, hw, h⟩ := h
  have h1 := length_of_wholeDigits? hw
  have h2 : ((fractionDigits? r1).getD ([], r1)).2.length ≤ r1.length := by
    cases hf : fractionDigits? r1 with
    | none => exact Nat.le_refl _
    | some p =>
      obtain ⟨digits, rest'⟩ := p
      exact length_of_fractionDigits? hf
  simp only at h
  split at h
  · next e r3 he =>
    have h3 := length_of_exponent? he
    simp only [pure, Option.some.injEq, Except.ok.injEq, Prod.mk.injEq] at h
    obtain ⟨-, rfl⟩ := h
    omega
  · split at h
    · split at h
      · simp [pure] at h
      · simp only [pure, Option.some.injEq, Except.ok.injEq, Prod.mk.injEq] at h
        obtain ⟨-, rfl⟩ := h
        omega
    · simp only [pure, Option.some.injEq, Except.ok.injEq, Prod.mk.injEq] at h
      obtain ⟨-, rfl⟩ := h
      omega

theorem length_readScalar_lt {s rest : Text} {v : Scalar}
    (h : readScalar s = some (.ok (v, rest))) :
    rest.length < s.length := by
  unfold readScalar at h
  split at h
  · next found hf =>
    obtain ⟨entry, hmem, he⟩ := List.exists_of_findSome?_eq_some hf
    obtain ⟨tail, hp, rfl⟩ := Option.map_eq_some_iff.1 he
    cases h
    have hl := Text.length_of_behind? hp
    have hpos : 0 < entry.1.length := by
      simp only [constants, List.mem_cons, List.not_mem_nil, or_false] at hmem
      rcases hmem with rfl | rfl | rfl | rfl | rfl | rfl <;> decide
    omega
  · split at h
    · have := length_readNumber_lt h
      simp only [List.length_cons]
      omega
    · exact length_readNumber_lt h

end Json

end Mustache
