import Mustache.Run
import Mustache.Template.Token
import Mustache.Text.Line

/-!
# Tags

A tag is what stands between an opening marker and the next closing one.  `cutTag` finds the first
tag of a text, `Tag.meaning` reads its content, and `Tag.line` looks at the line around it.  A tag
that is no field and has its line for itself takes the line with it (`Tag.elided`).
-/

namespace Mustache

/-- A tag and the text on both its sides. -/
structure Tag where
  before : Text
  content : Text
  after : Text
  /-- Does the tag stand in three braces?  Then the third closing brace is part of the tag. -/
  triple : Bool

/-- What the front of a text is cut into. -/
inductive Cut where
  /-- There is no opening marker. -/
  | plain
  /-- There is an opening marker and no closing one behind it. -/
  | unclosed
  | tag (tag : Tag)

/-- The first tag of a text.  With double braces in force, a content that starts with a brace and
is followed by one is a triple. -/
def cutTag (pair : Delimiter) (s : Text) : Cut :=
  match Text.breakOn pair.opening s with
  | none => .plain
  | some (before, body) =>
    match Text.breakOn pair.closing body with
    | none => .unclosed
    | some (content, after) =>
      if pair.opening = ['{', '{'] ∧ content.head? = some '{' ∧ after.head? = some '}' then
        .tag ⟨before, content, after.tail, true⟩
      else .tag ⟨before, content, after, false⟩

/-- What a tag does to the scan. -/
inductive Meaning where
  | nothing
  /-- Another pair of markers is in force from here on. -/
  | change (pair : Delimiter)
  | symbol (symbol : Symbol)

/-- The symbol that a tag leaves in the template. -/
def Meaning.symbol? : Meaning → Option Symbol
  | symbol s => some s
  | _ => none

/-- The pair of markers that a tag puts in force. -/
def Meaning.change? : Meaning → Option Delimiter
  | change pair => some pair
  | _ => none

namespace Tag

/-- The first characters of tags that may take their whole line with them. -/
def sigils : List Char := ['!', '#', '^', '/', '>', '=']

/-- Is the tag one that may take its whole line with it? -/
def isStructural (t : Tag) : Bool := t.content.head?.any sigils.contains

/-- What the content of the tag says. -/
def meaning (t : Tag) : Except Error Meaning :=
  match t.content with
  | [] => .ok .nothing
  | '=' :: _ => (Delimiter.ofChange t.content).map .change
  | '!' :: rest => .ok (.symbol (.comment rest))
  | '>' :: rest => .ok (.symbol (.partialRef (Text.strip rest)))
  | '/' :: rest => .ok (.symbol (.sectionClose (Text.strip rest)))
  | '#' :: rest => .ok (.symbol (.sectionOpen (Text.strip rest) false))
  | '^' :: rest => .ok (.symbol (.sectionOpen (Text.strip rest) true))
  | '&' :: rest => .ok (.symbol (.field (Text.strip rest) false))
  | c :: rest =>
    if c = '{' ∧ t.triple then
      .ok (.symbol (.field (Text.strip (Text.dropEnding ['}'] rest)) false))
    else .ok (.symbol (.field (Text.strip (c :: rest)) true))

/-- The blanks that do not break a line. -/
def isInnerBlank (c : Char) : Bool := Text.isBlank c && !Text.isBreak c

/-- The line around the tag; `lineStart` says whether the text before it starts a line. -/
def line (t : Tag) (lineStart : Bool) : LineInfo where
  preceding := Text.lastLine t.before
  following := t.after.takeWhile isInnerBlank
  breakAfter := (Text.dropBreak? t.after).isSome
  firstOnLine :=
    (lineStart || t.before.any Text.isBreak) && (Text.lastLine t.before).all Text.isBlank
  lastOnLine := (t.after.dropWhile isInnerBlank).head?.all Text.isBreak
  atEnd := t.after.isEmpty

/-- Does the tag take its whole line with it? -/
def elided (t : Tag) (lineStart : Bool) : Bool := t.isStructural && (t.line lineStart).standalone

/-- The text before the tag that stays: without the start of the tag's line, if that goes. -/
def kept (t : Tag) (lineStart : Bool) : Text :=
  if t.elided lineStart then Text.earlierLines t.before else t.before

/-- The text still to be scanned: without the end of the tag's line, if that goes. -/
def rest (t : Tag) (lineStart : Bool) : Text :=
  if t.elided lineStart then (Text.dropBreak? t.after).getD t.after else t.after

/-- Does a line start behind the tag? -/
def endsLine (t : Tag) (lineStart : Bool) : Bool :=
  t.elided lineStart || (Text.dropBreak? t.after).isSome

theorem length_rest_le (t : Tag) (lineStart : Bool) :
    (t.rest lineStart).length ≤ t.after.length := by
  unfold rest
  split
  · cases h : Text.dropBreak? t.after with
    | none => exact Nat.le_refl _
    | some u => exact Text.length_dropBreak?_le h
  · exact Nat.le_refl _

end Tag

/-- A tag and the text on both sides take up the text that was cut, markers included. -/
theorem length_of_cutTag {pair : Delimiter} {s : Text} {t : Tag} (h : cutTag pair s = .tag t) :
    t.before.length + pair.opening.length + t.content.length + pair.closing.length +
      t.triple.toNat + t.after.length = s.length := by
  unfold cutTag at h
  split at h
  · cases h
  · next before body hb =>
    split at h
    · cases h
    · next content after hc =>
      have h1 := Text.length_of_breakOn hb
      have h2 := Text.length_of_breakOn hc
      split at h
      · next hd =>
        cases h
        obtain ⟨-, -, ha⟩ := hd
        cases after with
        | nil => simp at ha
        | cons a after =>
          simp only [List.length_cons] at h2
          simp only [List.tail_cons, Bool.toNat_true]
          omega
      · cases h
        simp only [Bool.toNat_false]
        omega

/-- The text behind a tag is shorter than the text that the tag was cut from. -/
theorem length_after_lt {pair : Delimiter} {s : Text} {t : Tag} (h : cutTag pair s = .tag t) :
    t.after.length < s.length := by
  have := length_of_cutTag h
  have := List.length_pos_iff.2 pair.opening_ne_nil
  omega

end Mustache
