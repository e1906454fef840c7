import Mustache.Template.Node
import Mustache.Template.Scan

/-!
# Building the tree

`build` puts the tokens between an opening tag and the closing tag that belongs to it under one
node.  The closing tag is found by counting the tags of that one name.  A closing tag without an
opening one leaves nothing behind.
-/

namespace Mustache

/-- The tokens behind an opening tag, cut at the closing tag that belongs to it. -/
structure Split where
  body : List Token
  /-- The line of the closing tag. -/
  close : LineInfo
  after : List Token

namespace Split

/-- The same cut with one more token in front of the body. -/
def push (t : Token) (s : Split) : Split := { s with body := t :: s.body }

/-- The body without the margin of the closing tag's line, if that tag has its line for itself and
a text comes last in the body. -/
def trimmedBody (s : Split) : List Token :=
  if s.close.standalone ∧ s.close.preceding ≠ [] then
    match s.body.getLast? with
    | some ⟨.text content, line⟩ =>
      let trimmed := Text.dropEnding s.close.preceding content
      s.body.dropLast ++ (if trimmed = [] then [] else [⟨.text trimmed, line⟩])
    | _ => s.body
  else s.body

theorem length_trimmedBody_le (s : Split) : s.trimmedBody.length ≤ s.body.length := by
  unfold trimmedBody
  split
  · split
    · next content line h =>
      have : s.body ≠ [] := by
        rintro he
        rw [he] at h
        cases h
      have := List.length_pos_iff.2 this
      simp only [List.length_append, List.length_dropLast]
      split <;> simp
      omega
    · exact Nat.le_refl _
  · exact Nat.le_refl _

end Split

namespace Token

/-- Does the token open a section of this name, inverted or not? -/
def opens (name : Text) (t : Token) : Bool :=
  match t.symbol with
  | .sectionOpen n _ => n = name
  | _ => false

/-- Does the token close a section of this name? -/
def closes (name : Text) (t : Token) : Bool :=
  match t.symbol with
  | .sectionClose n => n = name
  | _ => false

/-- The nodes that a token outside the sections' bounds stands for: a comment with a line for itself
and a closing tag stand for none, and a partial with a line for itself takes its margin along. -/
def leaves (t : Token) : List Node :=
  match t.symbol with
  | .text content => [.text content]
  | .field name escaped => [.field name escaped]
  | .comment content => if t.line.standalone then [] else [.comment content]
  | .partialRef name => [.partialRef name (if t.line.standalone then t.line.preceding else [])]
  | .sectionOpen _ _ | .sectionClose _ => []

end Token

/-- Cuts tokens at the closing tag of `name` that belongs to a section opened before them, with
`depth` more sections of that name still open. -/
def splitClose (name : Text) : Nat → List Token → Option Split
  | _, [] => none
  | depth, t :: rest =>
    if t.closes name then
      match depth with
      | 0 => some ⟨[], t.line, rest⟩
      | depth + 1 => (splitClose name depth rest).map (Split.push t)
    else (splitClose name (if t.opens name then depth + 1 else depth) rest).map (Split.push t)

theorem length_of_splitClose {name : Text} {depth : Nat} {ts : List Token} {s : Split}
    (h : splitClose name depth ts = some s) : s.body.length + s.after.length + 1 = ts.length := by
  induction ts generalizing depth s with
  | nil => simp [splitClose] at h
  | cons t rest ih =>
    have push : ∀ {d : Nat}, (splitClose name d rest).map (Split.push t) = some s →
        s.body.length + s.after.length + 1 = (t :: rest).length := by
      intro d hd
      obtain ⟨s', hs, rfl⟩ := Option.map_eq_some_iff.1 hd
      have := ih hs
      simp only [Split.push, List.length_cons]
      omega
    unfold splitClose at h
    split at h
    · split at h
      · cases h
        simp
      · exact push h
    · exact push h

/-- The tree of a list of tokens. -/
def build : List Token → Except Error (List Node)
  | [] => .ok []
  | t :: rest =>
    match t.symbol with
    | .sectionOpen name inverted =>
      match h : splitClose name 0 rest with
      | none => .error (.unclosedSection name)
      | some s => do
        have := length_of_splitClose h
        have := s.length_trimmedBody_le
        let children ← build s.trimmedBody
        let later ← build s.after
        return .block name inverted children :: later
    | _ => do
      let later ← build rest
      return t.leaves ++ later
termination_by ts => ts.length

/-- The tree of a template, with the given markers in force at its start. -/
def parse (template : Text) (delimiter : Delimiter := .braces) : Run (List Node) := do
  let tokens ← tokenize template delimiter
  Traced.ofExcept (build tokens)

end Mustache
