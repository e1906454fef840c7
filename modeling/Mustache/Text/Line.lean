import Mustache.Text.Blank

/-!
# Lines

Lines of a text for two purposes.  Indentation takes LF alone for the end of a line, and so does
the question what stands on the last line of a text; a line break right after a tag may also be CR
or CR LF.
-/

namespace Mustache

namespace Text

/-- Is the character one of the two that break a line? -/
def isBreak (c : Char) : Bool := c = '\n' || c = '\r'

/-- The part of a text behind its last LF: all of it when it holds none. -/
def lastLine (s : Text) : Text := (s.reverse.takeWhile (· ≠ '\n')).reverse

/-- The part of a text up to and including its last LF: nothing when it holds none. -/
def earlierLines (s : Text) : Text := (s.reverse.dropWhile (· ≠ '\n')).reverse

/-- The text behind the line break at its front, if it starts with one: CR LF, LF or CR. -/
def dropBreak? : Text → Option Text
  | '\r' :: '\n' :: rest => some rest
  | '\r' :: rest => some rest
  | '\n' :: rest => some rest
  | _ => none

/-- The text with `margin` put in front of every line that is not empty. -/
def indent (margin s : Text) : Text :=
  ['\n'].intercalate ((s.splitOn '\n').map fun line => if line = [] then line else margin ++ line)

/-- The text with every CR LF and every other CR written as LF. -/
def foldBreaks : Text → Text
  | '\r' :: '\n' :: rest => '\n' :: foldBreaks rest
  | '\r' :: rest => '\n' :: foldBreaks rest
  | c :: rest => c :: foldBreaks rest
  | [] => []

theorem earlierLines_append_lastLine (s : Text) : earlierLines s ++ lastLine s = s := by
  rw [earlierLines, lastLine, ← List.reverse_append, List.takeWhile_append_dropWhile,
    List.reverse_reverse]

/-- Dropping a line break never makes a text longer. -/
theorem length_dropBreak?_le {s rest : Text} (h : dropBreak? s = some rest) :
    rest.length ≤ s.length := by
  unfold dropBreak? at h
  split at h <;> simp_all
  omega

end Text

end Mustache
