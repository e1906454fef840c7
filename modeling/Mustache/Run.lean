import Mustache.Template.Delimiter
import Mustache.Traced

/-!
# Runs

Scanning, parsing and rendering are runs: they end with a result or an `Error`, and they note what
a log may want to tell.
-/

namespace Mustache

/-- What a run can note on its way. -/
inductive Note where
  /-- A template put another pair of markers in force. -/
  | delimiters (pair : Delimiter)
  /-- A partial was asked for that is not there, or is no text. -/
  | missing (name : Text)
  /-- A partial was expanded, with `depth` expansions around it. -/
  | expanded (name : Text) (depth : Nat)
  deriving DecidableEq

/-- A computation on templates. -/
abbrev Run := Traced Note Error

end Mustache
