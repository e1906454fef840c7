import Mustache.Command.Files
import Mustache.Error
import Mustache.Json.Fault
import Mustache.Run
import Mustache.Text.Surrogate

/-!
# Failures and log lines

What the program tells beside its output: the failure that ends a run, with its exit code, and the
lines of the log.
-/

namespace Mustache

namespace Command

/-- The wording of a reason why octets are no text. -/
def reasonText : Utf8.Reason → Text
  | .lead => "invalid start byte".toList
  | .continuation => "invalid continuation byte".toList
  | .truncated => "unexpected end of data".toList

/-- The wording of a fault of octets that should be a text. -/
def encodingMessage (f : Utf8.Fault) : Text :=
  let what := match f.octets with
    | [octet] =>
      "byte 0x".toList ++ Text.hex 2 octet.toNat ++ " in position ".toList ++ Text.ofNat f.position
    | octets =>
      "bytes in position ".toList ++ Text.ofNat f.position ++ ['-'] ++
        Text.ofNat (f.position + octets.length - 1)
  "'utf-8' codec can't decode ".toList ++ what ++ ": ".toList ++ reasonText f.reason

/-- The wording of a fault of a text that should have octets. -/
def surrogateMessage (f : StandIns.Fault) : Text :=
  let what := match f.surrogates with
    | [c] => "character '".toList ++ c :: "' in position ".toList ++ Text.ofNat f.position
    | cs =>
      "characters in position ".toList ++ Text.ofNat f.position ++ ['-'] ++
        Text.ofNat (f.position + cs.length - 1)
  "'utf-8' codec can't encode ".toList ++ what ++ ": surrogates not allowed".toList

/-- Why a file that is there to be read gives no text. -/
inductive Unreadable where
  | obstacle (path : Path) (o : Obstacle)
  | encoding (fault : Utf8.Fault)
  deriving DecidableEq

/-- The wording of it. -/
def Unreadable.message : Unreadable → Text
  | obstacle path o => o.message path
  | encoding fault => encodingMessage fault

/-- What ends a run before its output is written. -/
inductive Failure where
  /-- A file that the command line names, or that a directory holds, gives no text. -/
  | unreadable (name : Text) (reason : Unreadable)
  | noDirectory (path : Path)
  /-- The text from `source` is no JSON. -/
  | badJson (source text : Text) (fault : Json.Fault)
  /-- Standard input gives no text. -/
  | badInput (fault : Utf8.Fault)
  /-- A path holds a character that no path can hold. -/
  | nulInPath
  | unwritable (path : Path) (o : Obstacle)
  /-- The output has no octets. -/
  | unencodable (fault : StandIns.Fault)
  | template (error : Error)
  deriving DecidableEq

namespace Failure

/-- The kinds of failures, by their exit codes. -/
inductive Kind where
  /-- What was to be read could not be. -/
  | input
  | template (code : Nat)
  | other

/-- The kind of a failure. -/
def kind : Failure → Kind
  | unreadable _ _ | noDirectory _ | badJson _ _ (.at _ _) => .input
  | template error => .template error.exitCode
  | badJson _ _ (.tooManyDigits _) | badInput _ | nulInPath | unwritable _ _ | unencodable _ =>
    .other

/-- The exit code of the program. -/
def exitCode (f : Failure) : Nat :=
  match f.kind with
  | .input => 3
  | .template code => code
  | .other => 1

/-- The wording of what went wrong. -/
def message : Failure → Text
  | unreadable name reason => "Cannot read ".toList ++ name ++ ": ".toList ++ reason.message
  | noDirectory path => "Partials directory not found: ".toList ++ path.toText
  | badJson source text (.at reason rest) =>
    "Invalid JSON in ".toList ++ source ++ ": ".toList ++ (Json.Fault.at reason rest).message text
  | badJson _ text fault => fault.message text
  | badInput fault => encodingMessage fault
  | nulInPath => "embedded null byte".toList
  | unwritable path o => o.message path
  | unencodable fault => surrogateMessage fault
  | template error => error.message

/-- The line that reports a failure. -/
def line (f : Failure) : Text :=
  let label := match f.kind with
    | .other => "Unexpected error: "
    | _ => "Error: "
  label.toList ++ f.message

end Failure

/-- What a run notes for the log. -/
inductive LogLine where
  /-- The partials file is no JSON object. -/
  | partialsIgnored (path : Text)
  /-- A partial was read from a directory. -/
  | partialLoaded (name : Text) (path : Path)
  /-- What scanning and rendering noted. -/
  | template (note : Note)
  deriving DecidableEq

/-- The wording of a log line, if it is shown; most are shown only on request. -/
def LogLine.text? (verbose : Bool) : LogLine → Option Text
  | partialsIgnored path =>
    some ("WARNING mustachio.__main__: Ignoring ".toList ++ path ++
      ": partials must be a JSON object".toList)
  | partialLoaded name path =>
    ifVerbose ("DEBUG mustachio.__main__: Loaded partial ".toList ++ name ++ " from ".toList ++
      path.toText)
  | template (.delimiters pair) =>
    ifVerbose ("DEBUG mustachio.tokenizer: Delimiters changed to ".toList ++ pair.opening ++
      ' ' :: pair.closing)
  | template (.missing name) =>
    ifVerbose ("DEBUG mustachio.renderer: Partial ".toList ++ Text.quoted name ++
      " not found, rendering nothing".toList)
  | template (.expanded _ _) => none
where
  ifVerbose (line : Text) : Option Text := if verbose then some line else none

end Command

end Mustache
