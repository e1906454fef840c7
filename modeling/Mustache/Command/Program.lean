import Mustache.Command.Arguments
import Mustache.Command.Failure
import Mustache.Render.Renderer
import Mustache.Text.Integer
import Mustache.Value.OfJson

/-!
# The program

A run of the program is a function: from the arguments and what surrounds the program to a report.
`rendered` gathers the template, its data and the partials and renders; `deliver` brings the text
out; `run` puts both together.  A run that fails writes nothing but its complaint.  It changes no
file either, unless its text turns out to have no octets: by then the output file is open, and that
leaves it empty.
-/

namespace Mustache

namespace Command

/-- What a run can read beside its arguments. -/
structure Surroundings where
  files : Files := {}
  stdin : List UInt8 := []
  /-- Are line breaks of standard input folded, as those of files are?  On POSIX they are not. -/
  foldsStdin : Bool := true
  /-- The variable that bounds nested partials unless a flag does. -/
  depthVariable : Option Text := none

/-- What a run leaves. -/
structure Report where
  code : Nat
  stdout : Text := []
  stderr : Text := []
  files : Files

/-- A step of a run. -/
abbrev Job := Traced LogLine Failure

/-- A setting that is empty counts as not given. -/
def given (setting : Option Text) : Option Text := setting.filter (· ≠ [])

/-- The text of the lines. -/
def joinLines (lines : List Text) : Text := lines.flatMap (· ++ ['\n'])

/-! ### Lone surrogates -/

/-- A text from standard input as the program sees it. -/
def Surroundings.fold (s : Surroundings) (text : Text) : Text :=
  if s.foldsStdin then Text.foldBreaks text else text

/-- The texts that can be read, the text of the variable, and the names of files. -/
def Surroundings.texts (s : Surroundings) : List Text :=
  let decoded (octets : List UInt8) : Text := (Utf8.decode octets).toOption.getD []
  let contents := s.files.entries.filterMap fun
    | (_, .file octets) => some (Text.foldBreaks (decoded octets))
    | (_, .directory) => none
  s.fold (decoded s.stdin) :: contents ++ s.depthVariable.toList ++ s.files.workingDirectory ++
    s.files.entries.flatMap Prod.fst

/-- The texts of the settings. -/
def Options.texts (o : Options) : List Text :=
  o.template :: [o.data, o.dataFile, o.partialsFile, o.partialsDir, o.output].reduceOption

/-- What stands in for lone surrogates in a run: characters that occur in nothing that it reads. -/
def Options.standIns (o : Options) (s : Surroundings) : StandIns :=
  .apart ((o.texts ++ s.texts).flatMap Json.spelled)

/-! ### Reading and writing -/

/-- The text of a file; messages call it `name`. -/
def readFile (files : Files) (name : Text) (path : Path) : Except Failure Text :=
  if '\x00' ∈ path.toText then .error .nulInPath
  else
    match files.read path with
    | .error o => .error (.unreadable name (.obstacle path o))
    | .ok octets =>
      match Utf8.decode octets with
      | .error fault => .error (.unreadable name (.encoding fault))
      | .ok text => .ok (Text.foldBreaks text)

/-- The files after writing one, or why that cannot be, with the files as they are. -/
def writeFile (files : Files) (path : Path) (octets : List UInt8) :
    Except (Failure × Files) Files :=
  if '\x00' ∈ path.toText then .error (.nulInPath, files)
  else (files.write path octets).mapError fun o => (.unwritable path o, files)

/-- The name that stands for standard input. -/
def stdinName : Text := ['-']

namespace Surroundings

/-- The text that a name stands for.  Standard input has nothing left if it was read before. -/
def readText (s : Surroundings) (readBefore : Bool) (name : Text) : Except Failure Text :=
  if name = stdinName then
    match Utf8.decode (if readBefore then [] else s.stdin) with
    | .error fault => .error (.badInput fault)
    | .ok text => .ok (s.fold text)
  else readFile s.files name (.ofText name)

end Surroundings

/-- The value of a JSON text from `source`. -/
def loadJson (standIns : StandIns) (source text : Text) : Except Failure Value :=
  (Value.ofJsonText text standIns).mapError (.badJson source text)

namespace Options

/-- The file that holds the data; data on the command line goes before it. -/
def dataName (o : Options) : Option Text :=
  match given o.data with
  | some _ => none
  | none => given o.dataFile

/-- The data of the template. -/
def context (o : Options) (s : Surroundings) : Except Failure Value :=
  match given o.data, o.dataName with
  | some text, _ => loadJson (o.standIns s) "--data".toList text
  | none, some name => do
    let text ← s.readText (o.template = stdinName) name
    loadJson (o.standIns s) name text
  | none, none => .ok .empty

end Options

/-! ### Partials -/

/-- How the names of files that hold partials end. -/
def partialSuffix : Text := ".mustache".toList

/-- The name of the partial in a file: the name of the file without the ending, unless there is
nothing in front of it. -/
def partialName (fileName : Text) : Text :=
  if fileName = partialSuffix then fileName else Text.dropEnding partialSuffix fileName

/-- The partials with the one from a file in a directory. -/
def loadPartial (files : Files) (dir : Path) (partials : Fields Value) (fileName : Text) :
    Job (Fields Value) := do
  let path := dir.child fileName
  let text ← Traced.ofExcept (readFile files path.toText path)
  Traced.tell (.partialLoaded (partialName fileName) path)
  return Fields.put (partialName fileName) (.scalar text) partials

/-- The partials in a directory. -/
def loadDirectory (files : Files) (dir : Path) : Job (Fields Value) :=
  match files.list? dir with
  | none => Traced.fail (.noDirectory dir)
  | some names => (names.filter partialSuffix.isSuffixOf).foldlM (loadPartial files dir) []

namespace Options

/-- The partials from a directory and from a JSON object, whose members go before. -/
def partials (o : Options) (s : Surroundings) : Job (Fields Value) := do
  let found ← match given o.partialsDir with
    | some name => loadDirectory s.files (.ofText name)
    | none => pure []
  match given o.partialsFile with
  | none => return found
  | some name =>
    let readBefore := o.template = stdinName ∨ o.dataName = some stdinName
    let text ← Traced.ofExcept (s.readText readBefore name)
    match ← Traced.ofExcept (loadJson (o.standIns s) name text) with
    | .mapping members => return Fields.putAll found members
    | _ => do
      Traced.tell (.partialsIgnored name)
      return found

/-! ### Runs -/

/-- The rendered text. -/
def rendered (o : Options) (s : Surroundings) : Job Text := do
  let template ← Traced.ofExcept (s.readText false o.template)
  let context ← Traced.ofExcept (o.context s)
  let partials ← o.partials s
  (render template context { partials := .mapping partials, maxDepth := o.maxDepth }).reword
    .template .template

/-- What goes to standard output, and the files afterwards.  A failure comes with the files that it
leaves: the output file is open, and so empty, before it turns out that a text has no octets. -/
def deliver (o : Options) (s : Surroundings) (text : Text) :
    Except (Failure × Files) (Text × Files) :=
  match given o.output, (o.standIns s).encode text with
  | none, .ok _ => .ok (text, s.files)
  | none, .error fault => .error (.unencodable fault, s.files)
  | some name, .ok octets => (writeFile s.files (.ofText name) octets).map fun files => ([], files)
  | some name, .error fault => do
    let files ← writeFile s.files (.ofText name) []
    .error (.unencodable fault, files)

/-- Everything that a run does once its settings are known.  Until it delivers, it leaves the files
as they are. -/
def job (o : Options) (s : Surroundings) : Traced LogLine (Failure × Files) (Text × Files) := do
  let text ← (o.rendered s).reword id fun failure => (failure, s.files)
  Traced.ofExcept (o.deliver s text)

end Options

namespace Surroundings

/-- The bound on nested partials from the variable, and the lines that complain of it. -/
def depthLimit (s : Surroundings) : Option Int × List Text :=
  match given s.depthVariable with
  | none => (none, [])
  | some text =>
    match Text.integer? text with
    | some n => (some n, [])
    | none =>
      (none, ["Ignoring MUSTACHIO_MAX_PARTIAL_DEPTH=".toList ++ Text.quoted text ++
        ": not an integer".toList])

end Surroundings

/-- What a run with the arguments leaves. -/
def run (s : Surroundings) (arguments : List Text) : Report :=
  let (limit, complaints) := s.depthLimit
  match Options.ofArguments limit arguments with
  | .error .help =>
    { code := 0, stdout := help, stderr := joinLines complaints, files := s.files }
  | .error (.usage e) =>
    { code := 2, files := s.files,
      stderr := joinLines complaints ++ usage ++
        joinLines ["mustachio: error: ".toList ++ e.message] }
  | .ok o =>
    let job := o.job s
    let log := complaints ++ job.notes.filterMap (LogLine.text? o.verbose)
    let standIns := o.standIns s
    match job.outcome with
    | .ok (stdout, files) =>
      { code := 0, stdout := stdout, stderr := standIns.spell (joinLines log), files := files }
    | .error (failure, files) =>
      { code := failure.exitCode, files := files,
        stderr := standIns.spell (joinLines (log ++ [failure.line])) }

end Command

end Mustache
