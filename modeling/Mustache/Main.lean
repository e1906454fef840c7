import Mustache.Command.Program

/-!
# Running the program

`main` looks up what the settings name, lets `Command.run` decide, and does what the report says.
-/

namespace Mustache

namespace Command

/-- The location as an absolute path. -/
def diskName (l : Location) : String := String.ofList ('/' :: ['/'].intercalate l)

/-- The locations on the way that names lead from another one. -/
def route (l : Location) : List Text → List Location
  | [] => [l]
  | name :: rest => l :: route (if name = ['.', '.'] then l.dropLast else l ++ [name]) rest

/-- What is on the disk at a location. -/
def lookUp (l : Location) : IO (List (Location × Entry)) := do
  let path := (← IO.currentDir) / diskName l
  if ← path.isDir then return [(l, .directory)]
  else if ← path.pathExists then
    return [(l, .file (← IO.FS.readBinFile (diskName l)).toList)]
  else return []

/-- The files that hold partials in a directory. -/
def partialLocations (l : Location) : IO (List Location) := do
  let path := (← IO.currentDir) / diskName l
  unless ← path.isDir do return []
  let names := (← path.readDir).toList.map fun entry => entry.fileName.toList
  return (names.filter partialSuffix.isSuffixOf).map fun name => l ++ [name]

/-- What the disk holds of all that the settings name. -/
def lookUpAll (workingDirectory : Location) (o : Options) : IO Files := do
  let way (name : Text) : List Location :=
    let path := Path.ofText name
    route (if path.root = [] then workingDirectory else []) path.names
  let named := o.template :: [o.dataName, o.partialsFile, o.partialsDir, o.output].filterMap given
  let inDirectory ← match given o.partialsDir with
    | some name => partialLocations ((way name).getLast?.getD [])
    | none => pure []
  let found ← (named.flatMap way ++ inDirectory).eraseDups.mapM lookUp
  return { workingDirectory := workingDirectory, entries := found.flatten }

/-- Does a setting name standard input? -/
def readsStdin (o : Options) : Bool :=
  stdinName = o.template || o.dataName = some stdinName || o.partialsFile = some stdinName

end Command

end Mustache

open Mustache Command in
/-- Renders the template that the arguments name. -/
def main (arguments : List String) : IO UInt32 := do
  let arguments := arguments.map String.toList
  let here := (Path.ofText (← IO.currentDir).toString.toList).names
  let limit := (← IO.getEnv "MUSTACHIO_MAX_PARTIAL_DEPTH").map String.toList
  let surroundings ← match Options.ofArguments none arguments with
    | .ok o => do
      let files ← lookUpAll here o
      let stdin ← if readsStdin o then (← IO.getStdin).readBinToEnd else pure .empty
      pure { files := files, stdin := stdin.toList, foldsStdin := false, depthVariable := limit }
    | .error _ => pure { depthVariable := limit }
  let report := run surroundings arguments
  for (l, octets) in surroundings.files.changes report.files do
    IO.FS.writeBinFile (diskName l) ⟨octets.toArray⟩
  IO.print (String.ofList report.stdout)
  IO.eprint (String.ofList report.stderr)
  return report.code.toUInt32
