import Mustache.Text.Quoted

/-!
# Files

A path is what a user types, and `Path.ofText` reads it.  A location is the list of the names on
the way down from the root, and `Files.follow` leads from a path to one.  `Files` holds what is
stored at locations; above everything that is stored there are directories, listed or not.
-/

namespace Mustache

namespace Command

/-! ### Paths -/

/-- A path; names that are empty or one dot lead nowhere and are left out. -/
structure Path where
  /-- The slashes in front; a path without them starts at the working directory. -/
  root : Text
  names : List Text
  deriving DecidableEq

namespace Path

/-- The path that a text spells.  Two slashes in front are kept apart from any other number. -/
def ofText (s : Text) : Path where
  root :=
    match s.takeWhile (· = '/') with
    | [] => []
    | [_, _] => ['/', '/']
    | _ => ['/']
  names := (s.splitOn '/').filter fun name => name ≠ [] ∧ name ≠ ['.']

/-- The path as a text. -/
def toText (p : Path) : Text :=
  if p.root = [] ∧ p.names = [] then ['.'] else p.root ++ ['/'].intercalate p.names

/-- The path of what is called `name` in a directory. -/
def child (p : Path) (name : Text) : Path := { p with names := p.names ++ [name] }

example : (ofText "a//./b/".toList).toText = "a/b".toList := by decide +kernel
example : (ofText []).toText = ['.'] := by decide +kernel

end Path

/-! ### What is stored -/

/-- The names on the way from the root. -/
abbrev Location := List Text

/-- What is stored at a location. -/
inductive Entry where
  | file (octets : List UInt8)
  | directory
  deriving DecidableEq

/-- What is stored at all locations, and the working directory. -/
structure Files where
  workingDirectory : Location := []
  entries : List (Location × Entry) := []

/-- Why a file cannot be read or written. -/
inductive Obstacle where
  | absent
  | notADirectory
  | isADirectory
  deriving DecidableEq

/-- The wording of an obstacle at a path. -/
def Obstacle.message (path : Path) (o : Obstacle) : Text :=
  let what := match o with
    | absent => "[Errno 2] No such file or directory: "
    | notADirectory => "[Errno 20] Not a directory: "
    | isADirectory => "[Errno 21] Is a directory: "
  what.toList ++ Text.quoted path.toText

namespace Files

/-- What is at a location. -/
def entry? (fs : Files) (l : Location) : Option Entry :=
  match fs.entries.lookup l with
  | some entry => some entry
  | none =>
    if l.isPrefixOf fs.workingDirectory || fs.entries.any fun other => l.isPrefixOf other.1
    then some .directory else none

/-- The location that names lead to from another one.  All but the last of them have to be the names
of directories; `..` leads up. -/
def descend (fs : Files) (l : Location) : List Text → Except Obstacle Location
  | [] => .ok l
  | name :: rest =>
    match fs.entry? l with
    | none => .error .absent
    | some (.file _) => .error .notADirectory
    | some .directory => fs.descend (if name = ['.', '.'] then l.dropLast else l ++ [name]) rest

/-- The location that a path leads to. -/
def follow (fs : Files) (p : Path) : Except Obstacle Location :=
  fs.descend (if p.root = [] then fs.workingDirectory else []) p.names

/-- The content of the file at a path. -/
def read (fs : Files) (p : Path) : Except Obstacle (List UInt8) := do
  match fs.entry? (← fs.follow p) with
  | some (.file octets) => return octets
  | some .directory => .error .isADirectory
  | none => .error .absent

/-- The files after writing one; there need not be one yet. -/
def write (fs : Files) (p : Path) (octets : List UInt8) : Except Obstacle Files := do
  let l ← fs.follow p
  if fs.entry? l = some .directory then .error .isADirectory
  else
    return { fs with entries := (l, .file octets) :: fs.entries.filter fun other => other.1 ≠ l }

/-- The names in the directory at a path, sorted; there are none if there is no directory. -/
def list? (fs : Files) (p : Path) : Option (List Text) :=
  match fs.follow p with
  | .error _ => none
  | .ok l =>
    if fs.entry? l = some .directory then
      let below := (fs.workingDirectory :: fs.entries.map Prod.fst).filter l.isPrefixOf
      let names := below.filterMap fun other => (other.drop l.length).head?
      some (names.eraseDups.mergeSort Text.notAfter)
    else none

/-- The files of `after` that are new or have another content than before. -/
def changes (before after : Files) : List (Location × List UInt8) :=
  after.entries.filterMap fun
    | (l, .file octets) => if before.entry? l = some (.file octets) then none else some (l, octets)
    | (_, .directory) => none

end Files

end Command

end Mustache
