/-!
# Host files

The files and directories of the host that the program can reach. A path is a
text of names between slashes; it starts at the root or at the working directory,
and every name but the last has to be a directory. Reading and writing touch one
file; directories never change.
-/

namespace Cpm

inductive IoError where
  | notFound | notDirectory | isDirectory
  /-- A file read as text holds bytes that are none. -/
  | invalidText
  deriving DecidableEq, Repr

namespace IoError

def message : IoError → String
  | .notFound => "No such file or directory (os error 2)"
  | .notDirectory => "Not a directory (os error 20)"
  | .isDirectory => "Is a directory (os error 21)"
  | .invalidText => "stream did not contain valid UTF-8"

end IoError

/-- The names that lead from the root to a file or directory. -/
abbrev Location := List String

structure HostFiles where
  files : List (Location × ByteArray)
  directories : List Location
  /-- Where paths that do not start at the root start. -/
  workingDirectory : Location

namespace HostFiles

inductive Entry where
  | file (bytes : ByteArray)
  | directory

/-- What lies at a location. The root is always a directory. -/
def entry? (fs : HostFiles) (at_ : Location) : Option Entry :=
  if at_.isEmpty || fs.directories.contains at_ then some .directory
  else (fs.files.lookup at_).map .file

structure Target where
  location : Location
  /-- The path ends in a slash, so it can only mean a directory. -/
  slash : Bool
  deriving DecidableEq, Repr

def follow (from_ : Location) (name : String) : Location :=
  if name = "." then from_ else if name = ".." then from_.dropLast else from_ ++ [name]

/-- Follows all names; each but the last has to lead to a directory. -/
def walk (fs : HostFiles) (from_ : Location) : List String → Except IoError Location
  | [] => .ok from_
  | [name] => .ok (follow from_ name)
  | name :: rest =>
    let next := follow from_ name
    match fs.entry? next with
    | some .directory => walk fs next rest
    | some (.file _) => .error .notDirectory
    | none => .error .notFound

def names (path : List Char) : List String :=
  let step (c : Char) (acc : List Char × List String) : List Char × List String :=
    if c = '/' then ([], if acc.1.isEmpty then acc.2 else String.ofList acc.1 :: acc.2)
    else (c :: acc.1, acc.2)
  let (first, rest) := path.foldr step ([], [])
  if first.isEmpty then rest else String.ofList first :: rest

/-- Finds where a path leads, whether or not something is there. -/
def locate (fs : HostFiles) (path : String) : Except IoError Target :=
  let chars := path.toList
  if chars.isEmpty then .error .notFound else
  let from_ := if chars.head? = some '/' then [] else fs.workingDirectory
  (walk fs from_ (names chars)).map fun location => ⟨location, chars.getLast? = some '/'⟩

def present (fs : HostFiles) (path : String) : Bool :=
  match fs.locate path with
  | .error _ => false
  | .ok t =>
    match fs.entry? t.location with
    | some .directory => true
    | some (.file _) => !t.slash
    | none => false

def read (fs : HostFiles) (path : String) : Except IoError ByteArray := do
  let t ← fs.locate path
  match fs.entry? t.location with
  | some .directory => .error .isDirectory
  | some (.file bytes) => if t.slash then .error .notDirectory else .ok bytes
  | none => .error .notFound

def put (fs : HostFiles) (at_ : Location) (bytes : ByteArray) : HostFiles :=
  { fs with files := (at_, bytes) :: fs.files.filter fun f => f.1 != at_ }

/-- Writes a whole file. Its directory has to exist. -/
def write (fs : HostFiles) (path : String) (bytes : ByteArray) : Except IoError HostFiles := do
  let t ← fs.locate path
  if t.slash then .error .isDirectory else
  match fs.entry? t.location with
  | some .directory => .error .isDirectory
  | _ => .ok (fs.put t.location bytes)

/-- Makes a directory and all directories above it. -/
def makeDirectory (fs : HostFiles) (at_ : Location) : HostFiles :=
  let above := (List.range at_.length).map fun n => at_.take (n + 1)
  { fs with directories := fs.directories ++ above.filter fun d => !fs.directories.contains d }

def empty (workingDirectory : Location) : HostFiles :=
  (HostFiles.mk [] [] workingDirectory).makeDirectory workingDirectory

end HostFiles

end Cpm
