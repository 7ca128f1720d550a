import Cpm.HostFiles
import Cpm.Log
import Cpm.Mode
import Cpm.Text.Quoted
import Cpm.Text.Utf8
import Cpm.Toml.Document

/-!
# Settings

Settings come from a file, either one that is named or one at the usual place. They
say what is run and how when the command line does not.
-/

namespace Cpm

structure Settings where
  mode : Option Mode
  /-- The program to run. -/
  boot : Option String
  /-- The disk images, for drive A and those after it. -/
  drives : List String
  loadAddress : Option UInt16
  logLevel : Option String
  deriving DecidableEq, Repr, Inhabited

inductive SettingsError where
  /-- The file could not be read. -/
  | unreadable (path : String) (cause : IoError)
  /-- The file holds no settings. -/
  | malformed (path : String)
  | unknownLevel (name : String)
  deriving DecidableEq, Repr

namespace SettingsError

def message : SettingsError → String
  | .unreadable path _ => "reading config " ++ path
  | .malformed path => "parsing config " ++ path
  | .unknownLevel name => "unknown log level " ++ quoted name

def causes : SettingsError → List String
  | .unreadable _ cause => [cause.message]
  | .malformed _ => []
  | .unknownLevel _ =>
    ["attempted to convert a string that doesn't match an existing log level"]

end SettingsError

namespace Toml.Value

def string? : Value → Option String
  | .string s => some s
  | _ => none

def strings? : Value → Option (List String)
  | .array items => items.mapM string?
  | _ => none

def word? : Value → Option UInt16
  | .integer n => if 0 ≤ n ∧ n ≤ 0xFFFF then some (UInt16.ofNat n.toNat) else none
  | _ => none

def isVoid : Value → Bool
  | .array items => items.isEmpty
  | .table _ entries => entries.isEmpty
  | _ => false

/-- A mode is given by its name, or by a table with that name as its only key and
nothing under it. -/
def mode? : Value → Option Mode
  | .string s => Mode.ofName? s
  | .table _ [(name, v)] => if v.isVoid then Mode.ofName? name else none
  | _ => none

end Toml.Value

namespace Settings

def empty : Settings := ⟨none, none, [], none, none⟩

/-- Takes one setting. Only settings that exist are taken. -/
def set (s : Settings) (name : String) (v : Toml.Value) : Option Settings :=
  match name with
  | "mode" => v.mode?.map fun m => { s with mode := some m }
  | "boot" => v.string?.map fun p => { s with boot := some p }
  | "drives" => v.strings?.map fun ps => { s with drives := ps }
  | "load_address" => v.word?.map fun a => { s with loadAddress := some a }
  | "log_level" => v.string?.map fun l => { s with logLevel := some l }
  | _ => none

def ofEntries? (es : Toml.Entries) : Option Settings :=
  es.foldlM (fun s e => s.set e.1 e.2) empty

def parse? (text : String) : Option Settings := (Toml.parse? text).bind ofEntries?

/-- Reads settings from a file, which has to exist. -/
def ofFile (fs : HostFiles) (path : String) : Except SettingsError Settings :=
  match fs.read path with
  | .error cause => .error (.unreadable path cause)
  | .ok bytes =>
    match Utf8.decode? bytes with
    | none => .error (.unreadable path .invalidText)
    | some text =>
      match parse? text with
      | none => .error (.malformed path)
      | some s => .ok s

/-- The usual place of settings, below the home directory. -/
def usualPath (home : String) : String := home ++ "/.config/cpm80/config.toml"

/-- Reads settings from the named file or, where none is named, from the usual place
if there is something. -/
def load (fs : HostFiles) (home : String) (path : Option String) : Except SettingsError Settings :=
  match path with
  | some path => ofFile fs path
  | none => if fs.present (usualPath home) then ofFile fs (usualPath home) else .ok empty

/-- The level in the settings, or warnings, raised by a number of steps. -/
def threshold (s : Settings) (steps : Nat) : Except SettingsError Log.Threshold :=
  match s.logLevel with
  | none => .ok (Log.Threshold.raise (.level .warn) steps)
  | some name =>
    match Log.Threshold.ofName? name with
    | some t => .ok (t.raise steps)
    | none => .error (.unknownLevel name)

end Settings

end Cpm
