import Cpm.CommandLine.Arguments
import Cpm.CommandLine.Report
import Cpm.Console.Host
import Cpm.Machine
import Cpm.Settings

/-!
# Sessions

A session runs one program. It reads the settings, puts disks into the drives, loads
the image, runs the machine, and writes the disks back. What the arguments say goes
before what the settings say. The first error ends the session; its report follows
the log.
-/

namespace Cpm

structure Surroundings where
  files : HostFiles
  /-- The home directory. -/
  home : String

structure Ending where
  /-- Whether there was no error. -/
  success : Bool
  /-- What the console showed. -/
  output : Array UInt8
  /-- The text of the log and of the report. -/
  diagnostics : String
  files : HostFiles

namespace Report

def ofMachineError (doing : String) (e : MachineError) : Report :=
  ⟨doing, e.message :: (e.cause?.map IoError.message).toList⟩

def ofSettingsError (e : SettingsError) : Report := ⟨e.message, e.causes⟩

def tooManyDrives (n : Nat) : Report :=
  ⟨toString n ++ " drives given, at most " ++ toString Layout.drives ++ " are supported", []⟩

def nothingToRun : Report :=
  ⟨"nothing to run: give a program image or a boot disk with --drive", []⟩

def stopped (x : InvalidOpcode) : Report := ⟨"stopped on " ++ x.message, []⟩

end Report

namespace Session

/-- The settings, and the threshold that they and the arguments give. Tracing shows
everything. -/
def settings (a : Arguments) (s : Surroundings) :
    Except SettingsError (Settings × Log.Threshold) := do
  let settings ← Settings.load s.files s.home a.config
  let threshold ← settings.threshold a.verbose
  return (settings, if a.trace then .level .trace else threshold)

structure Setup where
  log : List Log.Record
  machine : Except Report (Machine HostConsole)

namespace Setup

/-- Goes on with the machine, unless something failed before. -/
def andThen (s : Setup)
    (f : Machine HostConsole → Except Report (Machine HostConsole × List Log.Record)) : Setup :=
  match s.machine with
  | .error _ => s
  | .ok m =>
    match f m with
    | .error report => ⟨s.log, .error report⟩
    | .ok (m, log) => ⟨s.log ++ log, .ok m⟩

end Setup

def drives (a : Arguments) (settings : Settings) : List String :=
  if a.drives.isEmpty then settings.drives else a.drives

def insertDisk (fs : HostFiles) (drive : Nat) (path : String) (setup : Setup) : Setup :=
  let doing := "opening " ++ (Machine.driveLetter drive).toString ++ ": " ++ path
  match Disk.openFile fs path with
  | .error e => setup.andThen fun _ => .error (.ofMachineError doing e)
  | .ok (disk, log) =>
    (setup.andThen fun m => .ok (m, log)).andThen fun m =>
      (m.mount drive disk).mapError (.ofMachineError doing)

def insertDisks (fs : HostFiles) (drive : Nat) : List String → Setup → Setup
  | [], setup => setup
  | path :: paths, setup => insertDisks fs (drive + 1) paths (insertDisk fs drive path setup)

/-- Loads the image, or leaves it to the disk in drive A. -/
def loadImage (a : Arguments) (settings : Settings) (fs : HostFiles) (setup : Setup) : Setup :=
  let addr := (a.loadAddress <|> settings.loadAddress).getD Layout.programArea
  setup.andThen fun m =>
    match a.image <|> settings.boot with
    | some path =>
      (m.loadProgramFile fs addr path).mapError (.ofMachineError ("loading " ++ path))
    | none => if (drives a settings).isEmpty then .error .nothingToRun else .ok (m, [])

def setUp (a : Arguments) (settings : Settings) (fs : HostFiles) (console : HostConsole) :
    Setup :=
  let mode := (a.mode <|> settings.mode).getD .z80
  let paths := drives a settings
  if Layout.drives < paths.length then ⟨[], .error (.tooManyDrives paths.length)⟩ else
  loadImage a settings fs (insertDisks fs 0 paths ⟨[], .ok (.initial console mode)⟩)

/-- What looks on while the machine runs. -/
def observer (a : Arguments) : Observer Unit := if a.trace then .tracer else .silent

/-- The end of a session whose machine has stopped: records, files and the error. -/
structure Closing where
  log : List Log.Record
  files : HostFiles
  report : Option Report

/-- Writes the disks back, and tells whether the machine stopped on an invalid
opcode. -/
def close (m : Machine HostConsole) (summary : RunSummary) (fs : HostFiles) : Closing :=
  let s := m.shutdown fs
  let report := match s.failure, summary.reason with
    | some e, _ => some (.ofMachineError "writing disk images back" e)
    | none, .invalidOpcode x => some (.stopped x)
    | none, _ => none
  ⟨s.log, s.files, report⟩

def failed (s : Surroundings) (log : String) (report : Report) : Ending :=
  ⟨false, #[], log ++ report.text, s.files⟩

/-- Runs a session whose console input is known from the start. A run of more than
`limit` instructions, or a repeating output of more than `fuel` rounds, gives
`none`. -/
def run (a : Arguments) (s : Surroundings) (input : List UInt8) (fuel limit : Nat) :
    Option Ending :=
  match settings a s with
  | .error e => some (failed s "" (.ofSettingsError e))
  | .ok (settings, threshold) =>
    let setup := setUp a settings s.files (.ofInput input)
    let before := Log.text threshold setup.log
    match setup.machine with
    | .error report => some (failed s before report)
    | .ok m =>
      (m.run (observer a) fuel limit ()).map fun r =>
        let closing := close r.machine r.summary s.files
        { success := closing.report.isNone
          output := r.machine.bios.console.output
          diagnostics := before ++ Log.text threshold (r.log.toList ++ closing.log) ++
            (closing.report.map Report.text).getD ""
          files := closing.files }

end Session

end Cpm
