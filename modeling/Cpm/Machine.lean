import Cpm.Bios.Trap
import Cpm.Cpu

/-!
# The machine

A machine is a processor with the operating system behind its ports. Programs are
loaded into memory below the system, disks are mounted in drives, and a run starts
with the cold boot. Disks that belong to host files are written back when the
machine is shut down.
-/

namespace Cpm

structure Machine (κ : Type) where
  cpu : Cpu
  bios : Bios κ

/-- A machine after an operation that can fail, and the records made. -/
abbrev Machine.Result (κ : Type) := Except MachineError (Machine κ × List Log.Record)

namespace Machine

variable {κ : Type}

def initial (console : κ) (mode : Mode) : Machine κ := ⟨.initial mode, .initial console⟩

def onMemory (m : Machine κ) (f : Memory → Memory) : Machine κ :=
  { m with cpu := { m.cpu with core := { m.cpu.core with mem := f m.cpu.core.mem } } }

/-- Places a program in memory and makes it what is booted. It has to end below the
system. -/
def loadProgram (m : Machine κ) (addr : UInt16) (image : ByteArray) : Result κ :=
  if addr.toNat + image.size > Layout.bdosEntry.toNat then
    .error (.imageTooLarge addr image.size Layout.bdosEntry)
  else
    let loaded := m.onMemory (·.load addr image)
    .ok ({ loaded with bios := { loaded.bios with boot := .program addr } },
      [⟨.info, .machine,
        "loaded " ++ toString image.size ++ " bytes at " ++ Hex.word addr⟩])

def loadProgramFile (m : Machine κ) (fs : HostFiles) (addr : UInt16) (path : String) : Result κ :=
  match fs.read path with
  | .error cause => .error (.io path cause)
  | .ok image => m.loadProgram addr image

def loadCom (m : Machine κ) (image : ByteArray) : Result κ :=
  m.loadProgram Layout.programArea image

/-- The letter of a drive, A for the first. Letters are characters of one byte. -/
def driveLetter (drive : Nat) : Char := Char.ofNat ((65 + drive) % 256)

/-- Puts a disk into a drive, in the place of the one it holds. -/
def mount (m : Machine κ) (drive : Nat) (disk : Disk) : Result κ :=
  if h : drive < 4 then
    let log := match disk.path with
      | some path =>
        [⟨.info, .machine, "drive " ++ (driveLetter drive).toString ++ ": " ++ path⟩]
      | none => []
    .ok ({ m with bios := m.bios.putDisk ⟨drive, h⟩ (some disk) }, log)
  else .error (.noSuchDrive drive)

def haltRecord (s : RunSummary) : Log.Record :=
  ⟨.info, .machine, "halted: " ++ s.reason.label ++ " after " ++ toString s.instructions ++
    " instructions, " ++ toString s.states ++ " T-states"⟩

structure RunResult (κ τ : Type) where
  summary : RunSummary
  machine : Machine κ
  observed : τ
  log : Array Log.Record

variable [Console κ]

def step (m : Machine κ) (fuel : Nat) : Option (Machine κ × List Log.Record) :=
  (m.cpu.step Bios.ports fuel m.bios).map fun s => (⟨s.cpu, s.host⟩, s.log)

def start {τ : Type} (m : Machine κ) (observed : τ) : Run (Bios κ) τ :=
  let m := m.onMemory Layout.install
  .start m.cpu m.bios observed

def ofRun {τ : Type} (r : Run (Bios κ) τ) : Machine κ := ⟨r.cpu, r.host⟩

/-- Boots the machine and runs it until it stops, for at most `limit` instructions. -/
def run {τ : Type} (m : Machine κ) (observer : Observer τ) (fuel limit : Nat) (observed : τ) :
    Option (RunResult κ τ) :=
  ((m.start observed).finish Bios.ports observer fuel limit #[]).map fun r =>
    ⟨r.summary, ⟨r.cpu, r.host⟩, r.observed, r.log.push (haltRecord r.summary)⟩

end Machine

/-- What a shutdown left: the disks and files up to the first that failed. -/
structure Shutdown where
  disks : List (Option Disk)
  files : HostFiles
  log : List Log.Record
  failure : Option MachineError

namespace Shutdown

/-- Writes back one disk after another until one fails. -/
def ofDisks (fs : HostFiles) : List (Option Disk) → Shutdown
  | [] => ⟨[], fs, [], none⟩
  | none :: rest =>
    let s := ofDisks fs rest
    { s with disks := none :: s.disks }
  | some disk :: rest =>
    match disk.flush fs with
    | .error e => ⟨some disk :: rest, fs, [], some e⟩
    | .ok (disk, fs, log) =>
      let s := ofDisks fs rest
      { s with disks := some disk :: s.disks, log := log ++ s.log }

@[simp] theorem length_disks_ofDisks (fs : HostFiles) (disks : List (Option Disk)) :
    (ofDisks fs disks).disks.length = disks.length := by
  induction disks generalizing fs with
  | nil => rfl
  | cons d rest ih =>
    cases d with
    | none => simp [ofDisks, ih]
    | some disk =>
      simp only [ofDisks]
      cases disk.flush fs with
      | error e => rfl
      | ok r => simp [ih]

end Shutdown

namespace Machine

variable {κ : Type}

def shutdown (m : Machine κ) (fs : HostFiles) : Shutdown := .ofDisks fs m.bios.disks.toList

def afterShutdown (m : Machine κ) (fs : HostFiles) : Machine κ :=
  { m with bios := { m.bios with
    disks := ⟨(m.shutdown fs).disks.toArray, by simp [shutdown]⟩ } }

end Machine

end Cpm
