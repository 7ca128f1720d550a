import Cpm.Bios.Layout
import Cpm.Console
import Cpm.Disk

/-!
# The state of the operating system

The system holds the console, the disks in the four drives, what to boot, and the
selection: the drive, track, sector and memory address that the next disk access
uses.
-/

namespace Cpm

inductive BootSource where
  /-- A program already in memory. -/
  | program (addr : UInt16)
  /-- The first sector of the disk in drive A. -/
  | disk
  deriving DecidableEq, Repr

/-- What the next disk access works on. -/
structure Selection where
  drive : Fin 4
  track : UInt16
  sector : UInt16
  dma : UInt16
  deriving DecidableEq, Repr

namespace Selection

def initial : Selection := ⟨0, 0, 1, Layout.defaultDma⟩

end Selection

structure Bios (κ : Type) where
  console : κ
  disks : Vector (Option Disk) 4
  boot : BootSource
  selection : Selection

namespace Bios

variable {κ : Type}

def initial (console : κ) : Bios κ := ⟨console, Vector.replicate 4 none, .disk, .initial⟩

def selectedDisk (b : Bios κ) : Option Disk := b.disks[b.selection.drive]

/-- The disk in a drive; drives that do not exist hold none. -/
def disk? (b : Bios κ) (drive : Nat) : Option Disk := b.disks[drive]?.bind id

def putDisk (b : Bios κ) (drive : Fin 4) (disk : Option Disk) : Bios κ :=
  { b with disks := b.disks.set drive disk }

def select (b : Bios κ) (f : Selection → Selection) : Bios κ :=
  { b with selection := f b.selection }

/-- The record of an access to a sector that disks do not have. -/
def outside (verb : String) (s : Selection) : Log.Record :=
  ⟨.warn, .bios, verb ++ " outside geometry: track " ++ toString s.track.toNat ++ " sector " ++
    toString s.sector.toNat⟩

structure Access (α : Type) where
  ok : Bool
  result : α
  log : List Log.Record

def readSelected (b : Bios κ) (m : Memory) : Access Memory :=
  match b.selectedDisk with
  | none => ⟨false, m, []⟩
  | some disk =>
    match disk.readSector b.selection.track b.selection.sector with
    | some data => ⟨true, m.load b.selection.dma data, []⟩
    | none => ⟨false, m, [outside "read" b.selection]⟩

def writeSelected (b : Bios κ) (m : Memory) : Access (Bios κ) :=
  match b.selectedDisk with
  | none => ⟨false, b, []⟩
  | some disk =>
    let data : Sector := ⟨m.read b.selection.dma 128, by simp⟩
    match disk.writeSector b.selection.track b.selection.sector data with
    | some disk => ⟨true, b.putDisk b.selection.drive (some disk), []⟩
    | none => ⟨false, b, [outside "write" b.selection]⟩

def statusByte (ok : Bool) : UInt8 := if ok then 0 else 1

def readyByte (ready : Bool) : UInt8 := if ready then 0xFF else 0x00

end Bios

def TrapReply.continuing {σ : Type} (core : Core) (host : σ) (log : List Log.Record) :
    TrapReply σ := ⟨.continue, core, host, log⟩

def TrapReply.halting {σ : Type} (core : Core) (host : σ) (log : List Log.Record) :
    TrapReply σ := ⟨.halt, core, host, log⟩

end Cpm
