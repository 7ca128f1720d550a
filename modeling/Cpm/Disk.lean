import Cpm.Log
import Cpm.MachineError

/-!
# Disks

An eight-inch disk has 77 tracks, counted from zero, of 26 sectors, counted from
one, of 128 bytes. A disk is held in memory as one image. It may belong to a host
file; then it remembers whether it differs from the file and is written back as a
whole.
-/

namespace Cpm

structure Sector where
  bytes : ByteArray
  size_bytes : bytes.size = 128

namespace Disk

def tracks : Nat := 77

def sectorsPerTrack : Nat := 26

def sectorSize : Nat := 128

def size : Nat := 256256

/-- What a newly formatted disk is filled with. -/
def formatByte : UInt8 := 0xE5

theorem size_eq : tracks * sectorsPerTrack * sectorSize = size := rfl

end Disk

structure Disk where
  image : ByteArray
  size_image : image.size = Disk.size
  /-- The host file the disk belongs to. -/
  path : Option String
  /-- The disk was changed since it was read from, or written to, its file. -/
  modified : Bool

namespace Disk

/-- Image bytes followed by as many format bytes as a disk takes. -/
def padded (bytes : ByteArray) : ByteArray :=
  bytes ++ ⟨Array.replicate (size - bytes.size) formatByte⟩

theorem size_padded {bytes : ByteArray} (h : bytes.size ≤ size) : (padded bytes).size = size := by
  have : ByteArray.size ⟨Array.replicate (size - bytes.size) formatByte⟩ = size - bytes.size :=
    Array.size_replicate
  rw [padded, ByteArray.size_append, this]
  omega

def blank : Disk :=
  ⟨padded ByteArray.empty, size_padded (by decide), none, false⟩

instance : Inhabited Disk := ⟨blank⟩

/-- A disk with the given image, where it is not too large. A short image is
followed by formatted sectors. -/
def ofImage? (bytes : ByteArray) : Option Disk :=
  if h : bytes.size ≤ size then some ⟨padded bytes, size_padded h, none, false⟩ else none

def ofBytes (bytes : ByteArray) : Except MachineError Disk :=
  match ofImage? bytes with
  | some disk => .ok disk
  | none => .error (.diskGeometry "<memory>" bytes.size size)

/-- Opens the disk in a host file. A file that does not exist starts out as a
formatted disk, to be made when the disk is first written back. -/
def openFile (fs : HostFiles) (path : String) : Except MachineError (Disk × List Log.Record) :=
  if fs.present path then
    match fs.read path with
    | .error cause => .error (.io path cause)
    | .ok bytes =>
      match ofImage? bytes with
      | some disk => .ok ({ disk with path := some path }, [])
      | none => .error (.diskGeometry path bytes.size size)
  else
    .ok ({ blank with path := some path, modified := true },
      [⟨.info, .disk, path ++ " does not exist, starting with a formatted disk"⟩])

/-- Where a sector starts in the image, if the disk has it. -/
def offset? (track sector : UInt16) : Option Nat :=
  if track.toNat < tracks ∧ 1 ≤ sector.toNat ∧ sector.toNat ≤ sectorsPerTrack then
    some ((track.toNat * sectorsPerTrack + (sector.toNat - 1)) * sectorSize)
  else none

theorem offset?_add_le {track sector : UInt16} {start : Nat}
    (h : offset? track sector = some start) : start + sectorSize ≤ size := by
  unfold offset? at h
  split at h
  · next hb =>
    obtain ⟨ht, _, hs⟩ := hb
    simp only [tracks, sectorsPerTrack, Option.some.injEq] at ht hs h
    simp only [sectorSize, size] at h ⊢
    omega
  · simp at h

def readSector (d : Disk) (track sector : UInt16) : Option ByteArray :=
  (offset? track sector).map fun start => d.image.extract start (start + sectorSize)

def splice (image : ByteArray) (start : Nat) (data : ByteArray) : ByteArray :=
  image.extract 0 start ++ data ++ image.extract (start + data.size) image.size

theorem size_splice {image data : ByteArray} {start : Nat} (h : start + data.size ≤ image.size) :
    (splice image start data).size = image.size := by
  simp only [splice, ByteArray.size_append, ByteArray.size_extract]
  omega

/-- Replaces one sector; a disk has no sector outside its geometry. -/
def writeSector (d : Disk) (track sector : UInt16) (data : Sector) : Option Disk :=
  match h : offset? track sector with
  | none => none
  | some start =>
    some { d with
      image := splice d.image start data.bytes
      size_image := by
        have := offset?_add_le h
        have hd := data.size_bytes
        have hs := d.size_image
        simp only [sectorSize] at this
        rw [size_splice (by omega), hs]
      modified := true }

/-- Writes a modified disk back to its file, by the given way to write one. -/
def flushBy (d : Disk) (write : HostFiles → String → ByteArray → Except IoError HostFiles)
    (fs : HostFiles) : Except MachineError (Disk × HostFiles × List Log.Record) :=
  match d.path, d.modified with
  | some path, true =>
    match write fs path d.image with
    | .error cause => .error (.io path cause)
    | .ok fs => .ok ({ d with modified := false }, fs, [⟨.debug, .disk, "flushed " ++ path⟩])
  | _, _ => .ok (d, fs, [])

def flush (d : Disk) (fs : HostFiles) :
    Except MachineError (Disk × HostFiles × List Log.Record) :=
  d.flushBy HostFiles.write fs

end Disk

end Cpm
