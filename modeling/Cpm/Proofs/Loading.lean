import Cpm.Proofs.Booting

/-!
# Loading and mounting

A host prepares a machine by requests: it loads programs and puts disks into drives. A request
works on the machine in place, so whatever it did before it failed would stay done. All that can
fail comes first, and so a request that fails leaves the machine as it was; one that does not
changes the bytes of the image and the boot source, or one drive, and nothing else.
-/

namespace Cpm

namespace Disk

/-- A short image is followed by format bytes. -/
theorem getElem_padded {bytes : ByteArray} {i : Nat} (hi : i < (padded bytes).size) :
    (padded bytes)[i] = if h : i < bytes.size then bytes[i] else 0xE5 := by
  have hdata : (padded bytes).data =
      bytes.data ++ Array.replicate (size - bytes.size) formatByte := ByteArray.data_append
  have hbytes : bytes.data.size = bytes.size := rfl
  have hget : (padded bytes).data[i]? = some (padded bytes)[i] := Array.getElem?_eq_getElem hi
  rw [hdata] at hget
  by_cases h : i < bytes.size
  · rw [Array.getElem?_append_left h, Array.getElem?_eq_getElem h] at hget
    rw [dif_pos h]
    exact (Option.some.inj hget).symm
  · rw [Array.getElem?_append_right (Nat.le_of_not_lt h), Array.getElem?_replicate] at hget
    rw [dif_neg h]
    split at hget
    · exact (Option.some.inj hget).symm
    · cases hget

/-- An image that is no larger than a disk makes a disk. -/
theorem ofBytes_of_size_le {bytes : ByteArray} (h : bytes.size ≤ size) :
    ofBytes bytes = .ok ⟨padded bytes, size_padded h, none, false⟩ := by
  simp only [ofBytes, ofImage?, dif_pos h]

theorem ofBytes_of_size_gt {bytes : ByteArray} (h : ¬ bytes.size ≤ size) :
    ofBytes bytes = .error (.diskGeometry "<memory>" bytes.size size) := by
  simp only [ofBytes, ofImage?, dif_neg h]

end Disk

/-! ### In place -/

/-- Work on a machine in place. What was done before a failure stays done. -/
abbrev Work (κ : Type) := ExceptT MachineError (StateM (Machine κ))

namespace Work

variable {κ α β : Type}

/-- The result of the work and the machine it leaves, also when it fails. -/
def perform (w : Work κ α) (m : Machine κ) : Except MachineError α × Machine κ :=
  StateT.run (ExceptT.run w) m

def ofExcept (x : Except MachineError α) : Work κ α := ExceptT.mk (pure x)

def copy (a : UInt16) : List UInt8 → Work κ Unit
  | [] => pure ()
  | v :: vs => do
    modify (·.onMemory (·.put8 a v))
    copy (a + 1) vs

/-- Checks that the image ends below the system, copies it and makes it what is booted. -/
def load (addr : UInt16) (image : ByteArray) : Work κ Unit := do
  if addr.toNat + image.size > Layout.bdosEntry.toNat then
    throw (.imageTooLarge addr image.size Layout.bdosEntry)
  copy addr image.data.toList
  modify fun m => { m with bios := { m.bios with boot := .program addr } }

/-- Checks that the drive exists and puts the disk into it. -/
def mount (drive : Nat) (disk : Disk) : Work κ Unit :=
  if h : drive < 4 then
    modify fun m => { m with bios := m.bios.putDisk ⟨drive, h⟩ (some disk) }
  else throw (.noSuchDrive drive)

variable (m : Machine κ)

theorem perform_bind (w : Work κ α) (f : α → Work κ β) :
    (w >>= f).perform m = match w.perform m with
      | (.ok a, after) => (f a).perform after
      | (.error e, after) => (.error e, after) := by
  unfold perform StateT.run ExceptT.run
  simp only [bind, ExceptT.bind, ExceptT.mk, StateT.bind, ExceptT.bindCont]
  cases w m with
  | mk result after => cases result <;> rfl

theorem perform_modify (f : Machine κ → Machine κ) :
    perform (modify f : Work κ PUnit) m = (.ok (), f m) := rfl

theorem perform_throw (e : MachineError) : perform (throw e : Work κ α) m = (.error e, m) := rfl

theorem perform_ofExcept (x : Except MachineError α) : (ofExcept x : Work κ α).perform m = (x, m) :=
  rfl

theorem perform_copy (a : UInt16) (data : List UInt8) :
    (copy a data : Work κ Unit).perform m = (.ok (), m.onMemory (·.putList a data)) := by
  induction data generalizing m a with
  | nil => rfl
  | cons v vs ih =>
    rw [copy, perform_bind, perform_modify]
    exact ih _ _

end Work

namespace Machine

variable {κ : Type}

/-- What an operation that does all or nothing makes of the machine. -/
def settle (m : Machine κ) : Result κ → Except MachineError Unit × Machine κ
  | .ok (after, _) => (.ok (), after)
  | .error e => (.error e, m)

inductive Request where
  | load (addr : UInt16) (image : ByteArray)
  | loadFile (addr : UInt16) (path : String)
  | loadCom (image : ByteArray)
  | mount (drive : Nat) (disk : Disk)
  /-- Opens the disk in a host file and puts it into a drive. -/
  | mountFile (drive : Nat) (path : String)
  /-- Makes a disk from an image and puts it into a drive. -/
  | mountImage (drive : Nat) (image : ByteArray)

namespace Request

def answer (fs : HostFiles) (m : Machine κ) : Request → Result κ
  | load addr image => m.loadProgram addr image
  | loadFile addr path => m.loadProgramFile fs addr path
  | loadCom image => m.loadCom image
  | mount drive disk => m.mount drive disk
  | mountFile drive path => (Disk.openFile fs path).bind fun opened => m.mount drive opened.1
  | mountImage drive image => (Disk.ofBytes image).bind fun disk => m.mount drive disk

def work (fs : HostFiles) : Request → Work κ Unit
  | load addr image => Work.load addr image
  | loadFile addr path => do
    let image ← Work.ofExcept ((fs.read path).mapError (.io path))
    Work.load addr image
  | loadCom image => Work.load Layout.programArea image
  | mount drive disk => Work.mount drive disk
  | mountFile drive path => do
    let opened ← Work.ofExcept (Disk.openFile fs path)
    Work.mount drive opened.1
  | mountImage drive image => do
    let disk ← Work.ofExcept (Disk.ofBytes image)
    Work.mount drive disk

end Request

variable (m : Machine κ)

theorem perform_load (addr : UInt16) (image : ByteArray) :
    (Work.load addr image).perform m = m.settle (m.loadProgram addr image) := by
  unfold Work.load loadProgram
  by_cases hlarge : addr.toNat + image.size > Layout.bdosEntry.toNat
  · rw [if_pos hlarge, if_pos hlarge, Work.perform_bind, Work.perform_throw]
    rfl
  · have hload : (fun mem : Memory => mem.load addr image) =
        fun mem => mem.putList addr image.data.toList :=
      funext fun mem => mem.load_eq_putList addr image
    rw [if_neg hlarge, if_neg hlarge, Work.perform_bind, hload, Work.perform_copy]
    rfl

theorem perform_mount (drive : Nat) (disk : Disk) :
    (Work.mount drive disk).perform m = m.settle (m.mount drive disk) := by
  unfold Work.mount Machine.mount
  by_cases h : drive < 4
  · rw [dif_pos h, dif_pos h]
    rfl
  · rw [dif_neg h, dif_neg h]
    rfl

/-- Work that first needs something that does not depend on the machine. -/
theorem perform_ofExcept_bind {α : Type} {x : Except MachineError α} {w : α → Work κ Unit}
    {f : α → Result κ} (h : ∀ a, (w a).perform m = m.settle (f a)) :
    (Work.ofExcept x >>= w).perform m = m.settle (x.bind f) := by
  rw [Work.perform_bind, Work.perform_ofExcept]
  cases x with
  | error e => rfl
  | ok a => exact h a

/-- In place a request has the machine that it makes as its result, and it has changed nothing
if it makes none. -/
theorem perform_work (fs : HostFiles) (r : Request) :
    (r.work fs).perform m = m.settle (r.answer fs m) := by
  cases r with
  | load addr image => exact m.perform_load addr image
  | loadFile addr path =>
    have hanswer : m.loadProgramFile fs addr path =
        ((fs.read path).mapError (.io path)).bind (m.loadProgram addr) := by
      unfold loadProgramFile
      cases fs.read path <;> rfl
    show _ = m.settle (m.loadProgramFile fs addr path)
    rw [hanswer]
    exact m.perform_ofExcept_bind fun image => m.perform_load addr image
  | loadCom image => exact m.perform_load Layout.programArea image
  | mount drive disk => exact m.perform_mount drive disk
  | mountFile drive path =>
    exact m.perform_ofExcept_bind fun opened => m.perform_mount drive opened.1
  | mountImage drive image => exact m.perform_ofExcept_bind fun disk => m.perform_mount drive disk

theorem settle_eq_error {r : Result κ} {e : MachineError} {after : Machine κ}
    (h : m.settle r = (.error e, after)) : r = .error e ∧ after = m := by
  cases r with
  | ok made => cases h
  | error cause =>
    cases h
    exact ⟨rfl, rfl⟩

/-! ### What loading and mounting change -/

/-- The image lies in memory at the address and is what is booted; nothing else is changed, and
nothing from the entry of the BDOS up. -/
structure Loads (addr : UInt16) (image : ByteArray) (loaded : Machine κ) : Prop where
  bytes : ∀ x, loaded.mem.get8 x =
    if h : addr.toNat ≤ x.toNat ∧ x.toNat - addr.toNat < image.size then
      image[x.toNat - addr.toNat]
    else m.mem.get8 x
  system : ∀ x, 0xFD00 ≤ x.toNat → loaded.mem.get8 x = m.mem.get8 x
  boot : loaded.bios.boot = .program addr
  others : loaded = ⟨{ m.cpu with core := { m.cpu.core with mem := loaded.mem } },
    { m.bios with boot := .program addr }⟩

/-- The disk is in the drive; the other drives and all else are as they were. -/
structure Mounts (drive : Nat) (disk : Disk) (mounted : Machine κ) : Prop where
  disks : ∀ d : Fin 4,
    mounted.bios.disks.get d = if d.val = drive then some disk else m.bios.disks.get d
  others : mounted = { m with bios := { m.bios with disks := mounted.bios.disks } }

variable {m}

/-- A block below the top of memory, stored there. -/
theorem get8_load_of_fits {mem : Memory} {addr x : UInt16} {image : ByteArray}
    (fits : addr.toNat + image.size ≤ 0x10000) : (mem.load addr image).get8 x =
      if h : addr.toNat ≤ x.toNat ∧ x.toNat - addr.toNat < image.size then
        image[x.toNat - addr.toNat]
      else mem.get8 x := by
  have hx : x.toNat < 2 ^ 16 := x.toNat_lt
  have haddr : addr.toNat < 2 ^ 16 := addr.toNat_lt
  have hlength : image.data.toList.length = image.size := Array.length_toList
  rw [Memory.load_eq_putList, Memory.get8_putList mem addr x (by omega), Array.getElem?_toList]
  by_cases h : addr.toNat ≤ x.toNat ∧ x.toNat - addr.toNat < image.size
  · have hsub : (x - addr).toNat = x.toNat - addr.toNat := by
      rw [UInt16.toNat_sub]
      omega
    rw [dif_pos h, hsub, Array.getElem?_eq_getElem h.2]
    rfl
  · have hnone : image.data[(x - addr).toNat]? = none := by
      apply Array.getElem?_eq_none
      show image.size ≤ (x - addr).toNat
      rw [UInt16.toNat_sub]
      omega
    rw [dif_neg h, hnone]
    rfl

theorem loads_of_eq_ok {loaded : Machine κ} {addr : UInt16} {image : ByteArray}
    {log : List Log.Record} (h : m.loadProgram addr image = .ok (loaded, log)) :
    m.Loads addr image loaded := by
  obtain ⟨hfits, hboot, hmem⟩ := loadProgram_eq_ok h
  have hbytes : ∀ x, loaded.mem.get8 x = _ := fun x => by
    rw [hmem, get8_load_of_fits (by omega)]
  refine ⟨hbytes, fun x hx => ?_, hboot, ?_⟩
  · rw [hbytes x, dif_neg (by omega)]
  · unfold loadProgram at h
    split at h
    · cases h
    · cases h
      rfl

theorem loadProgram_eq_ok_iff {addr : UInt16} {image : ByteArray} :
    (∃ loaded log, m.loadProgram addr image = .ok (loaded, log)) ↔
      addr.toNat + image.size ≤ 0xFD00 := by
  constructor
  · rintro ⟨loaded, log, h⟩
    exact (loadProgram_eq_ok h).1
  · exact m.exists_loadProgram addr image

theorem mounts_of_eq_ok {mounted : Machine κ} {drive : Nat} {disk : Disk}
    {log : List Log.Record} (h : m.mount drive disk = .ok (mounted, log)) :
    drive < 4 ∧ m.Mounts drive disk mounted := by
  unfold mount at h
  split at h
  · next hdrive =>
    cases h
    refine ⟨hdrive, fun d => ?_, rfl⟩
    rw [Bios.disks_putDisk]
    simp only [Fin.ext_iff, eq_comm]
  · cases h

theorem mount_eq_ok_iff {drive : Nat} {disk : Disk} :
    (∃ mounted log, m.mount drive disk = .ok (mounted, log)) ↔ drive < 4 := by
  constructor
  · rintro ⟨mounted, log, h⟩
    exact (mounts_of_eq_ok h).1
  · intro hdrive
    unfold mount
    rw [dif_pos hdrive]
    exact ⟨_, _, rfl⟩

/-- Loading and mounting do all or nothing. A program is loaded exactly if it ends at or below
the entry of the BDOS, and a disk is mounted exactly if its drive exists; then the bytes of the
image and the boot source are changed, or that drive, and nothing else. An image makes a disk
exactly if it is no larger than one, and is followed by format bytes. Every request, worked step
by step on the machine in place, comes to the machine that it answers, and leaves the one there
was if it fails. -/
theorem loading_and_mounting_do_all_or_nothing (m : Machine κ) (fs : HostFiles) :
    (∀ addr image,
      ((∃ loaded log, m.loadProgram addr image = .ok (loaded, log)) ↔
        addr.toNat + image.size ≤ 0xFD00) ∧
      ∀ loaded log, m.loadProgram addr image = .ok (loaded, log) → m.Loads addr image loaded) ∧
    (∀ image,
      ((∃ loaded log, m.loadCom image = .ok (loaded, log)) ↔ 0x0100 + image.size ≤ 0xFD00) ∧
      ∀ loaded log, m.loadCom image = .ok (loaded, log) → m.Loads 0x0100 image loaded) ∧
    (∀ drive disk,
      ((∃ mounted log, m.mount drive disk = .ok (mounted, log)) ↔ drive < 4) ∧
      ∀ mounted log, m.mount drive disk = .ok (mounted, log) → m.Mounts drive disk mounted) ∧
    (∀ image,
      ((∃ disk, Disk.ofBytes image = .ok disk) ↔ image.size ≤ 256256) ∧
      ∀ disk, Disk.ofBytes image = .ok disk → disk.image.size = 256256 ∧
        ∀ i (hi : i < disk.image.size),
          disk.image[i] = if h : i < image.size then image[i] else 0xE5) ∧
    ∀ request : Request,
      (request.work fs).perform m = m.settle (request.answer fs m) ∧
      ∀ e after, (request.work fs).perform m = (.error e, after) →
        request.answer fs m = .error e ∧ after = m := by
  refine ⟨fun addr image => ⟨loadProgram_eq_ok_iff, fun loaded log h => loads_of_eq_ok h⟩,
    fun image => ⟨loadProgram_eq_ok_iff, fun loaded log h => loads_of_eq_ok h⟩,
    fun drive disk => ⟨mount_eq_ok_iff, fun mounted log h => (mounts_of_eq_ok h).2⟩,
    fun image => ?_, fun request => ⟨m.perform_work fs request, fun e after h => ?_⟩⟩
  · by_cases hsize : image.size ≤ Disk.size
    · rw [Disk.ofBytes_of_size_le hsize]
      refine ⟨iff_of_true ⟨_, rfl⟩ hsize, fun disk h => ?_⟩
      cases h
      exact ⟨Disk.size_padded hsize, fun i hi => Disk.getElem_padded hi⟩
    · rw [Disk.ofBytes_of_size_gt hsize]
      refine ⟨iff_of_false ?_ hsize, fun disk h => ?_⟩
      · rintro ⟨disk, h⟩
        cases h
      · cases h
  · rw [m.perform_work fs request] at h
    exact m.settle_eq_error h

/-- An image of one byte lies right below the system; two do not fit there, and a machine asked to
load them is the one there was. -/
theorem image_up_to_the_system_is_loaded :
    let m : Machine ScriptedConsole := initial default .z80
    let fs := HostFiles.empty []
    let tooLarge := Request.load 0xFCFF ⟨#[0xAA, 0xBB]⟩
    (∃ loaded log, m.loadProgram 0xFCFF ⟨#[0xAA]⟩ = .ok (loaded, log) ∧
      loaded.mem.get8 0xFCFF = 0xAA ∧ loaded.bios.boot = .program 0xFCFF) ∧
    (∃ mounted log, m.mount 3 .blank = .ok (mounted, log) ∧
      mounted.bios.disks.get 3 = some .blank ∧ mounted.bios.disks.get 0 = none) ∧
    ∃ e after, (tooLarge.work fs).perform m = (.error e, after) ∧ after = m := by
  intro m fs tooLarge
  obtain ⟨hload, -, hmount, -, hwork⟩ := loading_and_mounting_do_all_or_nothing m fs
  obtain ⟨loaded, log, hloaded⟩ := (hload 0xFCFF ⟨#[0xAA]⟩).1.mpr (by decide)
  have hloads := (hload _ _).2 loaded log hloaded
  obtain ⟨mounted, mountLog, hmounted⟩ := (hmount 3 .blank).1.mpr (by decide)
  have hmounts := (hmount _ _).2 mounted mountLog hmounted
  have hfailed : (tooLarge.work fs).perform m =
      (.error (.imageTooLarge 0xFCFF 2 Layout.bdosEntry), m) := rfl
  exact ⟨⟨loaded, log, hloaded, hloads.bytes 0xFCFF, hloads.boot⟩,
    ⟨mounted, mountLog, hmounted, hmounts.disks 3, hmounts.disks 0⟩,
    _, _, hfailed, ((hwork tooLarge).2 _ _ hfailed).2⟩

end Machine

end Cpm
