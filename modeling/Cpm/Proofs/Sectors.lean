import Cpm.Bios
import Cpm.Proofs.MemoryBlocks

/-!
# The sectors of the mounted disks

The sectors that disks have lie side by side in the image. An access finds the selected
sector exactly if the drive holds a disk and disks have the sector; then reading stores
its bytes in memory, and writing replaces its bytes and no other byte of any disk.
-/

namespace Cpm

structure SectorAddress where
  drive : Fin 4
  track : UInt16
  sector : UInt16
  deriving DecidableEq, Repr

namespace SectorAddress

/-- Disks have 77 tracks, counted from zero, of 26 sectors, counted from one. -/
def Exists (a : SectorAddress) : Prop :=
  a.track.toNat < 77 ∧ 1 ≤ a.sector.toNat ∧ a.sector.toNat ≤ 26

instance (a : SectorAddress) : Decidable a.Exists := inferInstanceAs (Decidable (_ ∧ _ ∧ _))

/-- The place in the image of the first byte of a sector. -/
def start (a : SectorAddress) : Nat := (a.track.toNat * 26 + (a.sector.toNat - 1)) * 128

theorem offset?_eq (a : SectorAddress) :
    Disk.offset? a.track a.sector = if a.Exists then some a.start else none := rfl

theorem start_add_le {a : SectorAddress} (h : a.Exists) : a.start + 128 ≤ Disk.size := by
  have hoffset := a.offset?_eq
  rw [if_pos h] at hoffset
  exact Disk.offset?_add_le hoffset

/-- Different sectors of a disk do not overlap. -/
theorem apart {a b : SectorAddress} (ha : a.Exists) (hb : b.Exists) (hdrive : a.drive = b.drive)
    (hne : a ≠ b) : a.start + 128 ≤ b.start ∨ b.start + 128 ≤ a.start := by
  obtain ⟨-, ha1, ha26⟩ := ha
  obtain ⟨-, hb1, hb26⟩ := hb
  have hplace : a.track.toNat ≠ b.track.toNat ∨ a.sector.toNat ≠ b.sector.toNat := by
    by_cases htrack : a.track = b.track
    · refine .inr fun hsector => hne ?_
      cases a
      cases b
      simp_all [UInt16.toNat_inj]
    · exact .inl fun h => htrack (UInt16.toNat_inj.mp h)
  unfold start
  omega

end SectorAddress

def Selection.address (s : Selection) : SectorAddress := ⟨s.drive, s.track, s.sector⟩

namespace Bios

variable {κ : Type} (b : Bios κ)

def mounted (d : Fin 4) : Bool := (b.disks.get d).isSome

/-- The drive holds a disk, and disks have the sector. -/
def Holds (a : SectorAddress) : Prop := b.mounted a.drive = true ∧ a.Exists

instance (a : SectorAddress) : Decidable (b.Holds a) := inferInstanceAs (Decidable (_ ∧ _))

def byte? (drive : Fin 4) (i : Nat) : Option UInt8 :=
  (b.disks.get drive).bind (·.image.data[i]?)

def sectorBytes (a : SectorAddress) : List UInt8 :=
  (b.disks.get a.drive).elim [] fun disk =>
    (disk.image.extract a.start (a.start + 128)).data.toList

variable {b} {a : SectorAddress}

theorem length_sectorBytes (h : b.Holds a) : (b.sectorBytes a).length = 128 := by
  obtain ⟨disk, hdisk⟩ := Option.isSome_iff_exists.mp h.1
  have hend := SectorAddress.start_add_le h.2
  have hsize := disk.size_image
  rw [sectorBytes, hdisk, Option.elim_some, Array.length_toList]
  show (disk.image.extract _ _).size = 128
  rw [ByteArray.size_extract]
  omega

theorem getElem?_sectorBytes (i : Nat) :
    (b.sectorBytes a)[i]? = if i < 128 then b.byte? a.drive (a.start + i) else none := by
  unfold sectorBytes byte?
  cases b.disks.get a.drive with
  | none => simp
  | some disk =>
    simp only [Option.elim_some, Option.bind_some, Array.getElem?_toList, ByteArray.data_extract,
      Array.getElem?_extract]
    by_cases hin : i < min (a.start + 128) disk.image.data.size - a.start
    · rw [if_pos hin, if_pos (by omega)]
    · rw [if_neg hin]
      split
      · exact (Array.getElem?_eq_none (by omega)).symm
      · rfl

/-! ### Accesses -/

/-- An access to a drive with a disk fails only because disks do not have the sector. -/
theorem offset?_of_not_holds (h : ¬ b.Holds b.selection.address) {disk : Disk}
    (hdisk : b.selectedDisk = some disk) :
    Disk.offset? b.selection.track b.selection.sector = none := by
  have hmounted : b.mounted b.selection.drive = true :=
    Option.isSome_iff_exists.mpr ⟨disk, hdisk⟩
  exact (SectorAddress.offset?_eq _).trans (if_neg fun hexists => h ⟨hmounted, hexists⟩)

theorem offset?_of_holds (h : b.Holds b.selection.address) :
    Disk.offset? b.selection.track b.selection.sector = some b.selection.address.start :=
  (SectorAddress.offset?_eq _).trans (if_pos h.2)

/-- Reading stores the bytes of the selected sector. -/
theorem readSelected_of_holds (h : b.Holds b.selection.address) (m : Memory) :
    b.readSelected m =
      ⟨true, m.putList b.selection.dma (b.sectorBytes b.selection.address), []⟩ := by
  obtain ⟨disk, hdisk⟩ := Option.isSome_iff_exists.mp h.1
  have hselected : b.selectedDisk = some disk := hdisk
  simp only [readSelected, hselected, Disk.readSector, offset?_of_holds h, Option.map_some]
  rw [Memory.load_eq_putList, sectorBytes, hdisk]
  rfl

theorem readSelected_of_not_holds (h : ¬ b.Holds b.selection.address) (m : Memory) :
    (b.readSelected m).ok = false ∧ (b.readSelected m).result = m := by
  unfold readSelected
  cases hselected : b.selectedDisk with
  | none => exact ⟨rfl, rfl⟩
  | some disk =>
    simp only [Disk.readSector, offset?_of_not_holds h hselected, Option.map_none]
    exact ⟨trivial, trivial⟩

/-- Reading changes no byte but the 128 at the address set for it, and none if it fails. -/
theorem get8_readSelected {m : Memory} {x : UInt16}
    (h : (b.readSelected m).ok = true → 128 ≤ (x - b.selection.dma).toNat) :
    (b.readSelected m).result.get8 x = m.get8 x := by
  by_cases hholds : b.Holds b.selection.address
  · have hlength := length_sectorBytes hholds
    rw [readSelected_of_holds hholds] at h ⊢
    rw [Memory.get8_putList m _ _ (by omega),
      List.getElem?_eq_none (by rw [hlength]; exact h rfl)]
    rfl
  · rw [(readSelected_of_not_holds hholds m).2]

/-- A sector that a disk has is replaced in its image. -/
theorem exists_writeSector (disk : Disk) (data : Sector) {track sector : UInt16} {start : Nat}
    (h : Disk.offset? track sector = some start) :
    ∃ written, disk.writeSector track sector data = some written ∧
      written.image = Disk.splice disk.image start data.bytes := by
  unfold Disk.writeSector
  split
  · next hnone => simp [h] at hnone
  · next found hfound =>
    cases h.symm.trans hfound
    exact ⟨_, rfl, rfl⟩

/-- Writing replaces the bytes of the selected sector by those in memory. -/
theorem writeSelected_of_holds (h : b.Holds b.selection.address) (m : Memory) :
    ∃ disk written, b.disks.get b.selection.drive = some disk ∧
      written.image = Disk.splice disk.image b.selection.address.start
        (m.read b.selection.dma 128) ∧
      b.writeSelected m = ⟨true, b.putDisk b.selection.drive (some written), []⟩ := by
  obtain ⟨disk, hdisk⟩ := Option.isSome_iff_exists.mp h.1
  have hselected : b.selectedDisk = some disk := hdisk
  obtain ⟨written, hwritten, himage⟩ :=
    exists_writeSector disk ⟨m.read b.selection.dma 128, by simp⟩ (offset?_of_holds h)
  refine ⟨disk, written, hdisk, himage, ?_⟩
  simp only [writeSelected, hselected, hwritten]

theorem writeSelected_of_not_holds (h : ¬ b.Holds b.selection.address) (m : Memory) :
    (b.writeSelected m).ok = false ∧ (b.writeSelected m).result = b := by
  unfold writeSelected
  cases hselected : b.selectedDisk with
  | none => exact ⟨rfl, rfl⟩
  | some disk =>
    have hwrite : ∀ data, disk.writeSector b.selection.track b.selection.sector data = none := by
      intro data
      unfold Disk.writeSector
      split
      · rfl
      · next hfound => simp [offset?_of_not_holds h hselected] at hfound
    simp only [hwrite]
    exact ⟨trivial, trivial⟩

/-! ### What a write changes -/

/-- The disk in a drive after a disk was put into one. -/
theorem disks_putDisk (drive d : Fin 4) (disk : Option Disk) :
    (b.putDisk drive disk).disks.get d = if drive = d then disk else b.disks.get d := by
  have hget := b.disks.getElem_set drive.isLt d.isLt (x := disk)
  simp only [Fin.val_inj] at hget
  exact hget

/-- A write neither brings nor takes a disk. -/
theorem mounted_writeSelected (m : Memory) : (b.writeSelected m).result.mounted = b.mounted := by
  funext d
  unfold mounted
  by_cases h : b.Holds b.selection.address
  · obtain ⟨disk, written, hdisk, -, hwrite⟩ := writeSelected_of_holds h m
    rw [hwrite, disks_putDisk]
    split
    · next hd => rw [← hd, hdisk]; rfl
    · rfl
  · rw [(writeSelected_of_not_holds h m).2]

theorem selection_writeSelected (m : Memory) :
    (b.writeSelected m).result.selection = b.selection := by
  by_cases h : b.Holds b.selection.address
  · obtain ⟨disk, written, -, -, hwrite⟩ := writeSelected_of_holds h m
    rw [hwrite]
    rfl
  · rw [(writeSelected_of_not_holds h m).2]

/-- A write changes the bytes of one sector. -/
theorem byte?_writeSelected (h : b.Holds b.selection.address) (m : Memory) (d : Fin 4) (i : Nat) :
    let start := b.selection.address.start
    (b.writeSelected m).result.byte? d i =
      if d = b.selection.drive ∧ start ≤ i ∧ i < start + 128 then
        some (m.get8 (b.selection.dma + UInt16.ofNat (i - start)))
      else b.byte? d i := by
  intro start
  obtain ⟨disk, written, hdisk, himage, hwrite⟩ := writeSelected_of_holds h m
  have hend : start + (m.read b.selection.dma 128).size ≤ disk.image.size := by
    rw [Memory.size_read, disk.size_image]
    exact SectorAddress.start_add_le h.2
  rw [hwrite, byte?, disks_putDisk]
  by_cases hd : d = b.selection.drive
  · subst hd
    rw [if_pos rfl, Option.bind_some, himage, Disk.splice, getElem?_replaced rfl hend,
      Memory.size_read, byte?, hdisk, Option.bind_some]
    split
    · next hin =>
      rw [if_pos ⟨rfl, hin⟩, ← Array.getElem?_toList, Memory.toList_read,
        Memory.getElem?_getList _ _ (by omega)]
    · next hin => rw [if_neg fun hall => hin hall.2]
  · rw [if_neg (Ne.symm hd), if_neg fun hall => hd hall.1]
    rfl

/-- After a write its sector holds what lay in memory, and every other sector what it
held before. -/
theorem sectorBytes_writeSelected (h : b.Holds b.selection.address) (m : Memory)
    (ha : a.Exists) :
    (b.writeSelected m).result.sectorBytes a =
      if a = b.selection.address then m.getList b.selection.dma 128 else b.sectorBytes a := by
  apply List.ext_getElem?
  intro i
  by_cases hi : i < 128
  · rw [getElem?_sectorBytes, if_pos hi, byte?_writeSelected h]
    by_cases hsame : a = b.selection.address
    · subst hsame
      have hat : b.selection.address.start + i - b.selection.address.start = i := by omega
      rw [if_pos ⟨rfl, by omega, by omega⟩, if_pos rfl, Memory.getElem?_getList _ _ hi, hat]
    · rw [if_neg hsame, getElem?_sectorBytes, if_pos hi, if_neg]
      rintro ⟨hdrive, hin⟩
      have hapart := SectorAddress.apart ha h.2 hdrive hsame
      omega
  · rw [getElem?_sectorBytes, if_neg hi]
    split
    · exact (List.getElem?_eq_none (by rw [Memory.length_getList]; omega)).symm
    · rw [getElem?_sectorBytes, if_neg hi]

end Bios

end Cpm
