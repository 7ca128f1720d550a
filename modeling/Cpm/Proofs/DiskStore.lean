import Cpm.Proofs.SystemCalls

/-!
# The disks as a store

A program reaches the disks through traps made one after another, in any order and with
any registers and memory. What is selected, and what each sector holds, can be told from
the traps made so far: the latest one that set a value, or stored a sector, counts. Every
trap but booting keeps the system in agreement with this history, so it agrees after any
number of them.
-/

namespace Cpm

namespace Core

def function? (c : Core) : Option BiosFunction := BiosFunction.ofTrapPc? c.regs.pc

/-- The drive that a trap selects: only one that holds a disk can be selected. -/
def selectsDrive (mounted : Fin 4 → Bool) (c : Core) : Option (Fin 4) :=
  match c.function? with
  | some .seldsk =>
    let number := c.regs.main.c.toNat
    if h : number < 4 then if mounted ⟨number, h⟩ then some ⟨number, h⟩ else none else none
  | _ => none

/-- The track that a trap sets; HOME sets the first. -/
def setsTrack (c : Core) : Option UInt16 :=
  match c.function? with
  | some .settrk => some c.regs.main.bc
  | some .home => some 0
  | _ => none

def setsSector (c : Core) : Option UInt16 :=
  match c.function? with
  | some .setsec => some c.regs.main.bc
  | _ => none

def setsDma (c : Core) : Option UInt16 :=
  match c.function? with
  | some .setdma => some c.regs.main.bc
  | _ => none

end Core

/-- The cores in which traps were made one after another, the latest first. -/
abbrev Traps := List Core

namespace Traps

/-- The value that the latest trap to set it gave, or the one it has at the start. -/
def latest {α : Type} (traps : Traps) (sets : Core → Option α) (start : α) : α :=
  (traps.findSome? sets).getD start

theorem latest_cons {α : Type} (c : Core) (traps : Traps) (sets : Core → Option α) (start : α) :
    latest (c :: traps) sets start = (sets c).getD (traps.latest sets start) := by
  rw [latest, List.findSome?_cons]
  cases sets c <;> rfl

def selection (mounted : Fin 4 → Bool) (traps : Traps) : Selection where
  drive := traps.latest (·.selectsDrive mounted) Selection.initial.drive
  track := traps.latest Core.setsTrack Selection.initial.track
  sector := traps.latest Core.setsSector Selection.initial.sector
  dma := traps.latest Core.setsDma Selection.initial.dma

end Traps

namespace Bios

variable {κ : Type} [Console κ]

def after (b : Bios κ) : Traps → Bios κ
  | [] => b
  | c :: earlier => (trap c (b.after earlier)).host

/-- The bytes of a sector after traps: those that the latest successful write put there,
or those of the image at the start. -/
def stored (b : Bios κ) : Traps → SectorAddress → List UInt8
  | [], a => b.sectorBytes a
  | c :: earlier, a =>
    let s := Traps.selection b.mounted earlier
    let status := (trap c (b.after earlier)).core.regs.main.a
    if c.function? = some .write ∧ status = 0 ∧ s.address = a then c.mem.getList s.dma 128
    else b.stored earlier a

section Trap

variable (c : Core) (b : Bios κ)

theorem trap_of_function {c : Core} {f : BiosFunction} (h : c.function? = some f) (b : Bios κ) :
    trap c b = b.callFunction f c :=
  trap_eq_serve (s := .function f) (BiosFunction.ofTrapPc?_eq_some_iff.mp h) b

/-- A trap that calls no function changes neither the disks nor the selection. -/
theorem trap_of_no_function {c : Core} (h : c.function? = none) (b : Bios κ) :
    (trap c b).host.disks = b.disks ∧ (trap c b).host.selection = b.selection := by
  have h : BiosFunction.ofTrapPc? c.regs.pc = none := h
  simp only [trap, h]
  split
  · obtain ⟨⟨console, hhost⟩, -⟩ := b.serveBdos_isBdosReply c
    show (b.serveBdos c).host.disks = b.disks ∧ (b.serveBdos c).host.selection = b.selection
    rw [hhost]
    exact ⟨rfl, rfl⟩
  · exact ⟨rfl, rfl⟩

/-- Only writing a sector changes the disks. -/
theorem disks_trap (h : c.function? ≠ some .write) : (trap c b).host.disks = b.disks := by
  cases hf : c.function? with
  | none => exact (trap_of_no_function hf b).1
  | some f =>
    rw [trap_of_function hf]
    exact b.serve_disks c (s := .function f) fun hs => h (hf.trans (by cases hs; rfl))

theorem mounted_trap : (trap c b).host.mounted = b.mounted := by
  by_cases h : c.function? = some .write
  · rw [trap_of_function h]
    exact mounted_writeSelected c.mem
  · funext d
    rw [mounted, disks_trap c b h, mounted]

/-- What a trap selects. -/
theorem selection_trap (h : c.function? ≠ some .boot) :
    (trap c b).host.selection =
      { drive := (c.selectsDrive b.mounted).getD b.selection.drive
        track := c.setsTrack.getD b.selection.track
        sector := c.setsSector.getD b.selection.sector
        dma := c.setsDma.getD b.selection.dma } := by
  cases hf : c.function? with
  | none =>
    rw [(trap_of_no_function hf b).2]
    simp only [Core.selectsDrive, Core.setsTrack, Core.setsSector, Core.setsDma, hf]
    rfl
  | some f =>
    rw [trap_of_function hf]
    simp only [Core.selectsDrive, Core.setsTrack, Core.setsSector, Core.setsDma, hf]
    show (b.serveFunction f c).host.selection = _
    cases f
    case boot => exact absurd hf h
    case conin =>
      simp only [serveFunction]
      split <;> rfl
    case seldsk =>
      simp only [serveFunction, selectDrive]
      split
      · next hnumber =>
        have hdisk : b.mounted ⟨_, hnumber⟩ = b.disks[c.regs.main.c.toNat].isSome := rfl
        rw [hdisk]
        split <;> rfl
      · rfl
    case write => exact selection_writeSelected c.mem
    all_goals rfl

/-- The status of an access: A is zero exactly if the selected sector is there. -/
theorem status_trap (h : c.function? = some .read ∨ c.function? = some .write) :
    (trap c b).core.regs.main.a = if b.Holds b.selection.address then 0 else 1 := by
  obtain hf | hf := h
  · rw [trap_of_function hf]
    show statusByte (b.readSelected c.mem).ok = _
    split
    · next hholds => rw [readSelected_of_holds hholds]; rfl
    · next hholds => rw [(readSelected_of_not_holds hholds c.mem).1]; rfl
  · rw [trap_of_function hf]
    show statusByte (b.writeSelected c.mem).ok = _
    split
    · next hholds =>
      obtain ⟨disk, written, -, -, hwrite⟩ := writeSelected_of_holds hholds c.mem
      rw [hwrite]
      rfl
    · next hholds => rw [(writeSelected_of_not_holds hholds c.mem).1]; rfl

/-- What a sector holds after a trap. -/
theorem sectorBytes_trap {a : SectorAddress} (ha : a.Exists) :
    (trap c b).host.sectorBytes a =
      if c.function? = some .write ∧ (trap c b).core.regs.main.a = 0 ∧ b.selection.address = a then
        c.mem.getList b.selection.dma 128
      else b.sectorBytes a := by
  by_cases hf : c.function? = some .write
  · have hhost : (trap c b).host = (b.writeSelected c.mem).result := by
      rw [trap_of_function hf]
      rfl
    rw [hhost, status_trap c b (.inr hf)]
    by_cases hholds : b.Holds b.selection.address
    · rw [sectorBytes_writeSelected hholds c.mem ha]
      simp only [hf, hholds, if_true, true_and, eq_comm]
    · rw [(writeSelected_of_not_holds hholds c.mem).2]
      have hfailed : ¬ ((1 : UInt8) = 0) := by decide
      simp only [hholds, hfailed, if_false, false_and, and_false]
  · rw [sectorBytes, disks_trap c b hf, if_neg fun h => hf h.1]
    rfl

end Trap

structure Follows (b : Bios κ) (traps : Traps) : Prop where
  mounted : (b.after traps).mounted = b.mounted
  selection : (b.after traps).selection = Traps.selection b.mounted traps
  stored : ∀ a : SectorAddress, a.Exists → (b.after traps).sectorBytes a = b.stored traps a

/-- One more trap keeps the system in agreement with the history. -/
theorem Follows.trap {b : Bios κ} {traps : Traps} (inv : b.Follows traps) {c : Core}
    (h : c.function? ≠ some .boot) : b.Follows (c :: traps) where
  mounted := (mounted_trap c _).trans inv.mounted
  selection := by
    rw [after, selection_trap c _ h, inv.mounted, inv.selection]
    simp only [Traps.selection, Traps.latest_cons]
  stored a ha := by
    rw [after, sectorBytes_trap c _ ha, inv.stored a ha, inv.selection]
    rfl

/-- The system agrees with the history after any traps but booting. -/
theorem follows (b : Bios κ) (hb : b.selection = .initial) {traps : Traps}
    (h : ∀ c ∈ traps, c.function? ≠ some .boot) : b.Follows traps := by
  induction traps with
  | nil => exact ⟨rfl, hb, fun _ _ => rfl⟩
  | cons c earlier ih =>
    have hearlier := ih fun d hd => h d (List.mem_cons_of_mem c hd)
    exact hearlier.trap (h c List.mem_cons_self)

/-- An access finds the sector that the history selects. -/
theorem Follows.holds_iff {b : Bios κ} {traps : Traps} (inv : b.Follows traps) :
    (b.after traps).Holds (b.after traps).selection.address ↔
      b.Holds (Traps.selection b.mounted traps).address := by
  simp only [Holds, inv.selection, inv.mounted]

/-- An access that does not find its sector changes nothing. -/
theorem trap_of_not_holds {c : Core} {b : Bios κ}
    (hf : c.function? = some .read ∨ c.function? = some .write)
    (h : ¬ b.Holds b.selection.address) :
    (trap c b).core.mem = c.mem ∧ (trap c b).host.disks = b.disks := by
  obtain hf | hf := hf
  · rw [trap_of_function hf]
    exact ⟨(readSelected_of_not_holds h c.mem).2, rfl⟩
  · rw [trap_of_function hf]
    exact ⟨rfl, congrArg disks (writeSelected_of_not_holds h c.mem).2⟩

/-- Reading brings the sector that is there to memory, and changes no other byte. -/
theorem trap_of_read {c : Core} {b : Bios κ} (hf : c.function? = some .read)
    (h : b.Holds b.selection.address) :
    (trap c b).core.mem.getList b.selection.dma 128 = b.sectorBytes b.selection.address ∧
      ∀ x, 128 ≤ (x - b.selection.dma).toNat → (trap c b).core.mem.get8 x = c.mem.get8 x := by
  have hmem : (trap c b).core.mem = (b.readSelected c.mem).result := by
    rw [trap_of_function hf]
    rfl
  constructor
  · have hlength := length_sectorBytes h
    rw [hmem, readSelected_of_holds h, ← hlength]
    exact c.mem.getList_putList _ (by omega)
  · intro x hx
    rw [hmem]
    exact get8_readSelected fun _ => hx

/-- Writing replaces the bytes of the sector that is there, and changes no other byte. -/
theorem trap_of_write {c : Core} {b : Bios κ} (hf : c.function? = some .write)
    (h : b.Holds b.selection.address) :
    (trap c b).core.mem = c.mem ∧
      ∀ d i, (trap c b).host.byte? d i =
        if d = b.selection.drive ∧ b.selection.address.start ≤ i ∧
            i < b.selection.address.start + 128 then
          some (c.mem.get8 (b.selection.dma + UInt16.ofNat (i - b.selection.address.start)))
        else b.byte? d i := by
  rw [trap_of_function hf]
  exact ⟨rfl, byte?_writeSelected h c.mem⟩

/-- Seen through any traps but booting, the disks are a store of sectors. Reading and
writing report success exactly if the latest selections name a sector of a mounted disk.
Reading then brings what the latest successful write to the sector stored, or what the
image held at the start, to the 128 bytes at the address set and nowhere else; writing
replaces the bytes of that one sector. An access that fails changes nothing, and nothing
but writing changes a disk. -/
theorem disks_follow_traps (b : Bios κ) (hb : b.selection = .initial) (traps : Traps)
    (h : ∀ c ∈ traps, c.function? ≠ some .boot) (c : Core) :
    let before := b.after traps
    let reply := trap c before
    let status := reply.core.regs.main.a
    let s := Traps.selection b.mounted traps
    let start := (s.track.toNat * 26 + (s.sector.toNat - 1)) * 128
    let found := b.mounted s.drive = true ∧
      s.track.toNat < 77 ∧ 1 ≤ s.sector.toNat ∧ s.sector.toNat ≤ 26
    (c.function? = some .read ∨ c.function? = some .write →
      (found ∧ status = 0) ∨
        (¬ found ∧ status = 1 ∧ reply.core.mem = c.mem ∧ reply.host.disks = before.disks)) ∧
    (c.function? = some .read → status = 0 →
      reply.core.mem.getList s.dma 128 = b.stored traps s.address ∧
      ∀ x, 128 ≤ (x - s.dma).toNat → reply.core.mem.get8 x = c.mem.get8 x) ∧
    (c.function? = some .write → status = 0 →
      reply.core.mem = c.mem ∧
      ∀ d i, reply.host.byte? d i =
        if d = s.drive ∧ start ≤ i ∧ i < start + 128 then
          some (c.mem.get8 (s.dma + UInt16.ofNat (i - start)))
        else before.byte? d i) ∧
    (c.function? ≠ some .write → reply.host.disks = before.disks) := by
  intro before reply status s start found
  have inv := b.follows hb h
  have hfound : before.Holds before.selection.address ↔ found := inv.holds_iff
  have hstatus := status_trap c before
  -- A status of zero is success, so the sector is there.
  have hholds : c.function? = some .read ∨ c.function? = some .write → status = 0 →
      before.Holds before.selection.address := by
    intro hf hzero
    by_cases hh : before.Holds before.selection.address
    · exact hh
    · have hone := (hstatus hf).trans (if_neg hh)
      exact absurd (hone.symm.trans hzero) (by decide)
  refine ⟨fun hf => ?_, fun hf hzero => ?_, fun hf hzero => ?_, disks_trap c before⟩
  · by_cases hh : before.Holds before.selection.address
    · exact .inl ⟨hfound.mp hh, (hstatus hf).trans (if_pos hh)⟩
    · refine .inr ⟨fun hno => hh (hfound.mpr hno), (hstatus hf).trans (if_neg hh), ?_⟩
      exact trap_of_not_holds hf hh
  · have hh := hholds (.inl hf) hzero
    have hread := trap_of_read hf hh
    rw [inv.stored _ hh.2, inv.selection] at hread
    exact hread
  · have hh := hholds (.inr hf) hzero
    have hwrite := trap_of_write hf hh
    rw [inv.selection] at hwrite
    exact hwrite

/-- A sector is written on the last track and read back into other memory. -/
theorem written_sector_is_read_back :
    let mem := Memory.blank.put8 0x0080 0x2A
    let at_ (f : BiosFunction) (m : Memory) : Core :=
      ⟨{ Registers.zero with pc := f.vector + 2, main := Bank.zero.setBc 76 }, m, .z80⟩
    let b : Bios ScriptedConsole := (initial default).putDisk 0 (some .blank)
    let traps : Traps := [at_ .write mem, at_ .settrk .blank]
    b.selection = .initial ∧ (∀ c ∈ traps, c.function? ≠ some .boot) ∧
      (trap (at_ .read .blank) (b.after traps)).core.mem.get8 0x0080 = 0x2A := by
  intro mem at_ b traps
  have hboot : ∀ c ∈ traps, c.function? ≠ some .boot := by decide
  refine ⟨rfl, hboot, ?_⟩
  have hselected : Traps.selection b.mounted traps = ⟨0, 76, 1, 0x0080⟩ := by decide
  have hearlier : Traps.selection b.mounted [at_ .settrk .blank] = ⟨0, 76, 1, 0x0080⟩ := by decide
  -- The write succeeds, so it is the latest to the sector that is read.
  have hwrite := disks_follow_traps b rfl [at_ .settrk .blank] (by decide) (at_ .write mem)
  have hread := disks_follow_traps b rfl traps hboot (at_ .read .blank)
  simp only [hearlier] at hwrite
  simp only [hselected] at hread
  obtain ⟨-, hstored⟩ | ⟨hmissing, -⟩ := hwrite.1 (.inr (by decide))
  · obtain ⟨-, hzero⟩ | ⟨hmissing, -⟩ := hread.1 (.inl (by decide))
    · have hbytes := (hread.2.1 (by decide) hzero).1
      have hlatest : b.stored traps ⟨0, 76, 1⟩ = mem.getList 0x0080 128 := by
        simp only [stored, traps, hearlier]
        rw [if_pos ⟨by decide, hstored, rfl⟩]
      exact (List.cons.inj (hbytes.trans hlatest)).1.trans (Memory.get8_put8_same _ _ _)
    · exact absurd (by decide) hmissing
  · exact absurd (by decide) hmissing

end Bios

end Cpm
