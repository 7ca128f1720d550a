import Cpm.Proofs.InstalledSystem
import Cpm.Proofs.Sectors

/-!
# The layout of the installed system

The tables of the system are written one after another to places that come from constants and
formulas. They lie apart, so that each is found as it was written, whatever memory held before;
the buffers that the headers of the drives point to lie apart from them and from each other.
Writing the tables again finds all of them there.
-/

namespace Cpm

structure Region where
  start : UInt16
  size : Nat
  deriving DecidableEq, Repr

namespace Region

/-- It ends at or below the top of memory. -/
def Fits (r : Region) : Prop := r.start.toNat + r.size ≤ 0x10000

def Contains (r : Region) (x : UInt16) : Prop :=
  r.start.toNat ≤ x.toNat ∧ x.toNat < r.start.toNat + r.size

/-- One ends at or below the start of the other. -/
def Apart (r s : Region) : Prop :=
  r.start.toNat + r.size ≤ s.start.toNat ∨ s.start.toNat + s.size ≤ r.start.toNat

instance (r : Region) : Decidable r.Fits := inferInstanceAs (Decidable (_ ≤ _))

instance (r : Region) (x : UInt16) : Decidable (r.Contains x) :=
  inferInstanceAs (Decidable (_ ∧ _))

instance (r s : Region) : Decidable (r.Apart s) := inferInstanceAs (Decidable (_ ∨ _))

variable {r s : Region} {x : UInt16}

theorem Apart.not_contains (h : r.Apart s) (hx : r.Contains x) : ¬ s.Contains x := by
  intro hs
  unfold Apart at h
  unfold Contains at hx hs
  omega

theorem Fits.size_le (hr : r.Fits) : r.size ≤ 0x10000 := by
  unfold Fits at hr
  omega

/-- An address that is not in the region is farther from its start than its size. -/
theorem size_le_sub (hr : r.Fits) (h : ¬ r.Contains x) : r.size ≤ (x - r.start).toNat := by
  have hx : x.toNat < 2 ^ 16 := x.toNat_lt
  have hstart : r.start.toNat < 2 ^ 16 := r.start.toNat_lt
  unfold Fits at hr
  unfold Contains at h
  rw [UInt16.toNat_sub]
  omega

theorem contains_add_ofNat (hr : r.Fits) {i : Nat} (hi : i < r.size) :
    r.Contains (r.start + UInt16.ofNat i) := by
  unfold Fits at hr
  unfold Contains
  rw [Memory.toNat_add_ofNat (by omega)]
  omega

def ofBlock (block : UInt16 × List UInt8) : Region := ⟨block.1, block.2.length⟩

end Region

namespace Memory

variable {m n : Memory}

/-- Memories that agree in a region hold the same block there. -/
theorem getList_congr {r : Region} (hr : r.Fits) (h : ∀ x, r.Contains x → m.get8 x = n.get8 x) :
    m.getList r.start r.size = n.getList r.start r.size := by
  apply List.ext_getElem?
  intro i
  by_cases hi : i < r.size
  · rw [getElem?_getList m _ hi, getElem?_getList n _ hi, h _ (r.contains_add_ofNat hr hi)]
  · rw [List.getElem?_eq_none (by rw [length_getList]; omega),
      List.getElem?_eq_none (by rw [length_getList]; omega)]

variable {blocks : List (UInt16 × List UInt8)}

/-- Outside the regions of the blocks nothing changes. -/
theorem get8_putBlocks_of_outside (hfits : ∀ b ∈ blocks, (Region.ofBlock b).Fits) {x : UInt16}
    (h : ∀ b ∈ blocks, ¬ (Region.ofBlock b).Contains x) :
    (m.putBlocks blocks).get8 x = m.get8 x := by
  have hlength : ∀ b ∈ blocks, b.2.length ≤ 0x10000 := fun b hb => (hfits b hb).size_le
  have hnone : blockByte? x blocks = none :=
    blockByte?_eq_none fun b hb => Region.size_le_sub (hfits b hb) (h b hb)
  rw [get8_putBlocks m hlength, hnone]
  rfl

/-- Of blocks that lie apart none is written over by a later one. -/
theorem getList_putBlocks (hfits : ∀ b ∈ blocks, (Region.ofBlock b).Fits)
    (hapart : (blocks.map Region.ofBlock).Pairwise Region.Apart) :
    ∀ b ∈ blocks, (m.putBlocks blocks).getList b.1 b.2.length = b.2 := by
  induction blocks generalizing m with
  | nil =>
    intro b hb
    cases hb
  | cons first rest ih =>
    have hfirst := hfits first List.mem_cons_self
    have hrest : ∀ b ∈ rest, (Region.ofBlock b).Fits := fun b hb =>
      hfits b (List.mem_cons_of_mem first hb)
    obtain ⟨hlater, hothers⟩ := List.pairwise_cons.mp hapart
    intro b hb
    show ((m.putList first.1 first.2).putBlocks rest).getList b.1 b.2.length = b.2
    rcases List.mem_cons.mp hb with rfl | hb
    · -- The first block: what follows leaves its region alone.
      have hkept : ((m.putList b.1 b.2).putBlocks rest).getList b.1 b.2.length =
          (m.putList b.1 b.2).getList b.1 b.2.length := by
        refine getList_congr hfirst fun x hx => ?_
        refine get8_putBlocks_of_outside hrest fun c hc => ?_
        exact (hlater _ (List.mem_map_of_mem hc)).not_contains hx
      rw [hkept, getList_putList m b.1 hfirst.size_le]
    · exact ih hrest hothers b hb

/-- Storing what is there changes nothing. -/
theorem putList_getList_self {a : UInt16} {data : List UInt8}
    (h : m.getList a data.length = data) : m.putList a data = m := by
  induction data generalizing a with
  | nil => rfl
  | cons v vs ih =>
    obtain ⟨hfirst, hrest⟩ := List.cons.inj h
    rw [putList_cons, ← hfirst, put8_get8_self, ih hrest]

theorem putBlocks_self (h : ∀ b ∈ blocks, m.getList b.1 b.2.length = b.2) :
    m.putBlocks blocks = m := by
  induction blocks with
  | nil => rfl
  | cons first rest ih =>
    show (m.putList first.1 first.2).putBlocks rest = m
    rw [putList_getList_self (h first List.mem_cons_self)]
    exact ih fun b hb => h b (List.mem_cons_of_mem first hb)

end Memory

namespace Layout

/-- Where words stand, each is read. -/
theorem get16_of_wordBytes {m : Memory} {a : UInt16} {words : List UInt16}
    (h : m.getList a (2 * words.length) = wordBytes words) (i : Nat) (hi : i < words.length) :
    m.get16 (a + 2 * UInt16.ofNat i) = words[i] := by
  induction words generalizing a i with
  | nil => exact absurd hi (Nat.not_lt_zero i)
  | cons w rest ih =>
    obtain ⟨hlow, htail⟩ : m.get8 a = Word.low w ∧
        m.getList (a + 1) (2 * rest.length + 1) = Word.high w :: wordBytes rest := List.cons.inj h
    obtain ⟨hhigh, hrest⟩ := List.cons.inj htail
    cases i with
    | zero =>
      have ha : a + 2 * UInt16.ofNat 0 = a := by
        show a + 2 * 0 = a
        grind
      rw [ha, Memory.get16, hlow, hhigh, Word.ofBytes_high_low]
      rfl
    | succ i =>
      have ha : a + 2 * UInt16.ofNat (i + 1) = a + 1 + 1 + 2 * UInt16.ofNat i := by
        rw [UInt16.ofNat_add]
        show a + 2 * (UInt16.ofNat i + 1) = _
        grind
      rw [ha, ih hrest i (Nat.lt_of_succ_lt_succ hi)]
      rfl

def tables : List Region :=
  [⟨0x0000, 3⟩, ⟨bdosEntry, 3⟩] ++ BiosFunction.all.map (fun f => ⟨f.vector, 3⟩) ++
    [⟨skewTable, 26⟩, ⟨parameterBlock, 15⟩] ++
    (List.range drives).map fun drive => ⟨header drive, 16⟩

/-- The regions that the headers give to programs: the directory buffer, and for each drive its
allocation and its check area. -/
def buffers : List Region :=
  ⟨directoryBuffer, 128⟩ :: (List.range drives).flatMap fun drive =>
    [⟨allocationArea drive, 31⟩, ⟨checkArea drive, 16⟩]

theorem tables_eq : installed.map Region.ofBlock = tables := rfl

theorem regions_fit : ∀ r ∈ tables ++ buffers, r.Fits := by decide

theorem regions_apart : (tables ++ buffers).Pairwise Region.Apart := by decide

theorem installed_fits : ∀ b ∈ installed, (Region.ofBlock b).Fits := by
  intro b hb
  have htable : Region.ofBlock b ∈ tables := tables_eq ▸ List.mem_map_of_mem hb
  exact regions_fit _ (List.mem_append_left buffers htable)

/-- Each block of the installed system is found as it was written. -/
theorem getList_install (m : Memory) :
    ∀ b ∈ installed, (install m).getList b.1 b.2.length = b.2 := by
  rw [install_eq]
  refine Memory.getList_putBlocks installed_fits ?_
  rw [tables_eq]
  exact (List.pairwise_append.mp regions_apart).1

theorem install_install (m : Memory) : install (install m) = install m := by
  rw [install_eq (install m)]
  exact Memory.putBlocks_self (getList_install m)

section

variable (m : Memory)

/-- Outside the tables memory is as it was. -/
theorem get8_install_of_outside {x : UInt16} (h : ∀ r ∈ tables, ¬ r.Contains x) :
    (install m).get8 x = m.get8 x := by
  rw [install_eq]
  refine Memory.get8_putBlocks_of_outside installed_fits fun b hb => h _ ?_
  exact tables_eq ▸ List.mem_map_of_mem hb

theorem getList_install_vector (f : BiosFunction) :
    (install m).getList f.vector 3 = stub := by
  have hall : ∀ f : BiosFunction, (f.vector, stub) ∈ installed := by
    intro f
    cases f <;> decide
  exact getList_install m _ (hall f)

theorem getList_install_header {drive : Nat} (h : drive < drives) :
    (install m).getList (header drive) 16 = wordBytes (headerWords drive) := by
  have hall : ∀ drive < drives, (header drive, wordBytes (headerWords drive)) ∈ installed := by
    decide
  exact getList_install m _ (hall drive h)

/-- The words of a header, each at its place. -/
theorem get16_install_header {drive : Nat} (h : drive < drives) (i : Nat) (hi : i < 8) :
    (install m).get16 (header drive + 2 * UInt16.ofNat i) = (headerWords drive)[i] := by
  have hbytes : (install m).getList (header drive) (2 * (headerWords drive).length) =
      wordBytes (headerWords drive) := getList_install_header m h
  exact get16_of_wordBytes hbytes i hi

end

end Layout

namespace Bios

variable {κ : Type} [Console κ]

/-- Selecting a drive that holds a disk returns its header, and leaves memory alone. -/
theorem serveFunction_seldsk_of_mounted (b : Bios κ) (c : Core) {drive : Fin 4}
    (hdisk : b.mounted drive = true) (hnumber : c.regs.main.c.toNat = drive) :
    let reply := b.serveFunction .seldsk c
    reply.core.regs.main.hl = Layout.header drive ∧ reply.core.mem = c.mem := by
  have hlt : c.regs.main.c.toNat < 4 := hnumber ▸ drive.isLt
  have hdrive : drive = ⟨c.regs.main.c.toNat, hlt⟩ := Fin.ext hnumber.symm
  subst hdrive
  have hheld : b.disks[c.regs.main.c.toNat].isSome = true := hdisk
  have hreply : b.serveFunction .seldsk c =
      .continuing (c.onRegs (·.setPointer .hl (Layout.header c.regs.main.c.toNat)))
        (b.select ({ · with drive := ⟨c.regs.main.c.toNat, hlt⟩ })) [] := by
    show b.selectDrive c = _
    rw [selectDrive, dif_pos hlt, if_pos hheld]
  simp only [hreply]
  exact ⟨Bank.hl_setHl _ _, rfl⟩

end Bios

namespace Layout

/-- Installing the system writes its tables so that none lies over another, whatever was in
memory: the jump to the cold boot, the traps of the entry and of all vectors, the skew table, the
parameter block and the headers of all drives are found as they were written. The header that
selecting a drive returns points to that table and block, to the directory buffer and to the
areas of the drive, and these buffers lie apart from each other and from every table, below the
top of memory. Every byte outside the tables stays, and installing once more changes nothing. -/
theorem install_lays_out_system (m : Memory) :
    let after := install m
    (after.get8 0x0000 = 0xC3 ∧ after.get16 0x0001 = 0xFE00) ∧
    (after.getList bdosEntry 3 = [0xD3, 0xFF, 0xC9] ∧
      ∀ f : BiosFunction, after.getList f.vector 3 = [0xD3, 0xFF, 0xC9]) ∧
    (after.getList skewTable 26 = skew ∧ after.getList parameterBlock 15 = parameters) ∧
    (∀ drive < 4, ∀ i (hi : i < 8),
      after.get16 (header drive + 2 * UInt16.ofNat i) = (headerWords drive)[i]) ∧
    (∀ {κ : Type} [Console κ] (b : Bios κ) (c : Core) (drive : Fin 4), b.mounted drive = true →
      c.regs.main.c.toNat = drive →
      let reply := b.serveFunction .seldsk { c with mem := after }
      let place := reply.core.regs.main.hl
      let word := reply.core.mem.get16
      word place = skewTable ∧ word (place + 8) = directoryBuffer ∧
        word (place + 10) = parameterBlock ∧ word (place + 12) = checkArea drive ∧
        word (place + 14) = allocationArea drive) ∧
    ((tables ++ buffers).Pairwise Region.Apart ∧ ∀ r ∈ tables ++ buffers, r.Fits) ∧
    (∀ x, (∀ r ∈ tables, ¬ r.Contains x) → after.get8 x = m.get8 x) ∧
    install after = after := by
  intro after
  have hinstalled : IsInstalled after := isInstalled_install m
  have hblocks := getList_install m
  refine ⟨hinstalled.coldStart,
    ⟨hblocks (bdosEntry, stub) (by decide), getList_install_vector m⟩,
    ⟨hblocks (skewTable, skew) (by decide), hblocks (parameterBlock, parameters) (by decide)⟩,
    fun drive h => get16_install_header m h, ?_, ⟨regions_apart, regions_fit⟩,
    fun x hx => get8_install_of_outside m hx, install_install m⟩
  intro κ _ b c drive hdisk hnumber reply place word
  obtain ⟨hplace, hmem⟩ :=
    b.serveFunction_seldsk_of_mounted { c with mem := after } hdisk hnumber
  have hword := get16_install_header m drive.isLt
  have hat : ∀ offset, word (place + offset) = after.get16 (header drive + offset) := by
    intro offset
    show reply.core.mem.get16 (reply.core.regs.main.hl + offset) = _
    rw [hplace, hmem]
  have hzero : place = place + 0 := (UInt16.add_zero place).symm
  rw [hzero, hat, ← hzero, hat, hat, hat, hat]
  exact ⟨hword 0 (by decide), hword 4 (by decide), hword 5 (by decide), hword 6 (by decide),
    hword 7 (by decide)⟩

/-- The header of drive D, in memory that held nothing; the byte behind the jump stays. -/
theorem header_of_last_drive_is_selected :
    let c : Core := ⟨{ Registers.zero with main := Bank.zero.setBc 3 }, install .blank, .z80⟩
    let b : Bios ScriptedConsole := (Bios.initial default).putDisk 3 (some .blank)
    let reply := b.serveFunction .seldsk c
    (b.mounted 3 = true ∧ c.regs.main.c.toNat = (3 : Fin 4)) ∧
      reply.core.mem.get16 (reply.core.regs.main.hl + 14) = 0xFFBD ∧
      (∀ r ∈ tables, ¬ r.Contains 0x0003) ∧
      (install .blank).get8 0x0003 = Memory.blank.get8 0x0003 := by
  intro c b reply
  have hheld : b.mounted 3 = true ∧ c.regs.main.c.toNat = (3 : Fin 4) := ⟨rfl, rfl⟩
  have houtside : ∀ r ∈ tables, ¬ r.Contains 0x0003 := by decide
  obtain ⟨-, -, -, -, hheader, -, hother, -⟩ := install_lays_out_system .blank
  obtain ⟨-, -, -, -, harea⟩ := hheader b c 3 hheld.1 hheld.2
  exact ⟨hheld, harea, houtside, hother 0x0003 houtside⟩

end Layout

end Cpm
