import Cpm.Machine
import Cpm.Proofs.EntrySteps
import Cpm.Proofs.HostMaps
import Cpm.Proofs.InstalledSystem
import Cpm.Proofs.SystemCalls

/-!
# Booting a loaded program

A run begins with the jump to the cold boot and its trap; then the program has control.
Between page zero and the entry of the BDOS, booting writes one word: the return address
on the stack of the program. An image may end as high as that entry, so the word can fall
on its last bytes.
-/

namespace Cpm

namespace Run

variable {σ τ : Type} {r : Run σ τ} {ports : Ports σ} {fuel : Nat} {s : Step σ}

/-- An instruction that takes time is not the last of a run. -/
theorem turn_of_step (h : r.cpu.step ports fuel r.host = some s) (hs : s.cpu.states ≠ 0)
    (observer : Observer τ) :
    let told := observer.fetch r.cpu.upcoming r.observed
    r.turn ports observer fuel = some
      ⟨⟨r.instructions + 1, r.states + s.cpu.states, s.cpu, s.host, told.1⟩, told.2 ++ s.log,
        none⟩ := by
  simp only [turn, h, Option.map_some, if_neg hs]

/-- One that takes none is the last. -/
theorem turn_of_last (h : r.cpu.step ports fuel r.host = some s) (hs : s.cpu.states = 0)
    (observer : Observer τ) :
    ∃ t, r.turn ports observer fuel = some t ∧
      t.summary = some ⟨r.instructions + 1, r.states, s.cpu.halt.getD .halt⟩ := by
  have hstates : r.states + s.cpu.states = r.states := by rw [hs, Nat.add_zero]
  simp only [turn, h, Option.map_some, if_pos hs, hstates]
  exact ⟨_, rfl, rfl⟩

/-- What follows is told by the next turn. -/
theorem turnAt_congr {r' : Run σ τ} {observer : Observer τ}
    (h : r.turn ports observer fuel = r'.turn ports observer fuel) (n : Nat) :
    r.turnAt ports observer fuel n = r'.turnAt ports observer fuel n := by
  cases n with
  | zero => exact h
  | succ n => simp only [turnAt, h]

theorem finish_congr {r' : Run σ τ} {observer : Observer τ}
    (h : r.turn ports observer fuel = r'.turn ports observer fuel) (limit : Nat)
    (log : Array Log.Record) :
    r.finish ports observer fuel limit log = r'.finish ports observer fuel limit log := by
  cases limit with
  | zero => rfl
  | succ limit => simp only [finish, h]

end Run

namespace Bios

variable {κ : Type} (b : Bios κ) (c : Core)

/-- The cold boot of a program in memory. -/
theorem coldBoot_of_program {addr : UInt16} (h : b.boot = .program addr) :
    b.coldBoot c = .continuing (start { c with mem := putPageZero c.mem } addr)
      (b.select fun _ => .initial) [startRecord addr] := by
  have hboot : (b.select fun _ => .initial).boot = .program addr := h
  simp only [coldBoot, hboot]

/-- The address at which the cold boot starts a program, if it finds one. -/
def bootAddress? : Option UInt16 :=
  match b.boot with
  | .program addr => some addr
  | .disk => if b.mounted Selection.initial.drive then some Layout.programArea else none

/-- The bytes that the cold boot reads to the start of the program area. -/
def bootSector : List UInt8 :=
  match b.boot with
  | .program _ => []
  | .disk => b.sectorBytes Selection.initial.address

/-- The system as it goes to read the boot sector. -/
def booting : Bios κ := (b.select fun _ => .initial).select ({ · with dma := Layout.programArea })

theorem booting_holds_iff :
    b.booting.Holds b.booting.selection.address ↔
      b.mounted Selection.initial.drive = true :=
  ⟨fun h => h.1, fun h => ⟨h, by show SectorAddress.Exists ⟨0, 0, 1⟩; decide⟩⟩

theorem coldBoot_of_disk (h : b.boot = .disk) :
    let access := b.booting.readSelected (putPageZero c.mem)
    b.coldBoot c = if access.ok then
      .continuing (start { c with mem := access.result } Layout.programArea)
        (b.select fun _ => .initial) [startRecord Layout.programArea]
    else .halting { c with mem := access.result } b.booting
      (access.log ++ [⟨.error, .bios, "no bootable disk in drive A"⟩]) := by
  have hboot : (b.select fun _ => .initial).boot = .disk := h
  simp only [coldBoot, hboot]
  rfl

/-- The cold boot makes page zero, reads the boot sector and starts the program. -/
theorem coldBoot_of_bootAddress {addr : UInt16} (h : b.bootAddress? = some addr) :
    b.coldBoot c = .continuing
      (start { c with mem := (putPageZero c.mem).putList Layout.programArea b.bootSector } addr)
      (b.select fun _ => .initial) [startRecord addr] := by
  cases hboot : b.boot with
  | program a =>
    simp only [bootAddress?, hboot, Option.some.injEq] at h
    rw [b.coldBoot_of_program c hboot, bootSector, hboot, h]
    rfl
  | disk =>
    simp only [bootAddress?, hboot, Option.ite_none_right_eq_some, Option.some.injEq] at h
    obtain ⟨hmounted, rfl⟩ := h
    have hread := readSelected_of_holds (b.booting_holds_iff.mpr hmounted) (putPageZero c.mem)
    rw [b.coldBoot_of_disk c hboot, hread, bootSector, hboot]
    rfl

/-- Without a disk to boot from it stops, in the midst of the attempt to read. -/
theorem coldBoot_of_no_bootAddress (h : b.bootAddress? = none) :
    (b.coldBoot c).action = .halt ∧ (b.coldBoot c).host = b.booting := by
  cases hboot : b.boot with
  | program a =>
    simp only [bootAddress?, hboot] at h
    cases h
  | disk =>
    have hmounted : ¬ b.mounted Selection.initial.drive = true := by
      intro hmounted
      simp only [bootAddress?, hboot, if_pos hmounted] at h
      cases h
    have hread := readSelected_of_not_holds (fun hholds => hmounted (b.booting_holds_iff.mp hholds))
      (putPageZero c.mem)
    rw [b.coldBoot_of_disk c hboot]
    simp only [hread.1]
    exact ⟨rfl, rfl⟩

end Bios

namespace Cpu

/-- The processor after the jump from the start of memory to the cold boot. -/
def jumped (mem : Memory) (mode : Mode) : Cpu :=
  ⟨⟨{ Registers.zero with pc := 0xFE00, r := 2 }, mem, mode⟩, ⟨2, by decide⟩, .base, 10, none⟩

def booted (mem : Memory) (mode : Mode) (addr : UInt16) : Cpu :=
  ⟨⟨{ Registers.zero with pc := addr, sp := 0xFCFE, r := 5 }, mem, mode⟩, ⟨1, by decide⟩, .base,
    11, none⟩

/-- A reset processor jumps to the cold boot. -/
theorem step_reset {σ : Type} (cpu : Cpu) (h : Layout.IsInstalled cpu.core.mem) (ports : Ports σ)
    (fuel : Nat) (host : σ) :
    cpu.reset.step ports fuel host = some ⟨jumped cpu.core.mem cpu.core.mode, host, []⟩ := by
  obtain ⟨hop, htarget⟩ := h.coldStart
  rw [cpu.reset.step_of_jp hop htarget]
  simp only [retire, reset, Core.jump, Core.onRegs]
  rfl

variable {κ : Type} [Console κ] {mem : Memory} (h : Layout.IsInstalled mem) (mode : Mode)

include h

/-- What the jump leads to is the trap of the cold boot. -/
theorem step_jumped (fuel : Nat) (b : Bios κ) :
    let reply := b.callFunction .boot ((jumped mem mode).core.jump 0xFE02)
    (jumped mem mode).step Bios.ports fuel b = some ((jumped mem mode).retire .base
      (.ofWritten ⟨reply.action = .continue, reply.core, reply.host, reply.log⟩ 11)) := by
  obtain ⟨hop, hport⟩ := h.bootVector
  have hentry : ((jumped mem mode).core.jump 0xFE02).regs.pc =
      (Service.function .boot).entry + 2 := rfl
  have htrap : Bios.ports.trap ((jumped mem mode).core.jump 0xFE02) b =
      b.callFunction .boot ((jumped mem mode).core.jump 0xFE02) := Bios.trap_eq_serve hentry b
  have hpc : (jumped mem mode).core.regs.pc + 2 = 0xFE02 := rfl
  have hstep := (jumped mem mode).step_of_trapWrite hop hport Bios.ports fuel b
  rw [hpc, htrap] at hstep
  exact hstep

theorem step_jumped_of_bootAddress {b : Bios κ} {addr : UInt16} (haddr : b.bootAddress? = some addr)
    (fuel : Nat) :
    ∃ log, (jumped mem mode).step Bios.ports fuel b =
      some ⟨booted (((Bios.putPageZero mem).putList 0x0100 b.bootSector).put16 0xFCFE 0x0000)
        mode addr, b.select fun _ => .initial, log⟩ := by
  have hboot := b.coldBoot_of_bootAddress ((jumped mem mode).core.jump 0xFE02) haddr
  have hrefresh : ({ Registers.zero with pc := addr, sp := 0xFCFE, r := 2 }.refresh 2 11) =
      { Registers.zero with pc := addr, sp := 0xFCFE, r := 5 } := by
    simp only [Registers.refresh]
    rfl
  have hretire : ∀ (core : Core) (host : Bios κ) (log : List Log.Record),
      (jumped mem mode).retire .base (.ofWritten ⟨true, core, host, log⟩ 11) =
        ⟨⟨core.onRegs (·.refresh 2 11), 1, .base, 11, none⟩, host, log⟩ := by
    intro core host log
    simp only [retire, jumped, Outcome.ofWritten, if_true]
    rfl
  rw [step_jumped h]
  simp only [Bios.callFunction, Bios.serveFunction, hboot, TrapReply.continuing, decide_true,
    hretire]
  rw [booted, ← hrefresh]
  exact ⟨_, rfl⟩

end Cpu

namespace Machine

variable {κ : Type}

def mem (m : Machine κ) : Memory := m.cpu.core.mem

theorem mem_onMemory (m : Machine κ) (f : Memory → Memory) :
    (m.onMemory f).cpu.core.mem = f m.mem := rfl

theorem mode_onMemory (m : Machine κ) (f : Memory → Memory) :
    (m.onMemory f).cpu.core.mode = m.cpu.core.mode := rfl

theorem bios_onMemory (m : Machine κ) (f : Memory → Memory) : (m.onMemory f).bios = m.bios := rfl

/-- An image that is loaded ends at or below the entry of the BDOS, lies in memory, and is
what is booted. -/
theorem loadProgram_eq_ok {m loaded : Machine κ} {addr : UInt16} {image : ByteArray}
    {log : List Log.Record} (h : m.loadProgram addr image = .ok (loaded, log)) :
    addr.toNat + image.size ≤ 0xFD00 ∧ loaded.bios.boot = .program addr ∧
      loaded.mem = m.mem.load addr image := by
  unfold loadProgram at h
  split at h
  · cases h
  · next hfits =>
    cases h
    exact ⟨Nat.le_of_not_lt hfits, rfl, rfl⟩

/-- An image that ends at or below the entry of the BDOS can be loaded. -/
theorem exists_loadProgram (m : Machine κ) (addr : UInt16) (image : ByteArray)
    (h : addr.toNat + image.size ≤ 0xFD00) :
    ∃ loaded log, m.loadProgram addr image = .ok (loaded, log) := by
  have hfits : ¬ addr.toNat + image.size > Layout.bdosEntry.toNat := Nat.not_lt.mpr h
  unfold loadProgram
  rw [if_neg hfits]
  exact ⟨_, _, rfl⟩

def bootedMemory (m : Memory) : Memory := (Bios.putPageZero (Layout.install m)).put16 0xFCFE 0x0000

/-- Booting leaves the memory of the program alone, but for the word on its stack. -/
theorem get8_bootedMemory (m : Memory) {x : UInt16} (h : 0x0100 ≤ x.toNat)
    (hx : x.toNat < 0xFD00) :
    (bootedMemory m).get8 x = if x = 0xFCFE ∨ x = 0xFCFF then 0 else m.get8 x := by
  have hnext : (0xFCFE + 1 : UInt16) = 0xFCFF := by decide
  have hbelow : ¬ x.toNat < Bios.pageZero.length := by
    have hlength : Bios.pageZero.length = 8 := rfl
    omega
  rw [bootedMemory, Memory.get8_put16_zero, hnext, Bios.get8_putPageZero,
    List.getElem?_eq_none (Nat.le_of_not_lt hbelow),
    Layout.get8_install_of_program m (by omega) hx]
  rfl

def bootMemory (m : Machine κ) : Memory :=
  ((Bios.putPageZero (Layout.install m.mem)).putList 0x0100 m.bios.bootSector).put16 0xFCFE 0x0000

def jumped (m : Machine κ) : Cpu := .jumped (Layout.install m.mem) m.cpu.core.mode

def booted (m : Machine κ) (addr : UInt16) : Cpu := .booted m.bootMemory m.cpu.core.mode addr

variable {τ : Type}

theorem start_eq (m : Machine κ) (observed : τ) : m.start observed =
    ⟨0, 0, (m.onMemory Layout.install).cpu.reset, m.bios, observed⟩ := by
  simp only [start, Run.start, bios_onMemory]

variable [Console κ]

/-- The first instruction of a run jumps to the cold boot. -/
theorem step_start (m : Machine κ) (observed : τ) (fuel : Nat) (b : Bios κ) :
    (m.start observed).cpu.step Bios.ports fuel b = some ⟨m.jumped, b, []⟩ := by
  have hinstalled : Layout.IsInstalled (m.onMemory Layout.install).cpu.core.mem := by
    rw [mem_onMemory]
    exact Layout.isInstalled_install m.mem
  rw [start_eq, Cpu.step_reset _ hinstalled, mem_onMemory, mode_onMemory, jumped]

/-- The second is the trap of the cold boot, which starts the program. -/
theorem step_jumped (m : Machine κ) {addr : UInt16} (h : m.bios.bootAddress? = some addr)
    (fuel : Nat) :
    ∃ log, m.jumped.step Bios.ports fuel m.bios =
      some ⟨m.booted addr, m.bios.select fun _ => .initial, log⟩ :=
  Cpu.step_jumped_of_bootAddress (Layout.isInstalled_install m.mem) m.cpu.core.mode h fuel

/-- A run begins with the jump to the cold boot. -/
theorem turn_start (m : Machine κ) (observer : Observer τ) (fuel : Nat) (observed : τ) :
    let told := observer.fetch (m.start observed).cpu.upcoming observed
    (m.start observed).turn Bios.ports observer fuel =
      some ⟨⟨1, 10, m.jumped, m.bios, told.1⟩, told.2, none⟩ := by
  have hstep : (m.start observed).cpu.step Bios.ports fuel (m.start observed).host =
      some ⟨m.jumped, m.bios, []⟩ := by
    rw [m.step_start, start_eq]
  rw [Run.turn_of_step hstep (Nat.succ_ne_zero 9) observer, List.append_nil, start_eq]
  rfl

/-- Its trap then starts the program. -/
theorem turn_jumped (m : Machine κ) {addr : UInt16} (h : m.bios.bootAddress? = some addr)
    (observer : Observer τ) (fuel : Nat) (seen : τ) :
    ∃ t, Run.turn ⟨1, 10, m.jumped, m.bios, seen⟩ Bios.ports observer fuel = some t ∧
      t.summary = none ∧ t.run.instructions = 2 ∧ t.run.states = 21 ∧
      t.run.cpu = m.booted addr ∧ t.run.host = m.bios.select fun _ => .initial := by
  obtain ⟨log, hstep⟩ := m.step_jumped h fuel
  exact ⟨_, Run.turn_of_step (r := ⟨1, 10, m.jumped, m.bios, seen⟩) hstep (Nat.succ_ne_zero 10)
    observer, rfl, rfl, rfl, rfl, rfl⟩

/-- The first two instructions of a run of a program in memory. -/
theorem boot_turns (m : Machine κ) {addr : UInt16} (h : m.bios.boot = .program addr)
    (observer : Observer τ) (fuel : Nat) (observed : τ) :
    ∃ t₁ t₂ : Turn (Bios κ) τ,
      (m.start observed).turn Bios.ports observer fuel = some t₁ ∧ t₁.summary = none ∧
      t₁.run.turn Bios.ports observer fuel = some t₂ ∧ t₂.summary = none ∧
      t₂.run.cpu.core.regs.pc = addr ∧ t₂.run.cpu.core.mem = bootedMemory m.mem := by
  have haddress : m.bios.bootAddress? = some addr := by rw [Bios.bootAddress?, h]
  have hmem : m.bootMemory = bootedMemory m.mem := by
    rw [bootMemory, Bios.bootSector, h]
    rfl
  have hfirst := m.turn_start observer fuel observed
  obtain ⟨t, ht, hs, -, -, hcpu, -⟩ := m.turn_jumped haddress observer fuel
    (observer.fetch (m.start observed).cpu.upcoming observed).1
  refine ⟨_, t, hfirst, rfl, ht, hs, ?_, ?_⟩
  · rw [hcpu]
    rfl
  · rw [hcpu, ← hmem]
    rfl

/-- A loaded program gets control after two instructions, which leave every byte of its
image as it was loaded but those under the return address on its stack. -/
theorem loaded_program_is_booted {m loaded : Machine κ} {addr : UInt16} {image : ByteArray}
    {log : List Log.Record} (haddr : 0x0100 ≤ addr.toNat)
    (h : m.loadProgram addr image = .ok (loaded, log)) (observer : Observer τ) (fuel : Nat)
    (observed : τ) :
    ∃ t₁ t₂ : Turn (Bios κ) τ,
      (loaded.start observed).turn Bios.ports observer fuel = some t₁ ∧ t₁.summary = none ∧
      t₁.run.turn Bios.ports observer fuel = some t₂ ∧ t₂.summary = none ∧
      t₂.run.cpu.core.regs.pc = addr ∧
      ∀ i (hi : i < image.size), t₂.run.cpu.core.mem.get8 (addr + UInt16.ofNat i) =
        if addr.toNat + i = 0xFCFE ∨ addr.toNat + i = 0xFCFF then 0 else image[i] := by
  obtain ⟨hfits, hboot, hmem⟩ := loadProgram_eq_ok h
  obtain ⟨t₁, t₂, ht₁, hs₁, ht₂, hs₂, hpc, hbooted⟩ :=
    loaded.boot_turns hboot observer fuel observed
  refine ⟨t₁, t₂, ht₁, hs₁, ht₂, hs₂, hpc, fun i hi => ?_⟩
  have hx : (addr + UInt16.ofNat i).toNat = addr.toNat + i := Memory.toNat_add_ofNat (by omega)
  have hword : ∀ w : UInt16, addr + UInt16.ofNat i = w ↔ addr.toNat + i = w.toNat := by
    intro w
    rw [← hx, UInt16.toNat_inj]
  have hlength : image.data.toList.length = image.size := Array.length_toList
  have hloaded : loaded.mem.get8 (addr + UInt16.ofNat i) = image[i] := by
    rw [hmem, Memory.load_eq_putList, Memory.get8_putList _ _ _ (by omega),
      Memory.toNat_add_ofNat_sub addr (by omega), Array.getElem?_toList]
    exact congrArg (Option.getD · _) (Array.getElem?_eq_getElem hi)
  rw [hbooted, get8_bootedMemory _ (by omega) (by omega), hloaded]
  simp only [hword]
  rfl

/-- An image that ends under the return address is intact when it gets control. -/
theorem image_below_boot_stack_is_intact :
    let m : Machine ScriptedConsole := initial default .z80
    let image : ByteArray := ⟨#[0x76, 0xAA]⟩
    0x0100 ≤ (0xFCFC : UInt16).toNat ∧
    ∃ loaded log t₁ t₂, m.loadProgram 0xFCFC image = .ok (loaded, log) ∧
      (loaded.start ()).turn Bios.ports .silent 0 = some t₁ ∧
      t₁.run.turn Bios.ports .silent 0 = some t₂ ∧
      t₂.run.cpu.core.regs.pc = 0xFCFC ∧ t₂.run.cpu.core.mem.get8 0xFCFD = 0xAA := by
  intro m image
  obtain ⟨loaded, log, hload⟩ := m.exists_loadProgram 0xFCFC image (by decide)
  obtain ⟨t₁, t₂, ht₁, -, ht₂, -, hpc, hbytes⟩ :=
    loaded_program_is_booted (by decide) hload Observer.silent 0 ()
  exact ⟨by decide, loaded, log, t₁, t₂, hload, ht₁, ht₂, hpc, hbytes 1 (by decide)⟩

/-- An image that fits below the system is not always intact when it gets control: the
return address on its stack is written over its end. -/
theorem boot_stack_overwrites_image :
    let m : Machine ScriptedConsole := initial default .z80
    let image : ByteArray := ⟨#[0x76, 0xAA, 0xBB]⟩
    ∃ loaded log t₁ t₂, m.loadProgram 0xFCFD image = .ok (loaded, log) ∧
      (loaded.start ()).turn Bios.ports .silent 0 = some t₁ ∧
      t₁.run.turn Bios.ports .silent 0 = some t₂ ∧
      t₂.run.cpu.core.regs.pc = 0xFCFD ∧
      ¬ ∀ i (hi : i < image.size),
        t₂.run.cpu.core.mem.get8 (0xFCFD + UInt16.ofNat i) = image[i] := by
  intro m image
  obtain ⟨loaded, log, hload⟩ := m.exists_loadProgram 0xFCFD image (by decide)
  obtain ⟨-, hboot, -⟩ := loadProgram_eq_ok hload
  obtain ⟨t₁, t₂, ht₁, -, ht₂, -, hpc, hbooted⟩ := loaded.boot_turns hboot Observer.silent 0 ()
  refine ⟨loaded, log, t₁, t₂, hload, ht₁, ht₂, hpc, fun hintact => ?_⟩
  have hbyte := hintact 1 (by decide)
  rw [hbooted, get8_bootedMemory _ (by decide) (by decide), if_pos (by decide)] at hbyte
  exact absurd hbyte (by decide)

end Machine

end Cpm
