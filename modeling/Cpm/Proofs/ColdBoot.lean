import Cpm.Proofs.ConsoleMaps

/-!
# The cold boot

A run installs the system, resets the processor and boots it, so that whatever a machine did
before leaves no trace in what the program finds, but for the memory that none of these
writes. What is left of the history is the memory, the mode, the disks, the boot source and
the input to come; machines that have these in common have the same run.
-/

namespace Cpm

namespace Bios

variable {κ : Type} (b : Bios κ)

theorem length_bootSector_le : b.bootSector.length ≤ 128 := by
  unfold bootSector
  split
  · exact Nat.zero_le _
  · by_cases hmounted : b.mounted Selection.initial.drive = true
    · exact Nat.le_of_eq (length_sectorBytes (a := Selection.initial.address) ⟨hmounted, by decide⟩)
    · have hnone : b.disks.get Selection.initial.address.drive = none :=
        Option.not_isSome_iff_eq_none.mp hmounted
      rw [sectorBytes, hnone]
      exact Nat.zero_le _

end Bios

namespace Machine

variable {κ υ τ : Type} (m : Machine κ)

/-! ### What the program finds -/

theorem get8_bootMemory (x : UInt16) :
    m.bootMemory.get8 x = if x = 0xFCFE ∨ x = 0xFCFF then 0 else
      m.bios.bootSector[(x - 0x0100).toNat]?.getD
        (Bios.pageZero[x.toNat]?.getD ((Layout.install m.mem).get8 x)) := by
  have hnext : (0xFCFE + 1 : UInt16) = 0xFCFF := by decide
  have hlength := m.bios.length_bootSector_le
  rw [bootMemory, Memory.get8_put16_zero, hnext, Memory.get8_putList _ _ _ (by omega),
    Bios.get8_putPageZero]

/-- A machine in which the cold boot has started a program at `addr`. -/
structure Boots (addr : UInt16) (r : Run (Bios κ) τ) : Prop where
  instructions : r.instructions = 2
  states : r.states = 21
  cpu : r.cpu = ⟨r.cpu.core, 1, .base, 11, none⟩
  regs : r.cpu.core.regs = { Registers.zero with pc := addr, sp := 0xFCFE, r := 5 }
  mode : r.cpu.core.mode = m.cpu.core.mode
  host : r.host = { m.bios with selection := ⟨0, 0, 1, 0x0080⟩ }
  pageZero : r.cpu.core.mem.getList 0x0000 8 = [0xC3, 0x03, 0xFE, 0x00, 0x00, 0xC3, 0x00, 0xFD]
  returnAddress : r.cpu.core.mem.get16 0xFCFE = 0x0000
  sector : m.bios.boot = .disk →
    r.cpu.core.mem.getList 0x0100 128 = m.bios.sectorBytes ⟨0, 0, 1⟩
  tables : ∀ x, 0xFD00 ≤ x.toNat →
    r.cpu.core.mem.get8 x = (Memory.blockByte? x Layout.installed).getD (m.mem.get8 x)
  others : ∀ x, 8 ≤ x.toNat → x.toNat < 0xFCFE →
    (m.bios.boot = .disk → x.toNat < 0x0100 ∨ 0x0180 ≤ x.toNat) →
    r.cpu.core.mem.get8 x = m.mem.get8 x

variable {m}

/-- Away from the boot sector and the return address. -/
theorem get8_bootMemory_of_outside {x : UInt16} (hx : x ≠ 0xFCFE ∧ x ≠ 0xFCFF)
    (hsector : m.bios.boot = .disk → x.toNat < 0x0100 ∨ 0x0180 ≤ x.toNat) :
    m.bootMemory.get8 x = Bios.pageZero[x.toNat]?.getD ((Layout.install m.mem).get8 x) := by
  have hnone : m.bios.bootSector[(x - 0x0100).toNat]? = none := by
    apply List.getElem?_eq_none
    cases hboot : m.bios.boot with
    | program a =>
      rw [Bios.bootSector, hboot]
      exact Nat.zero_le _
    | disk =>
      have hlength := m.bios.length_bootSector_le
      have hfar := hsector hboot
      have hlt : x.toNat < 2 ^ 16 := x.toNat_lt
      have hstart : UInt16.toNat 0x0100 = 0x0100 := rfl
      rw [UInt16.toNat_sub, hstart]
      omega
  rw [get8_bootMemory, if_neg (not_or.mpr hx), hnone]
  rfl

theorem getList_bootMemory_pageZero : m.bootMemory.getList 0x0000 8 = Bios.pageZero := by
  show m.bootMemory.getList 0x0000 Bios.pageZero.length = _
  refine Memory.getList_eq _ fun i hi => ?_
  have hlength : Bios.pageZero.length = 8 := rfl
  have hx : (0x0000 + UInt16.ofNat i).toNat = i := by
    rw [Memory.toNat_add_ofNat (by show 0 + i < 0x10000; omega)]
    exact Nat.zero_add i
  have hlow : 0x0000 + UInt16.ofNat i ≠ 0xFCFE ∧ 0x0000 + UInt16.ofNat i ≠ 0xFCFF := by
    constructor <;> (intro h; rw [h] at hx; simp at hx; omega)
  rw [get8_bootMemory_of_outside hlow fun _ => .inl (by omega), hx, List.getElem?_eq_getElem hi]
  rfl

theorem getList_bootMemory_sector (h : m.bios.bootAddress? ≠ none) (hboot : m.bios.boot = .disk) :
    m.bootMemory.getList 0x0100 128 = m.bios.sectorBytes ⟨0, 0, 1⟩ := by
  have hmounted : m.bios.mounted Selection.initial.drive = true := by
    simp only [Bios.bootAddress?, hboot, ne_eq, ite_eq_right_iff] at h
    exact Decidable.byContradiction fun hm => h fun hm' => absurd hm' hm
  have hlength := Bios.length_sectorBytes (b := m.bios) (a := ⟨0, 0, 1⟩) ⟨hmounted, by decide⟩
  have hsector : m.bios.bootSector = m.bios.sectorBytes ⟨0, 0, 1⟩ := by
    rw [Bios.bootSector, hboot]
    rfl
  rw [← hlength]
  refine Memory.getList_eq _ fun i hi => ?_
  have hx : (0x0100 + UInt16.ofNat i).toNat = 0x0100 + i :=
    Memory.toNat_add_ofNat (by show 0x0100 + i < 0x10000; omega)
  have hlow : ¬ (0x0100 + UInt16.ofNat i = 0xFCFE ∨ 0x0100 + UInt16.ofNat i = 0xFCFF) := by
    rintro (h | h) <;> (rw [h] at hx; simp at hx; omega)
  rw [get8_bootMemory, if_neg hlow, Memory.toNat_add_ofNat_sub _ (by omega), hsector,
    List.getElem?_eq_getElem hi]
  rfl

theorem boots_of_bootAddress {addr : UInt16} (h : m.bios.bootAddress? = some addr)
    {r : Run (Bios κ) τ} (hinstructions : r.instructions = 2) (hstates : r.states = 21)
    (hcpu : r.cpu = m.booted addr) (hhost : r.host = m.bios.select fun _ => .initial) :
    m.Boots addr r where
  instructions := hinstructions
  states := hstates
  cpu := by rw [hcpu]; rfl
  regs := by rw [hcpu]; rfl
  mode := by rw [hcpu]; rfl
  host := hhost
  pageZero := by
    rw [hcpu]
    exact getList_bootMemory_pageZero
  returnAddress := by
    rw [hcpu]
    show Word.ofBytes (m.bootMemory.get8 0xFCFF) (m.bootMemory.get8 0xFCFE) = _
    rw [get8_bootMemory, get8_bootMemory, if_pos (.inr rfl), if_pos (.inl rfl)]
    rfl
  sector hboot := by
    rw [hcpu]
    exact getList_bootMemory_sector (by rw [h]; exact Option.some_ne_none addr) hboot
  tables x hx := by
    rw [hcpu]
    show m.bootMemory.get8 x = _
    have hfar : x ≠ 0xFCFE ∧ x ≠ 0xFCFF := by
      constructor <;> (rintro rfl; exact absurd hx (by decide))
    have hzero : Bios.pageZero[x.toNat]? = none :=
      List.getElem?_eq_none (by show 8 ≤ x.toNat; omega)
    rw [get8_bootMemory_of_outside hfar fun _ => .inr (by omega), hzero, Layout.get8_install]
    rfl
  others x hlow hhigh hsector := by
    rw [hcpu]
    show m.bootMemory.get8 x = _
    have hfar : x ≠ 0xFCFE ∧ x ≠ 0xFCFF := by
      constructor <;> (rintro rfl; exact absurd hhigh (by decide))
    have hzero : Bios.pageZero[x.toNat]? = none := List.getElem?_eq_none hlow
    rw [get8_bootMemory_of_outside hfar hsector, hzero,
      Layout.get8_install_of_program _ (by omega) (by omega)]
    rfl

/-! ### The run -/

/-- The processor that a run starts with depends on the memory and the mode. -/
theorem cpu_start_congr {m : Machine κ} {n : Machine υ} (hmem : m.mem = n.mem)
    (hmode : m.cpu.core.mode = n.cpu.core.mode) (observed : τ) :
    (m.start observed).cpu = (n.start observed).cpu := by
  rw [start_eq, start_eq]
  simp only [Cpu.reset, mem_onMemory, mode_onMemory, hmem, hmode]

theorem jumped_congr {m : Machine κ} {n : Machine υ} (hmem : m.mem = n.mem)
    (hmode : m.cpu.core.mode = n.cpu.core.mode) : m.jumped = n.jumped := by
  rw [jumped, jumped, hmem, hmode]

section

variable [Console κ]

/-- Without a disk to boot from the trap is the last instruction, and takes no time. -/
theorem turn_jumped_of_no_bootAddress (h : m.bios.bootAddress? = none) (observer : Observer τ)
    (fuel : Nat) (seen : τ) :
    ∃ t, Run.turn ⟨1, 10, m.jumped, m.bios, seen⟩ Bios.ports observer fuel = some t ∧
      t.summary = some ⟨2, 10, .trap⟩ := by
  let reply := m.bios.callFunction .boot (m.jumped.core.jump 0xFE02)
  have hhalt : reply.action = .halt := (m.bios.coldBoot_of_no_bootAddress _ h).1
  have hstops : decide (reply.action = .continue) = false := by rw [hhalt]; rfl
  have hstep : m.jumped.step Bios.ports fuel m.bios = some (m.jumped.retire .base (.ofWritten
      ⟨decide (reply.action = .continue), reply.core, reply.host, reply.log⟩ 11)) :=
    Cpu.step_jumped (Layout.isInstalled_install m.mem) m.cpu.core.mode fuel m.bios
  rw [hstops] at hstep
  exact Run.turn_of_last (r := ⟨1, 10, m.jumped, m.bios, seen⟩) hstep rfl observer

/-- The cold boot is the same whatever was selected. -/
theorem turn_jumped_select (observer : Observer τ) (fuel : Nat) (seen : τ)
    (f : Selection → Selection) :
    Run.turn ⟨1, 10, m.jumped, m.bios.select f, seen⟩ Bios.ports observer fuel =
      Run.turn ⟨1, 10, m.jumped, m.bios, seen⟩ Bios.ports observer fuel := by
  have hinstalled := Layout.isInstalled_install m.mem
  have hcall : (m.bios.select f).callFunction .boot (m.jumped.core.jump 0xFE02) =
      m.bios.callFunction .boot (m.jumped.core.jump 0xFE02) := rfl
  have hstep : m.jumped.step Bios.ports fuel (m.bios.select f) =
      m.jumped.step Bios.ports fuel m.bios := by
    rw [jumped, Cpu.step_jumped hinstalled, Cpu.step_jumped hinstalled, ← jumped, hcall]
  simp only [Run.turn, hstep]

/-- A run behind its first turn. -/
theorem turnAt_start_succ (observer : Observer τ) (fuel : Nat) (observed : τ) (n : Nat) :
    let seen := (observer.fetch (m.start observed).cpu.upcoming observed).1
    (m.start observed).turnAt Bios.ports observer fuel (n + 1) =
      Run.turnAt ⟨1, 10, m.jumped, m.bios, seen⟩ Bios.ports observer fuel n := by
  simp only [Run.turnAt, m.turn_start]

theorem finish_start_succ (observer : Observer τ) (fuel : Nat) (observed : τ) (limit : Nat) :
    let told := observer.fetch (m.start observed).cpu.upcoming observed
    (m.start observed).finish Bios.ports observer fuel (limit + 1) #[] =
      Run.finish Bios.ports observer fuel limit ((#[] : Array Log.Record) ++ told.2)
        ⟨1, 10, m.jumped, m.bios, told.1⟩ := by
  simp only [Run.finish, m.turn_start]

/-- Machines that differ in registers and selection alone have the same run from the cold
boot on. -/
theorem run_congr {n : Machine κ} {f : Selection → Selection} (hmem : n.mem = m.mem)
    (hmode : n.cpu.core.mode = m.cpu.core.mode) (hbios : n.bios = m.bios.select f)
    (observer : Observer τ) (fuel : Nat) (observed : τ) :
    (∀ k, (n.start observed).turnAt Bios.ports observer fuel (k + 1) =
      (m.start observed).turnAt Bios.ports observer fuel (k + 1)) ∧
    ∀ limit, n.run observer fuel limit observed = m.run observer fuel limit observed := by
  have hjumped := jumped_congr hmem hmode
  have hcpu := cpu_start_congr hmem hmode observed
  have hturn := m.turn_jumped_select observer fuel
    (observer.fetch (m.start observed).cpu.upcoming observed).1 f
  refine ⟨fun k => ?_, fun limit => ?_⟩
  · rw [n.turnAt_start_succ, m.turnAt_start_succ, hcpu, hjumped, hbios]
    exact Run.turnAt_congr hturn k
  · have hfinish : (n.start observed).finish Bios.ports observer fuel limit #[] =
        (m.start observed).finish Bios.ports observer fuel limit #[] := by
      cases limit with
      | zero => simp only [Run.finish]
      | succ limit =>
        rw [n.finish_start_succ, m.finish_start_succ, hcpu, hjumped, hbios]
        exact Run.finish_congr hturn limit _
    simp only [run, hfinish]

variable [Console υ]

/-- Two machines have what survives the cold boot in common. -/
structure SameAtBoot (m : Machine κ) (n : Machine υ) : Prop where
  mem : m.mem = n.mem
  mode : m.cpu.core.mode = n.cpu.core.mode
  disks : m.bios.disks = n.bios.disks
  boot : m.bios.boot = n.bios.boot
  input : Console.SameInput m.bios.console n.bios.console

/-- Two machines have the same run: they go through the same turns and end with the same
result, with the same requests made of their consoles. Before the cold boot the selection may
still differ. -/
structure SameRuns (m : Machine κ) (n : Machine υ) (observer : Observer τ) (fuel : Nat)
    (observed : τ) : Prop where
  first : ∃ (cpu : Cpu) (seen : τ) (log : List Log.Record),
    (m.start observed).turn Bios.ports observer fuel =
      some ⟨⟨1, 10, cpu, m.bios, seen⟩, log, none⟩ ∧
    (n.start observed).turn Bios.ports observer fuel =
      some ⟨⟨1, 10, cpu, n.bios, seen⟩, log, none⟩
  turns : ∀ k, ∃ t : Option (Turn (Bios (List Console.Request)) τ),
    (m.start observed).turnAt Bios.ports observer fuel (k + 1) =
      t.map (Turn.mapHost (Bios.mapConsole (Console.after m.bios.console))) ∧
    (n.start observed).turnAt Bios.ports observer fuel (k + 1) =
      t.map (Turn.mapHost (Bios.mapConsole (Console.after n.bios.console)))
  result : ∀ limit, ∃ r : Option (RunResult (List Console.Request) τ),
    m.run observer fuel limit observed =
      r.map (RunResult.mapConsole (Console.after m.bios.console)) ∧
    n.run observer fuel limit observed =
      r.map (RunResult.mapConsole (Console.after n.bios.console))

theorem SameAtBoot.sameRuns {n : Machine υ} (h : m.SameAtBoot n) (observer : Observer τ)
    (fuel : Nat) (observed : τ) : m.SameRuns n observer fuel observed := by
  let transcript := Console.transcript m.bios.console
  -- One machine stands for both: its console is the requests made so far.
  let a : Machine (List Console.Request) :=
    ⟨m.cpu, ⟨[], m.bios.disks, m.bios.boot, m.bios.selection⟩⟩
  let b : Machine (List Console.Request) := ⟨n.cpu, a.bios.select fun _ => n.bios.selection⟩
  have ha : a.mapConsole (Console.after m.bios.console) = m := rfl
  have hb : b.mapConsole (Console.after n.bios.console) = n := by
    show (⟨n.cpu, ⟨n.bios.console, m.bios.disks, m.bios.boot, n.bios.selection⟩⟩ : Machine υ) = n
    rw [h.disks, h.boot]
  have hself := (Console.SameInput.refl m.bios.console).maps
  have hother := h.input.maps
  obtain ⟨hturns, hruns⟩ := run_congr (m := a) (n := b) (f := fun _ => n.bios.selection)
    h.mem.symm h.mode.symm rfl observer fuel observed
  have hfirst := n.turn_start observer fuel observed
  rw [← cpu_start_congr h.mem h.mode observed, ← jumped_congr h.mem h.mode] at hfirst
  refine ⟨⟨_, _, _, m.turn_start observer fuel observed, hfirst⟩,
    fun k => ⟨(a.start observed).turnAt Bios.ports observer fuel (k + 1), ?_, ?_⟩,
    fun limit => ⟨a.run observer fuel limit observed, ?_, ?_⟩⟩
  · rw [← hself.turnAt, ha]
  · rw [← hturns, ← hother.turnAt, hb]
  · rw [← hself.run, ha]
  · rw [← hruns, ← hother.run, hb]

/-- A run of two instructions that stops for the second. -/
theorem summary_run_of_no_bootAddress (h : m.bios.bootAddress? = none) (observer : Observer τ)
    (fuel : Nat) (observed : τ) {limit : Nat} (hlimit : 2 ≤ limit) :
    (m.run observer fuel limit observed).map (·.summary) = some ⟨2, 10, .trap⟩ := by
  obtain ⟨limit, rfl⟩ : ∃ n, limit = n + 1 + 1 := ⟨limit - 2, by omega⟩
  obtain ⟨t, ht, hs⟩ := m.turn_jumped_of_no_bootAddress h observer fuel
    (observer.fetch (m.start observed).cpu.upcoming observed).1
  simp only [run, Run.finish, m.turn_start, ht, hs, Option.map_some]

end

/-- Whatever a machine did before, a run of it begins with the jump at the start of memory and
the trap of the cold boot, which take 21 states and start the program in a state that is
told from the memory, the mode, the disks and the boot source alone; without a disk to boot
from the run stops there. So machines that have these and the input to come in common have
the same run. -/
theorem cold_boot_forgets_history [Console κ] (m : Machine κ) (observer : Observer τ)
    (fuel : Nat) (observed : τ) :
    (∃ jump : Turn (Bios κ) τ,
      (m.start observed).cpu.decoded.instruction = some (.operation (.jp 0xFE00)) ∧
      (m.start observed).turn Bios.ports observer fuel = some jump ∧ jump.summary = none ∧
      jump.run.cpu.core.regs.pc = 0xFE00 ∧
      jump.run.cpu.decoded.instruction = some (.output (.outA Port.trap)) ∧
      (∀ addr, m.bios.bootAddress? = some addr →
        ∃ trap, jump.run.turn Bios.ports observer fuel = some trap ∧ trap.summary = none ∧
          m.Boots addr trap.run)) ∧
    (m.bios.bootAddress? = none → ∀ limit, 2 ≤ limit →
      (m.run observer fuel limit observed).map (·.summary) = some ⟨2, 10, .trap⟩) ∧
    ∀ (υ : Type) [Console υ] (n : Machine υ), m.SameAtBoot n →
      m.SameRuns n observer fuel observed := by
  have hinstalled := Layout.isInstalled_install m.mem
  refine ⟨⟨_, ?_, m.turn_start observer fuel observed, rfl, rfl, ?_, fun addr h => ?_⟩,
    fun h limit hlimit => m.summary_run_of_no_bootAddress h observer fuel observed hlimit,
    fun υ _ n h => h.sameRuns observer fuel observed⟩
  · obtain ⟨hop, htarget⟩ := hinstalled.coldStart
    rw [start_eq]
    exact congrArg Decoded.instruction
      ((m.onMemory Layout.install).cpu.reset.decoded_of_jp hop htarget)
  · obtain ⟨hop, hport⟩ := hinstalled.bootVector
    exact congrArg Decoded.instruction (m.jumped.decoded_of_outA hop hport)
  · obtain ⟨t, ht, hs, hinstructions, hstates, hcpu, hhost⟩ := m.turn_jumped h observer fuel
      (observer.fetch (m.start observed).cpu.upcoming observed).1
    exact ⟨t, ht, hs, boots_of_bootAddress h hinstructions hstates hcpu hhost⟩

/-- A machine that was left in the midst of a program boots like a new one; and without a disk
neither boots. -/
theorem used_machine_boots_like_new :
    let m : Machine ScriptedConsole :=
      ⟨.initial .i8080, ⟨.ofInput [0x41], .replicate 4 none, .program 0x0100, .initial⟩⟩
    let regs : Registers := ⟨⟨7, ⟨0xFF⟩, 1, 2, 3, 4, 5, 6⟩, .zero, 8, 9, 0x0080, 0x4321, 10, 0xFF⟩
    let n : Machine ScriptedConsole :=
      ⟨⟨⟨regs, .blank, .i8080⟩, 3, .ed, 0, some .trap⟩,
        ⟨⟨[0x41], #[0x42]⟩, .replicate 4 none, .program 0x0100, ⟨2, 76, 26, 0x8000⟩⟩⟩
    let empty : Machine ScriptedConsole := ⟨n.cpu, { n.bios with boot := .disk }⟩
    m.bios.bootAddress? = some 0x0100 ∧ m.SameAtBoot n ∧ m.SameRuns n .fetches 0 #[] ∧
    (∃ jump trap, (m.start #[]).turn Bios.ports .fetches 0 = some jump ∧
      jump.run.turn Bios.ports .fetches 0 = some trap ∧ m.Boots 0x0100 trap.run) ∧
    empty.bios.bootAddress? = none ∧
    (empty.run .fetches 0 2 #[]).map (·.summary) = some ⟨2, 10, .trap⟩ := by
  intro m regs n empty
  have hsame : m.SameAtBoot n := ⟨rfl, rfl, rfl, rfl, ScriptedConsole.sameInput rfl⟩
  have hnone : empty.bios.bootAddress? = none := rfl
  obtain ⟨⟨jump, -, hjump, -, -, -, hboots⟩, -, hruns⟩ :=
    m.cold_boot_forgets_history Observer.fetches 0 #[]
  obtain ⟨trap, htrap, -, hbooted⟩ := hboots 0x0100 rfl
  obtain ⟨-, hstops, -⟩ := empty.cold_boot_forgets_history Observer.fetches 0 #[]
  exact ⟨rfl, hsame, hruns ScriptedConsole n hsame, ⟨jump, trap, hjump, htrap, hbooted⟩, hnone,
    hstops hnone 2 (Nat.le_refl 2)⟩

end Machine

namespace Bios

variable {κ : Type}

theorem bootAddress?_eq_none_iff {b : Bios κ} :
    b.bootAddress? = none ↔ b.boot = .disk ∧ b.mounted 0 = false := by
  cases hboot : b.boot with
  | program addr => simp [bootAddress?, hboot]
  | disk =>
    have hdrive : b.mounted Selection.initial.drive = b.mounted 0 := rfl
    cases hmounted : b.mounted 0 <;> simp [bootAddress?, hboot, hdrive, hmounted]

/-- A cold boot selects drive A, track 0 and sector 1, and leaves all else of the system as it was.
Where it starts a program the address for data is the default; where it stops, for want of a disk
in drive A, it is still that of the program area, to which it went to read. -/
theorem cold_boot_selection [Console κ] (b : Bios κ) (c : Core)
    (h : c.regs.pc = BiosFunction.boot.vector + 2) :
    let r := trap c b
    (r.action = .halt ↔ b.boot = .disk ∧ b.mounted 0 = false) ∧
      r.host = { b with
        selection := ⟨0, 0, 1, if r.action = .continue then 0x0080 else 0x0100⟩ } := by
  intro r
  have hr : r = b.callFunction .boot c := trap_eq_serve (s := .function .boot) h b
  have haction : r.action = (b.coldBoot c).action := by rw [hr]; rfl
  have hhost : r.host = (b.coldBoot c).host := by rw [hr]; rfl
  rw [haction, hhost, ← bootAddress?_eq_none_iff]
  cases hb : b.bootAddress? with
  | none =>
    obtain ⟨hhalt, hbooting⟩ := b.coldBoot_of_no_bootAddress c hb
    rw [hhalt, hbooting]
    exact ⟨⟨fun _ => rfl, fun _ => rfl⟩, rfl⟩
  | some addr =>
    rw [b.coldBoot_of_bootAddress c hb]
    exact ⟨⟨fun hhalt => (nomatch hhalt), fun hnone => (nomatch hnone)⟩, rfl⟩

/-- With a blank disk in drive A the cold boot goes on, whatever was selected before. -/
theorem cold_boot_from_blank_disk_selects_default :
    let b : Bios ScriptedConsole :=
      { (initial default).putDisk 0 (some Disk.blank) with selection := ⟨3, 76, 26, 0x8000⟩ }
    let c : Core := (Core.initial .z80).jump 0xFE02
    c.regs.pc = BiosFunction.boot.vector + 2 ∧ (trap c b).action = .continue ∧
      (trap c b).host.selection = ⟨0, 0, 1, 0x0080⟩ := by
  intro b c
  have hpc : c.regs.pc = BiosFunction.boot.vector + 2 := by decide
  obtain ⟨hhalt, hhost⟩ := b.cold_boot_selection c hpc
  have hgoes : (trap c b).action = .continue := by
    cases haction : (trap c b).action with
    | «continue» => rfl
    | halt =>
      obtain ⟨-, hempty⟩ := hhalt.mp haction
      exact absurd hempty (by decide)
  refine ⟨hpc, hgoes, ?_⟩
  rw [hhost, hgoes]
  rfl

/-- With no disk in drive A the address for data is not the default after the trap. -/
theorem failed_cold_boot_leaves_data_address_moved :
    let b : Bios ScriptedConsole := initial default
    let c : Core := (Core.initial .z80).jump 0xFE02
    c.regs.pc = BiosFunction.boot.vector + 2 ∧ (trap c b).action = .halt ∧
      (trap c b).host.selection = ⟨0, 0, 1, 0x0100⟩ ∧
      (trap c b).host.selection.dma ≠ 0x0080 := by
  intro b c
  have hpc : c.regs.pc = BiosFunction.boot.vector + 2 := by decide
  have hnone : b.bootAddress? = none := rfl
  have hr : trap c b = b.callFunction .boot c := trap_eq_serve (s := .function .boot) hpc b
  obtain ⟨hhalt, hbooting⟩ := b.coldBoot_of_no_bootAddress c hnone
  have hselection : (trap c b).host.selection = ⟨0, 0, 1, 0x0100⟩ := by
    rw [hr]
    exact congrArg Bios.selection hbooting
  refine ⟨hpc, ?_, hselection, ?_⟩
  · rw [hr]
    exact hhalt
  · rw [hselection]
    decide

end Bios

end Cpm
