import Cpm.Proofs.EntrySteps
import Cpm.Proofs.Refresh
import Cpm.Proofs.SystemCalls

/-!
# A call to the system is one operation

A program calls an entry of the system. The call pushes the address behind it, the stub
at the entry traps, and the return pops the address again, so seen from the program the
three instructions are one: nothing but the results of the service and the refresh
register differs after them.
-/

namespace Cpm

namespace Cpu

variable {σ : Type}

/-- The next instruction is a call, the stub is intact where it goes, and the address
that it pushes lies outside the stub. -/
structure Calls (cpu : Cpu) (entry : UInt16) : Prop where
  opcode : cpu.core.mem.get8 cpu.core.regs.pc = 0xCD
  target : cpu.core.mem.get16 (cpu.core.regs.pc + 1) = entry
  stub : cpu.core.mem.getList entry 3 = Layout.stub
  outside : ∀ x, (x - entry).toNat < 3 → x ≠ cpu.core.regs.sp - 1 ∧ x ≠ cpu.core.regs.sp - 2

/-- The core that the handler sees when the stub is called. -/
def calling (cpu : Cpu) (entry : UInt16) : Core :=
  let called := (cpu.core.jump (cpu.core.regs.pc + 3)).call16 entry
  (called.onRegs (·.refresh cpu.waiting 17)).jump (entry + 2)

/-- The stub, or the address that a call pushes, lies there. -/
def Relies (cpu : Cpu) (entry x : UInt16) : Prop :=
  (x - entry).toNat < 3 ∨ x = cpu.core.regs.sp - 1 ∨ x = cpu.core.regs.sp - 2

variable {cpu : Cpu} {entry : UInt16}

theorem calling_regs : (cpu.calling entry).regs =
    { cpu.core.regs.refresh cpu.waiting 17 with
      sp := cpu.core.regs.sp - 2, pc := entry + 2 } := by
  simp only [calling, Core.jump, Core.onRegs, Core.call16, Core.push16, Registers.refresh]

@[simp] theorem calling_main : (cpu.calling entry).regs.main = cpu.core.regs.main := by
  simp only [calling_regs, Registers.refresh]

@[simp] theorem calling_mode : (cpu.calling entry).mode = cpu.core.mode := by
  simp only [calling, Core.jump, Core.onRegs, Core.call16, Core.push16]

theorem get8_calling {x : UInt16} (h : x ≠ cpu.core.regs.sp - 1 ∧ x ≠ cpu.core.regs.sp - 2) :
    (cpu.calling entry).mem.get8 x = cpu.core.mem.get8 x := by
  show (((cpu.core.mem.put8 (cpu.core.regs.sp - 1) _).put8 (cpu.core.regs.sp - 2) _)).get8 x = _
  rw [Memory.get8_put8_other _ _ h.2, Memory.get8_put8_other _ _ h.1]

/-- The bytes of the stub, as they lie in the memory that the handler sees. -/
theorem Calls.stub_intact (h : cpu.Calls entry) :
    (cpu.calling entry).mem.get8 entry = 0xD3 ∧
    (cpu.calling entry).mem.get8 (entry + 1) = Port.trap ∧
    (cpu.calling entry).mem.get8 (entry + 2) = 0xC9 := by
  have hbyte : ∀ i < 3, Layout.stub[i]? =
      some ((cpu.calling entry).mem.get8 (entry + UInt16.ofNat i)) := by
    intro i hi
    have hinside : (entry + UInt16.ofNat i - entry).toNat < 3 := by
      rw [Memory.toNat_add_ofNat_sub entry (by omega)]
      exact hi
    rw [get8_calling (h.outside _ hinside), ← h.stub, Memory.getElem?_getList _ _ hi]
  have hfirst := Option.some.inj (hbyte 0 (by decide))
  have hzero : entry + UInt16.ofNat 0 = entry := UInt16.add_zero _
  rw [hzero] at hfirst
  exact ⟨hfirst.symm, (Option.some.inj (hbyte 1 (by decide))).symm,
    (Option.some.inj (hbyte 2 (by decide))).symm⟩

/-- The address behind the call is on top of the stack when the handler is asked. -/
theorem top16_calling : (cpu.calling entry).top16 = cpu.core.regs.pc + 3 :=
  Core.top16_push16 (cpu.core.jump (cpu.core.regs.pc + 3)) (cpu.core.regs.pc + 3)

/-- The address behind the call is still on top of the stack if the handler keeps the stack
pointer and the bytes that the call relies on. -/
theorem top16_of_relies {c : Core} (hsp : c.regs.sp = cpu.core.regs.sp - 2)
    (hmem : ∀ x, cpu.Relies entry x → c.mem.get8 x = (cpu.calling entry).mem.get8 x) :
    c.top16 = cpu.core.regs.pc + 3 := by
  have hlow := hmem (cpu.core.regs.sp - 2) (.inr (.inr rfl))
  have hhigh := hmem (cpu.core.regs.sp - 1) (.inr (.inl rfl))
  have hnext : cpu.core.regs.sp - 2 + 1 = cpu.core.regs.sp - 1 := by grind
  have hseen : (cpu.calling entry).regs.sp = cpu.core.regs.sp - 2 := rfl
  have htop : (cpu.calling entry).top16 = cpu.core.regs.pc + 3 := top16_calling
  rw [← htop, Core.top16, Core.top16, Memory.get16, Memory.get16, hsp, hseen, hnext, hlow, hhigh]

/-- The three steps of a call, under any handler that goes on, changes main registers
alone, and keeps the stub and the pushed address. -/
theorem steps_of_call (h : cpu.Calls entry) (ports : Ports σ) (fuel : Nat) (host : σ)
    {reply : TrapReply σ} (hreply : ports.trap (cpu.calling entry) host = reply)
    (hgoes : reply.action = .continue) {bank : Bank}
    (hregs : reply.core.regs = { (cpu.calling entry).regs with main := bank })
    (hmem : ∀ x, cpu.Relies entry x →
      reply.core.mem.get8 x = (cpu.calling entry).mem.get8 x) :
    let regs := cpu.core.regs
    ∃ s₁ s₂ s₃ : Step σ,
      cpu.step ports fuel host = some s₁ ∧
      s₁.cpu.step ports fuel s₁.host = some s₂ ∧
      s₂.cpu.step ports fuel s₂.host = some s₃ ∧
      [s₁, s₂, s₃].map (fun s => (s.cpu.states, s.cpu.halt)) =
        [(17, none), (11, none), (10, none)] ∧
      s₃.cpu.core = { reply.core with regs := { regs with
        main := bank, pc := regs.pc + 3, r := (regs.refresh cpu.waiting 38).r } } ∧
      s₃.host = reply.host := by
  intro regs
  obtain ⟨hout, hport, hret⟩ := h.stub_intact
  -- The call.
  let called := (cpu.core.jump (cpu.core.regs.pc + 3)).call16 entry
  let s₁ : Step σ := cpu.retire .base ⟨17, none, called, host, []⟩
  have h₁ : cpu.step ports fuel host = some s₁ := cpu.step_of_call h.opcode h.target ports fuel host
  -- The trap: the handler sees the core as the call left it.
  let s₂ : Step σ := s₁.cpu.retire .base ⟨11, none, reply.core, reply.host, reply.log⟩
  have h₂ : s₁.cpu.step ports fuel host = some s₂ := by
    have hseen : s₁.cpu.core.jump (s₁.cpu.core.regs.pc + 2) = cpu.calling entry := rfl
    have hstep := s₁.cpu.step_of_trap hout hport ports fuel host
    rw [hseen, hreply] at hstep
    exact hstep hgoes
  -- The return: the stub and the pushed address are still there.
  have hpc : s₂.cpu.core.regs.pc = entry + 2 := congrArg Registers.pc hregs
  have hsp : reply.core.regs.sp = regs.sp - 2 := congrArg Registers.sp hregs
  have hstub : s₂.cpu.core.mem.get8 s₂.cpu.core.regs.pc = 0xC9 := by
    have hlast : (entry + 2 - entry).toNat = 2 :=
      Memory.toNat_add_ofNat_sub entry (by decide : 2 < 0x10000)
    have hinside : (entry + 2 - entry).toNat < 3 := by omega
    rw [hpc]
    exact (hmem (entry + 2) (.inl hinside)).trans hret
  have h₃ := s₂.cpu.step_of_ret hstub ports fuel s₂.host
  refine ⟨s₁, s₂, _, h₁, h₂, h₃, rfl, ?_, rfl⟩
  have hwaiting : s₂.cpu.waiting = leftOver cpu.waiting (17 + 11) :=
    leftOver_leftOver cpu.waiting 17 11
  rw [calling_regs] at hregs
  have hthree := regs.refresh_of_three cpu.waiting 17 11 10 bank (regs.sp - 2) (entry + 2)
    (reply.core.regs.sp + 2) reply.core.top16
  rw [← hregs, ← hwaiting] at hthree
  refine (congrArg (fun r => { reply.core with regs := r }) hthree).trans ?_
  have hback : regs.sp - 2 + 2 = regs.sp := by grind
  rw [top16_of_relies hsp hmem, hsp, hback]

end Cpu

namespace Bios

variable {κ : Type} [Console κ]

/-- The functions are served exactly behind their vectors, which lie three bytes apart. -/
theorem ofTrapPc?_function_iff (n : Nat) (pc : UInt16) :
    (∃ f, BiosFunction.ofIndex? n = some f ∧ Service.ofTrapPc? pc = some (.function f)) ↔
      n < 17 ∧ pc = 0xFE02 + 3 * UInt16.ofNat n := by
  have hentry : ∀ f : BiosFunction, f.vector + 2 = 0xFE02 + 3 * UInt16.ofNat f.index := by
    intro f
    cases f <;> decide
  constructor
  · rintro ⟨f, hn, hpc⟩
    have hindex := BiosFunction.ofIndex?_eq_some_iff.mp hn
    subst hindex
    exact ⟨f.index_lt, (Service.ofTrapPc?_eq_some_iff.mp hpc).trans (hentry f)⟩
  · rintro ⟨hn, hpc⟩
    have hf : ∃ f, BiosFunction.ofIndex? n = some f := ⟨_, List.getElem?_eq_getElem hn⟩
    obtain ⟨f, hf⟩ := hf
    have hindex := BiosFunction.ofIndex?_eq_some_iff.mp hf
    subst hindex
    exact ⟨f, hf, Service.ofTrapPc?_eq_some_iff.mpr (hpc.trans (hentry f).symm)⟩

/-- Traps are told apart exactly: behind the vector of a function it is served, behind the
entry of the BDOS the BDOS is, and any other trap stops the processor and changes nothing.
Then a call of a vector or of the entry, in either mode, is one operation of three steps:
the program goes on behind the call with its stack as it was, and of the registers only
the results of the service and the refresh register may differ. -/
theorem system_calls_are_atomic :
    (∀ (c : Core) (b : Bios κ), trap c b = match Service.ofTrapPc? c.regs.pc with
      | some s => b.serve s c
      | none => .halting c b [⟨.warn, .bios,
          "trap from " ++ Hex.word (c.regs.pc - 2) ++ " outside the BIOS vectors"⟩]) ∧
    (∀ n pc, (∃ f, BiosFunction.ofIndex? n = some f ∧
        Service.ofTrapPc? pc = some (.function f)) ↔
      n < 17 ∧ pc = 0xFE02 + 3 * UInt16.ofNat n) ∧
    (∀ pc, Service.ofTrapPc? pc = some .bdos ↔ pc = 0xFD02) ∧
    ∀ (cpu : Cpu) (b : Bios κ) (s : Service) (fuel : Nat),
      s ≠ .function .boot → cpu.Calls s.entry →
      (∀ x, b.Writes s (cpu.calling s.entry) x → ¬ cpu.Relies s.entry x) →
      (trap (cpu.calling s.entry) b).action = .continue →
      let regs := cpu.core.regs
      let reply := trap (cpu.calling s.entry) b
      ∃ (s₁ s₂ s₃ : Step (Bios κ)) (bank : Bank),
        cpu.step ports fuel b = some s₁ ∧
        s₁.cpu.step ports fuel s₁.host = some s₂ ∧
        s₂.cpu.step ports fuel s₂.host = some s₃ ∧
        [s₁, s₂, s₃].map (fun s => (s.cpu.states, s.cpu.halt)) =
          [(17, none), (11, none), (10, none)] ∧
        s₃.cpu.core.regs = { regs with
          main := bank, pc := regs.pc + 3, r := (regs.refresh cpu.waiting 38).r } ∧
        s.Results regs.main bank ∧
        s₃.cpu.core.mode = cpu.core.mode ∧
        s₃.cpu.core.mem = reply.core.mem ∧
        (∀ x, x ≠ regs.sp - 1 ∧ x ≠ regs.sp - 2 → ¬ b.Writes s (cpu.calling s.entry) x →
          s₃.cpu.core.mem.get8 x = cpu.core.mem.get8 x) ∧
        s₃.host = reply.host := by
  refine ⟨trap_eq, ofTrapPc?_function_iff, fun pc => Service.ofTrapPc?_eq_some_iff, ?_⟩
  intro cpu b s fuel hs hcalls hspares hgoes regs reply
  have hreply : reply = b.serve s (cpu.calling s.entry) := trap_eq_serve rfl b
  obtain ⟨⟨bank, hregs, hresults⟩, hmode, hmem⟩ := b.serve_keeps (cpu.calling s.entry) hs
  rw [← hreply] at hregs hresults hmode hmem
  rw [Cpu.calling_main] at hresults
  rw [Cpu.calling_mode] at hmode
  obtain ⟨s₁, s₂, s₃, h₁, h₂, h₃, htimes, hcore, hhost⟩ := cpu.steps_of_call hcalls ports fuel b
    rfl hgoes hregs fun x hx => hmem x fun hw => hspares x hw hx
  refine ⟨s₁, s₂, s₃, bank, h₁, h₂, h₃, htimes, ?_, hresults hgoes, ?_, ?_, ?_, hhost⟩
  · rw [hcore]
  · rw [hcore]
    exact hmode
  · rw [hcore]
    rfl
  · intro x hx hw
    rw [hcore]
    exact (hmem x hw).trans (Cpu.get8_calling hx)

/-- A sector is read by one call, whose address is pushed round the top of memory. -/
theorem sector_is_read_by_one_call :
    let mem := (Memory.blank.putList 0x0100 [0xCD, 0x27, 0xFE]).putList 0xFE27 Layout.stub
    let cpu : Cpu :=
      ⟨⟨{ Registers.zero with pc := 0x0100, sp := 1 }, mem, .i8080⟩, 0, .base, 0, none⟩
    let b : Bios ScriptedConsole := (initial default).putDisk 0 (some .blank)
    let read := Service.function .read
    cpu.Calls read.entry ∧
    (∀ x, b.Writes read (cpu.calling read.entry) x → ¬ cpu.Relies read.entry x) ∧
    (trap (cpu.calling read.entry) b).action = .continue ∧
    ∃ s₁ s₂ s₃, cpu.step ports 0 b = some s₁ ∧ s₁.cpu.step ports 0 s₁.host = some s₂ ∧
      s₂.cpu.step ports 0 s₂.host = some s₃ ∧
      s₃.cpu.core.regs.pc = 0x0103 ∧ s₃.cpu.core.regs.sp = 1 := by
  intro mem cpu b read
  have hentry : read.entry = 0xFE27 := by decide
  have hmem : ∀ x, mem.get8 x = Layout.stub[(x - 0xFE27).toNat]?.getD
      ([0xCD, 0x27, 0xFE][(x - 0x0100).toNat]?.getD (Memory.blank.get8 x)) := by
    intro x
    rw [Memory.get8_putList _ _ _ (by decide), Memory.get8_putList _ _ _ (by decide)]
  have hcalls : cpu.Calls read.entry := by
    rw [hentry]
    refine ⟨(hmem 0x0100).trans rfl, ?_, Memory.getList_putList _ _ (by decide), ?_⟩
    · show Word.ofBytes (mem.get8 0x0102) (mem.get8 0x0101) = 0xFE27
      rw [hmem, hmem]
      rfl
    · intro x hx
      constructor <;> rintro rfl <;> exact absurd hx (by decide)
  have hspares : ∀ x, b.Writes read (cpu.calling read.entry) x → ¬ cpu.Relies read.entry x := by
    rintro x ⟨-, hx⟩ hrelies
    have hx : (x - 0x0080).toNat < 128 := hx
    rw [hentry] at hrelies
    obtain hin | rfl | rfl := hrelies
    · simp only [UInt16.toNat_sub, UInt16.reduceToNat] at hx hin
      omega
    · exact absurd hx (by decide)
    · exact absurd hx (by decide)
  have hgoes : (trap (cpu.calling read.entry) b).action = .continue := by
    rw [trap_eq_serve (s := read) rfl]
    rfl
  obtain ⟨s₁, s₂, s₃, bank, h₁, h₂, h₃, -, hregs, -⟩ :=
    system_calls_are_atomic.2.2.2 cpu b read 0 (by decide) hcalls hspares hgoes
  refine ⟨hcalls, hspares, hgoes, s₁, s₂, s₃, h₁, h₂, h₃, ?_, ?_⟩
  · rw [hregs]
    rfl
  · rw [hregs]

end Bios

end Cpm
