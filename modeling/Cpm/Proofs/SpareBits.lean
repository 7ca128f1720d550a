import Cpm.Proofs.FlagFrame
import Cpm.Proofs.SpecialRegisters
import Cpm.Proofs.Termination

/-!
# The bits of no flag

Bits 3 and 5 of the flag byte belong to no flag. An instruction that puts a new flag byte together
clears both, and one that changes flags where they are keeps both; only POP AF and the exchange
with the shadow bank bring in others. Where they are clear in both banks they stay clear over any
number of steps, unless POP AF is executed or a port handler sets them. The system sets none.
-/

namespace Cpm

namespace Flag

/-- The bits that belong to no flag, each by itself. -/
def spareBits : List UInt8 := [0x08, 0x20]

theorem spareMask_and_of_mem {bit : UInt8} (h : bit ∈ spareBits) : spareMask &&& bit = bit := by
  obtain rfl | rfl : bit = 0x08 ∨ bit = 0x20 := by simpa [spareBits] using h
  · rfl
  · rfl

end Flag

/-- A single spare bit is read off the two. -/
theorem Flags.and_spareBit (f : Flags) {bit : UInt8} (h : bit ∈ Flag.spareBits) :
    f.bits &&& bit = f.spare &&& bit := by
  rw [spare, UInt8.and_assoc, Flag.spareMask_and_of_mem h]

/-! ### What an instruction makes of them -/

namespace Operation

def rebuildsFlags : Operation → Bool
  | .alu _ _ | .aluImm _ _ | .neg | .inc _ | .dec _ => true
  | .addPair _ _ | .adcHl _ | .sbcHl _ => true
  | .acc .rlca | .acc .rrca | .acc .rla | .acc .rra | .acc .daa => true
  | .shift _ _ | .bit _ _ | .rrd | .rld | .ldAI | .ldAR => true
  | .ldi _ | .ldir _ | .cpi _ | .cpir _ => true
  | _ => false

end Operation

def Instruction.rebuildsFlags : Instruction → Bool
  | .operation o => o.rebuildsFlags
  | .output (.outi _) | .output (.otir _) => true
  | _ => false

namespace Registers

variable (r : Registers)

theorem spare_accumulate (op : AluOp) (v : UInt8) (mode : Mode) :
    (r.accumulate op v mode).main.f.spare = 0 := by
  cases op <;>
    simp [accumulate, setResult, setFlags, Alu.add8, Alu.sub8, Alu.compare8, Alu.and8, Alu.or8,
      Alu.xor8]

theorem spare_rotateA (s : Shift) : (r.rotateA s).main.f.spare = 0 := by
  simp [rotateA, setResult]

/-- CPL, SCF and CCF set and clear flags in the byte as it is. -/
theorem spare_accumulator (op : AccOp) :
    (r.accumulator op).main.f.spare =
      if (Operation.acc op).rebuildsFlags then 0 else r.main.f.spare := by
  cases op with
  | rlca | rrca | rla | rra => exact r.spare_rotateA _
  | daa => simp [accumulator, setResult, Alu.daa, Operation.rebuildsFlags]
  | cpl | scf | ccf => simp [accumulator, setResult, setFlags, Operation.rebuildsFlags]

end Registers

namespace Core

variable (c : Core)

theorem spare_withTransferFlags : c.withTransferFlags.regs.main.f.spare = 0 := by
  simp [withTransferFlags, onRegs, Registers.setFlags]

theorem spare_compare (dir : Direction) : (compare dir c).regs.main.f.spare = 0 := by
  simp [compare, onRegs, Alu.compareBlock]

/-- The repeating comparison makes at least one comparison. -/
theorem spare_compares (dir : Direction) :
    (compares dir (rounds c.regs.main.bc) ⟨0, c⟩).core.regs.main.f.spare = 0 := by
  obtain ⟨-, found, hloop⟩ := c.compares_loop dir
  exact hloop.holds_after (k := 0) (P := fun _ _ => True)
    (Q := fun _ s => s.core.regs.main.f.spare = 0) (fun _ s _ => s.core.spare_compare dir)
    (fun _ _ _ _ => trivial) trivial

/-- A new flag byte has neither of the spare bits. -/
theorem spare_perform_of_rebuildsFlags {o : Operation} (h : o.rebuildsFlags = true) :
    (c.perform o).core.regs.main.f.spare = 0 := by
  cases o
  case alu | aluImm => exact Registers.spare_accumulate _ _ _ _
  case neg => simp [perform, onRegs, Registers.setResult, Alu.sub8]
  case inc | dec | shift =>
    simp [perform, setOperandResult, onRegs, Registers.setFlags, Alu.inc8, Alu.dec8, Alu.shift]
  case bit => simp [perform, onRegs, Registers.setFlags, Alu.bitTest]
  case addPair => simp [perform, onRegs, Registers.addPointer, Registers.setFlags, Alu.add16]
  case adcHl | sbcHl =>
    simp [perform, onRegs, Registers.setWordResult, Alu.adc16, Alu.sbc16]
  case acc op => exact (c.regs.spare_accumulator op).trans (if_pos h)
  case rrd | rld =>
    simp [perform, rotateDigitsRight, rotateDigitsLeft, digitShift, Registers.setResult]
  case ldAI | ldAR => simp [perform, onRegs, Registers.loadSpecial, Registers.setResult]
  case ldi | ldir => exact spare_withTransferFlags _
  case cpi dir => exact c.spare_compare dir
  case cpir dir => exact c.spare_compares dir
  all_goals cases h

/-- Every other operation keeps them, but for the two that take the whole byte from elsewhere. -/
theorem spare_perform_of_not_rebuildsFlags {o : Operation} (h : o.rebuildsFlags = false)
    (hpop : o ≠ .pop .af) (hexchange : o ≠ .exAf) :
    (c.perform o).core.regs.main.f.spare = c.regs.main.f.spare := by
  cases hlisted : o.setsCarry || o.keepsCarry with
  | false =>
    obtain ⟨hsets, hkeeps⟩ := Bool.or_eq_false_iff.mp hlisted
    rw [c.perform_f hsets hkeeps]
  | true =>
    -- Of the operations that replace the flag byte the three on the accumulator are left.
    cases o
    case alu | aluImm | neg | inc | dec | addPair | adcHl | sbcHl | shift | bit => cases h
    case rrd | rld | ldAI | ldAR | ldi | ldir | cpi | cpir => cases h
    case acc op => exact (c.regs.spare_accumulator op).trans (if_neg (by simp [h]))
    case pop p =>
      cases p with
      | af => exact absurd rfl hpop
      | bc | de | pointer p => cases hlisted
    case exAf => exact absurd rfl hexchange
    all_goals cases hlisted

end Core

theorem Bank.spare_counted (k : Bank) (dir : Direction) {n : Nat} (hn : 0 < n) :
    (k.counted dir n).f.spare = 0 := by
  cases n with
  | zero => exact absurd hn (Nat.lt_irrefl 0)
  | succ n => simp [counted]

/-- An instruction that makes no trap clears both spare bits or keeps both, if it does not take
the flag byte from the stack or from the shadow bank. -/
theorem Instruction.spare_untrapped (c : Core) {i : Instruction} (hpop : i ≠ .operation (.pop .af))
    (hexchange : i ≠ .operation .exAf) :
    (i.untrapped c).regs.main.f.spare = if i.rebuildsFlags then 0 else c.regs.main.f.spare := by
  cases hi : i.rebuildsFlags with
  | true =>
    rw [if_pos rfl]
    cases i with
    | operation o => exact c.spare_perform_of_rebuildsFlags hi
    | output o =>
      cases o with
      | outA port | outC src => cases hi
      | outi dir => exact Bank.spare_counted _ dir Nat.one_pos
      | otir dir =>
        have hlength := c.length_blockBytes dir (Core.roundsOfByte c.regs.main.b)
        exact Bank.spare_counted _ dir (hlength ▸ Core.roundsOfByte_pos _)
    | halt => cases hi
  | false =>
    rw [if_neg Bool.false_ne_true]
    cases i with
    | operation o =>
      exact c.spare_perform_of_not_rebuildsFlags hi (fun h => hpop (congrArg _ h))
        fun h => hexchange (congrArg _ h)
    | output o =>
      cases o with
      | outA port | outC src => rfl
      | outi dir | otir dir => cases hi
    | halt => rfl

/-! ### Clear in both banks -/

/-- The spare bits are clear in the flag byte and in that of the shadow bank. -/
structure Registers.SpareClear (r : Registers) : Prop where
  main : r.main.f.spare = 0
  shadow : r.shadow.f.spare = 0

/-- The handler set none of the spare bits, if all of them were clear. -/
def PortCall.keepsSpareClear : PortCall → Prop
  | .trap seen _ left => seen.regs.SpareClear → left.regs.SpareClear
  | .write _ _ => True

theorem Bank.spare_eq (k : Bank) : k.f.spare = Word.low k.af &&& Flag.spareMask := by
  rw [af, Word.low_ofBytes]
  rfl

namespace Core

variable {σ : Type} {ports : Ports σ} {c : Core}

theorem spareClear_perform {o : Operation} (hpop : o ≠ .pop .af) (hclear : c.regs.SpareClear) :
    (c.perform o).core.regs.SpareClear := by
  by_cases hexchange : o = .exAf
  · subst hexchange
    exact ⟨hclear.shadow, hclear.main⟩
  · constructor
    · cases ho : o.rebuildsFlags with
      | true => exact c.spare_perform_of_rebuildsFlags ho
      | false =>
        exact (c.spare_perform_of_not_rebuildsFlags ho hpop hexchange).trans hclear.main
    · have haf := Instruction.untrapped_shadow_af c (i := .operation o)
        fun h => hexchange (Instruction.operation.inj h)
      rw [Bank.spare_eq, show (c.perform o).core.regs.shadow.af = _ from haf, ← Bank.spare_eq]
      exact hclear.shadow

theorem spareClear_writePort {h : σ × List PortCall} {at_ : UInt16} {port value : UInt8}
    (hclear : c.regs.SpareClear)
    (hcalls : ∀ call ∈ (c.writePort ports.recorded h at_ port value).host.2,
      call.keepsSpareClear) :
    (c.writePort ports.recorded h at_ port value).core.regs.SpareClear := by
  unfold writePort at *
  split
  · next hport =>
    rw [if_pos hport] at hcalls
    exact hcalls _ (List.mem_append_right _ (List.mem_singleton_self _)) hclear
  · split
    · show (c.selectMode at_ value).1.regs.SpareClear
      rw [selectMode_core]
      exact hclear
    · exact hclear

end Core

/-- One more round of block output puts the flags together anew, after what the handler did. -/
theorem Written.spareClear_next {σ : Type} {ports : Ports σ} {at_ : UInt16} {dir : Direction}
    {w : Written (σ × List PortCall)} (hclear : w.core.regs.SpareClear)
    (hcalls : ∀ call ∈ (next ports.recorded at_ dir w).host.2, call.keepsSpareClear) :
    (next ports.recorded at_ dir w).core.regs.SpareClear := by
  let stepped := w.core.onRegs fun r =>
    { r with main := { r.main with b := r.main.b - 1 }.setHl (r.main.hl + dir.stride) }
  have hstepped : stepped.regs.SpareClear := ⟨hclear.main, hclear.shadow⟩
  have hwritten := Core.spareClear_writePort hstepped hcalls
  exact ⟨by simp [next, Core.outputRound, Core.onRegs, Registers.setFlags], hwritten.shadow⟩

/-- Outputs keep the bits clear if the traps that they make do. -/
theorem Core.spareClear_output {σ : Type} {ports : Ports σ} {c : Core} {o : Output} {fuel : Nat}
    {host : σ} {at_ : UInt16} {r : Outcome (σ × List PortCall)} (hclear : c.regs.SpareClear)
    (h : c.output ports.recorded fuel (host, []) at_ o = some r)
    (hcalls : ∀ call ∈ r.host.2, call.keepsSpareClear) : r.core.regs.SpareClear := by
  cases o with
  | outA port | outC src =>
    cases h
    rw [Outcome.host_ofWritten] at hcalls
    rw [Outcome.core_ofWritten]
    exact spareClear_writePort hclear hcalls
  | outi dir =>
    cases h
    rw [Outcome.host_ofWritten] at hcalls
    rw [Outcome.core_ofWritten]
    exact Written.spareClear_next (w := ⟨true, c, (host, []), []⟩) hclear hcalls
  | otir dir =>
    obtain ⟨⟨count, last⟩, hb, rfl⟩ := Option.map_eq_some_iff.mp h
    obtain ⟨n, -, -, hloop⟩ := outputRounds_eq_some_iff.mp hb
    rw [Outcome.host_ofWritten] at hcalls
    rw [Outcome.core_ofWritten]
    -- The calls of a round stand behind those of the rounds before it, so what is known of the
    -- calls at the end is known in every round.
    let Kept (w : Written (σ × List PortCall)) : Prop :=
      (∀ call ∈ w.host.2, call.keepsSpareClear) → w.core.regs.SpareClear
    refine hloop.holds_after (k := 0) (P := fun _ w => Kept w) (Q := fun _ w => Kept w)
      (fun _ w hw hnext => ?_) (fun _ _ hw _ => hw) (fun _ => hclear) hcalls
    obtain ⟨calls, hadded, -⟩ := next_calls ports w at_ dir
    refine Written.spareClear_next (hw fun call hmem => hnext call ?_) hnext
    rw [hadded]
    exact List.mem_append_left _ hmem

/-! ### Steps and runs -/

namespace Cpu

variable {σ : Type} {ports : Ports σ} {fuel : Nat} {cpu : Cpu} {host : σ} {s : Step σ}

/-- The next step is no POP AF, and no call that it makes to the handler sets a spare bit. -/
structure SetsNoSpare (cpu : Cpu) (ports : Ports σ) (fuel : Nat) (host : σ) : Prop where
  instruction : cpu.decoded.instruction ≠ some (.operation (.pop .af))
  calls : ∀ call ∈ cpu.portCalls ports fuel host, call.keepsSpareClear

/-- One such step keeps the spare bits clear in both banks. -/
theorem spareClear_step (hsets : cpu.SetsNoSpare ports fuel host)
    (hclear : cpu.core.regs.SpareClear) (h : cpu.step ports fuel host = some s) :
    s.cpu.core.regs.SpareClear := by
  have hpast : (cpu.past cpu.decoded).regs.SpareClear := ⟨hclear.main, hclear.shadow⟩
  cases hi : cpu.decoded.instruction with
  | none =>
    rw [cpu.step_of_none ports fuel host hi] at h
    cases h
    exact ⟨hclear.main, hclear.shadow⟩
  | some i =>
    cases i with
    | operation o =>
      have ho : o ≠ .pop .af := by
        rintro rfl
        exact hsets.instruction hi
      have hperformed := Core.spareClear_perform ho hpast
      rw [cpu.step_of_operation ports fuel host hi] at h
      cases h
      exact ⟨hperformed.main, hperformed.shadow⟩
    | output o =>
      have hrecorded := cpu.step_recorded_eq_some ports fuel h
      rw [step_of_output _ _ _ _ hi] at hrecorded
      obtain ⟨r, hr, hs⟩ := Option.map_eq_some_iff.mp hrecorded
      have hcalls : r.host.2 = cpu.portCalls ports fuel host := congrArg (·.host.2) hs
      have hwritten := Core.spareClear_output hpast hr fun call hmem =>
        hsets.calls call (hcalls ▸ hmem)
      have hcpu : s.cpu = (cpu.retire cpu.decoded.table r).cpu := congrArg Step.cpu hs.symm
      rw [hcpu]
      exact ⟨hwritten.main, hwritten.shadow⟩
    | halt =>
      rw [cpu.step_of_halt ports fuel host hi] at h
      cases h
      exact ⟨hclear.main, hclear.shadow⟩

/-- Steps one after another, with their number, none of which is a POP AF or has a spare bit set
by the handler. -/
inductive SpareRun (ports : Ports σ) : Nat → Cpu → σ → Cpu → σ → Prop
  | done (cpu : Cpu) (host : σ) : SpareRun ports 0 cpu host cpu host
  | step {fuel n : Nat} {cpu last : Cpu} {host lastHost : σ} {s : Step σ}
      (sets : cpu.SetsNoSpare ports fuel host) (h : cpu.step ports fuel host = some s)
      (rest : SpareRun ports n s.cpu s.host last lastHost) :
      SpareRun ports (n + 1) cpu host last lastHost

/-- Such steps keep the bits clear, however many there are. -/
theorem SpareRun.spareClear {n : Nat} {last : Cpu} {lastHost : σ}
    (h : SpareRun ports n cpu host last lastHost) (hclear : cpu.core.regs.SpareClear) :
    last.core.regs.SpareClear := by
  induction h with
  | done cpu host => exact hclear
  | step sets hs rest ih => exact ih (spareClear_step sets hclear hs)

/-- What a step without a trap makes of the flag byte. -/
theorem Quiet.flags_eq (hquiet : cpu.Quiet ports fuel host)
    (h : cpu.step ports fuel host = some s) :
    s.cpu.core.regs.main.f = (cpu.decoded.instruction.elim (cpu.past cpu.decoded)
      (·.untrapped (cpu.past cpu.decoded))).regs.main.f :=
  congrArg (·.regs.main.f) (hquiet.core_eq h)

/-- POP AF takes the flag byte from the top of the stack. -/
theorem Quiet.bits_of_popAf (hquiet : cpu.Quiet ports fuel host)
    (h : cpu.step ports fuel host = some s)
    (hi : cpu.decoded.instruction = some (.operation (.pop .af))) :
    s.cpu.core.regs.main.f.bits = cpu.core.mem.get8 cpu.core.regs.sp := by
  rw [hquiet.flags_eq h, hi]
  exact Word.low_ofBytes _ _

/-- In a step without a trap the spare bits are both clear or both as before, but for the two
instructions that take the flag byte from elsewhere. -/
theorem Quiet.spare_cases (hquiet : cpu.Quiet ports fuel host)
    (h : cpu.step ports fuel host = some s)
    (hpop : cpu.decoded.instruction ≠ some (.operation (.pop .af)))
    (hexchange : cpu.decoded.instruction ≠ some (.operation .exAf)) :
    s.cpu.core.regs.main.f.spare = 0 ∨
      s.cpu.core.regs.main.f.spare = cpu.core.regs.main.f.spare := by
  rw [hquiet.flags_eq h]
  cases hi : cpu.decoded.instruction with
  | none => exact .inr rfl
  | some i =>
    have hspare := i.spare_untrapped (cpu.past cpu.decoded)
      (fun he => hpop (hi.trans (congrArg some he)))
      fun he => hexchange (hi.trans (congrArg some he))
    split at hspare
    · exact .inl hspare
    · exact .inr hspare

end Cpu

/-! ### The system -/

namespace Bios

variable {κ : Type} [Console κ]

/-- No service touches the flags or the shadow bank. -/
theorem serve_flags (b : Bios κ) (s : Service) (c : Core) :
    (b.serve s c).core.regs.main.f = c.regs.main.f ∧
      (b.serve s c).core.regs.shadow = c.regs.shadow := by
  cases s with
  | bdos =>
    show (b.serveBdos c).core.regs.main.f = _ ∧ (b.serveBdos c).core.regs.shadow = _
    obtain ⟨-, ⟨-, hcore⟩ | ⟨-, w, hcore⟩⟩ := b.serveBdos_isBdosReply c
    · rw [hcore]
      exact ⟨rfl, rfl⟩
    · rw [hcore]
      exact ⟨rfl, rfl⟩
  | function f =>
    show (b.serveFunction f c).core.regs.main.f = _ ∧ (b.serveFunction f c).core.regs.shadow = _
    cases f
    case boot =>
      obtain ⟨sp, pc, hregs⟩ := b.coldBoot_regs c
      show (b.coldBoot c).core.regs.main.f = _ ∧ (b.coldBoot c).core.regs.shadow = _
      rw [hregs]
      exact ⟨rfl, rfl⟩
    case conin =>
      simp only [serveFunction]
      split <;> exact ⟨rfl, rfl⟩
    case seldsk =>
      simp only [serveFunction, selectDrive]
      split
      · split <;> exact ⟨rfl, rfl⟩
      · exact ⟨rfl, rfl⟩
    all_goals exact ⟨rfl, rfl⟩

theorem trap_flags (c : Core) (b : Bios κ) :
    (trap c b).core.regs.main.f = c.regs.main.f ∧
      (trap c b).core.regs.shadow = c.regs.shadow := by
  rw [trap_eq]
  split
  · exact b.serve_flags _ c
  · exact ⟨rfl, rfl⟩

/-- The system sets no spare bit, so on it POP AF alone can. -/
theorem setsNoSpare {cpu : Cpu}
    (h : cpu.decoded.instruction ≠ some (.operation (.pop .af))) (fuel : Nat) (b : Bios κ) :
    cpu.SetsNoSpare ports fuel b where
  instruction := h
  calls := by
    refine cpu.forall_portCalls (fun c b hclear => ?_) (fun _ _ => trivial) fuel b
    obtain ⟨hmain, hshadow⟩ := trap_flags c b
    exact ⟨(congrArg Flags.spare hmain).trans hclear.main,
      (congrArg (·.f.spare) hshadow).trans hclear.shadow⟩

end Bios

namespace Cpu

variable {σ : Type}

/-- Spare bits that are clear in both banks stay clear after every step of a run, of any length and
in either mode, in which POP AF is not executed and no trap is answered by setting one. From any
state whatsoever a step that makes no trap leaves each of them clear or as it was, except that POP
AF takes the byte from the stack and the exchange takes it from the shadow bank. -/
theorem spare_bits_are_never_computed (cpu : Cpu) (ports : Ports σ) (host : σ) :
    (cpu.core.regs.SpareClear → ∀ (n : Nat) (last : Cpu) (lastHost : σ),
      SpareRun ports n cpu host last lastHost → last.core.regs.SpareClear) ∧
    ∀ (fuel : Nat) (s : Step σ), cpu.Quiet ports fuel host → cpu.step ports fuel host = some s →
      let i := cpu.decoded.instruction
      let before := cpu.core.regs
      let after := s.cpu.core.regs.main.f
      (i = some (.operation (.pop .af)) → after.bits = cpu.core.mem.get8 before.sp) ∧
      (i = some (.operation .exAf) → after = before.shadow.f) ∧
      (i ≠ some (.operation (.pop .af)) → i ≠ some (.operation .exAf) →
        ∀ bit ∈ Flag.spareBits,
          after.bits &&& bit = 0 ∨ after.bits &&& bit = before.main.f.bits &&& bit) := by
  constructor
  · intro hclear n last lastHost hrun
    exact hrun.spareClear hclear
  · intro fuel s hquiet h i before after
    refine ⟨hquiet.bits_of_popAf h, fun hi => ?_, fun hpop hexchange bit hbit => ?_⟩
    · have hflags := hquiet.flags_eq h
      rw [show cpu.decoded.instruction = _ from hi] at hflags
      exact hflags
    · rw [after.and_spareBit hbit, before.main.f.and_spareBit hbit]
      obtain hcleared | hkept := hquiet.spare_cases h hpop hexchange
      · exact .inl (by rw [hcleared, UInt8.zero_and])
      · exact .inr (by rw [hkept])

/-- A count whose result has both bits leaves them clear, and so does a call of the system behind
it. Popped from the stack they are set, and the complement of the accumulator does not compute
them. -/
theorem result_with_both_bits_leaves_them_clear :
    let mem := (((((Memory.blank.put8 0xFE14 0x3D).put8 0xFE15 0xD3).put8 0xFE16 0xFF).put8 0x100
      0xF1).put8 0x101 0x2F).put8 0x102 0x2A
    let bank : Bank := { Bank.zero with a := 0x2A, f := ⟨0xD7⟩ }
    let b : Bios ScriptedConsole := .initial default
    let count : Cpu :=
      ⟨⟨{ Registers.zero with main := bank, pc := 0xFE14 }, mem, .i8080⟩, 0, .base, 0, none⟩
    let pop : Cpu :=
      ⟨⟨{ Registers.zero with sp := 0x102, pc := 0x100 }, mem, .z80⟩, 0, .base, 0, none⟩
    let complement : Cpu :=
      ⟨⟨{ Registers.zero with main := { bank with f := ⟨0x2A⟩ }, pc := 0x101 }, mem, .z80⟩, 0,
        .base, 0, none⟩
    (count.core.regs.SpareClear ∧ ∃ s last lastHost, count.step Bios.ports 0 b = some s ∧
      s.cpu.core.regs.main.a = 0x29 ∧ SpareRun Bios.ports 2 count b last lastHost ∧
      last.core.regs.main.a = 0x1A ∧ last.core.regs.SpareClear) ∧
    (pop.Quiet .unattached 0 () ∧ ∃ s, pop.step .unattached 0 () = some s ∧
      s.cpu.core.regs.main.f.bits = 0x2A) ∧
    (complement.Quiet .unattached 0 () ∧ ∃ s, complement.step .unattached 0 () = some s ∧
      ∀ bit ∈ Flag.spareBits, s.cpu.core.regs.main.f.bits &&& bit = 0 ∨
        s.cpu.core.regs.main.f.bits &&& bit = 0x2A &&& bit) := by
  intro mem bank b count pop complement
  obtain ⟨hcount, hout, hport⟩ : mem.get8 0xFE14 = 0x3D ∧ mem.get8 0xFE15 = 0xD3 ∧
      mem.get8 0xFE16 = Port.trap := by
    simp [mem, Port.trap]
  obtain ⟨hpop, hcomplement, hpopped⟩ : mem.get8 0x100 = 0xF1 ∧ mem.get8 0x101 = 0x2F ∧
      mem.get8 0x102 = 0x2A := by
    simp [mem]
  clear_value mem
  refine ⟨?_, ?_, ?_⟩
  · have hclear : count.core.regs.SpareClear :=
      ⟨show (⟨0xD7⟩ : Flags).spare = 0 by decide, Flags.spare_none⟩
    have hd : count.decoded = ⟨.base, 0x3D, 1, some (.operation (.dec (.reg (.main .a))))⟩ :=
      count.decoded_of_common hcount rfl rfl
    obtain ⟨s, hs, hmem, hpc, ha⟩ : ∃ s, count.step Bios.ports 0 b = some s ∧
        s.cpu.core.mem = mem ∧ s.cpu.core.regs.pc = 0xFE15 ∧ s.cpu.core.regs.main.a = 0x29 := by
      refine ⟨_, count.step_of_operation Bios.ports 0 b (congrArg Decoded.instruction hd), rfl, ?_,
        ?_⟩
      · rw [hd]
        rfl
      · show (0x2A : UInt8) - 1 = 0x29
        decide
    have hop : s.cpu.core.mem.get8 s.cpu.core.regs.pc = 0xD3 := by rw [hmem, hpc, hout]
    have hport : s.cpu.core.mem.get8 (s.cpu.core.regs.pc + 1) = Port.trap := by
      rw [hmem, hpc]
      exact hport
    have hreader : s.cpu.core.regs.pc + 2 = (Service.function .reader).entry + 2 := by
      rw [hpc]
      rfl
    have hreply : Bios.trap (s.cpu.core.jump (s.cpu.core.regs.pc + 2)) s.host = _ :=
      Bios.trap_eq_serve hreader s.host
    have hs' := s.cpu.step_of_trap hop hport Bios.ports 0 s.host (by
      show (Bios.trap _ _).action = _
      rw [hreply]
      rfl)
    have hrun : SpareRun Bios.ports 2 count b _ _ :=
      .step (Bios.setsNoSpare (by rw [hd]; decide) 0 b) hs
        (.step (Bios.setsNoSpare (by rw [s.cpu.decoded_of_outA hop hport]; decide) 0 s.host) hs'
          (.done _ _))
    refine ⟨hclear, s, _, _, hs, ha, hrun, ?_,
      (spare_bits_are_never_computed count Bios.ports b).1 hclear 2 _ _ hrun⟩
    show (Bios.trap _ _).core.regs.main.a = _
    rw [hreply]
    rfl
  · have hi : pop.decoded = ⟨.base, 0xF1, 1, some (.operation (.pop .af))⟩ :=
      pop.decoded_of_common hpop rfl rfl
    have hinst := congrArg Decoded.instruction hi
    have hquiet := quiet_of_operation hinst Ports.unattached 0 ()
    have hs := pop.step_of_operation Ports.unattached 0 () hinst
    obtain ⟨hbits, -⟩ :=
      (spare_bits_are_never_computed pop .unattached ()).2 0 _ hquiet hs
    exact ⟨hquiet, _, hs, (hbits hinst).trans hpopped⟩
  · have hi : complement.decoded = ⟨.base, 0x2F, 1, some (.operation (.acc .cpl))⟩ :=
      complement.decoded_of_common hcomplement rfl rfl
    have hinst := congrArg Decoded.instruction hi
    have hquiet := quiet_of_operation hinst Ports.unattached 0 ()
    have hs := complement.step_of_operation Ports.unattached 0 () hinst
    obtain ⟨-, -, hcases⟩ :=
      (spare_bits_are_never_computed complement .unattached ()).2 0 _ hquiet hs
    exact ⟨hquiet, _, hs, hcases (by rw [hinst]; decide) (by rw [hinst]; decide)⟩

end Cpu

end Cpm
