import Cpm.Proofs.QuietSteps

/-!
# What leaves the flags alone

Loops on numbers of many bytes carry a flag from one byte to the next, past the loads, the steps
of pointers and counters and the jump back. Which instructions compute the carry, and which of
the others replace the flag byte, is listed here; every other instruction leaves the whole byte
as it was, the two bits that belong to no flag with it.
-/

namespace Cpm

namespace Operation

/-- The operation computes, loads or exchanges the carry. -/
def setsCarry : Operation → Bool
  | .alu _ _ | .aluImm _ _ | .neg => true
  | .addPair _ _ | .adcHl _ | .sbcHl _ => true
  | .acc .rlca | .acc .rrca | .acc .rla | .acc .rra => true
  | .acc .daa | .acc .scf | .acc .ccf => true
  | .shift _ _ => true
  | .pop .af | .exAf => true
  | _ => false

/-- The operation replaces the flag byte and keeps the carry in it. -/
def keepsCarry : Operation → Bool
  | .inc _ | .dec _ | .bit _ _ => true
  | .acc .cpl | .rrd | .rld => true
  | .ldAI | .ldAR => true
  | .ldi _ | .ldir _ | .cpi _ | .cpir _ => true
  | _ => false

end Operation

namespace Instruction

def setsCarry : Instruction → Bool
  | .operation o => o.setsCarry
  | _ => false

def setsFlags : Instruction → Bool
  | .operation o => o.setsCarry || o.keepsCarry
  | .output (.outi _) | .output (.otir _) => true
  | _ => false

end Instruction

namespace Registers

variable (r : Registers)

@[simp] theorem setByte_f (x : ByteReg) (v : UInt8) : (r.setByte x v).main.f = r.main.f := by
  rcases x with (_ | _ | _ | _ | _ | _ | _) | (_ | _) | (_ | _) <;> rfl

@[simp] theorem setPointer_f (p : Pointer) (w : UInt16) :
    (r.setPointer p w).main.f = r.main.f := by
  rcases p with _ | (_ | _) <;> rfl

@[simp] theorem setPair_f (p : Pair) (w : UInt16) : (r.setPair p w).main.f = r.main.f := by
  cases p with
  | pointer p => exact setPointer_f r p w
  | _ => rfl

end Registers

namespace Core

variable (c : Core)

@[simp] theorem setOperand_f (x : Operand) (v : UInt8) :
    (c.setOperand x v).regs.main.f = c.regs.main.f := by
  cases x with
  | reg r => exact Registers.setByte_f _ _ _
  | mem p => rfl

theorem transfers_f (dir : Direction) (n : Nat) :
    (transfers dir n c).regs.main.f = c.regs.main.f := by
  induction n generalizing c with
  | zero => rfl
  | succ n ih => exact ih (transfer dir c)

theorem carry_withTransferFlags : c.withTransferFlags.regs.main.f.carry = c.regs.main.f.carry := by
  simp [withTransferFlags, onRegs, Registers.setFlags, Flags.carry]

theorem carry_compare (dir : Direction) :
    (compare dir c).regs.main.f.carry = c.regs.main.f.carry :=
  Flags.carry_set _ _

theorem carry_compares (dir : Direction) (n k : Nat) :
    (compares dir n ⟨k, c⟩).core.regs.main.f.carry = c.regs.main.f.carry := by
  induction n generalizing c k with
  | zero => rfl
  | succ n ih =>
    rw [compares_succ]
    split
    · exact c.carry_compare dir
    · exact (ih (compare dir c) (k + 1)).trans (c.carry_compare dir)

/-- An operation that is not listed leaves the flag byte alone. -/
theorem perform_f {o : Operation} (hsets : o.setsCarry = false) (hkeeps : o.keepsCarry = false) :
    (c.perform o).core.regs.main.f = c.regs.main.f := by
  cases o
  case alu | aluImm | neg | addPair | adcHl | sbcHl | shift | exAf => cases hsets
  case inc | dec | bit | rrd | rld | ldAI | ldAR | ldi | ldir | cpi | cpir => cases hkeeps
  case acc op =>
    cases op with
    | cpl => cases hkeeps
    | _ => cases hsets
  case pop p =>
    cases p with
    | af => cases hsets
    | pointer p => exact Registers.setPointer_f c.drop16.regs p _
    | bc | de => rfl
  case ld | ldFrom => exact Registers.setByte_f _ _ _
  case ldPair | ldPairMem | incPair | decPair => exact Registers.setPair_f _ _ _
  case ldPointerMem | exSp => exact Registers.setPointer_f _ _ _
  case ldImm | res | set => exact setOperand_f c _ _
  case jpIf | jrIf | callIf | retIf =>
    simp only [perform, branch]
    split <;> rfl
  case djnz =>
    simp only [perform]
    split <;> rfl
  all_goals rfl

/-- An operation that does not set the carry keeps it, whatever else of the flags it replaces. -/
theorem carry_perform {o : Operation} (hsets : o.setsCarry = false) :
    (c.perform o).core.regs.main.f.carry = c.regs.main.f.carry := by
  cases hkeeps : o.keepsCarry with
  | false => rw [c.perform_f hsets hkeeps]
  | true =>
    cases o
    case inc | dec | bit | rrd | rld | ldAI | ldAR => exact Flags.carry_set _ _
    case acc op =>
      cases op with
      | cpl => simp [perform, Registers.accumulator, onRegs, Registers.setResult, Flags.carry]
      | _ => cases hsets
    case ldi dir => exact (c.transfer dir).carry_withTransferFlags
    case ldir dir =>
      exact ((transfers dir _ c).carry_withTransferFlags).trans
        (congrArg Flags.carry (c.transfers_f dir _))
    case cpi dir => exact c.carry_compare dir
    case cpir dir => exact c.carry_compares dir _ 0
    all_goals cases hkeeps

end Core

namespace Instruction

variable (c : Core)

/-- Of the instructions that are no operation, only the block outputs replace the flag byte. -/
theorem untrapped_f {i : Instruction} (h : i.setsFlags = false) :
    (i.untrapped c).regs.main.f = c.regs.main.f := by
  cases i with
  | operation o =>
    obtain ⟨hsets, hkeeps⟩ := Bool.or_eq_false_iff.mp h
    exact c.perform_f hsets hkeeps
  | output o =>
    cases o with
    | outA port => rfl
    | outC src => rfl
    | outi dir | otir dir => cases h
  | halt => rfl

theorem carry_untrapped {i : Instruction} (h : i.setsCarry = false) :
    (i.untrapped c).regs.main.f.carry = c.regs.main.f.carry := by
  cases i with
  | operation o => exact c.carry_perform h
  | output o =>
    cases o with
    | outA port => rfl
    | outC src => rfl
    | outi dir | otir dir => exact Bank.carry_counted _ _ _
  | halt => rfl

end Instruction

namespace Cpu

variable {σ : Type}

/-- In a step that makes no trap, the carry changes only by an instruction that sets it, and the
flag byte, spare bits included, only by one that replaces it. Where no instruction is found
nothing changes. -/
theorem flags_change_only_by_listed_instructions (cpu : Cpu) (ports : Ports σ) (fuel : Nat)
    (host : σ) (s : Step σ) (hquiet : cpu.Quiet ports fuel host)
    (h : cpu.step ports fuel host = some s) :
    let i := cpu.decoded.instruction
    let before := cpu.core.regs.main.f
    let after := s.cpu.core.regs.main.f
    (i.any (·.setsCarry) = false → after.carry = before.carry) ∧
      (i.any (·.setsFlags) = false → after = before) := by
  intro i before after
  have hafter : after =
      (i.elim (cpu.past cpu.decoded) (·.untrapped (cpu.past cpu.decoded))).regs.main.f :=
    congrArg (·.regs.main.f) (hquiet.core_eq h)
  rw [hafter]
  cases i with
  | none => exact ⟨fun _ => rfl, fun _ => rfl⟩
  | some i => exact ⟨i.carry_untrapped _, i.untrapped_f _⟩

/-- The carry outlives a block output, which clears the spare bits, and a pointer is counted down
with every bit of the flag byte set. -/
theorem carry_outlives_block_output :
    let mem := ((Memory.blank.put8 0 0xED).put8 1 0xA3).put8 2 0x1B
    let bank : Bank := { Bank.zero with b := 3, c := 0x10, f := ⟨0x29⟩ }
    let output : Cpu := ⟨⟨{ Registers.zero with main := bank }, mem, .z80⟩, 0, .base, 0, none⟩
    let count : Cpu := ⟨⟨{ Registers.zero with main := { bank with f := ⟨0xFF⟩ }, pc := 2 }, mem,
      .i8080⟩, 0, .base, 0, none⟩
    (output.Quiet .unattached 0 () ∧ ∃ s, output.step .unattached 0 () = some s ∧
      s.cpu.core.regs.main.f.carry = true ∧ s.cpu.core.regs.main.f ≠ bank.f) ∧
    (count.Quiet .unattached 0 () ∧ ∃ s, count.step .unattached 0 () = some s ∧
      s.cpu.core.regs.main.de = 0xFFFF ∧ s.cpu.core.regs.main.f = ⟨0xFF⟩) := by
  intro mem bank output count
  have hout : output.decoded.instruction = some (.output (.outi .up)) := by
    simp only [decoded, Window.ofMemory, output, mem, Registers.zero, Memory.get8_put8]
    rfl
  have hcount : count.decoded.instruction = some (.operation (.decPair .de)) := by
    simp only [decoded, Window.ofMemory, count, mem, Memory.get8_put8]
    rfl
  clear_value mem
  constructor
  · have hport : ∀ o, output.decoded.instruction = some (.output o) →
        o.port (output.past output.decoded) ≠ Port.trap := by
      intro o ho
      rw [hout] at ho
      cases ho
      show (0x10 : UInt8) ≠ Port.trap
      decide
    have hquiet := quiet_of_port hport Ports.unattached 0 ()
    have hs := output.step_of_output .unattached 0 () hout
    obtain ⟨hcarry, -⟩ :=
      flags_change_only_by_listed_instructions output .unattached 0 () _ hquiet hs
    refine ⟨hquiet, _, hs,
      (hcarry (by rw [hout]; rfl)).trans (show (⟨0x29⟩ : Flags).carry = true by decide), ?_⟩
    rw [hquiet.core_eq hs, hout]
    show (bank.counted .up 1).f ≠ ⟨0x29⟩
    decide
  · have hquiet := quiet_of_operation hcount Ports.unattached 0 ()
    have hs := count.step_of_operation .unattached 0 () hcount
    obtain ⟨-, hflags⟩ :=
      flags_change_only_by_listed_instructions count .unattached 0 () _ hquiet hs
    refine ⟨hquiet, _, hs, ?_, hflags (by rw [hcount]; rfl)⟩
    show Word.ofBytes (Word.high (Word.ofBytes 0 0 - 1)) (Word.low (Word.ofBytes 0 0 - 1)) = 0xFFFF
    decide

end Cpu

end Cpm
