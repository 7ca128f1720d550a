import Cpm.Core.Perform

/-!
# The flow of control

Only jumps, calls, returns and restarts touch the program counter; every other
operation neither reads nor writes it. A transfer that is not taken leaves it
behind the instruction, and a call that is taken pushes it.
-/

namespace Cpm

namespace Operation

def isTransfer : Operation → Bool
  | .jp _ | .jpIf _ _ | .jpPointer _ | .jr _ | .jrIf _ _ | .djnz _ => true
  | .call _ | .callIf _ _ | .ret | .retIf _ | .retn | .reti | .rst _ => true
  | _ => false

/-- The operation hands control elsewhere: a transfer without a condition, or one
whose condition holds. -/
def taken (c : Core) : Operation → Bool
  | .jpIf cond _ | .jrIf cond _ | .callIf cond _ | .retIf cond => cond.holds c.regs.main.f
  | .djnz _ => c.regs.main.b - 1 != 0
  | o => o.isTransfer

def isCall : Operation → Bool
  | .call _ | .callIf _ _ | .rst _ => true
  | _ => false

end Operation

namespace Instruction

/-- The instruction hands control elsewhere. A handler that moves the program counter
during an output is not counted. -/
def taken (c : Core) : Instruction → Bool
  | .operation o => o.taken c
  | _ => false

def isCall : Instruction → Bool
  | .operation o => o.isCall
  | _ => false

end Instruction

namespace Registers

variable (r : Registers) (pc : UInt16)

@[simp] theorem setByte_pc (x : ByteReg) (v : UInt8) :
    { r with pc := pc }.setByte x v = { r.setByte x v with pc := pc } := by
  cases x with
  | main x => rfl
  | high i => cases i <;> rfl
  | low i => cases i <;> rfl

@[simp] theorem setPointer_pc (p : Pointer) (w : UInt16) :
    { r with pc := pc }.setPointer p w = { r.setPointer p w with pc := pc } := by
  cases p with
  | hl => rfl
  | index i => cases i <;> rfl

@[simp] theorem setPair_pc (p : Pair) (w : UInt16) :
    { r with pc := pc }.setPair p w = { r.setPair p w with pc := pc } := by
  cases p with
  | pointer p => exact setPointer_pc r pc p w
  | _ => rfl

@[simp] theorem accumulate_pc (op : AluOp) (v : UInt8) (mode : Mode) :
    { r with pc := pc }.accumulate op v mode = { r.accumulate op v mode with pc := pc } := by
  cases op <;> rfl

@[simp] theorem accumulator_pc (op : AccOp) :
    { r with pc := pc }.accumulator op = { r.accumulator op with pc := pc } := by
  cases op <;> rfl

end Registers

namespace Core

variable (c : Core) (pc : UInt16)

theorem setOperand_jump (x : Operand) (v : UInt8) :
    (c.jump pc).setOperand x v = (c.setOperand x v).jump pc := by
  cases x with
  | reg r => simp only [setOperand, onRegs, jump, Registers.setByte_pc]
  | mem p => rfl

theorem setOperandResult_jump (x : Operand) (res : ByteResult) :
    (c.jump pc).setOperandResult x res = (c.setOperandResult x res).jump pc := by
  simp only [setOperandResult, setOperand_jump]
  rfl

/-- What commutes with one transfer commutes with a run of them. -/
theorem transfers_comm {f : Core → Core} {dir : Direction}
    (h : ∀ c, transfer dir (f c) = f (transfer dir c)) (n : Nat) :
    transfers dir n (f c) = f (transfers dir n c) := by
  induction n generalizing c with
  | zero => rfl
  | succ n ih =>
    rw [transfers_succ, transfers_succ, h]
    exact ih (transfer dir c)

/-- What commutes with one comparison, and keeps what the loop tests, commutes with
the loop. -/
theorem compares_comm {f : Core → Core} {dir : Direction}
    (h : ∀ c, compare dir (f c) = f (compare dir c)) (hm : ∀ c, (f c).matchesHl = c.matchesHl)
    (hb : ∀ c, (f c).regs.main.bc = c.regs.main.bc) (n k : Nat) :
    compares dir n ⟨k, f c⟩ =
      ⟨(compares dir n ⟨k, c⟩).count, f (compares dir n ⟨k, c⟩).core⟩ := by
  induction n generalizing c k with
  | zero => rfl
  | succ n ih =>
    simp only [compares_succ, h, hm, hb]
    split
    · rfl
    · exact ih (compare dir c) (k + 1)

/-- An operation that is no transfer neither reads nor writes the program counter. -/
theorem perform_jump {o : Operation} (h : o.isTransfer = false) :
    (c.jump pc).perform o = ⟨(c.perform o).states, (c.perform o).core.jump pc⟩ := by
  cases o
  case ldir dir =>
    have hb : (c.jump pc).regs.main.bc = c.regs.main.bc := rfl
    simp only [perform, hb, transfers_comm c (f := (jump · pc)) fun _ => rfl]
    rfl
  case cpir dir =>
    have hb : (c.jump pc).regs.main.bc = c.regs.main.bc := rfl
    simp only [perform, hb,
      compares_comm c (f := (jump · pc)) (fun _ => rfl) (fun _ => rfl) fun _ => rfl]
  case inc x | dec x | shift s x => simp only [perform, setOperandResult_jump]; rfl
  case ldImm x n => simp only [perform, setOperand_jump]
  case res n x | set n x => simp only [perform, setOperand_jump]; rfl
  case ld dst src => simp only [perform, onRegs, jump, Registers.setByte_pc]; rfl
  case ldPair dst nn => simp only [perform, onRegs, jump, Registers.setPair_pc]
  case ldPairMem dst addr => simp only [perform, onRegs, jump, Registers.setPair_pc]
  case incPair x | decPair x => simp only [perform, onRegs, jump, Registers.setPair_pc]; rfl
  case ldPointerMem dst addr => simp only [perform, onRegs, jump, Registers.setPointer_pc]
  case exSp p => simp only [perform, exchangeTop, jump, Registers.setPointer_pc]; rfl
  case addPair dst src =>
    simp only [perform, Registers.addPointer, onRegs, jump, Registers.setPointer_pc]
    rfl
  case pop p => rcases p with _ | _ | (_ | (_ | _)) | _ <;> rfl
  case alu op src => simp only [perform, onRegs, jump, Registers.accumulate_pc]; rfl
  case aluImm op n => simp only [perform, onRegs, jump, Registers.accumulate_pc]
  case acc op => simp only [perform, onRegs, jump, Registers.accumulator_pc]
  all_goals first | rfl | exact absurd h Bool.noConfusion

theorem taken_jump (o : Operation) : o.taken (c.jump pc) = o.taken c := by
  cases o <;> rfl

/-- An operation that hands control nowhere leaves the program counter alone. -/
theorem perform_pc {o : Operation} (h : o.taken c = false) :
    (c.perform o).core.regs.pc = c.regs.pc := by
  cases ht : o.isTransfer with
  | false => exact congrArg (·.core.regs.pc) (perform_jump c c.regs.pc ht)
  | true =>
    cases o
    case jpIf cond target | jrIf cond d | callIf cond target | retIf cond =>
      simp only [Operation.taken] at h
      simp only [perform, branch, h]
      rfl
    case djnz d =>
      simp only [Operation.taken, bne_eq_false_iff_eq] at h
      simp only [perform, h, if_true]
      rfl
    all_goals first | exact absurd h Bool.noConfusion | exact absurd ht Bool.noConfusion

/-- A call that is taken is a jump with the program counter pushed. -/
theorem perform_call {o : Operation} (hc : o.isCall = true) (h : o.taken c = true) :
    ∃ target, (c.perform o).core = c.call16 target := by
  cases o
  case call target => exact ⟨target, rfl⟩
  case callIf cond target =>
    simp only [Operation.taken] at h
    exact ⟨target, by simp only [perform, branch, h, if_true]⟩
  case rst target => exact ⟨target.toUInt16, rfl⟩
  all_goals exact absurd hc Bool.noConfusion

@[simp] theorem top16_push16 (w : UInt16) : (c.push16 w).top16 = w := by
  have hsp : c.regs.sp - 2 + 1 = c.regs.sp - 1 := by grind
  have hne : c.regs.sp - 1 ≠ c.regs.sp - 2 := by grind
  simp [top16, push16, Memory.get16, hsp, Memory.get8_put8_other _ _ hne]

end Core

end Cpm
