import Cpm.Cpu
import Cpm.Proofs.ControlFlow
import Cpm.Proofs.Rows

/-!
# IX and IY in each other's place

The mirror of anything that names an index register names the other one. Every
operation commutes with it, and the tables of the two registers are mirrors of each
other. So an instruction behind the byte `FDh` does to a core what the same bytes
behind `DDh` do to its mirror.
-/

namespace Cpm

namespace Index

def mirror : Index → Index
  | .ix => .iy
  | .iy => .ix

end Index

/-! ### Operands and operations -/

def Pointer.mirror : Pointer → Pointer
  | .hl => .hl
  | .index i => .index i.mirror

def ByteReg.mirror : ByteReg → ByteReg
  | .main r => .main r
  | .high i => .high i.mirror
  | .low i => .low i.mirror

def Place.mirror : Place → Place
  | .atHl => .atHl
  | .offset i d => .offset i.mirror d

def Operand.mirror : Operand → Operand
  | .reg r => .reg r.mirror
  | .mem p => .mem p.mirror

def Pair.mirror : Pair → Pair
  | .pointer p => .pointer p.mirror
  | p => p

def StackPair.mirror : StackPair → StackPair
  | .pointer p => .pointer p.mirror
  | p => p

def Operation.mirror : Operation → Operation
  | .ld dst src => .ld dst.mirror src.mirror
  | .ldFrom dst src => .ldFrom dst src.mirror
  | .ldTo dst src => .ldTo dst.mirror src
  | .ldImm x n => .ldImm x.mirror n
  | .ldPair dst nn => .ldPair dst.mirror nn
  | .ldMemPointer addr src => .ldMemPointer addr src.mirror
  | .ldPointerMem dst addr => .ldPointerMem dst.mirror addr
  | .ldMemPair addr src => .ldMemPair addr src.mirror
  | .ldPairMem dst addr => .ldPairMem dst.mirror addr
  | .ldSp src => .ldSp src.mirror
  | .exSp p => .exSp p.mirror
  | .push p => .push p.mirror
  | .pop p => .pop p.mirror
  | .alu op src => .alu op src.mirror
  | .inc x => .inc x.mirror
  | .dec x => .dec x.mirror
  | .addPair dst src => .addPair dst.mirror src.mirror
  | .adcHl src => .adcHl src.mirror
  | .sbcHl src => .sbcHl src.mirror
  | .incPair x => .incPair x.mirror
  | .decPair x => .decPair x.mirror
  | .shift s x => .shift s x.mirror
  | .bit n x => .bit n x.mirror
  | .res n x => .res n x.mirror
  | .set n x => .set n x.mirror
  | .jpPointer p => .jpPointer p.mirror
  | o => o

@[simp] theorem Pointer.states_mirror (p : Pointer) (n : Nat) : p.mirror.states n = p.states n := by
  cases p <;> rfl

@[simp] theorem Pair.states_mirror (p : Pair) (n : Nat) : p.mirror.states n = p.states n := by
  cases p with
  | pointer p => exact p.states_mirror n
  | _ => rfl

@[simp] theorem StackPair.states_mirror (p : StackPair) (n : Nat) :
    p.mirror.states n = p.states n := by
  cases p with
  | pointer p => exact p.states_mirror n
  | _ => rfl

@[simp] theorem ByteReg.isHalf_mirror (r : ByteReg) : r.mirror.isHalf = r.isHalf := by
  cases r <;> rfl

@[simp] theorem Place.states_mirror (p : Place) (m n : Nat) :
    p.mirror.states m n = p.states m n := by
  cases p <;> rfl

@[simp] theorem Operand.states_mirror (x : Operand) (k m n : Nat) :
    x.mirror.states k m n = x.states k m n := by
  cases x with
  | reg r => simp only [mirror, states, ByteReg.states, ByteReg.isHalf_mirror]
  | mem p => exact p.states_mirror m n

/-! ### What operations do to mirrored registers -/

def Registers.mirror (r : Registers) : Registers := { r with ix := r.iy, iy := r.ix }

def Core.mirror (c : Core) : Core := { c with regs := c.regs.mirror }

namespace Registers

variable (r : Registers)

@[simp] theorem index_mirror (i : Index) : r.mirror.index i.mirror = r.index i := by
  cases i <;> rfl

@[simp] theorem setIndex_mirror (i : Index) (w : UInt16) :
    r.mirror.setIndex i.mirror w = (r.setIndex i w).mirror := by
  cases i <;> rfl

@[simp] theorem pointer_mirror (p : Pointer) : r.mirror.pointer p.mirror = r.pointer p := by
  cases p with
  | hl => rfl
  | index i => exact r.index_mirror i

@[simp] theorem setPointer_mirror (p : Pointer) (w : UInt16) :
    r.mirror.setPointer p.mirror w = (r.setPointer p w).mirror := by
  cases p with
  | hl => rfl
  | index i => exact r.setIndex_mirror i w

@[simp] theorem byte_mirror (x : ByteReg) : r.mirror.byte x.mirror = r.byte x := by
  cases x with
  | main x => rfl
  | high i | low i => simp only [ByteReg.mirror, byte, index_mirror]

@[simp] theorem setByte_mirror (x : ByteReg) (v : UInt8) :
    r.mirror.setByte x.mirror v = (r.setByte x v).mirror := by
  cases x with
  | main x => rfl
  | high i | low i => simp only [ByteReg.mirror, setByte, index_mirror, setIndex_mirror]

@[simp] theorem pair_mirror (p : Pair) : r.mirror.pair p.mirror = r.pair p := by
  cases p with
  | pointer p => exact r.pointer_mirror p
  | _ => rfl

@[simp] theorem setPair_mirror (p : Pair) (w : UInt16) :
    r.mirror.setPair p.mirror w = (r.setPair p w).mirror := by
  cases p with
  | pointer p => exact r.setPointer_mirror p w
  | _ => rfl

@[simp] theorem stackPair_mirror (p : StackPair) : r.mirror.stackPair p.mirror = r.stackPair p := by
  cases p with
  | pointer p => exact r.pointer_mirror p
  | _ => rfl

@[simp] theorem setStackPair_mirror (p : StackPair) (w : UInt16) :
    r.mirror.setStackPair p.mirror w = (r.setStackPair p w).mirror := by
  cases p with
  | pointer p => exact r.setPointer_mirror p w
  | _ => rfl

@[simp] theorem address_mirror (p : Place) : r.mirror.address p.mirror = r.address p := by
  cases p with
  | atHl => rfl
  | offset i d => simp only [Place.mirror, address, index_mirror]

@[simp] theorem accumulate_mirror (op : AluOp) (v : UInt8) (mode : Mode) :
    r.mirror.accumulate op v mode = (r.accumulate op v mode).mirror := by
  cases op <;> rfl

@[simp] theorem accumulator_mirror (op : AccOp) :
    r.mirror.accumulator op = (r.accumulator op).mirror := by
  cases op <;> rfl

@[simp] theorem addPointer_mirror (dst : Pointer) (src : Pair) :
    r.mirror.addPointer dst.mirror src.mirror = (r.addPointer dst src).mirror := by
  simp only [addPointer, pointer_mirror, pair_mirror, setPointer_mirror]
  rfl

end Registers

namespace Core

variable (c : Core)

@[simp] theorem operand_mirror (x : Operand) : c.mirror.operand x.mirror = c.operand x := by
  cases x with
  | reg r => exact c.regs.byte_mirror r
  | mem p => exact congrArg c.mem.get8 (c.regs.address_mirror p)

@[simp] theorem setOperand_mirror (x : Operand) (v : UInt8) :
    c.mirror.setOperand x.mirror v = (c.setOperand x v).mirror := by
  cases x with
  | reg r => simp only [Operand.mirror, setOperand, onRegs, mirror, Registers.setByte_mirror]
  | mem p => simp only [Operand.mirror, setOperand, mirror, Registers.address_mirror]

@[simp] theorem setOperandResult_mirror (x : Operand) (res : ByteResult) :
    c.mirror.setOperandResult x.mirror res = (c.setOperandResult x res).mirror := by
  simp only [setOperandResult, setOperand_mirror]
  rfl

/-- The mirrored operation does to the mirrored core what the operation does to the core,
in the same time. -/
theorem perform_mirror (o : Operation) :
    c.mirror.perform o.mirror = ⟨(c.perform o).states, (c.perform o).core.mirror⟩ := by
  cases o
  case ldir dir =>
    have hb : c.mirror.regs.main.bc = c.regs.main.bc := rfl
    simp only [Operation.mirror, perform, hb, transfers_comm c (f := mirror) fun _ => rfl]
    rfl
  case cpir dir =>
    have hb : c.mirror.regs.main.bc = c.regs.main.bc := rfl
    simp only [Operation.mirror, perform, hb,
      compares_comm c (f := mirror) (fun _ => rfl) (fun _ => rfl) fun _ => rfl]
  case ld dst src =>
    simp only [Operation.mirror, perform, onRegs, mirror, ByteReg.isHalf_mirror,
      Registers.byte_mirror, Registers.setByte_mirror]
  case ldFrom r p | ldTo p r =>
    simp only [Operation.mirror, perform, mirror, Place.states_mirror, Registers.address_mirror]
    rfl
  case ldImm x n | res n x | set n x =>
    simp only [Operation.mirror, perform, Operand.states_mirror, operand_mirror, setOperand_mirror]
  case ldPair p w | ldPairMem p w =>
    simp only [Operation.mirror, perform, onRegs, mirror, Pair.states_mirror,
      Registers.setPair_mirror]
  case incPair p | decPair p =>
    simp only [Operation.mirror, perform, onRegs, mirror, Pair.states_mirror,
      Registers.pair_mirror, Registers.setPair_mirror]
  case ldMemPair w p => simp only [Operation.mirror, perform, mirror, Registers.pair_mirror]
  case adcHl p | sbcHl p =>
    simp only [Operation.mirror, perform, onRegs, mirror, Registers.pair_mirror]
    rfl
  case ldPointerMem p w =>
    simp only [Operation.mirror, perform, onRegs, mirror, Pointer.states_mirror,
      Registers.setPointer_mirror]
  case ldMemPointer w p =>
    simp only [Operation.mirror, perform, mirror, Pointer.states_mirror, Registers.pointer_mirror]
  case ldSp p | jpPointer p =>
    simp only [Operation.mirror, perform, onRegs, jump, mirror, Pointer.states_mirror,
      Registers.pointer_mirror]
    rfl
  case exSp p =>
    simp only [Operation.mirror, perform, exchangeTop, mirror, Pointer.states_mirror,
      Registers.pointer_mirror, Registers.setPointer_mirror]
    rfl
  case push p =>
    simp only [Operation.mirror, perform, push16, mirror, StackPair.states_mirror,
      Registers.stackPair_mirror]
    rfl
  case pop p =>
    have hdrop : c.mirror.drop16 = c.drop16.mirror := rfl
    have htop : c.mirror.top16 = c.top16 := rfl
    simp only [Operation.mirror, perform, StackPair.states_mirror, hdrop, htop]
    simp only [onRegs, mirror, Registers.setStackPair_mirror]
  case alu op x =>
    simp only [Operation.mirror, perform, Operand.states_mirror, operand_mirror]
    simp only [onRegs, mirror, Registers.accumulate_mirror]
  case aluImm op n =>
    simp only [Operation.mirror, perform, onRegs, mirror, Registers.accumulate_mirror]
  case acc op => simp only [Operation.mirror, perform, onRegs, mirror, Registers.accumulator_mirror]
  case inc x | dec x | shift s x =>
    simp only [Operation.mirror, perform, Operand.states_mirror, operand_mirror,
      ← setOperandResult_mirror]
    rfl
  case bit n x =>
    simp only [Operation.mirror, perform, Operand.states_mirror, operand_mirror]
    rfl
  case addPair dst src =>
    simp only [Operation.mirror, perform, onRegs, mirror, Pointer.states_mirror,
      Registers.addPointer_mirror]
  case jpIf cond target | jrIf cond d | callIf cond target | retIf cond =>
    have hcond : cond.holds c.mirror.regs.main.f = cond.holds c.regs.main.f := rfl
    simp only [Operation.mirror, perform, branch, hcond]
    split <;> rfl
  case djnz d =>
    have hb : c.mirror.regs.main.b = c.regs.main.b := rfl
    simp only [Operation.mirror, perform, hb]
    split <;> rfl
  all_goals rfl

end Core

/-! ### The tables of the two registers -/

def Table.mirror : Table → Table
  | .dd => .fd
  | .fd => .dd
  | .ddcb => .fdcb
  | .fdcb => .ddcb
  | t => t

def Instruction.mirror : Instruction → Instruction
  | .operation o => .operation o.mirror
  | i => i

def Decode.Entry.mirror (e : Decode.Entry) : Decode.Entry := ⟨e.operands, e.instruction.mirror⟩

/-- The mirrored instruction, found in the table of the other register. -/
def Decoded.mirror (d : Decoded) : Decoded :=
  ⟨d.table.mirror, d.opcode, d.length, d.instruction.map Instruction.mirror⟩

namespace Tables

open Decode (Entry entry found)

variable (i : Index)

/-- The fields four and five name the halves of the register. -/
theorem byteReg?_index (code : UInt8) :
    Decode.byteReg? (.index i) code =
      if code = 4 then some (.high i) else if code = 5 then some (.low i)
      else (Decode.reg8? code).map .main := by
  unfold Decode.byteReg?
  split <;> simp_all

theorem byteReg?_mirror (code : UInt8) :
    Decode.byteReg? (.index i.mirror) code =
      (Decode.byteReg? (.index i) code).map ByteReg.mirror := by
  rw [byteReg?_index, byteReg?_index]
  split
  · rfl
  · split
    · rfl
    · cases Decode.reg8? code <;> rfl

theorem operand_mirror (code d : UInt8) :
    operand (.index i.mirror) code d = (operand (.index i) code d).mirror := by
  simp only [operand, byteReg?_mirror]
  cases Decode.byteReg? (.index i) code <;> rfl

theorem pair_mirror (op : UInt8) :
    Decode.pair (.index i.mirror) op = (Decode.pair (.index i) op).mirror := by
  unfold Decode.pair
  split <;> rfl

theorem stackPair_mirror (op : UInt8) :
    Decode.stackPair (.index i.mirror) op = (Decode.stackPair (.index i) op).mirror := by
  unfold Decode.stackPair
  split <;> rfl

theorem load_mirror (op d : UInt8) :
    load (.index i.mirror) op d = (load (.index i) op d).map Entry.mirror := by
  have hbind : ∀ (r : Option Reg8) (n : Nat) (f : Reg8 → Operation),
      (r.bind fun x => entry n (f x).mirror) =
        (r.bind fun x => entry n (f x)).map Entry.mirror := by
    intro r n f
    cases r <;> rfl
  simp only [load, operand_mirror]
  cases operand (.index i) (op >>> 3 &&& 0x07) d with
  | reg r =>
    cases operand (.index i) (op &&& 0x07) d with
    | reg s => rfl
    | mem p => exact hbind _ _ (.ldFrom · p)
  | mem p =>
    cases operand (.index i) (op &&& 0x07) d with
    | reg s => exact hbind _ _ (.ldTo p ·)
    | mem q => exact hbind _ _ (.ldFrom · q)

theorem stepPair_mirror (op : UInt8) :
    stepPair (.index i.mirror) op = (stepPair (.index i) op).map Entry.mirror := by
  simp only [stepPair, pair_mirror]
  split <;> rfl

theorem stepByte_mirror (op d : UInt8) :
    stepByte (.index i.mirror) op d = (stepByte (.index i) op d).map Entry.mirror := by
  simp only [stepByte, onOperand, operand_mirror]
  split <;> rfl

/-- The rows of one register are those of the other, mirrored. -/
theorem indexed_mirror (op x y : UInt8) :
    indexed i.mirror op x y = (indexed i op x y).map Entry.mirror := by
  simp only [indexed, apply_ite (Option.map Entry.mirror), load_mirror, stepPair_mirror,
    stepByte_mirror, loadImmediate, arithmetic, onOperand, operand_mirror, pair_mirror,
    stackPair_mirror]
  rfl

theorem indexedBits_mirror (d op : UInt8) :
    indexedBits i.mirror d op = (indexedBits i d op).map Entry.mirror := by
  simp only [indexedBits, apply_ite (Option.map Entry.mirror), Decode.bitOperation]
  split
  · rfl
  · split <;> rfl

def isOperation : Option Entry → Bool
  | some ⟨_, .operation _⟩ | none => true
  | _ => false

theorem isOperation_entry (n : Nat) (o : Operation) : isOperation (entry n o) = true := rfl

theorem isOperation_load (p : Pointer) (op d : UInt8) : isOperation (load p op d) = true := by
  refine load_induction (P := fun e => isOperation e = true) ?none ?ld ?ldFrom ?ldTo p op d
  case none => rfl
  case ld => exact fun r t => isOperation_entry 0 (.ld r t)
  case ldFrom => exact fun n r q => isOperation_entry n (.ldFrom r q)
  case ldTo => exact fun n q r => isOperation_entry n (.ldTo q r)

/-- The tables of an index register hold no output and no halt. -/
theorem isOperation_indexed (op x y : UInt8) : isOperation (indexed i op x y) = true := by
  have hnone : isOperation none = true := rfl
  simp only [indexed, apply_ite isOperation, isOperation_load, loadImmediate, stepPair, arithmetic,
    stepByte, onOperand, isOperation_entry, hnone, ite_self]

theorem isOperation_indexedBits (d op : UInt8) : isOperation (indexedBits i d op) = true := by
  have hnone : isOperation none = true := rfl
  simp only [indexedBits, apply_ite isOperation, isOperation_entry, hnone, ite_self]

theorem found_mirror (t : Table) (op : UInt8) (n : Nat) (e : Option Entry) :
    found t.mirror op n (e.map Entry.mirror) = (found t op n e).mirror := by
  cases e <;> rfl

/-- Behind the byte of an index register stands a row of its table, or one of its bit
table behind the byte `CBh` and a displacement. -/
theorem dispatch_lead (b1 b2 b3 : UInt8) :
    dispatch .z80 ⟨i.lead, b1, b2, b3⟩ =
      if b1 = 0xCB then found i.bitTable b3 3 (indexedBits i b2 b3)
      else found i.table b1 1 (indexed i b1 b2 b3) := by
  have hlead : next? .z80 .base i.lead = some i.table := by cases i <;> rfl
  simp only [dispatch, hlead, behind]
  by_cases hcb : b1 = 0xCB
  · rw [if_pos hcb, hcb]
    cases i <;> rfl
  · have hnext : next? .z80 i.table b1 = none := by cases i <;> simp [next?, Index.table, hcb]
    rw [if_neg hcb, hnext]
    cases i <;> rfl

end Tables

/-- An instruction of one index register is the mirror of that of the other. -/
theorem dispatch_lead_mirror (i : Index) (b1 b2 b3 : UInt8) :
    dispatch .z80 ⟨i.mirror.lead, b1, b2, b3⟩ = (dispatch .z80 ⟨i.lead, b1, b2, b3⟩).mirror := by
  have htable : i.mirror.table = i.table.mirror := by cases i <;> rfl
  have hbits : i.mirror.bitTable = i.bitTable.mirror := by cases i <;> rfl
  simp only [Tables.dispatch_lead, htable, hbits, Tables.indexed_mirror, Tables.indexedBits_mirror,
    Tables.found_mirror]
  split <;> rfl

theorem dispatch_lead_instruction (i : Index) (b1 b2 b3 : UInt8) :
    (dispatch .z80 ⟨i.lead, b1, b2, b3⟩).instruction = none ∨
      ∃ o, (dispatch .z80 ⟨i.lead, b1, b2, b3⟩).instruction = some (.operation o) := by
  have hfound : ∀ (t : Table) (op : UInt8) (n : Nat) (e : Option Decode.Entry),
      Tables.isOperation e = true → (Decode.found t op n e).instruction = none ∨
        ∃ o, (Decode.found t op n e).instruction = some (.operation o) := by
    intro t op n e he
    rcases e with _ | ⟨k, o | o | _⟩
    · exact .inl rfl
    · exact .inr ⟨o, rfl⟩
    · exact absurd he Bool.noConfusion
    · exact absurd he Bool.noConfusion
  rw [Tables.dispatch_lead]
  split
  · exact hfound _ _ _ _ (Tables.isOperation_indexedBits i b2 b3)
  · exact hfound _ _ _ _ (Tables.isOperation_indexed i b1 b2 b3)

/-! ### Executing behind a first byte -/

variable {σ : Type}

namespace Core

/-- The instruction whose first byte is `first`, with the program counter behind that
byte. -/
def decodedAfter (c : Core) (first : UInt8) : Decoded :=
  let pc := c.regs.pc
  dispatch c.mode ⟨first, c.mem.get8 pc, c.mem.get8 (pc + 1), c.mem.get8 (pc + 2)⟩

/-- Executes the instruction at `at_` whose first byte is `first`, with the program
counter behind that byte. -/
def executeAfter (c : Core) (ports : Ports σ) (fuel : Nat) (host : σ) (at_ : UInt16)
    (first : UInt8) : Option (Outcome σ) :=
  let d := c.decodedAfter first
  (c.jump (c.regs.pc + UInt16.ofNat (d.length - 1))).execute ports fuel host at_ d

end Core

/-- No instruction is empty. -/
theorem dispatch_length_pos (mode : Mode) (w : Window) : 0 < (dispatch mode w).length := by
  have hfound : ∀ (t : Table) (op : UInt8) (n : Nat) (e : Option Decode.Entry),
      0 < (Decode.found t op n e).length := by
    intro t op n e
    cases e <;> simp only [Decode.found] <;> omega
  obtain ⟨t, d, op, x, y, n, h⟩ := dispatch_eq_found mode w
  rw [h]
  exact hfound _ _ _ _

/-- A step executes behind the byte at the program counter. -/
theorem Cpu.step_eq_executeAfter (cpu : Cpu) (ports : Ports σ) (fuel : Nat) (host : σ) :
    let pc := cpu.core.regs.pc
    let c := cpu.core.jump (pc + 1)
    let first := cpu.core.mem.get8 pc
    cpu.step ports fuel host =
      (c.executeAfter ports fuel host pc first).map (cpu.retire (c.decodedAfter first).table) := by
  intro pc c first
  have hd : c.decodedAfter first = cpu.decoded := by
    have h2 : pc + 1 + 1 = pc + 2 := by grind
    have h3 : pc + 1 + 2 = pc + 3 := by grind
    show dispatch cpu.core.mode ⟨_, _, cpu.core.mem.get8 (pc + 1 + 1),
      cpu.core.mem.get8 (pc + 1 + 2)⟩ = _
    rw [h2, h3]
    rfl
  have hpc : pc + 1 + UInt16.ofNat (cpu.decoded.length - 1) =
      pc + UInt16.ofNat cpu.decoded.length := by
    have hpos : 0 < cpu.decoded.length := dispatch_length_pos _ _
    have hlen : cpu.decoded.length = 1 + (cpu.decoded.length - 1) := by omega
    conv => rhs; rw [hlen, UInt16.ofNat_add, ← UInt16.add_assoc]
    rfl
  have hpast : c.jump (c.regs.pc + UInt16.ofNat (cpu.decoded.length - 1)) =
      cpu.past cpu.decoded := congrArg cpu.core.jump hpc
  simp only [Core.executeAfter, hd, hpast]
  rfl

/-! ### What is reported -/

def InvalidOpcode.mirror (x : InvalidOpcode) : InvalidOpcode := { x with table := x.table.mirror }

def HaltReason.mirror : HaltReason → HaltReason
  | .invalidOpcode x => .invalidOpcode x.mirror
  | r => r

/-- The records that a reason to stop makes: only an invalid opcode is reported. -/
def HaltReason.records : HaltReason → List Log.Record
  | .invalidOpcode x => [⟨.warn, .control, x.message⟩]
  | _ => []

namespace Outcome

/-- The outcome with IX and IY exchanged, and their tables with them in what is
reported. -/
def mirror (o : Outcome σ) : Outcome σ :=
  let halt := o.halt.map HaltReason.mirror
  ⟨o.states, halt, o.core.mirror, o.host, halt.elim [] HaltReason.records⟩

end Outcome

namespace Core

variable (c : Core)

/-- The mirrored operation, or the mirror of no operation, ends in the mirrored outcome. -/
theorem execute_mirror (ports : Ports σ) (fuel : Nat) (host : σ) (at_ : UInt16) {d : Decoded}
    (hd : d.instruction = none ∨ ∃ o, d.instruction = some (.operation o)) :
    ∃ o, c.execute ports fuel host at_ d = some o ∧ o.log = o.halt.elim [] HaltReason.records ∧
      c.mirror.execute ports fuel host at_ d.mirror = some o.mirror := by
  obtain hnone | ⟨o, hop⟩ := hd
  · let x : InvalidOpcode := ⟨at_, d.table, d.opcode⟩
    have hexecute : c.execute ports fuel host at_ d =
        some ⟨0, some (.invalidOpcode x), c, host, [⟨.warn, .control, x.message⟩]⟩ := by
      simp only [execute, hnone]
      rfl
    refine ⟨_, hexecute, rfl, ?_⟩
    simp only [execute, Decoded.mirror, hnone, Option.map_none]
    rfl
  · have hexecute : c.execute ports fuel host at_ d =
        some ⟨(c.perform o).states, none, (c.perform o).core, host, []⟩ := by
      simp only [execute, hop]
    refine ⟨_, hexecute, rfl, ?_⟩
    simp only [execute, Decoded.mirror, hop, Option.map_some, Instruction.mirror, perform_mirror]
    rfl

/-- An instruction behind `FDh` does what the same bytes behind `DDh` do to the core with
IX and IY exchanged, with the two exchanged back. It takes the same time and stops for
the same reason; the tables of the two registers take each other's place. -/
theorem iy_instruction_mirrors_ix (hmode : c.mode = .z80) (ports : Ports σ) (fuel : Nat)
    (host : σ) (at_ : UInt16) :
    (c.decodedAfter 0xFD).table = (c.mirror.decodedAfter 0xDD).table.mirror ∧
    ∃ o, c.mirror.executeAfter ports fuel host at_ 0xDD = some o ∧
      o.log = o.halt.elim [] HaltReason.records ∧
      c.executeAfter ports fuel host at_ 0xFD = some o.mirror := by
  have hdecoded : c.decodedAfter 0xFD = (c.mirror.decodedAfter 0xDD).mirror := by
    simp only [decodedAfter, mirror, hmode]
    exact dispatch_lead_mirror .ix _ _ _
  have hkind := dispatch_lead_instruction .ix (c.mem.get8 c.regs.pc)
    (c.mem.get8 (c.regs.pc + 1)) (c.mem.get8 (c.regs.pc + 2))
  have hix : c.mirror.decodedAfter 0xDD = dispatch .z80 ⟨0xDD, c.mem.get8 c.regs.pc,
      c.mem.get8 (c.regs.pc + 1), c.mem.get8 (c.regs.pc + 2)⟩ := by
    rw [decodedAfter, ← hmode]
    rfl
  refine ⟨congrArg Decoded.table hdecoded, ?_⟩
  obtain ⟨o, ho, hlog, hmirror⟩ := execute_mirror
    (c.mirror.jump (c.regs.pc + UInt16.ofNat ((c.mirror.decodedAfter 0xDD).length - 1)))
    ports fuel host at_ (d := c.mirror.decodedAfter 0xDD) (hix ▸ hkind)
  refine ⟨o, ho, hlog, ?_⟩
  rw [executeAfter, hdecoded]
  exact hmirror

/-- A bit set through IY, found in the table that mirrors the one of IX. -/
theorem set_bit_at_iy_mirrors_ix :
    let mem := ((Memory.blank.put8 1 0xCB).put8 2 0x05).put8 3 0xC6
    let c : Core := ⟨{ Registers.zero with iy := 0x2000, pc := 1 }, mem, .z80⟩
    c.mode = .z80 ∧ (c.decodedAfter 0xFD).table = .fdcb ∧
      ∃ o, c.mirror.executeAfter .unattached 0 () 0 0xDD = some o ∧
        c.executeAfter .unattached 0 () 0 0xFD = some o.mirror := by
  intro mem c
  have htable : (c.mirror.decodedAfter 0xDD).table = .ddcb := by
    simp only [decodedAfter, mirror, Registers.mirror, c, mem, Memory.get8_put8]
    rfl
  obtain ⟨hd, o, ho, -, hmirror⟩ := c.iy_instruction_mirrors_ix rfl .unattached 0 () 0
  exact ⟨rfl, hd.trans (congrArg Table.mirror htable), o, ho, hmirror⟩

end Core

end Cpm
