import Cpm.Core.Block

/-!
# Operations

What each operation does to the core, and how many clock states it takes. The
program counter is already past the operation when it is performed. A form with
an index register takes four states more than the form with HL, and the forms
with a displacement a fixed number more.
-/

namespace Cpm

structure Timed where
  states : Nat
  core : Core

namespace Pointer

/-- The states of an operation on a pointer, given those of its form with HL. -/
def states (p : Pointer) (plain : Nat) : Nat :=
  match p with
  | .hl => plain
  | .index _ => plain + 4

end Pointer

namespace Pair

def states (p : Pair) (plain : Nat) : Nat :=
  match p with
  | .pointer p => p.states plain
  | _ => plain

end Pair

namespace StackPair

def states (p : StackPair) (plain : Nat) : Nat :=
  match p with
  | .pointer p => p.states plain
  | _ => plain

end StackPair

namespace ByteReg

def isHalf : ByteReg → Bool
  | .main _ => false
  | _ => true

def states (r : ByteReg) (plain : Nat) : Nat := if r.isHalf then plain + 4 else plain

end ByteReg

namespace Place

def states (p : Place) (atHl offset : Nat) : Nat :=
  match p with
  | .atHl => atHl
  | .offset _ _ => offset

end Place

namespace Operand

/-- The states of an operation whose operand is a register, the byte at HL, or a
byte at a displacement. -/
def states (x : Operand) (plain atHl offset : Nat) : Nat :=
  match x with
  | .reg r => r.states plain
  | .mem p => p.states atHl offset

end Operand

namespace Registers

/-- Combines the accumulator with a byte; a comparison changes the flags alone. -/
def accumulate (r : Registers) (op : AluOp) (v : UInt8) (mode : Mode) : Registers :=
  let a := r.main.a
  let carry := r.main.f.carry
  match op with
  | .add => r.setResult (Alu.add8 a v false mode)
  | .adc => r.setResult (Alu.add8 a v carry mode)
  | .sub => r.setResult (Alu.sub8 a v false mode)
  | .sbc => r.setResult (Alu.sub8 a v carry mode)
  | .and => r.setResult (Alu.and8 a v)
  | .xor => r.setResult (Alu.xor8 a v)
  | .or => r.setResult (Alu.or8 a v)
  | .cp => r.setFlags (Alu.compare8 a v mode)

/-- Rotates the accumulator; of the flags only the carry reports it. -/
def rotateA (r : Registers) (s : Shift) : Registers :=
  let a := r.main.a
  let f := r.main.f
  r.setResult ⟨s.shifted a f.carry,
    f.keep [.sign, .zero, .parityOverflow] |>.set .carry (s.bitOut a)⟩

def accumulator (r : Registers) (op : AccOp) : Registers :=
  let f := r.main.f
  match op with
  | .rlca => r.rotateA .rlc
  | .rrca => r.rotateA .rrc
  | .rla => r.rotateA .rl
  | .rra => r.rotateA .rr
  | .daa => r.setResult (Alu.daa r.main.a f)
  | .cpl => r.setResult ⟨~~~r.main.a, f.set .halfCarry true |>.set .subtract true⟩
  | .scf => r.setFlags (f.set .carry true |>.set .halfCarry false |>.set .subtract false)
  | .ccf => r.setFlags (f.set .carry (!f.carry) |>.set .halfCarry f.carry |>.set .subtract false)

/-- Loads the accumulator from a special register. Parity/overflow shows the
interrupt flip-flop, which is never set. -/
def loadSpecial (r : Registers) (v : UInt8) : Registers :=
  r.setResult ⟨v, Flags.ofSignZero v |>.set .carry r.main.f.carry⟩

def exchangeAf (r : Registers) : Registers :=
  { r with
    main := { r.main with a := r.shadow.a, f := r.shadow.f }
    shadow := { r.shadow with a := r.main.a, f := r.main.f } }

def exchangePairs (r : Registers) : Registers :=
  { r with
    main := { r.shadow with a := r.main.a, f := r.main.f }
    shadow := { r.main with a := r.shadow.a, f := r.shadow.f } }

def exchangeDeHl (r : Registers) : Registers :=
  let k := r.main
  { r with main := { k with d := k.h, e := k.l, h := k.d, l := k.e } }

def addPointer (r : Registers) (dst : Pointer) (src : Pair) : Registers :=
  let x := Alu.add16 (r.pointer dst) (r.pair src) r.main.f
  (r.setPointer dst x.value).setFlags x.flags

def setWordResult (r : Registers) (x : WordResult) : Registers :=
  { r with main := { r.main.setHl x.value with f := x.flags } }

end Registers

namespace Core

def setOperandResult (c : Core) (x : Operand) (res : ByteResult) : Core :=
  (c.setOperand x res.value).onRegs (·.setFlags res.flags)

def exchangeTop (c : Core) (p : Pointer) : Core :=
  { c with
    regs := c.regs.setPointer p (c.mem.get16 c.regs.sp)
    mem := c.mem.put16 c.regs.sp (c.regs.pointer p) }

/-- Moves digits between the accumulator and the byte at HL: the accumulator's low
digit becomes `digit` and the byte becomes `v`. -/
def digitShift (c : Core) (digit v : UInt8) : Core :=
  let a := c.regs.main.a &&& 0xF0 ||| digit
  { c with
    regs := c.regs.setResult ⟨a, Flags.ofSignZeroParity a |>.set .carry c.regs.main.f.carry⟩
    mem := c.mem.put8 c.regs.main.hl v }

/-- The accumulator's low digit enters the byte at HL from above, and the digit
that leaves it below becomes the accumulator's. -/
def rotateDigitsRight (c : Core) : Core :=
  let m := c.mem.get8 c.regs.main.hl
  c.digitShift (m &&& 0x0F) (c.regs.main.a <<< 4 ||| m >>> 4)

/-- The accumulator's low digit enters the byte at HL from below, and the digit
that leaves it above becomes the accumulator's. -/
def rotateDigitsLeft (c : Core) : Core :=
  let m := c.mem.get8 c.regs.main.hl
  c.digitShift (m >>> 4) (m <<< 4 ||| c.regs.main.a &&& 0x0F)

def branch (c : Core) (cond : Condition) (taken untaken : Timed) : Timed :=
  if cond.holds c.regs.main.f then taken else untaken

/-- The mask of a bit number. -/
def bitMask (n : UInt8) : UInt8 := (1 : UInt8) <<< n

def perform (c : Core) : Operation → Timed
  | .nop | .di | .ei => ⟨4, c⟩
  | .im _ => ⟨8, c⟩
  | .inA _ => ⟨11, c⟩
  | .inC _ => ⟨12, c⟩
  | .ld dst src =>
    ⟨if dst.isHalf || src.isHalf then 8 else 4, c.onRegs fun r => r.setByte dst (r.byte src)⟩
  | .ldFrom dst src =>
    ⟨src.states 7 19, c.onRegs (·.setByte (.main dst) (c.mem.get8 (c.regs.address src)))⟩
  | .ldTo dst src =>
    ⟨dst.states 7 19, { c with mem := c.mem.put8 (c.regs.address dst) (c.regs.main.get src) }⟩
  | .ldImm dst n => ⟨dst.states 7 10 19, c.setOperand dst n⟩
  | .ldAVia v => ⟨7, c.onRegs (·.setA (c.mem.get8 (c.regs.via v)))⟩
  | .ldViaA v => ⟨7, { c with mem := c.mem.put8 (c.regs.via v) c.regs.main.a }⟩
  | .ldAMem addr => ⟨13, c.onRegs (·.setA (c.mem.get8 addr))⟩
  | .ldMemA addr => ⟨13, { c with mem := c.mem.put8 addr c.regs.main.a }⟩
  | .ldPair dst nn => ⟨dst.states 10, c.onRegs (·.setPair dst nn)⟩
  | .ldMemPointer addr src =>
    ⟨src.states 16, { c with mem := c.mem.put16 addr (c.regs.pointer src) }⟩
  | .ldPointerMem dst addr => ⟨dst.states 16, c.onRegs (·.setPointer dst (c.mem.get16 addr))⟩
  | .ldMemPair addr src => ⟨20, { c with mem := c.mem.put16 addr (c.regs.pair src) }⟩
  | .ldPairMem dst addr => ⟨20, c.onRegs (·.setPair dst (c.mem.get16 addr))⟩
  | .ldSp src => ⟨src.states 6, c.onRegs fun r => { r with sp := r.pointer src }⟩
  | .ldIA => ⟨9, c.onRegs fun r => { r with i := r.main.a }⟩
  | .ldRA => ⟨9, c.onRegs fun r => { r with r := r.main.a }⟩
  | .ldAI => ⟨9, c.onRegs fun r => r.loadSpecial r.i⟩
  | .ldAR => ⟨9, c.onRegs fun r => r.loadSpecial r.r⟩
  | .exAf => ⟨4, c.onRegs (·.exchangeAf)⟩
  | .exx => ⟨4, c.onRegs (·.exchangePairs)⟩
  | .exDeHl => ⟨4, c.onRegs (·.exchangeDeHl)⟩
  | .exSp p => ⟨p.states 19, c.exchangeTop p⟩
  | .push p => ⟨p.states 11, c.push16 (c.regs.stackPair p)⟩
  | .pop p => ⟨p.states 10, c.drop16.onRegs (·.setStackPair p c.top16)⟩
  | .alu op src => ⟨src.states 4 7 19, c.onRegs (·.accumulate op (c.operand src) c.mode)⟩
  | .aluImm op n => ⟨7, c.onRegs (·.accumulate op n c.mode)⟩
  | .inc x => ⟨x.states 4 11 23, c.setOperandResult x (Alu.inc8 (c.operand x) c.regs.main.f)⟩
  | .dec x => ⟨x.states 4 11 23, c.setOperandResult x (Alu.dec8 (c.operand x) c.regs.main.f)⟩
  | .acc op => ⟨4, c.onRegs (·.accumulator op)⟩
  | .neg => ⟨8, c.onRegs fun r => r.setResult (Alu.sub8 0 r.main.a false .z80)⟩
  | .addPair dst src => ⟨dst.states 11, c.onRegs (·.addPointer dst src)⟩
  | .adcHl src =>
    ⟨15, c.onRegs fun r => r.setWordResult (Alu.adc16 r.main.hl (r.pair src) r.main.f.carry)⟩
  | .sbcHl src =>
    ⟨15, c.onRegs fun r => r.setWordResult (Alu.sbc16 r.main.hl (r.pair src) r.main.f.carry)⟩
  | .incPair x => ⟨x.states 6, c.onRegs fun r => r.setPair x (r.pair x + 1)⟩
  | .decPair x => ⟨x.states 6, c.onRegs fun r => r.setPair x (r.pair x - 1)⟩
  | .shift s x => ⟨x.states 8 15 23, c.setOperandResult x (Alu.shift s (c.operand x) c.regs.main.f)⟩
  | .bit n x =>
    ⟨x.states 8 12 20, c.onRegs (·.setFlags (Alu.bitTest n (c.operand x) c.regs.main.f))⟩
  | .res n x => ⟨x.states 8 15 23, c.setOperand x (c.operand x &&& ~~~bitMask n)⟩
  | .set n x => ⟨x.states 8 15 23, c.setOperand x (c.operand x ||| bitMask n)⟩
  | .rrd => ⟨18, c.rotateDigitsRight⟩
  | .rld => ⟨18, c.rotateDigitsLeft⟩
  | .jp target => ⟨10, c.jump target⟩
  | .jpIf cond target => c.branch cond ⟨10, c.jump target⟩ ⟨10, c⟩
  | .jpPointer p => ⟨p.states 4, c.jump (c.regs.pointer p)⟩
  | .jr d => ⟨12, c.jumpBy d⟩
  | .jrIf cond d => c.branch cond ⟨12, c.jumpBy d⟩ ⟨7, c⟩
  | .djnz d =>
    let b := c.regs.main.b - 1
    let counted := c.onRegs fun r => { r with main := { r.main with b := b } }
    if b = 0 then ⟨8, counted⟩ else ⟨13, counted.jumpBy d⟩
  | .call target => ⟨17, c.call16 target⟩
  | .callIf cond target => c.branch cond ⟨17, c.call16 target⟩ ⟨10, c⟩
  | .ret => ⟨10, c.return16⟩
  | .retIf cond => c.branch cond ⟨11, c.return16⟩ ⟨5, c⟩
  | .retn | .reti => ⟨14, c.return16⟩
  | .rst target => ⟨11, c.call16 target.toUInt16⟩
  | .ldi dir => ⟨16, (c.transfer dir).withTransferFlags⟩
  | .ldir dir =>
    let n := rounds c.regs.main.bc
    ⟨repeatStates n, (transfers dir n c).withTransferFlags⟩
  | .cpi dir => ⟨16, c.compare dir⟩
  | .cpir dir =>
    let s := compares dir (rounds c.regs.main.bc) ⟨0, c⟩
    ⟨repeatStates s.count, s.core⟩

end Core

end Cpm
