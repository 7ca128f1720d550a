import Cpm.Instruction
import Cpm.Memory
import Cpm.Registers

/-!
# The processor core

The core is what a program can see: the registers, the memory and the mode. The
operands an instruction names are read and replaced here, and words are pushed
and popped.
-/

namespace Cpm

namespace Bank

def get (k : Bank) : Reg8 → UInt8
  | .b => k.b
  | .c => k.c
  | .d => k.d
  | .e => k.e
  | .h => k.h
  | .l => k.l
  | .a => k.a

def put (k : Bank) (r : Reg8) (v : UInt8) : Bank :=
  match r with
  | .b => { k with b := v }
  | .c => { k with c := v }
  | .d => { k with d := v }
  | .e => { k with e := v }
  | .h => { k with h := v }
  | .l => { k with l := v }
  | .a => { k with a := v }

@[simp] theorem get_put_same (k : Bank) (r : Reg8) (v : UInt8) : (k.put r v).get r = v := by
  cases r <;> rfl

theorem get_put_other (k : Bank) {r s : Reg8} (v : UInt8) (h : s ≠ r) :
    (k.put r v).get s = k.get s := by
  cases r <;> cases s <;> first | rfl | exact absurd rfl h

end Bank

namespace Condition

def holds (cond : Condition) (f : Flags) : Bool :=
  match cond with
  | .nz => !f.zero
  | .z => f.zero
  | .nc => !f.carry
  | .c => f.carry
  | .po => !f.parityOverflow
  | .pe => f.parityOverflow
  | .p => !f.sign
  | .m => f.sign

end Condition

namespace Registers

def index (r : Registers) : Index → UInt16
  | .ix => r.ix
  | .iy => r.iy

def setIndex (r : Registers) (i : Index) (w : UInt16) : Registers :=
  match i with
  | .ix => { r with ix := w }
  | .iy => { r with iy := w }

def pointer (r : Registers) : Pointer → UInt16
  | .hl => r.main.hl
  | .index i => r.index i

def setPointer (r : Registers) (p : Pointer) (w : UInt16) : Registers :=
  match p with
  | .hl => { r with main := r.main.setHl w }
  | .index i => r.setIndex i w

def byte (r : Registers) : ByteReg → UInt8
  | .main x => r.main.get x
  | .high i => Word.high (r.index i)
  | .low i => Word.low (r.index i)

def setByte (r : Registers) (x : ByteReg) (v : UInt8) : Registers :=
  match x with
  | .main x => { r with main := r.main.put x v }
  | .high i => r.setIndex i (Word.ofBytes v (Word.low (r.index i)))
  | .low i => r.setIndex i (Word.ofBytes (Word.high (r.index i)) v)

def pair (r : Registers) : Pair → UInt16
  | .bc => r.main.bc
  | .de => r.main.de
  | .pointer p => r.pointer p
  | .sp => r.sp

def setPair (r : Registers) (p : Pair) (w : UInt16) : Registers :=
  match p with
  | .bc => { r with main := r.main.setBc w }
  | .de => { r with main := r.main.setDe w }
  | .pointer p => r.setPointer p w
  | .sp => { r with sp := w }

def stackPair (r : Registers) : StackPair → UInt16
  | .bc => r.main.bc
  | .de => r.main.de
  | .pointer p => r.pointer p
  | .af => r.main.af

def setStackPair (r : Registers) (p : StackPair) (w : UInt16) : Registers :=
  match p with
  | .bc => { r with main := r.main.setBc w }
  | .de => { r with main := r.main.setDe w }
  | .pointer p => r.setPointer p w
  | .af => { r with main := r.main.setAf w }

def via (r : Registers) : Via → UInt16
  | .bc => r.main.bc
  | .de => r.main.de

def address (r : Registers) : Place → UInt16
  | .atHl => r.main.hl
  | .offset i d => r.index i + Word.signExtend d

def setResult (r : Registers) (x : ByteResult) : Registers :=
  { r with main := { r.main with a := x.value, f := x.flags } }

def setFlags (r : Registers) (f : Flags) : Registers :=
  { r with main := { r.main with f := f } }

def setA (r : Registers) (v : UInt8) : Registers :=
  { r with main := { r.main with a := v } }

end Registers

/-- The state that programs and port handlers see. -/
structure Core where
  regs : Registers
  mem : Memory
  mode : Mode
  deriving Inhabited

namespace Core

def initial (mode : Mode) : Core := ⟨.zero, .blank, mode⟩

@[inline] def onRegs (c : Core) (f : Registers → Registers) : Core := { c with regs := f c.regs }

def jump (c : Core) (target : UInt16) : Core := { c with regs := { c.regs with pc := target } }

/-- A jump by a signed displacement, counted from the following instruction. -/
def jumpBy (c : Core) (d : UInt8) : Core := c.jump (c.regs.pc + Word.signExtend d)

def operand (c : Core) : Operand → UInt8
  | .reg r => c.regs.byte r
  | .mem p => c.mem.get8 (c.regs.address p)

def setOperand (c : Core) (x : Operand) (v : UInt8) : Core :=
  match x with
  | .reg r => c.onRegs (·.setByte r v)
  | .mem p => { c with mem := c.mem.put8 (c.regs.address p) v }

/-- Pushes a word: its high byte first, each byte below the last. -/
def push16 (c : Core) (w : UInt16) : Core :=
  let sp := c.regs.sp
  { c with
    regs := { c.regs with sp := sp - 2 }
    mem := (c.mem.put8 (sp - 1) (Word.high w)).put8 (sp - 2) (Word.low w) }

def top16 (c : Core) : UInt16 := c.mem.get16 c.regs.sp

def drop16 (c : Core) : Core := { c with regs := { c.regs with sp := c.regs.sp + 2 } }

def return16 (c : Core) : Core := c.drop16.jump c.top16

/-- Jumps to `target` with the address of the following instruction pushed. -/
def call16 (c : Core) (target : UInt16) : Core := (c.push16 c.regs.pc).jump target

end Core

end Cpm
