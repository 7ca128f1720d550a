import Cpm.Instruction
import Cpm.Memory

/-!
# Decoding

No instruction is longer than four bytes, so decoding is a function of the mode
and the four bytes that start at the program counter. It says which table the
selecting byte was looked up in, how many bytes were taken, and what they mean;
a byte without an entry in its table means nothing. The bytes are read by their
bit fields, for assembly text.
-/

namespace Cpm

/-- The four bytes from an address on. -/
structure Window where
  b0 : UInt8
  b1 : UInt8
  b2 : UInt8
  b3 : UInt8
  deriving DecidableEq, Repr

namespace Window

def ofMemory (m : Memory) (pc : UInt16) : Window :=
  ⟨m.get8 pc, m.get8 (pc + 1), m.get8 (pc + 2), m.get8 (pc + 3)⟩

def toList (w : Window) : List UInt8 := [w.b0, w.b1, w.b2, w.b3]

end Window

structure Decoded where
  /-- The table the opcode was looked up in. -/
  table : Table
  opcode : UInt8
  /-- The number of bytes taken, one to four. -/
  length : Nat
  instruction : Option Instruction
  deriving DecidableEq, Repr

namespace Decode

def middle (op : UInt8) : UInt8 := op >>> 3 &&& 0x07

def lowField (op : UInt8) : UInt8 := op &&& 0x07

/-- The register that a three-bit field names; six stands for a byte of memory. -/
def reg8? (code : UInt8) : Option Reg8 :=
  match code with
  | 0 => some .b
  | 1 => some .c
  | 2 => some .d
  | 3 => some .e
  | 4 => some .h
  | 5 => some .l
  | 7 => some .a
  | _ => none

/-- The register that a field names beside a pointer: next to an index register,
the fields of H and L name its halves. -/
def byteReg? (p : Pointer) (code : UInt8) : Option ByteReg :=
  match p, code with
  | .index i, 4 => some (.high i)
  | .index i, 5 => some (.low i)
  | _, _ => (reg8? code).map .main

/-- The byte of memory a pointer names, with the displacement where it has one. -/
def place (p : Pointer) (d : UInt8) : Place :=
  match p with
  | .hl => .atHl
  | .index i => .offset i d

def placeLength : Pointer → Nat
  | .hl => 0
  | .index _ => 1

def pair (p : Pointer) (op : UInt8) : Pair :=
  match op >>> 4 &&& 0x03 with
  | 0 => .bc
  | 1 => .de
  | 2 => .pointer p
  | _ => .sp

def stackPair (p : Pointer) (op : UInt8) : StackPair :=
  match op >>> 4 &&& 0x03 with
  | 0 => .bc
  | 1 => .de
  | 2 => .pointer p
  | _ => .af

def condition (code : UInt8) : Condition :=
  match code with
  | 0 => .nz
  | 1 => .z
  | 2 => .nc
  | 3 => .c
  | 4 => .po
  | 5 => .pe
  | 6 => .p
  | _ => .m

def aluOp (code : UInt8) : AluOp :=
  match code with
  | 0 => .add
  | 1 => .adc
  | 2 => .sub
  | 3 => .sbc
  | 4 => .and
  | 5 => .xor
  | 6 => .or
  | _ => .cp

def accOp (code : UInt8) : AccOp :=
  match code with
  | 0 => .rlca
  | 1 => .rrca
  | 2 => .rla
  | 3 => .rra
  | 4 => .daa
  | 5 => .cpl
  | 6 => .scf
  | _ => .ccf

/-- Bit 3 of a block opcode selects the way down. -/
def direction (op : UInt8) : Direction := if op &&& 0x08 = 0 then .up else .down

/-- An operation together with the number of bytes it takes after the opcode. -/
structure Entry where
  operands : Nat
  instruction : Instruction
  deriving DecidableEq, Repr

def entry (operands : Nat) (o : Operation) : Option Entry := some ⟨operands, .operation o⟩

def outputEntry (operands : Nat) (o : Output) : Option Entry := some ⟨operands, .output o⟩

/-- A one-operand operation whose field names a register or a byte of memory; `x`
is the byte after the opcode. -/
def withOperand (p : Pointer) (code x : UInt8) (make : Operand → Operation) : Option Entry :=
  match byteReg? p code with
  | some r => entry 0 (make (.reg r))
  | none => entry (placeLength p) (make (.mem (place p x)))

/-- Opcodes `00h` to `3Fh`: `x` and `y` are the bytes after the opcode. -/
def quarter0 (p : Pointer) (op x y : UInt8) : Option Entry :=
  let nn := Word.ofBytes y x
  let even := op &&& 0x08 = 0
  match lowField op with
  | 0 =>
    match middle op with
    | 0 => entry 0 .nop
    | 1 => entry 0 .exAf
    | 2 => entry 1 (.djnz x)
    | 3 => entry 1 (.jr x)
    | code => entry 1 (.jrIf (condition (code - 4)) x)
  | 1 => if even then entry 2 (.ldPair (pair p op) nn) else entry 0 (.addPair p (pair p op))
  | 2 =>
    match middle op with
    | 0 => entry 0 (.ldViaA .bc)
    | 1 => entry 0 (.ldAVia .bc)
    | 2 => entry 0 (.ldViaA .de)
    | 3 => entry 0 (.ldAVia .de)
    | 4 => entry 2 (.ldMemPointer nn p)
    | 5 => entry 2 (.ldPointerMem p nn)
    | 6 => entry 2 (.ldMemA nn)
    | _ => entry 2 (.ldAMem nn)
  | 3 => entry 0 (if even then .incPair (pair p op) else .decPair (pair p op))
  | 4 => withOperand p (middle op) x .inc
  | 5 => withOperand p (middle op) x .dec
  | 6 =>
    match byteReg? p (middle op), p with
    | some r, _ => entry 1 (.ldImm (.reg r) x)
    | none, .hl => entry 1 (.ldImm (.mem .atHl) x)
    | none, .index i => entry 2 (.ldImm (.mem (.offset i x)) y)
  | _ => entry 0 (.acc (accOp (middle op)))

/-- Opcodes `40h` to `7Fh`: byte moves. Next to a byte of memory the fields of H
and L keep their plain meaning. -/
def quarter1 (p : Pointer) (op x : UInt8) : Option Entry :=
  match reg8? (middle op), reg8? (lowField op) with
  | none, none => some ⟨0, .halt⟩
  | some dst, none => entry (placeLength p) (.ldFrom dst (place p x))
  | none, some src => entry (placeLength p) (.ldTo (place p x) src)
  | some _, some _ =>
    match byteReg? p (middle op), byteReg? p (lowField op) with
    | some dst, some src => entry 0 (.ld dst src)
    | _, _ => none

/-- Opcodes `C0h` to `FFh`. The bytes that lead to other tables have no entry. -/
def quarter3 (p : Pointer) (op x y : UInt8) : Option Entry :=
  let nn := Word.ofBytes y x
  let even := op &&& 0x08 = 0
  let code := middle op
  match lowField op with
  | 0 => entry 0 (.retIf (condition code))
  | 1 =>
    if even then entry 0 (.pop (stackPair p op)) else
    match code with
    | 1 => entry 0 .ret
    | 3 => entry 0 .exx
    | 5 => entry 0 (.jpPointer p)
    | _ => entry 0 (.ldSp p)
  | 2 => entry 2 (.jpIf (condition code) nn)
  | 3 =>
    match code with
    | 0 => entry 2 (.jp nn)
    | 1 => none
    | 2 => outputEntry 1 (.outA x)
    | 3 => entry 1 (.inA x)
    | 4 => entry 0 (.exSp p)
    | 5 => entry 0 .exDeHl
    | 6 => entry 0 .di
    | _ => entry 0 .ei
  | 4 => entry 2 (.callIf (condition code) nn)
  | 5 =>
    if even then entry 0 (.push (stackPair p op)) else
    if code = 1 then entry 2 (.call nn) else none
  | 6 => entry 1 (.aluImm (aluOp code) x)
  | _ => entry 0 (.rst (op &&& 0x38))

/-- The base table, with `p` in the place of HL. -/
def base (p : Pointer) (op x y : UInt8) : Option Entry :=
  match op >>> 6 with
  | 0 => quarter0 p op x y
  | 1 => quarter1 p op x
  | 2 => withOperand p (lowField op) x (.alu (aluOp (middle op)))
  | _ => quarter3 p op x y

/-- The entries of the base table that the 8080 does not have. -/
def isZ80Only (op : UInt8) : Bool :=
  op ∈ [0x08, 0x10, 0x18, 0x20, 0x28, 0x30, 0x38, 0xCB, 0xD9, 0xDD, 0xED, 0xFD]

/-- The field names H, L or a byte of memory. -/
def namesHl (code : UInt8) : Bool := code ∈ [4, 5, 6]

/-- The entries of the base table that mention HL, one of its halves or the byte
it points to, and so have a form with an index register. -/
def isIndexed (op : UInt8) : Bool :=
  op &&& 0xCF = 0x09 ||
  op ∈ [0x21, 0x22, 0x2A, 0x23, 0x2B, 0x24, 0x25, 0x2C, 0x2D, 0x34, 0x35, 0x26, 0x2E, 0x36] ||
  op ∈ [0xE1, 0xE3, 0xE5, 0xE9, 0xF9] ||
  op ≠ 0x76 && op &&& 0xC0 = 0x40 && (namesHl (lowField op) || namesHl (middle op)) ||
  op &&& 0xC0 = 0x80 && namesHl (lowField op)

/-- The operation of a bit table entry on a given operand. -/
def bitOperation (op : UInt8) (x : Operand) : Operation :=
  match op >>> 6 with
  | 0 => .shift (.ofCode (middle op)) x
  | 1 => .bit (middle op) x
  | 2 => .res (middle op) x
  | _ => .set (middle op) x

/-- The bit table: every byte has an entry. -/
def bits (op : UInt8) : Operation :=
  bitOperation op <| match reg8? (lowField op) with
    | some r => .reg (.main r)
    | none => .mem .atHl

/-- The bit table of an index register: only the entries on memory exist. -/
def indexBits (i : Index) (d op : UInt8) : Option Operation :=
  if lowField op = 0x06 then some (bitOperation op (.mem (.offset i d))) else none

def interruptMode (op : UInt8) : UInt8 :=
  match op >>> 3 &&& 0x03 with
  | 2 => 1
  | 3 => 2
  | _ => 0

def extendedQuarter1 (op x y : UInt8) : Option Entry :=
  let nn := Word.ofBytes y x
  let even := op &&& 0x08 = 0
  match lowField op with
  | 0 => entry 0 (.inC (reg8? (middle op)))
  | 1 => outputEntry 0 (.outC (reg8? (middle op)))
  | 2 => entry 0 (if even then .sbcHl (pair .hl op) else .adcHl (pair .hl op))
  | 3 => entry 2 (if even then .ldMemPair nn (pair .hl op) else .ldPairMem (pair .hl op) nn)
  | 4 => entry 0 .neg
  | 5 => entry 0 (if middle op = 1 then .reti else .retn)
  | 6 => entry 0 (.im (interruptMode op))
  | _ =>
    match middle op with
    | 0 => entry 0 .ldIA
    | 1 => entry 0 .ldRA
    | 2 => entry 0 .ldAI
    | 3 => entry 0 .ldAR
    | 4 => entry 0 .rrd
    | 5 => entry 0 .rld
    | _ => none

def block (op : UInt8) : Option Entry :=
  let dir := direction op
  match op &&& 0xF7 with
  | 0xA0 => entry 0 (.ldi dir)
  | 0xA1 => entry 0 (.cpi dir)
  | 0xA3 => outputEntry 0 (.outi dir)
  | 0xB0 => entry 0 (.ldir dir)
  | 0xB1 => entry 0 (.cpir dir)
  | 0xB3 => outputEntry 0 (.otir dir)
  | _ => none

def extended (op x y : UInt8) : Option Entry :=
  if op &&& 0xC0 = 0x40 then extendedQuarter1 op x y else block op

/-- What was found after `lead` bytes: the opcode, then the operands of its entry. -/
def found (table : Table) (opcode : UInt8) (lead : Nat) (entry : Option Entry) : Decoded :=
  match entry with
  | some e => ⟨table, opcode, lead + 1 + e.operands, some e.instruction⟩
  | none => ⟨table, opcode, lead + 1, none⟩

def index (i : Index) (table bitTable : Table) (w : Window) : Decoded :=
  if w.b1 = 0xCB then
    ⟨bitTable, w.b3, 4, (indexBits i w.b2 w.b3).map .operation⟩
  else
    found table w.b1 1 (if isIndexed w.b1 then base (.index i) w.b1 w.b2 w.b3 else none)

def i8080 (w : Window) : Decoded :=
  found .base w.b0 0 (if isZ80Only w.b0 then none else base .hl w.b0 w.b1 w.b2)

def z80 (w : Window) : Decoded :=
  match w.b0 with
  | 0xCB => ⟨.cb, w.b1, 2, some (.operation (bits w.b1))⟩
  | 0xDD => index .ix .dd .ddcb w
  | 0xED => found .ed w.b1 1 (extended w.b1 w.b2 w.b3)
  | 0xFD => index .iy .fd .fdcb w
  | op => found .base op 0 (base .hl op w.b1 w.b2)

end Decode

def decode (mode : Mode) (w : Window) : Decoded :=
  match mode with
  | .i8080 => Decode.i8080 w
  | .z80 => Decode.z80 w

end Cpm
