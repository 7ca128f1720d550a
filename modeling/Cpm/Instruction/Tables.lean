import Cpm.Instruction.Decode

/-!
# Opcode tables

The processor finds an instruction in one of seven tables. A table is a list of
rows tried in order: each names one opcode, or the opcodes with given bits under a
mask, and says what they mean and how many bytes they take behind the opcode.
Prefix bytes lead from the base table to the others, in at most two transitions.

Assembly text is made from bit fields instead (`decode`). The two ways to read an
instruction share only the names of operands.
-/

namespace Cpm.Tables

open Decode (Entry entry outputEntry reg8? byteReg? pair stackPair condition aluOp direction
  bitOperation interruptMode found)

/-- The operand that a register field names; `d` is the byte after the opcode. -/
def operand (p : Pointer) (code d : UInt8) : Operand :=
  match byteReg? p code, p with
  | some r, _ => .reg r
  | none, .hl => .mem .atHl
  | none, .index i => .mem (.offset i d)

def displacement (p : Pointer) (code : UInt8) : Nat := if code = 6 && p != .hl then 1 else 0

def onOperand (p : Pointer) (code d : UInt8) (make : Operand → Operation) : Option Entry :=
  entry (displacement p code) (make (operand p code d))

/-- Opcodes `00rrr110`: the immediate follows the displacement. -/
def loadImmediate (p : Pointer) (op x y : UInt8) : Option Entry :=
  let code := op >>> 3 &&& 0x07
  let n := displacement p code
  entry (n + 1) (.ldImm (operand p code x) (if n = 0 then x else y))

/-- Opcodes `01dddsss`. With a byte of memory on one side, the other side is a
plain register. -/
def load (p : Pointer) (op d : UInt8) : Option Entry :=
  let dest := op >>> 3 &&& 0x07
  let source := op &&& 0x07
  match operand p dest d, operand p source d with
  | .reg r, .reg s => entry 0 (.ld r s)
  | _, .mem place => (reg8? dest).bind fun r => entry (displacement p source) (.ldFrom r place)
  | .mem place, _ => (reg8? source).bind fun r => entry (displacement p dest) (.ldTo place r)

/-- Opcodes `10ooorrr`. -/
def arithmetic (p : Pointer) (op d : UInt8) : Option Entry :=
  onOperand p (op &&& 0x07) d (.alu (aluOp (op >>> 3 &&& 0x07)))

/-- Opcodes `00rrr10x`. -/
def stepByte (p : Pointer) (op d : UInt8) : Option Entry :=
  onOperand p (op >>> 3 &&& 0x07) d (if op &&& 0x01 = 0 then .inc else .dec)

/-- Opcodes `00rrx011`. -/
def stepPair (p : Pointer) (op : UInt8) : Option Entry :=
  entry 0 (if op &&& 0x08 = 0 then .incPair (pair p op) else .decPair (pair p op))

/-- The pair that bit 4 selects for a move of the accumulator. -/
def via (op : UInt8) : Via := if op &&& 0x10 = 0 then .bc else .de

/-- The rows that both base tables share. -/
def common (op x y : UInt8) : Option Entry :=
  let nn := Word.ofBytes y x
  let code := op >>> 3 &&& 0x07
  if op = 0x00 then entry 0 .nop
  else if op = 0x76 then some ⟨0, .halt⟩
  -- loads
  else if op = 0x02 || op = 0x12 then entry 0 (.ldViaA (via op))
  else if op = 0x0A || op = 0x1A then entry 0 (.ldAVia (via op))
  else if op = 0x22 then entry 2 (.ldMemPointer nn .hl)
  else if op = 0x2A then entry 2 (.ldPointerMem .hl nn)
  else if op = 0x32 then entry 2 (.ldMemA nn)
  else if op = 0x3A then entry 2 (.ldAMem nn)
  else if op &&& 0xCF = 0x01 then entry 2 (.ldPair (pair .hl op) nn)
  else if op &&& 0xC7 = 0x06 then loadImmediate .hl op x y
  else if op &&& 0xC0 = 0x40 then load .hl op x
  else if op = 0xF9 then entry 0 (.ldSp .hl)
  -- exchanges and the stack
  else if op = 0xEB then entry 0 .exDeHl
  else if op = 0xE3 then entry 0 (.exSp .hl)
  else if op &&& 0xCF = 0xC5 then entry 0 (.push (stackPair .hl op))
  else if op &&& 0xCF = 0xC1 then entry 0 (.pop (stackPair .hl op))
  -- arithmetic on bytes and words
  else if op &&& 0xC0 = 0x80 then arithmetic .hl op x
  else if op &&& 0xC7 = 0xC6 then entry 1 (.aluImm (aluOp code) x)
  else if op &&& 0xC6 = 0x04 then stepByte .hl op x
  else if op &&& 0xCF = 0x09 then entry 0 (.addPair .hl (pair .hl op))
  else if op &&& 0xC7 = 0x03 then stepPair .hl op
  else if op = 0x07 then entry 0 (.acc .rlca)
  else if op = 0x0F then entry 0 (.acc .rrca)
  else if op = 0x17 then entry 0 (.acc .rla)
  else if op = 0x1F then entry 0 (.acc .rra)
  else if op = 0x27 then entry 0 (.acc .daa)
  else if op = 0x2F then entry 0 (.acc .cpl)
  else if op = 0x37 then entry 0 (.acc .scf)
  else if op = 0x3F then entry 0 (.acc .ccf)
  -- transfers of control
  else if op = 0xC3 then entry 2 (.jp nn)
  else if op = 0xE9 then entry 0 (.jpPointer .hl)
  else if op = 0xCD then entry 2 (.call nn)
  else if op = 0xC9 then entry 0 .ret
  else if op &&& 0xC7 = 0xC2 then entry 2 (.jpIf (condition code) nn)
  else if op &&& 0xC7 = 0xC4 then entry 2 (.callIf (condition code) nn)
  else if op &&& 0xC7 = 0xC0 then entry 0 (.retIf (condition code))
  else if op &&& 0xC7 = 0xC7 then entry 0 (.rst (op &&& 0x38))
  -- ports and interrupts
  else if op = 0xD3 then outputEntry 1 (.outA x)
  else if op = 0xDB then entry 1 (.inA x)
  else if op = 0xF3 then entry 0 .di
  else if op = 0xFB then entry 0 .ei
  else none

def i8080 (op x y : UInt8) : Option Entry :=
  match op with
  | 0x08 | 0x10 | 0x18 | 0x20 | 0x28 | 0x30 | 0x38 => none
  | 0xCB | 0xD9 | 0xDD | 0xED | 0xFD => none
  | _ => common op x y

def z80 (op x y : UInt8) : Option Entry :=
  if op = 0x08 then entry 0 .exAf
  else if op = 0x10 then entry 1 (.djnz x)
  else if op = 0x18 then entry 1 (.jr x)
  else if op &&& 0xE7 = 0x20 then entry 1 (.jrIf (condition (op >>> 3 &&& 0x03)) x)
  else if op = 0xD9 then entry 0 .exx
  else common op x y

/-- A register field that names H, L or a byte of memory. -/
def touchesIndex (code : UInt8) : Bool := code = 4 || code = 5 || code = 6

/-- The table of an index register: the rows of the base table that name HL, one
of its halves or the byte it points to. -/
def indexed (i : Index) (op x y : UInt8) : Option Entry :=
  let p := Pointer.index i
  let nn := Word.ofBytes y x
  if op &&& 0xCF = 0x09 then entry 0 (.addPair p (pair p op))
  else if op = 0x21 then entry 2 (.ldPair (pair p op) nn)
  else if op = 0x22 then entry 2 (.ldMemPointer nn p)
  else if op = 0x2A then entry 2 (.ldPointerMem p nn)
  else if op = 0x23 || op = 0x2B then stepPair p op
  else if op ∈ [0x24, 0x25, 0x2C, 0x2D, 0x34, 0x35] then stepByte p op x
  else if op = 0x26 || op = 0x2E || op = 0x36 then loadImmediate p op x y
  else if op = 0x76 then none
  else if op &&& 0xC0 = 0x40 &&
      (touchesIndex (op &&& 0x07) || touchesIndex (op >>> 3 &&& 0x07)) then
    load p op x
  else if op &&& 0xC0 = 0x80 && touchesIndex (op &&& 0x07) then arithmetic p op x
  else if op = 0xE1 then entry 0 (.pop (stackPair p op))
  else if op = 0xE5 then entry 0 (.push (stackPair p op))
  else if op = 0xE3 then entry 0 (.exSp p)
  else if op = 0xE9 then entry 0 (.jpPointer p)
  else if op = 0xF9 then entry 0 (.ldSp p)
  else none

def bits (op : UInt8) : Option Entry :=
  entry 0 (bitOperation op (operand .hl (op &&& 0x07) 0))

/-- The bit table of an index register: the displacement `d` stands before the
opcode, and only the rows on memory exist. -/
def indexedBits (i : Index) (d op : UInt8) : Option Entry :=
  if op &&& 0x07 ≠ 0x06 then none else entry 0 (bitOperation op (.mem (.offset i d)))

def extended (op x y : UInt8) : Option Entry :=
  let nn := Word.ofBytes y x
  let code := op >>> 3 &&& 0x07
  if op = 0x47 then entry 0 .ldIA
  else if op = 0x4F then entry 0 .ldRA
  else if op = 0x57 then entry 0 .ldAI
  else if op = 0x5F then entry 0 .ldAR
  else if op = 0x67 then entry 0 .rrd
  else if op = 0x6F then entry 0 .rld
  else if op = 0xA0 || op = 0xA8 then entry 0 (.ldi (direction op))
  else if op = 0xA1 || op = 0xA9 then entry 0 (.cpi (direction op))
  else if op = 0xA3 || op = 0xAB then outputEntry 0 (.outi (direction op))
  else if op = 0xB0 || op = 0xB8 then entry 0 (.ldir (direction op))
  else if op = 0xB1 || op = 0xB9 then entry 0 (.cpir (direction op))
  else if op = 0xB3 || op = 0xBB then outputEntry 0 (.otir (direction op))
  else if op &&& 0xC7 = 0x40 then entry 0 (.inC (reg8? code))
  else if op &&& 0xC7 = 0x41 then outputEntry 0 (.outC (reg8? code))
  else if op &&& 0xCF = 0x42 then entry 0 (.sbcHl (pair .hl op))
  else if op &&& 0xCF = 0x43 then entry 2 (.ldMemPair nn (pair .hl op))
  else if op &&& 0xC7 = 0x44 then entry 0 .neg
  else if op &&& 0xC7 = 0x45 then entry 0 (if op = 0x4D then .reti else .retn)
  else if op &&& 0xC7 = 0x46 then entry 0 (.im (interruptMode op))
  else if op &&& 0xCF = 0x4A then entry 0 (.adcHl (pair .hl op))
  else if op &&& 0xCF = 0x4B then entry 2 (.ldPairMem (pair .hl op) nn)
  else none

/-- The table that a byte leads to, where it is a prefix in the table reached so far. -/
def next? (mode : Mode) : Table → UInt8 → Option Table
  | .base, op =>
    match mode, op with
    | .z80, 0xCB => some .cb
    | .z80, 0xDD => some .dd
    | .z80, 0xED => some .ed
    | .z80, 0xFD => some .fd
    | _, _ => none
  | .dd, 0xCB => some .ddcb
  | .fd, 0xCB => some .fdcb
  | _, _ => none

/-- The entry of the opcode `op` in a table. The bytes behind the opcode are `x` and
`y`; a displacement `d` stands before it in the bit tables of the index registers. -/
def lookup (mode : Mode) (t : Table) (d op x y : UInt8) : Option Entry :=
  match t with
  | .base =>
    match mode with
    | .i8080 => i8080 op x y
    | .z80 => z80 op x y
  | .cb => bits op
  | .dd => indexed .ix op x y
  | .ddcb => indexedBits .ix d op
  | .ed => extended op x y
  | .fd => indexed .iy op x y
  | .fdcb => indexedBits .iy d op

def hasEntry (mode : Mode) (t : Table) (op : UInt8) : Bool := (lookup mode t 0 op 0 0).isSome

/-- Finds the instruction behind a first byte that led to the table `t`. A second
such byte is followed by a displacement, and only then by the opcode. -/
def behind (mode : Mode) (t : Table) (w : Window) : Decoded :=
  match next? mode t w.b1 with
  | none => found t w.b1 1 (lookup mode t 0 w.b1 w.b2 w.b3)
  | some u => found u w.b3 3 (lookup mode u w.b2 w.b3 0 0)

end Cpm.Tables

namespace Cpm

namespace Index

def lead : Index → UInt8
  | .ix => 0xDD
  | .iy => 0xFD

def table : Index → Table
  | .ix => .dd
  | .iy => .fd

def bitTable : Index → Table
  | .ix => .ddcb
  | .iy => .fdcb

end Index

/-- Finds the instruction at the start of the window: the bytes that lead from table
to table, then the entry of the opcode they lead to. -/
def dispatch (mode : Mode) (w : Window) : Decoded :=
  match Tables.next? mode .base w.b0 with
  | none => Decode.found .base w.b0 0 (Tables.lookup mode .base 0 w.b0 w.b1 w.b2)
  | some t => Tables.behind mode t w

end Cpm
