import Cpm.Alu

/-!
# Instructions

An instruction is written by meaning: what it names, not how its bytes are laid
out. Operations work on registers and memory alone; the instructions that write
to a port, and the halt instruction, stand apart from them.
-/

namespace Cpm

/-- The byte registers of a bank other than the flags. -/
inductive Reg8 where
  | b | c | d | e | h | l | a
  deriving DecidableEq, Repr

inductive Index where
  | ix | iy
  deriving DecidableEq, Repr

/-- A register pair through which memory is reached: HL or an index register. -/
inductive Pointer where
  | hl
  | index (i : Index)
  deriving DecidableEq, Repr

/-- A byte register, or one half of an index register. -/
inductive ByteReg where
  | main (r : Reg8)
  | high (i : Index)
  | low (i : Index)
  deriving DecidableEq, Repr

/-- A byte of memory at HL, or at an index register plus a signed displacement. -/
inductive Place where
  | atHl
  | offset (i : Index) (d : UInt8)
  deriving DecidableEq, Repr

inductive Operand where
  | reg (r : ByteReg)
  | mem (p : Place)
  deriving DecidableEq, Repr

inductive Pair where
  | bc | de
  | pointer (p : Pointer)
  | sp
  deriving DecidableEq, Repr

inductive StackPair where
  | bc | de
  | pointer (p : Pointer)
  | af
  deriving DecidableEq, Repr

inductive Condition where
  | nz | z | nc | c | po | pe | p | m
  deriving DecidableEq, Repr

inductive AluOp where
  | add | adc | sub | sbc | and | xor | or | cp
  deriving DecidableEq, Repr

inductive AccOp where
  | rlca | rrca | rla | rra | daa | cpl | scf | ccf
  deriving DecidableEq, Repr

/-- The two pairs other than HL through which the accumulator is moved. -/
inductive Via where
  | bc | de
  deriving DecidableEq, Repr

inductive Direction where
  | up | down
  deriving DecidableEq, Repr

/-- Instructions that work on registers and memory alone. -/
inductive Operation where
  | nop | di | ei
  | im (level : UInt8)
  /-- Nothing is attached to the input ports: the port byte is passed over. -/
  | inA (port : UInt8)
  /-- Input through port C into a register, or into the flags alone. -/
  | inC (dst : Option Reg8)
  | ld (dst src : ByteReg)
  | ldFrom (dst : Reg8) (src : Place)
  | ldTo (dst : Place) (src : Reg8)
  | ldImm (dst : Operand) (n : UInt8)
  | ldAVia (v : Via)
  | ldViaA (v : Via)
  | ldAMem (addr : UInt16)
  | ldMemA (addr : UInt16)
  | ldPair (dst : Pair) (nn : UInt16)
  | ldMemPointer (addr : UInt16) (src : Pointer)
  | ldPointerMem (dst : Pointer) (addr : UInt16)
  /-- The longer encoding of a word store. -/
  | ldMemPair (addr : UInt16) (src : Pair)
  /-- The longer encoding of a word load. -/
  | ldPairMem (dst : Pair) (addr : UInt16)
  | ldSp (src : Pointer)
  | ldIA | ldRA | ldAI | ldAR
  | exAf | exx | exDeHl
  | exSp (p : Pointer)
  | push (p : StackPair)
  | pop (p : StackPair)
  | alu (op : AluOp) (src : Operand)
  | aluImm (op : AluOp) (n : UInt8)
  | inc (x : Operand)
  | dec (x : Operand)
  | acc (op : AccOp)
  | neg
  | addPair (dst : Pointer) (src : Pair)
  | adcHl (src : Pair)
  | sbcHl (src : Pair)
  | incPair (x : Pair)
  | decPair (x : Pair)
  | shift (s : Shift) (x : Operand)
  | bit (n : UInt8) (x : Operand)
  | res (n : UInt8) (x : Operand)
  | set (n : UInt8) (x : Operand)
  | rrd | rld
  | jp (target : UInt16)
  | jpIf (cond : Condition) (target : UInt16)
  | jpPointer (p : Pointer)
  | jr (d : UInt8)
  | jrIf (cond : Condition) (d : UInt8)
  | djnz (d : UInt8)
  | call (target : UInt16)
  | callIf (cond : Condition) (target : UInt16)
  | ret
  | retIf (cond : Condition)
  | retn | reti
  | rst (target : UInt8)
  | ldi (dir : Direction)
  | ldir (dir : Direction)
  | cpi (dir : Direction)
  | cpir (dir : Direction)
  deriving DecidableEq, Repr

/-- Instructions that write bytes to a port. -/
inductive Output where
  | outA (port : UInt8)
  /-- Output through port C of a register, or of zero. -/
  | outC (src : Option Reg8)
  | outi (dir : Direction)
  | otir (dir : Direction)
  deriving DecidableEq, Repr

inductive Instruction where
  | operation (o : Operation)
  | output (o : Output)
  | halt
  deriving DecidableEq, Repr

end Cpm
