import Cpm.Hex
import Cpm.Instruction.Decode

/-!
# Assembly text

An instruction is written as a mnemonic and at most two arguments, in Zilog's
notation for both modes. Numbers are hexadecimal with an `H` behind them. Bytes
that mean nothing are listed behind `DB`, as many as decoding took.
-/

namespace Cpm

inductive Argument where
  /-- A register, a condition, or a pair in parentheses. -/
  | name (s : String)
  | byte (n : UInt8)
  | word (n : UInt16)
  | portAt (n : UInt8)
  | wordAt (n : UInt16)
  | offset (i : Index) (d : UInt8)
  /-- A bit number or an interrupt mode. -/
  | digit (n : UInt8)
  deriving DecidableEq, Repr

structure AssemblyLine where
  mnemonic : String
  arguments : List Argument
  deriving DecidableEq, Repr

namespace Index

def text : Index → String
  | .ix => "IX"
  | .iy => "IY"

end Index

namespace Argument

def byteText (n : UInt8) : String := Hex.byte n ++ "H"

def wordText (n : UInt16) : String := Hex.word n ++ "H"

/-- The displacement with its sign and absolute value. -/
def offsetText (d : UInt8) : String :=
  if d &&& 0x80 = 0 then "+" ++ byteText d else "-" ++ byteText (0 - d)

def text : Argument → String
  | .name s => s
  | .byte n => byteText n
  | .word n => wordText n
  | .portAt n => "(" ++ byteText n ++ ")"
  | .wordAt n => "(" ++ wordText n ++ ")"
  | .offset i d => "(" ++ i.text ++ offsetText d ++ ")"
  | .digit n => String.ofList [Hex.digit n.toNat]

end Argument

namespace AssemblyLine

def text (line : AssemblyLine) : String :=
  match line.arguments with
  | [] => line.mnemonic
  | args => line.mnemonic ++ " " ++ ",".intercalate (args.map Argument.text)

/-- The line that lists bytes which form no instruction. -/
def data (bytes : List UInt8) : AssemblyLine := ⟨"DB", bytes.map .byte⟩

end AssemblyLine

namespace Reg8

def text : Reg8 → String
  | .b => "B"
  | .c => "C"
  | .d => "D"
  | .e => "E"
  | .h => "H"
  | .l => "L"
  | .a => "A"

end Reg8

namespace Pointer

def text : Pointer → String
  | .hl => "HL"
  | .index i => i.text

end Pointer

namespace ByteReg

def text : ByteReg → String
  | .main r => r.text
  | .high i => i.text ++ "H"
  | .low i => i.text ++ "L"

end ByteReg

namespace Argument

def reg8 (r : Reg8) : Argument := .name r.text

def byteReg (r : ByteReg) : Argument := .name r.text

def pointer (p : Pointer) : Argument := .name p.text

/-- A pair in parentheses: the memory, or the jump target, it points to. -/
def pointed (p : Pointer) : Argument := .name ("(" ++ p.text ++ ")")

def place : Place → Argument
  | .atHl => pointed .hl
  | .offset i d => .offset i d

def operand : Operand → Argument
  | .reg r => byteReg r
  | .mem p => place p

def pair : Pair → Argument
  | .bc => .name "BC"
  | .de => .name "DE"
  | .pointer p => pointer p
  | .sp => .name "SP"

def stackPair : StackPair → Argument
  | .bc => .name "BC"
  | .de => .name "DE"
  | .pointer p => pointer p
  | .af => .name "AF"

def via : Via → Argument
  | .bc => .name "(BC)"
  | .de => .name "(DE)"

def condition : Condition → Argument
  | .nz => .name "NZ"
  | .z => .name "Z"
  | .nc => .name "NC"
  | .c => .name "C"
  | .po => .name "PO"
  | .pe => .name "PE"
  | .p => .name "P"
  | .m => .name "M"

def accumulator : Argument := .name "A"

def portC : Argument := .name "(C)"

/-- The target of a relative jump, counted from the following instruction. -/
def relative (next : UInt16) (d : UInt8) : Argument := .word (next + Word.signExtend d)

end Argument

namespace AluOp

/-- The mnemonic with the arguments before the operand: three of the operations
name the accumulator. -/
def line (op : AluOp) (x : Argument) : AssemblyLine :=
  match op with
  | .add => ⟨"ADD", [.accumulator, x]⟩
  | .adc => ⟨"ADC", [.accumulator, x]⟩
  | .sub => ⟨"SUB", [x]⟩
  | .sbc => ⟨"SBC", [.accumulator, x]⟩
  | .and => ⟨"AND", [x]⟩
  | .xor => ⟨"XOR", [x]⟩
  | .or => ⟨"OR", [x]⟩
  | .cp => ⟨"CP", [x]⟩

end AluOp

namespace AccOp

def mnemonic : AccOp → String
  | .rlca => "RLCA"
  | .rrca => "RRCA"
  | .rla => "RLA"
  | .rra => "RRA"
  | .daa => "DAA"
  | .cpl => "CPL"
  | .scf => "SCF"
  | .ccf => "CCF"

end AccOp

namespace Shift

def mnemonic : Shift → String
  | .rlc => "RLC"
  | .rrc => "RRC"
  | .rl => "RL"
  | .rr => "RR"
  | .sla => "SLA"
  | .sra => "SRA"
  | .sll => "SLL"
  | .srl => "SRL"

end Shift

namespace Direction

def pick (dir : Direction) (up down : String) : String :=
  match dir with
  | .up => up
  | .down => down

end Direction

namespace Operation

/-- The assembly line of an operation; `next` is the address behind it. -/
def line (next : UInt16) : Operation → AssemblyLine
  | .nop => ⟨"NOP", []⟩
  | .di => ⟨"DI", []⟩
  | .ei => ⟨"EI", []⟩
  | .im level => ⟨"IM", [.digit level]⟩
  | .inA port => ⟨"IN", [.accumulator, .portAt port]⟩
  | .inC none => ⟨"IN", [.portC]⟩
  | .inC (some r) => ⟨"IN", [.reg8 r, .portC]⟩
  | .ld dst src => ⟨"LD", [.byteReg dst, .byteReg src]⟩
  | .ldFrom dst src => ⟨"LD", [.reg8 dst, .place src]⟩
  | .ldTo dst src => ⟨"LD", [.place dst, .reg8 src]⟩
  | .ldImm dst n => ⟨"LD", [.operand dst, .byte n]⟩
  | .ldAVia v => ⟨"LD", [.accumulator, .via v]⟩
  | .ldViaA v => ⟨"LD", [.via v, .accumulator]⟩
  | .ldAMem addr => ⟨"LD", [.accumulator, .wordAt addr]⟩
  | .ldMemA addr => ⟨"LD", [.wordAt addr, .accumulator]⟩
  | .ldPair dst nn => ⟨"LD", [.pair dst, .word nn]⟩
  | .ldMemPointer addr src => ⟨"LD", [.wordAt addr, .pointer src]⟩
  | .ldPointerMem dst addr => ⟨"LD", [.pointer dst, .wordAt addr]⟩
  | .ldMemPair addr src => ⟨"LD", [.wordAt addr, .pair src]⟩
  | .ldPairMem dst addr => ⟨"LD", [.pair dst, .wordAt addr]⟩
  | .ldSp src => ⟨"LD", [.name "SP", .pointer src]⟩
  | .ldIA => ⟨"LD", [.name "I", .accumulator]⟩
  | .ldRA => ⟨"LD", [.name "R", .accumulator]⟩
  | .ldAI => ⟨"LD", [.accumulator, .name "I"]⟩
  | .ldAR => ⟨"LD", [.accumulator, .name "R"]⟩
  | .exAf => ⟨"EX", [.name "AF", .name "AF'"]⟩
  | .exx => ⟨"EXX", []⟩
  | .exDeHl => ⟨"EX", [.name "DE", .name "HL"]⟩
  | .exSp p => ⟨"EX", [.name "(SP)", .pointer p]⟩
  | .push p => ⟨"PUSH", [.stackPair p]⟩
  | .pop p => ⟨"POP", [.stackPair p]⟩
  | .alu op src => op.line (.operand src)
  | .aluImm op n => op.line (.byte n)
  | .inc x => ⟨"INC", [.operand x]⟩
  | .dec x => ⟨"DEC", [.operand x]⟩
  | .acc op => ⟨op.mnemonic, []⟩
  | .neg => ⟨"NEG", []⟩
  | .addPair dst src => ⟨"ADD", [.pointer dst, .pair src]⟩
  | .adcHl src => ⟨"ADC", [.name "HL", .pair src]⟩
  | .sbcHl src => ⟨"SBC", [.name "HL", .pair src]⟩
  | .incPair x => ⟨"INC", [.pair x]⟩
  | .decPair x => ⟨"DEC", [.pair x]⟩
  | .shift s x => ⟨s.mnemonic, [.operand x]⟩
  | .bit n x => ⟨"BIT", [.digit n, .operand x]⟩
  | .res n x => ⟨"RES", [.digit n, .operand x]⟩
  | .set n x => ⟨"SET", [.digit n, .operand x]⟩
  | .rrd => ⟨"RRD", []⟩
  | .rld => ⟨"RLD", []⟩
  | .jp target => ⟨"JP", [.word target]⟩
  | .jpIf cond target => ⟨"JP", [.condition cond, .word target]⟩
  | .jpPointer p => ⟨"JP", [.pointed p]⟩
  | .jr d => ⟨"JR", [.relative next d]⟩
  | .jrIf cond d => ⟨"JR", [.condition cond, .relative next d]⟩
  | .djnz d => ⟨"DJNZ", [.relative next d]⟩
  | .call target => ⟨"CALL", [.word target]⟩
  | .callIf cond target => ⟨"CALL", [.condition cond, .word target]⟩
  | .ret => ⟨"RET", []⟩
  | .retIf cond => ⟨"RET", [.condition cond]⟩
  | .retn => ⟨"RETN", []⟩
  | .reti => ⟨"RETI", []⟩
  | .rst target => ⟨"RST", [.byte target]⟩
  | .ldi dir => ⟨dir.pick "LDI" "LDD", []⟩
  | .ldir dir => ⟨dir.pick "LDIR" "LDDR", []⟩
  | .cpi dir => ⟨dir.pick "CPI" "CPD", []⟩
  | .cpir dir => ⟨dir.pick "CPIR" "CPDR", []⟩

end Operation

namespace Output

def line : Output → AssemblyLine
  | .outA port => ⟨"OUT", [.portAt port, .accumulator]⟩
  | .outC none => ⟨"OUT", [.portC, .name "0"]⟩
  | .outC (some r) => ⟨"OUT", [.portC, .reg8 r]⟩
  | .outi dir => ⟨dir.pick "OUTI" "OUTD", []⟩
  | .otir dir => ⟨dir.pick "OTIR" "OTDR", []⟩

end Output

namespace Instruction

def line (next : UInt16) : Instruction → AssemblyLine
  | .operation o => o.line next
  | .output o => o.line
  | .halt => ⟨"HALT", []⟩

end Instruction

namespace Decoded

def line (d : Decoded) (pc : UInt16) (w : Window) : AssemblyLine :=
  match d.instruction with
  | some i => i.line (pc + UInt16.ofNat d.length)
  | none => .data (w.toList.take d.length)

end Decoded

structure Disassembly where
  text : String
  length : Nat
  deriving DecidableEq, Repr

def disassemble (m : Memory) (pc : UInt16) (mode : Mode) : Disassembly :=
  let w := Window.ofMemory m pc
  let d := decode mode w
  ⟨(d.line pc w).text, d.length⟩

end Cpm
