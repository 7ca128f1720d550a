import Cpm.Proofs.AssemblyText
import Cpm.Proofs.Decoding

/-!
# The line of an instruction shows the instruction

An instruction can be read back from its assembly line and the address it stands
at, from which the targets of relative jumps are counted. A load or a store of a word has
two forms with one line where it moves HL or an index register; reading takes the short
one.
-/

namespace Cpm

namespace Argument

def named? {α : Type} (values : List α) (name : α → Argument) (a : Argument) : Option α :=
  values.find? fun v => name v == a

def reg8? : Argument → Option Reg8 := named? [.b, .c, .d, .e, .h, .l, .a] .reg8

def byteReg? : Argument → Option ByteReg :=
  named? [.main .b, .main .c, .main .d, .main .e, .main .h, .main .l, .main .a,
    .high .ix, .low .ix, .high .iy, .low .iy] .byteReg

def pointer? : Argument → Option Pointer := named? [.hl, .index .ix, .index .iy] .pointer

def pair? : Argument → Option Pair :=
  named? [.bc, .de, .pointer .hl, .pointer (.index .ix), .pointer (.index .iy), .sp] .pair

def stackPair? : Argument → Option StackPair :=
  named? [.bc, .de, .pointer .hl, .pointer (.index .ix), .pointer (.index .iy), .af] .stackPair

def condition? : Argument → Option Condition :=
  named? [.nz, .z, .nc, .c, .po, .pe, .p, .m] .condition

def digit? : Argument → Option UInt8 :=
  named? [0, 1, 2, 3, 4, 5, 6, 7] fun n => (digit n).spelled

def operand? : Argument → Option Operand
  | .offset i d => some (.mem (.offset i d))
  | a => if a = pointed .hl then some (.mem .atHl) else (byteReg? a).map .reg

theorem pointer?_pointer (p : Pointer) : pointer? (.pointer p) = some p := by
  rcases p with _ | _ | _ <;> rfl

theorem pair?_pair (p : Pair) : pair? (.pair p) = some p := by
  rcases p with _ | _ | (_ | _ | _) | _ <;> rfl

theorem digit?_digit {n : UInt8} (h : n < 8) : digit? (digit n).spelled = some n := by
  have hall : ∀ k < 8, digit? (digit (UInt8.ofNat k)).spelled = some (UInt8.ofNat k) := by decide
  simpa only [UInt8.ofNat_toNat] using hall n.toNat (UInt8.lt_iff_toNat_lt.mp h)

theorem operand?_operand (x : Operand) : operand? (.operand x) = some x := by
  rcases x with (r | i | i) | _ | _
  · cases r <;> rfl
  · cases i <;> rfl
  · cases i <;> rfl
  · rfl
  · rfl

end Argument

namespace Operation

open Argument

/-- The displacement of a relative jump at `pc`, two bytes long, to a target. -/
def displacement (pc target : UInt16) : UInt8 := Word.low (target - (pc + 2))

/-- The operation with the line's meaning that takes the fewest bytes. -/
def canonical : Operation → Operation
  | .ldMemPair addr (.pointer p) => .ldMemPointer addr p
  | .ldPairMem (.pointer p) addr => .ldPointerMem p addr
  | o => o

/-- The operand of an operation with the accumulator: a byte, or a place that holds one. -/
def ofSource? (op : AluOp) : Argument → Option Operation
  | .byte n => some (.aluImm op n)
  | a => (operand? a).map (.alu op)

/-- A move of the accumulator through an address, or of a pair. -/
def ofStore? (addr : UInt16) (src : Argument) : Option Operation :=
  if src = .accumulator then some (.ldMemA addr)
  else (pair? src).map fun p => canonical (.ldMemPair addr p)

def ofFetch? (dst : Argument) (addr : UInt16) : Option Operation :=
  if dst = .accumulator then some (.ldAMem addr)
  else (pair? dst).map fun p => canonical (.ldPairMem p addr)

def ofMove? (dst src : Argument) : Option Operation :=
  match operand? dst, operand? src with
  | some (.reg dst), some (.reg src) => some (.ld dst src)
  | some (.reg (.main dst)), some (.mem src) => some (.ldFrom dst src)
  | some (.mem dst), some (.reg (.main src)) => some (.ldTo dst src)
  | _, _ => none

def ofLoad? : Argument → Argument → Option Operation
  | .wordAt addr, src => ofStore? addr src
  | dst, .wordAt addr => ofFetch? dst addr
  | dst, .word nn => (pair? dst).map (.ldPair · nn)
  | dst, .byte n => (operand? dst).map (.ldImm · n)
  | dst, src => ofMove? dst src

def ofStep? (onPair : Pair → Operation) (onByte : Operand → Operation) (x : Argument) :
    Option Operation :=
  match pair? x with
  | some p => some (onPair p)
  | none => (operand? x).map onByte

def ofSum? (op : AluOp) (onPairs : Pointer → Pair → Operation) (dst src : Argument) :
    Option Operation :=
  match pointer? dst with
  | some p => (pair? src).map (onPairs p)
  | none => ofSource? op src

def ofBit? (make : UInt8 → Operand → Operation) (n x : Argument) : Option Operation :=
  (digit? n).bind fun n => (operand? x).map (make n)

def ofMnemonic? (mnemonic : String) (x : Argument) : Option Operation :=
  match [Shift.rlc, .rrc, .rl, .rr, .sla, .sra, .sll, .srl].find? fun s => s.mnemonic == mnemonic
  with
  | some s => (operand? x).map (.shift s)
  | none =>
    ([AluOp.sub, .and, .xor, .or, .cp].find? fun op => (op.line x).mnemonic == mnemonic).bind
      fun op => ofSource? op x

def ofLine? (pc : UInt16) : AssemblyLine → Option Operation
  | ⟨"IM", [level]⟩ => (digit? level).map .im
  | ⟨"IN", [_, .portAt port]⟩ => some (.inA port)
  | ⟨"IN", [dst, _]⟩ => (reg8? dst).map fun r => .inC (some r)
  | ⟨"LD", [dst, src]⟩ => ofLoad? dst src
  | ⟨"PUSH", [p]⟩ => (stackPair? p).map .push
  | ⟨"POP", [p]⟩ => (stackPair? p).map .pop
  | ⟨"INC", [x]⟩ => ofStep? .incPair .inc x
  | ⟨"DEC", [x]⟩ => ofStep? .decPair .dec x
  | ⟨"ADD", [dst, src]⟩ => ofSum? .add .addPair dst src
  | ⟨"ADC", [dst, src]⟩ => ofSum? .adc (fun _ => .adcHl) dst src
  | ⟨"SBC", [dst, src]⟩ => ofSum? .sbc (fun _ => .sbcHl) dst src
  | ⟨"BIT", [n, x]⟩ => ofBit? .bit n x
  | ⟨"RES", [n, x]⟩ => ofBit? .res n x
  | ⟨"SET", [n, x]⟩ => ofBit? .set n x
  | ⟨"JP", [.word target]⟩ => some (.jp target)
  | ⟨"JP", [cond, .word target]⟩ => (condition? cond).map (.jpIf · target)
  | ⟨"JR", [.word target]⟩ => some (.jr (displacement pc target))
  | ⟨"JR", [cond, .word target]⟩ => (condition? cond).map (.jrIf · (displacement pc target))
  | ⟨"DJNZ", [.word target]⟩ => some (.djnz (displacement pc target))
  | ⟨"CALL", [.word target]⟩ => some (.call target)
  | ⟨"CALL", [cond, .word target]⟩ => (condition? cond).map (.callIf · target)
  | ⟨"RET", [cond]⟩ => (condition? cond).map .retIf
  | ⟨"RST", [.byte target]⟩ => some (.rst target)
  | ⟨mnemonic, [x]⟩ => ofMnemonic? mnemonic x
  | _ => none

end Operation

namespace Output

def ofLine? : AssemblyLine → Option Output
  | ⟨"OUT", [.portAt port, _]⟩ => some (.outA port)
  | ⟨"OUT", [_, src]⟩ => (Argument.reg8? src).map fun r => .outC (some r)
  | _ => none

end Output

namespace Instruction

/-- The instructions that nothing varies but the way up or down. -/
def fixed : List Instruction :=
  [.operation .nop, .operation .di, .operation .ei, .operation (.inC none),
    .operation (.ldAVia .bc), .operation (.ldAVia .de), .operation (.ldViaA .bc),
    .operation (.ldViaA .de), .operation (.ldSp .hl), .operation (.ldSp (.index .ix)),
    .operation (.ldSp (.index .iy)), .operation .ldIA, .operation .ldRA, .operation .ldAI,
    .operation .ldAR, .operation .exAf, .operation .exx, .operation .exDeHl,
    .operation (.exSp .hl), .operation (.exSp (.index .ix)), .operation (.exSp (.index .iy)),
    .operation (.acc .rlca), .operation (.acc .rrca), .operation (.acc .rla),
    .operation (.acc .rra), .operation (.acc .daa), .operation (.acc .cpl),
    .operation (.acc .scf), .operation (.acc .ccf), .operation .neg, .operation .rrd,
    .operation .rld, .operation (.jpPointer .hl), .operation (.jpPointer (.index .ix)),
    .operation (.jpPointer (.index .iy)), .operation .ret, .operation .retn, .operation .reti,
    .operation (.ldi .up), .operation (.ldi .down), .operation (.ldir .up),
    .operation (.ldir .down), .operation (.cpi .up), .operation (.cpi .down),
    .operation (.cpir .up), .operation (.cpir .down), .output (.outC none), .output (.outi .up),
    .output (.outi .down), .output (.otir .up), .output (.otir .down), .halt]

def ofLine? (pc : UInt16) (line : AssemblyLine) : Option Instruction :=
  match Operation.ofLine? pc line, Output.ofLine? line with
  | some o, _ => some (.operation o)
  | none, some o => some (.output o)
  | none, none => fixed.find? fun i => i.line 0 == line

theorem ofLine?_fixed (pc next : UInt16) {i : Instruction} (h : i ∈ fixed) :
    ofLine? pc (i.line next).spelled = some i := by
  have hmap : fixed.map (fun i => ofLine? pc (i.line next).spelled) = fixed.map some := by rfl
  exact List.map_inj_left.mp hmap i h

def canonical : Instruction → Instruction
  | .operation o => .operation o.canonical
  | i => i

/-- Bit numbers and interrupt modes are single digits below eight. -/
def HasDigits : Instruction → Prop
  | .operation (.im n) | .operation (.bit n _) | .operation (.res n _)
  | .operation (.set n _) => n < 8
  | _ => True

def isRelative : Instruction → Bool
  | .operation (.jr _) | .operation (.jrIf _ _) | .operation (.djnz _) => true
  | _ => false

theorem ofLine?_of_operation {pc : UInt16} {line : AssemblyLine} {o : Operation}
    (h : Operation.ofLine? pc line = some o) : ofLine? pc line = some (.operation o) := by
  simp only [ofLine?, h]

end Instruction

namespace Operation

open Argument

variable {pc next : UInt16}

theorem displacement_relative (h : next = pc + 2) (d : UInt8) :
    displacement pc (next + Word.signExtend d) = d := by
  rw [displacement, h, UInt16.add_comm, UInt16.add_sub_cancel, Word.low_signExtend]

theorem spelled_operand (x : Operand) : (Argument.operand x).spelled = .operand x := by
  rcases x with _ | _ | _ <;> rfl

theorem pair?_operand (x : Operand) : pair? (.operand x) = none := by
  rcases x with (r | i | i) | _ | _
  · cases r <;> rfl
  · cases i <;> rfl
  · cases i <;> rfl
  · rfl
  · rfl

theorem ofLoad?_byte (dst : Operand) (n : UInt8) :
    ofLoad? (.operand dst) (.byte n) = some (.ldImm dst n) := by
  have h : ofLoad? (.operand dst) (.byte n) = (operand? (.operand dst)).map (.ldImm · n) := by
    rcases dst with _ | _ | _ <;> rfl
  rw [h, operand?_operand, Option.map_some]

/-- Neither side of a move is a number or a place named by one. -/
theorem ofLoad?_operands (dst src : Operand) :
    ofLoad? (.operand dst) (.operand src) = match dst, src with
      | .reg dst, .reg src => some (.ld dst src)
      | .reg (.main dst), .mem src => some (.ldFrom dst src)
      | .mem dst, .reg (.main src) => some (.ldTo dst src)
      | _, _ => none := by
  have h : ofLoad? (.operand dst) (.operand src) = ofMove? (.operand dst) (.operand src) := by
    rcases dst with _ | _ | _ <;> rcases src with _ | _ | _ <;> rfl
  rw [h, ofMove?, operand?_operand, operand?_operand]
  rcases dst with (_ | _ | _) | _ <;> rcases src with (_ | _ | _) | _ <;> rfl

theorem ofStep?_operand (onPair : Pair → Operation) (onByte : Operand → Operation)
    (x : Operand) : ofStep? onPair onByte (.operand x) = some (onByte x) := by
  rw [ofStep?, pair?_operand, operand?_operand]
  rfl

theorem ofStep?_pair (onPair : Pair → Operation) (onByte : Operand → Operation) (p : Pair) :
    ofStep? onPair onByte (.pair p) = some (onPair p) := by
  rw [ofStep?, pair?_pair]

theorem ofSource?_operand (op : AluOp) (x : Operand) :
    ofSource? op (.operand x) = some (.alu op x) := by
  have h : ofSource? op (.operand x) = (operand? (.operand x)).map (.alu op) := by
    rcases x with _ | _ | _ <;> rfl
  rw [h, operand?_operand, Option.map_some]

theorem ofSum?_pair (op : AluOp) (onPairs : Pointer → Pair → Operation) (dst : Pointer)
    (src : Pair) : ofSum? op onPairs (.pointer dst) (.pair src) = some (onPairs dst src) := by
  rw [ofSum?, pointer?_pointer, pair?_pair]
  rfl

theorem ofBit?_digit_operand (make : UInt8 → Operand → Operation) {n : UInt8} (h : n < 8)
    (x : Operand) : ofBit? make (digit n).spelled (.operand x) = some (make n x) := by
  rw [ofBit?, digit?_digit h, operand?_operand]
  rfl

theorem spelled_pair (p : Pair) : (Argument.pair p).spelled = .pair p := by
  rcases p with _ | _ | _ | _ <;> rfl

theorem ofLine?_jrIf (pc next : UInt16) (cond : Condition) (d : UInt8) :
    ofLine? pc ((jrIf cond d).line next).spelled =
      some (jrIf cond (displacement pc (next + Word.signExtend d))) := by
  cases cond <;> rfl

/-- An operation with arguments is read back, up to the length of its encoding. -/
theorem ofLine?_line (o : Operation) (hdigits : (Instruction.operation o).HasDigits)
    (hnext : (Instruction.operation o).isRelative = true → next = pc + 2)
    (hfixed : .operation o ∉ Instruction.fixed) :
    ofLine? pc (o.line next).spelled = some o.canonical := by
  -- Operands are read by their lemmas; where an argument has few values, each case is
  -- computed.
  cases o
  case im n =>
    show (digit? (digit n).spelled).map im = _
    rw [digit?_digit hdigits]
    rfl
  case inA | ldAMem | ldMemA | jp | call | rst => rfl
  case inC dst =>
    cases dst with
    | none => exact absurd (by decide) hfixed
    | some r => cases r <;> rfl
  case ld dst src => exact ofLoad?_operands (.reg dst) (.reg src)
  case ldFrom dst src =>
    show ofLoad? (.operand (.reg (.main dst))) (Argument.operand (.mem src)).spelled = _
    rw [spelled_operand, ofLoad?_operands]
    rfl
  case ldTo dst src =>
    show ofLoad? (Argument.operand (.mem dst)).spelled (.operand (.reg (.main src))) = _
    rw [spelled_operand, ofLoad?_operands]
    rfl
  case ldImm dst n =>
    show ofLoad? (Argument.operand dst).spelled (.byte n) = _
    rw [spelled_operand, ofLoad?_byte]
    rfl
  case ldMemPointer addr p | ldPointerMem p addr => rcases p with _ | _ | _ <;> rfl
  case ldPair p nn | ldMemPair addr p | ldPairMem p addr =>
    rcases p with _ | _ | (_ | _ | _) | _ <;> rfl
  case push p | pop p => rcases p with _ | _ | (_ | _ | _) | _ <;> rfl
  case alu op src =>
    have h := ofSource?_operand op src
    rw [← spelled_operand] at h
    cases op <;> exact h
  case aluImm op n => cases op <;> rfl
  case inc x | dec x =>
    have h := fun onPair onByte => ofStep?_operand onPair onByte x
    rw [← spelled_operand] at h
    exact h _ _
  case incPair p | decPair p =>
    have h := fun onPair onByte => ofStep?_pair onPair onByte p
    rw [← spelled_pair] at h
    exact h _ _
  case addPair dst src =>
    have h := ofSum?_pair .add .addPair dst src
    rw [← spelled_pair] at h
    exact h
  case adcHl src | sbcHl src => rcases src with _ | _ | (_ | _ | _) | _ <;> rfl
  case shift s x =>
    have h : (operand? (Argument.operand x).spelled).map (Operation.shift s) =
        some (Operation.shift s x) := by
      rw [spelled_operand, operand?_operand, Option.map_some]
    cases s <;> exact h
  case bit n x | res n x | set n x =>
    have h := fun make => ofBit?_digit_operand make hdigits x
    rw [← spelled_operand] at h
    exact h _
  case jpIf cond target | callIf cond target => cases cond <;> rfl
  case retIf cond => cases cond <;> rfl
  case jr d => exact congrArg (fun d => some (jr d)) (displacement_relative (hnext rfl) d)
  case djnz d => exact congrArg (fun d => some (djnz d)) (displacement_relative (hnext rfl) d)
  case jrIf cond d =>
    rw [ofLine?_jrIf, displacement_relative (hnext rfl)]
    rfl
  case ldAVia v | ldViaA v => cases v <;> exact absurd (by decide) hfixed
  case ldSp p | exSp p | jpPointer p =>
    rcases p with _ | _ | _ <;> exact absurd (by decide) hfixed
  case acc op => cases op <;> exact absurd (by decide) hfixed
  case ldi dir | ldir dir | cpi dir | cpir dir => cases dir <;> exact absurd (by decide) hfixed
  all_goals exact absurd (by decide) hfixed

end Operation

namespace Instruction

theorem ofLine?_line {pc next : UInt16} {i : Instruction} (hdigits : i.HasDigits)
    (hnext : i.isRelative = true → next = pc + 2) :
    ofLine? pc (i.line next).spelled = some i.canonical := by
  by_cases hfixed : i ∈ fixed
  · have hcanonical : fixed.map canonical = fixed.map id := by rfl
    rw [ofLine?_fixed pc next hfixed, List.map_inj_left.mp hcanonical i hfixed]
    rfl
  · cases i with
    | operation o => exact ofLine?_of_operation (o.ofLine?_line hdigits hnext hfixed)
    | output o =>
      rcases o with _ | (_ | r) | dir | dir
      · rfl
      · exact absurd (by decide) hfixed
      · cases r <;> rfl
      · cases dir <;> exact absurd (by decide) hfixed
      · cases dir <;> exact absurd (by decide) hfixed
    | halt => exact absurd (by decide) hfixed

end Instruction

end Cpm
