import Cpm.Cpu

/-!
# The processor with its checks

The processor reads fields of an opcode that may name nothing, and it adds numbers of a fixed
width. Here every such reading and every such sum is checked, and a check that fails ends the
step with a fault. A row that reads no field, and an operation that adds nothing, are those of
the processor without the checks.
-/

namespace Cpm

inductive Fault where
  /-- A field that names no byte register. -/
  | register (code : UInt8)
  /-- A field that names no register pair. -/
  | pair (code : UInt8)
  /-- A field that selects no operation. -/
  | selector (code : UInt8)
  /-- A number too large for its width. -/
  | overflow
  deriving DecidableEq, Repr

/-- A result, or the fault that came first. -/
abbrev Checked := Except Fault

namespace Checked

@[simp] theorem ok_bind {α β : Type} (a : α) (f : α → Checked β) : Except.ok a >>= f = f a := rfl

@[simp] theorem error_bind {α β : Type} (x : Fault) (f : α → Checked β) :
    Except.error x >>= f = .error x := rfl

@[simp] theorem pure_eq_ok {α : Type} (a : α) : (pure a : Checked α) = .ok a := rfl

/-- What comes to a result has come through its first part. -/
theorem exists_of_bind_eq_ok {α β : Type} {x : Checked α} {f : α → Checked β} {b : β}
    (h : x >>= f = .ok b) : ∃ a, x = .ok a ∧ f a = .ok b := by
  cases x with
  | error x => cases h
  | ok a => exact ⟨a, rfl, h⟩

open Decode (Entry entry outputEntry)

/-! ### Numbers -/

def plus8 (a b : UInt8) : Checked UInt8 :=
  if a.toNat + b.toNat < 0x100 then .ok (a + b) else .error .overflow

def plus16 (a b : UInt16) : Checked UInt16 :=
  if a.toNat + b.toNat < 0x10000 then .ok (a + b) else .error .overflow

def plus32 (a b : UInt32) : Checked UInt32 :=
  if a.toNat + b.toNat < 0x100000000 then .ok (a + b) else .error .overflow

def times32 (a b : UInt32) : Checked UInt32 :=
  if a.toNat * b.toNat < 0x100000000 then .ok (a * b) else .error .overflow

def bitMask (n : UInt8) : Checked UInt8 :=
  if n.toNat < 8 then .ok (Core.bitMask n) else .error .overflow

def repeatCost (count : UInt32) : Checked UInt32 := do plus32 16 (← times32 8 count)

/-! ### Fields -/

/-- The register with the given number. Six names none. -/
def reg8 (code : UInt8) : Checked Reg8 :=
  match Decode.reg8? code with
  | some r => .ok r
  | none => .error (.register code)

def byteReg (p : Pointer) (code : UInt8) : Checked ByteReg :=
  match p, code with
  | .index i, 4 => .ok (.high i)
  | .index i, 5 => .ok (.low i)
  | _, _ => do return .main (← reg8 code)

def pair (p : Pointer) (code : UInt8) : Checked Pair :=
  match code with
  | 0 => .ok .bc
  | 1 => .ok .de
  | 2 => .ok (.pointer p)
  | 3 => .ok .sp
  | _ => .error (.pair code)

def stackPair (p : Pointer) (code : UInt8) : Checked StackPair :=
  match code with
  | 0 => .ok .bc
  | 1 => .ok .de
  | 2 => .ok (.pointer p)
  | 3 => .ok .af
  | _ => .error (.pair code)

def aluOp (code : UInt8) : Checked AluOp :=
  match code &&& 0x07 with
  | 0 => .ok .add
  | 1 => .ok .adc
  | 2 => .ok .sub
  | 3 => .ok .sbc
  | 4 => .ok .and
  | 5 => .ok .xor
  | 6 => .ok .or
  | 7 => .ok .cp
  | _ => .error (.selector code)

def shift (code : UInt8) : Checked Shift :=
  match code &&& 0x07 with
  | 0 => .ok .rlc
  | 1 => .ok .rrc
  | 2 => .ok .rl
  | 3 => .ok .rr
  | 4 => .ok .sla
  | 5 => .ok .sra
  | 6 => .ok .sll
  | 7 => .ok .srl
  | _ => .error (.selector code)

def pairField (op : UInt8) : UInt8 := op >>> 4 &&& 0x03

/-- What a register field names: six stands for the byte of memory, and is never looked up. -/
def operand (p : Pointer) (code d : UInt8) : Checked Operand :=
  if code = 6 then .ok (.mem (Decode.place p d)) else do return .reg (← byteReg p code)

/-! ### Rows -/

/-- Opcodes `00rrr110`. -/
def loadImmediate (p : Pointer) (op x y : UInt8) : Checked (Option Entry) := do
  let code := Decode.middle op
  let n := Tables.displacement p code
  return entry (n + 1) (.ldImm (← operand p code x) (if n = 0 then x else y))

/-- Opcodes `01dddsss`. With a byte of memory on one side the other is looked up as a plain
register. -/
def load (p : Pointer) (op d : UInt8) : Checked (Option Entry) := do
  let dest := Decode.middle op
  let source := Decode.lowField op
  if source = 6 then
    return entry (Tables.displacement p source) (.ldFrom (← reg8 dest) (Decode.place p d))
  else if dest = 6 then
    return entry (Tables.displacement p dest) (.ldTo (Decode.place p d) (← reg8 source))
  else
    let s ← byteReg p source
    return entry 0 (.ld (← byteReg p dest) s)

/-- Opcodes `10ooorrr`. -/
def arithmetic (p : Pointer) (op d : UInt8) : Checked (Option Entry) := do
  let code := Decode.lowField op
  let x ← operand p code d
  return entry (Tables.displacement p code) (.alu (← aluOp (Decode.middle op)) x)

/-- Opcodes `00rrr10x`. -/
def stepByte (p : Pointer) (op d : UInt8) : Checked (Option Entry) := do
  let code := Decode.middle op
  let x ← operand p code d
  return entry (Tables.displacement p code) (if op &&& 0x01 = 0 then .inc x else .dec x)

/-- Opcodes `00rrx011`. -/
def stepPair (p : Pointer) (op : UInt8) : Checked (Option Entry) := do
  let q ← pair p (pairField op)
  return entry 0 (if op &&& 0x08 = 0 then .incPair q else .decPair q)

def loadPair (p : Pointer) (op x y : UInt8) : Checked (Option Entry) := do
  return entry 2 (.ldPair (← pair p (pairField op)) (Word.ofBytes y x))

def addPair (p : Pointer) (op : UInt8) : Checked (Option Entry) := do
  return entry 0 (.addPair p (← pair p (pairField op)))

def push (p : Pointer) (op : UInt8) : Checked (Option Entry) := do
  return entry 0 (.push (← stackPair p (pairField op)))

def pop (p : Pointer) (op : UInt8) : Checked (Option Entry) := do
  return entry 0 (.pop (← stackPair p (pairField op)))

def common (op x y : UInt8) : Checked (Option Entry) := do
  if op = 0x76 then return Tables.common op x y
  else if op &&& 0xCF = 0x01 then loadPair .hl op x y
  else if op &&& 0xC7 = 0x06 then loadImmediate .hl op x y
  else if op &&& 0xC0 = 0x40 then load .hl op x
  else if op &&& 0xCF = 0xC5 then push .hl op
  else if op &&& 0xCF = 0xC1 then pop .hl op
  else if op &&& 0xC0 = 0x80 then arithmetic .hl op x
  else if op &&& 0xC7 = 0xC6 then return entry 1 (.aluImm (← aluOp (Decode.middle op)) x)
  else if op &&& 0xC6 = 0x04 then stepByte .hl op x
  else if op &&& 0xCF = 0x09 then addPair .hl op
  else if op &&& 0xC7 = 0x03 then stepPair .hl op
  else return Tables.common op x y

def i8080 (op x y : UInt8) : Checked (Option Entry) :=
  if Decode.isZ80Only op then .ok none else common op x y

/-- The rows that only the Z80 has read no field. -/
def z80 (op x y : UInt8) : Checked (Option Entry) :=
  if Decode.isZ80Only op then .ok (Tables.z80 op x y) else common op x y

def indexed (i : Index) (op x y : UInt8) : Checked (Option Entry) := do
  let p := Pointer.index i
  if op &&& 0xCF = 0x09 then addPair p op
  else if op = 0x21 then loadPair p op x y
  else if op = 0x23 || op = 0x2B then stepPair p op
  else if op ∈ [0x24, 0x25, 0x2C, 0x2D, 0x34, 0x35] then stepByte p op x
  else if op = 0x26 || op = 0x2E || op = 0x36 then loadImmediate p op x y
  else if op = 0x76 then return none
  else if op &&& 0xC0 = 0x40 && (Tables.touchesIndex (op &&& 0x07) ||
      Tables.touchesIndex (op >>> 3 &&& 0x07)) then
    load p op x
  else if op &&& 0xC0 = 0x80 && Tables.touchesIndex (op &&& 0x07) then arithmetic p op x
  else if op = 0xE1 then pop p op
  else if op = 0xE5 then push p op
  else return Tables.indexed i op x y

/-- The operand of a bit row: the registers are the plain ones. -/
def bitOperand (p : Pointer) (code d : UInt8) : Checked Operand :=
  if code = 6 then .ok (.mem (Decode.place p d)) else do return .reg (.main (← reg8 code))

/-- The rows of the bit tables. The mask of a bit that is cleared or set is made where the
number of the bit is read. -/
def bitRow (p : Pointer) (d op : UInt8) : Checked (Option Entry) := do
  let n := Decode.middle op
  let x ← bitOperand p (Decode.lowField op) d
  match op >>> 6 with
  | 0 => return entry 0 (.shift (← shift n) x)
  | 1 => return entry 0 (.bit n x)
  | _ =>
    let _ ← bitMask n
    return entry 0 (Decode.bitOperation op x)

def bits (op : UInt8) : Checked (Option Entry) := bitRow .hl 0 op

def indexedBits (i : Index) (d op : UInt8) : Checked (Option Entry) :=
  if op &&& 0x07 ≠ 0x06 then .ok none else bitRow (.index i) d op

def extended (op x y : UInt8) : Checked (Option Entry) := do
  let nn := Word.ofBytes y x
  let code := Decode.middle op
  if op &&& 0xC7 = 0x41 then
    if code = 6 then return outputEntry 0 (.outC none)
    else return outputEntry 0 (.outC (some (← reg8 code)))
  else if op &&& 0xCF = 0x42 then return entry 0 (.sbcHl (← pair .hl (pairField op)))
  else if op &&& 0xCF = 0x43 then return entry 2 (.ldMemPair nn (← pair .hl (pairField op)))
  else if op &&& 0xCF = 0x4A then return entry 0 (.adcHl (← pair .hl (pairField op)))
  else if op &&& 0xCF = 0x4B then return entry 2 (.ldPairMem (← pair .hl (pairField op)) nn)
  else return Tables.extended op x y

def lookup (mode : Mode) (t : Table) (d op x y : UInt8) : Checked (Option Entry) :=
  match t with
  | .base =>
    match mode with
    | .i8080 => i8080 op x y
    | .z80 => z80 op x y
  | .cb => bits op
  | .dd => indexed .ix op x y
  | .ddcb => indexedBits .ix d op
  | .ed => extended op x y
  | .fd => indexed .iy op x y
  | .fdcb => indexedBits .iy d op

def dispatch (mode : Mode) (w : Window) : Checked Decoded := do
  match Tables.next? mode .base w.b0 with
  | none => return Decode.found .base w.b0 0 (← lookup mode .base 0 w.b0 w.b1 w.b2)
  | some t =>
    match Tables.next? mode t w.b1 with
    | none => return Decode.found t w.b1 1 (← lookup mode t 0 w.b1 w.b2 w.b3)
    | some u => return Decode.found u w.b3 3 (← lookup mode u w.b2 w.b3 0 0)

end Checked

end Cpm
