import Cpm.Checked.Rows

/-!
# One step with its checks

The sums from which the flags are taken, the rounds of the block instructions, the time of
an instruction and the refresh register are counted here in numbers of a fixed width. An
operation that needs no such number is performed as without checks.
-/

namespace Cpm.Checked

/-! ### Arithmetic -/

def add8 (a b : UInt8) (carry : Bool) (mode : Mode) : Checked ByteResult := do
  let sum ← plus16 (← plus16 a.toUInt16 b.toUInt16) carry.toUInt16
  let low ← plus8 (← plus8 (a &&& 0x0F) (b &&& 0x0F)) carry.toUInt8
  let value := sum.toUInt8
  let overflow := (a ^^^ value) &&& (b ^^^ value) &&& 0x80 != 0
  return ⟨value, Flags.ofSignZero value
    |>.set .halfCarry (low > 0x0F)
    |>.set .carry (sum > 0xFF)
    |>.set .parityOverflow (Alu.overflowFlag mode value overflow)⟩

def sub8 (a b : UInt8) (borrow : Bool) (mode : Mode) : Checked ByteResult := do
  let low ← plus8 (b &&& 0x0F) borrow.toUInt8
  let whole ← plus16 b.toUInt16 borrow.toUInt16
  let value := a - b - borrow.toUInt8
  let overflow := (a ^^^ b) &&& (a ^^^ value) &&& 0x80 != 0
  return ⟨value, Flags.ofSignZero value
    |>.set .subtract true
    |>.set .halfCarry (a &&& 0x0F < low)
    |>.set .carry (a.toUInt16 < whole)
    |>.set .parityOverflow (Alu.overflowFlag mode value overflow)⟩

def bitTest (bit v : UInt8) (old : Flags) : Checked Flags := do
  let on := v &&& (← bitMask (bit &&& 0x07)) != 0
  return Flags.none
    |>.set .zero (!on)
    |>.set .parityOverflow (!on)
    |>.set .sign (bit == 7 && on)
    |>.set .halfCarry true
    |>.set .carry old.carry

def add16 (a b : UInt16) (old : Flags) : Checked WordResult := do
  let sum ← plus32 a.toUInt32 b.toUInt32
  let low ← plus16 (a &&& 0x0FFF) (b &&& 0x0FFF)
  return ⟨sum.toUInt16, old.keep [.sign, .zero, .parityOverflow]
    |>.set .halfCarry (low > 0x0FFF)
    |>.set .carry (sum > 0xFFFF)⟩

def adc16 (a b : UInt16) (carry : Bool) : Checked WordResult := do
  let sum ← plus32 (← plus32 a.toUInt32 b.toUInt32) carry.toUInt32
  let low ← plus32 (← plus32 (a &&& 0x0FFF).toUInt32 (b &&& 0x0FFF).toUInt32) carry.toUInt32
  let value := sum.toUInt16
  return ⟨value, Flags.none
    |>.set .sign (value &&& 0x8000 != 0)
    |>.set .zero (value == 0)
    |>.set .halfCarry (low > 0x0FFF)
    |>.set .parityOverflow ((a ^^^ value) &&& (b ^^^ value) &&& 0x8000 != 0)
    |>.set .carry (sum > 0xFFFF)⟩

def sbc16 (a b : UInt16) (borrow : Bool) : Checked WordResult := do
  let low ← plus32 (b &&& 0x0FFF).toUInt32 borrow.toUInt32
  let whole ← plus32 b.toUInt32 borrow.toUInt32
  let value := a - b - borrow.toUInt16
  return ⟨value, Flags.none
    |>.set .sign (value &&& 0x8000 != 0)
    |>.set .zero (value == 0)
    |>.set .halfCarry ((a &&& 0x0FFF).toUInt32 < low)
    |>.set .parityOverflow ((a ^^^ b) &&& (a ^^^ value) &&& 0x8000 != 0)
    |>.set .subtract true
    |>.set .carry (a.toUInt32 < whole)⟩

/-- Combines the accumulator with a byte. The logical operations add nothing. -/
def accumulate (r : Registers) (op : AluOp) (v : UInt8) (mode : Mode) : Checked Registers := do
  let a := r.main.a
  let carry := r.main.f.carry
  match op with
  | .add => return r.setResult (← add8 a v false mode)
  | .adc => return r.setResult (← add8 a v carry mode)
  | .sub => return r.setResult (← sub8 a v false mode)
  | .sbc => return r.setResult (← sub8 a v carry mode)
  | .cp => return r.setFlags (← sub8 a v false mode).flags
  | .and | .xor | .or => return r.accumulate op v mode

/-! ### Operations -/

structure Timed where
  states : UInt32
  core : Core

def Timed.ofTimed (t : Cpm.Timed) : Timed := ⟨UInt32.ofNat t.states, t.core⟩

structure Rounds where
  count : UInt32
  core : Core

def transfers (dir : Direction) : Nat → Rounds → Checked Rounds
  | 0, s => .ok s
  | n + 1, s => do transfers dir n ⟨← plus32 s.count 1, s.core.transfer dir⟩

def compares (dir : Direction) : Nat → Rounds → Checked Rounds
  | 0, s => .ok s
  | n + 1, s => do
    let next : Rounds := ⟨← plus32 s.count 1, s.core.compare dir⟩
    if s.core.matchesHl || next.core.regs.main.bc = 0 then return next
    else compares dir n next

def perform (c : Core) : Operation → Checked Timed
  | .alu op src => do
    let r ← accumulate c.regs op (c.operand src) c.mode
    return ⟨UInt32.ofNat (src.states 4 7 19), { c with regs := r }⟩
  | .aluImm op n => do
    return ⟨7, { c with regs := ← accumulate c.regs op n c.mode }⟩
  | .neg => do
    return ⟨8, { c with regs := c.regs.setResult (← sub8 0 c.regs.main.a false .z80) }⟩
  | .addPair dst src => do
    let x ← add16 (c.regs.pointer dst) (c.regs.pair src) c.regs.main.f
    let regs := (c.regs.setPointer dst x.value).setFlags x.flags
    return ⟨UInt32.ofNat (dst.states 11), { c with regs := regs }⟩
  | .adcHl src => do
    let x ← adc16 c.regs.main.hl (c.regs.pair src) c.regs.main.f.carry
    return ⟨15, { c with regs := c.regs.setWordResult x }⟩
  | .sbcHl src => do
    let x ← sbc16 c.regs.main.hl (c.regs.pair src) c.regs.main.f.carry
    return ⟨15, { c with regs := c.regs.setWordResult x }⟩
  | .bit n x => do
    let f ← bitTest n (c.operand x) c.regs.main.f
    return ⟨UInt32.ofNat (x.states 8 12 20), { c with regs := c.regs.setFlags f }⟩
  | .ldir dir => do
    let s ← transfers dir (Core.rounds c.regs.main.bc) ⟨0, c⟩
    return ⟨← repeatCost s.count, s.core.withTransferFlags⟩
  | .cpir dir => do
    let s ← compares dir (Core.rounds c.regs.main.bc) ⟨0, c⟩
    return ⟨← repeatCost s.count, s.core⟩
  | o => .ok (.ofTimed (c.perform o))

/-! ### Output and execution -/

variable {σ : Type}

structure Outcome (σ : Type) where
  states : UInt32
  halt : Option HaltReason
  core : Core
  host : σ
  log : List Log.Record

namespace Outcome

def ofWritten (w : Written σ) (states : UInt32) : Outcome σ :=
  if w.running then ⟨states, none, w.core, w.host, w.log⟩
  else ⟨0, some .trap, w.core, w.host, w.log⟩

def ofOutcome (o : Cpm.Outcome σ) : Outcome σ :=
  ⟨UInt32.ofNat o.states, o.halt, o.core, o.host, o.log⟩

def reason (o : Outcome σ) : Option HaltReason :=
  if o.states = 0 && o.halt.isNone then some .halt else o.halt

end Outcome

structure Burst (σ : Type) where
  count : UInt32
  written : Written σ

/-- Block output until B is zero or the processor stops. A round that stops is not counted. -/
def outputRounds (ports : Ports σ) (at_ : UInt16) (dir : Direction) :
    Nat → UInt32 → Core → σ → List Log.Record → Checked (Option (Burst σ))
  | 0, _, _, _, _ => .ok none
  | fuel + 1, count, c, host, log => do
    let w := c.outputRound ports host at_ dir
    let all := { w with log := log ++ w.log }
    if !w.running then return some ⟨count, all⟩
    let count ← plus32 count 1
    if w.core.regs.main.b = 0 then return some ⟨count, all⟩
    outputRounds ports at_ dir fuel count w.core w.host all.log

/-- The outcome of a repeating output, if it came to an end. Its time is counted only if the
processor goes on. -/
def burstOutcome : Option (Burst σ) → Checked (Option (Outcome σ))
  | none => .ok none
  | some b =>
    if b.written.running then do return some (.ofWritten b.written (← repeatCost b.count))
    else .ok (some (.ofWritten b.written 0))

def output (c : Core) (ports : Ports σ) (fuel : Nat) (host : σ) (at_ : UInt16) :
    Output → Checked (Option (Outcome σ))
  | .otir dir => do burstOutcome (← outputRounds ports at_ dir fuel 0 c host [])
  | o => .ok ((c.output ports fuel host at_ o).map .ofOutcome)

def execute (c : Core) (ports : Ports σ) (fuel : Nat) (host : σ) (at_ : UInt16) (d : Decoded) :
    Checked (Option (Outcome σ)) :=
  match d.instruction with
  | some (.operation o) => do
    let t ← perform c o
    return some ⟨t.states, none, t.core, host, []⟩
  | some (.output o) => output c ports fuel host at_ o
  | some .halt | none => .ok ((c.execute ports fuel host at_ d).map .ofOutcome)

/-! ### The processor -/

structure Cpu where
  core : Core
  /-- States not yet counted in the refresh register. -/
  waiting : UInt32
  table : Table
  states : UInt32
  halt : Option HaltReason

structure Step (σ : Type) where
  cpu : Cpu
  host : σ
  log : List Log.Record

def refresh (r : Registers) (waiting states : UInt32) : Checked (Registers × UInt32) := do
  let sum ← plus32 waiting states
  let low := (← plus32 r.r.toUInt32 (sum / 4)) &&& 0x7F
  return ({ r with r := r.r &&& 0x80 ||| low.toUInt8 }, sum % 4)

namespace Cpu

def ofCpu (cpu : Cpm.Cpu) : Cpu :=
  ⟨cpu.core, UInt32.ofNat cpu.waiting.val, cpu.table, UInt32.ofNat cpu.states, cpu.halt⟩

/-- The processor after an instruction that was found in the table `t`, if it came to an end. -/
def retire (cpu : Cpu) (t : Table) : Option (Outcome σ) → Checked (Option (Step σ))
  | none => .ok none
  | some o => do
    let (regs, waiting) ← refresh o.core.regs cpu.waiting o.states
    return some ⟨⟨{ o.core with regs := regs }, waiting, t, o.states, o.reason⟩, o.host, o.log⟩

/-- Executes one instruction, or ends with the first fault that a check finds. -/
def step (cpu : Cpu) (ports : Ports σ) (fuel : Nat) (host : σ) : Checked (Option (Step σ)) := do
  let pc := cpu.core.regs.pc
  let d ← dispatch cpu.core.mode (.ofMemory cpu.core.mem pc)
  cpu.retire d.table
    (← execute (cpu.core.jump (pc + UInt16.ofNat d.length)) ports fuel host pc d)

end Cpu

def Step.ofStep (s : Cpm.Step σ) : Step σ := ⟨.ofCpu s.cpu, s.host, s.log⟩

end Cpm.Checked
