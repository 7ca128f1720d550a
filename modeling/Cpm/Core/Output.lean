import Cpm.Core.Perform
import Cpm.HaltReason
import Cpm.Instruction.Decode
import Cpm.Ports

/-!
# Output and execution

The instructions that write to a port, and the execution of any decoded
instruction: the core and the outer state after it, its time, the reason to stop
where there is one, and the records made on the way.
-/

namespace Cpm

/-- The state after bytes were written to a port, and whether the processor goes on. -/
structure Written (σ : Type) where
  running : Bool
  core : Core
  host : σ
  log : List Log.Record

namespace Core

variable {σ : Type}

/-- Selects the mode that a value written to the mode port stands for. -/
def selectMode (c : Core) (at_ : UInt16) (value : UInt8) : Core × Log.Record :=
  match Mode.ofPortValue? value with
  | some mode =>
    ({ c with mode := mode },
      ⟨.debug, .io, "mode switch to " ++ mode.label ++ " at " ++ Hex.word at_⟩)
  | none =>
    (c, ⟨.warn, .io, "ignored mode port value " ++ Hex.byte value ++ " at " ++ Hex.word at_⟩)

/-- Writes one byte to a port; `at_` is the address of the instruction that does. -/
def writePort (c : Core) (ports : Ports σ) (host : σ) (at_ : UInt16) (port value : UInt8) :
    Written σ :=
  if port = Port.trap then
    let reply := ports.trap c host
    ⟨reply.action = .continue, reply.core, reply.host, reply.log⟩
  else if port = Port.mode then
    let (core, record) := c.selectMode at_ value
    ⟨true, core, host, [record]⟩
  else
    let (host, log) := ports.write port value host
    ⟨true, c, host, log⟩

/-- One round of block output: B is counted down and HL moved before the byte is
written to port C, and the flags are set from B after it. -/
def outputRound (c : Core) (ports : Ports σ) (host : σ) (at_ : UInt16) (dir : Direction) :
    Written σ :=
  let value := c.mem.get8 c.regs.main.hl
  let stepped := c.onRegs fun r =>
    { r with main := { r.main with b := r.main.b - 1 }.setHl (r.main.hl + dir.stride) }
  let w := stepped.writePort ports host at_ c.regs.main.c value
  let core := w.core.onRegs fun r =>
    r.setFlags (Flags.ofSignZero r.main.b |>.set .subtract true |>.set .carry r.main.f.carry)
  { w with core := core }

structure Burst (σ : Type) where
  count : Nat
  written : Written σ

/-- Block output until B is zero or the processor stops. A handler can change B
between rounds, so the number of rounds is bounded by `fuel`. -/
def outputRounds (ports : Ports σ) (at_ : UInt16) (dir : Direction) :
    Nat → Nat → Core → σ → List Log.Record → Option (Burst σ)
  | 0, _, _, _, _ => none
  | fuel + 1, count, c, host, log =>
    let w := c.outputRound ports host at_ dir
    let all := { w with log := log ++ w.log }
    if !w.running || w.core.regs.main.b = 0 then some ⟨count + 1, all⟩
    else outputRounds ports at_ dir fuel (count + 1) w.core w.host all.log

end Core

structure Outcome (σ : Type) where
  states : Nat
  halt : Option HaltReason
  core : Core
  host : σ
  log : List Log.Record

namespace Outcome

variable {σ : Type}

/-- The outcome of an instruction that wrote to a port and takes `states`. -/
def ofWritten (w : Written σ) (states : Nat) : Outcome σ :=
  if w.running then ⟨states, none, w.core, w.host, w.log⟩
  else ⟨0, some .trap, w.core, w.host, w.log⟩

end Outcome

namespace Core

variable {σ : Type}

/-- Executes an output instruction that lies at `at_`. -/
def output (c : Core) (ports : Ports σ) (fuel : Nat) (host : σ) (at_ : UInt16) :
    Output → Option (Outcome σ)
  | .outA port => some (.ofWritten (c.writePort ports host at_ port c.regs.main.a) 11)
  | .outC src =>
    let value := match src with
      | some r => c.regs.main.get r
      | none => 0
    some (.ofWritten (c.writePort ports host at_ c.regs.main.c value) 12)
  | .outi dir => some (.ofWritten (c.outputRound ports host at_ dir) 16)
  | .otir dir =>
    (outputRounds ports at_ dir fuel 0 c host []).map fun b =>
      .ofWritten b.written (repeatStates b.count)

/-- Executes what was decoded at `at_`, with the program counter already past it. -/
def execute (c : Core) (ports : Ports σ) (fuel : Nat) (host : σ) (at_ : UInt16) (d : Decoded) :
    Option (Outcome σ) :=
  match d.instruction with
  | some (.operation o) =>
    let t := c.perform o
    some ⟨t.states, none, t.core, host, []⟩
  | some (.output o) => c.output ports fuel host at_ o
  | some .halt => some ⟨0, some .halt, c, host, []⟩
  | none =>
    let x : InvalidOpcode := ⟨at_, d.table, d.opcode⟩
    some ⟨0, some (.invalidOpcode x), c, host, [⟨.warn, .control, x.message⟩]⟩

end Core

end Cpm
