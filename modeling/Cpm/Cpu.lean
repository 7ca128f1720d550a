import Cpm.Core.Output
import Cpm.Instruction.Tables
import Cpm.Observer

/-!
# The processor

A processor is a core with what the last instruction left behind: the table it
was decoded through, its time, the reason it stopped, if it did, and the clock
states not yet counted in the refresh register. One step decodes the instruction
at the program counter and executes it; a run resets the processor and steps
until an instruction takes no time.
-/

namespace Cpm

/-- Advances the refresh register: one count for every four states, in its low
seven bits. The states that are left over wait for the next instruction. -/
def Registers.refresh (r : Registers) (waiting : Fin 4) (states : Nat) : Registers :=
  let counts := (waiting.val + states) / 4
  { r with r := r.r &&& 0x80 ||| UInt8.ofNat ((r.r.toNat + counts) % 128) }

/-- The states left over after the refresh register was advanced. -/
def leftOver (waiting : Fin 4) (states : Nat) : Fin 4 :=
  ⟨(waiting.val + states) % 4, Nat.mod_lt _ (by decide)⟩

structure Cpu where
  core : Core
  /-- States not yet counted in the refresh register. -/
  waiting : Fin 4
  /-- The table the last instruction was decoded through. -/
  table : Table
  /-- The time of the last instruction; zero stops a run. -/
  states : Nat
  /-- Why the last instruction stopped the processor, if it did. -/
  halt : Option HaltReason
  deriving Inhabited

structure Step (σ : Type) where
  cpu : Cpu
  host : σ
  log : List Log.Record

/-- Why the processor stops after an instruction. One that takes no time and gives
no reason would count as a halt. -/
def Outcome.reason {σ : Type} (o : Outcome σ) : Option HaltReason :=
  if o.states = 0 && o.halt.isNone then some .halt else o.halt

structure RunSummary where
  /-- Instructions executed, with the one that stopped the run. -/
  instructions : Nat
  states : Nat
  reason : HaltReason
  deriving DecidableEq, Repr

namespace RunSummary

def record (s : RunSummary) : Log.Record :=
  ⟨.debug, .engine, "stopped after " ++ toString s.instructions ++ " instructions, " ++
    toString s.states ++ " T-states: " ++ s.reason.label⟩

end RunSummary

namespace Cpu

variable {σ : Type}

def initial (mode : Mode) : Cpu := ⟨.initial mode, ⟨0, by decide⟩, .base, 0, none⟩

/-- Zeroes everything but the memory and the mode. -/
def reset (cpu : Cpu) : Cpu := ⟨{ cpu.core with regs := .zero }, ⟨0, by decide⟩, .base, 0, none⟩

/-- Reads the word at the program counter and passes over it. -/
def nextWord (cpu : Cpu) : UInt16 × Cpu :=
  let pc := cpu.core.regs.pc
  (cpu.core.mem.get16 pc, { cpu with core := cpu.core.jump (pc + 2) })

/-- What the next step will fetch. -/
def upcoming (cpu : Cpu) : Fetch :=
  let core := cpu.core
  ⟨core.regs.pc, core.mem.get8 core.regs.pc, core⟩

def decoded (cpu : Cpu) : Decoded :=
  dispatch cpu.core.mode (.ofMemory cpu.core.mem cpu.core.regs.pc)

def past (cpu : Cpu) (d : Decoded) : Core :=
  cpu.core.jump (cpu.core.regs.pc + UInt16.ofNat d.length)

/-- The processor after an instruction that was found in the table `t`. -/
def retire (cpu : Cpu) (t : Table) (o : Outcome σ) : Step σ where
  cpu :=
    { core := o.core.onRegs (·.refresh cpu.waiting o.states)
      waiting := leftOver cpu.waiting o.states
      table := t
      states := o.states
      halt := o.reason }
  host := o.host
  log := o.log

/-- Executes one instruction. A repeating output instruction makes at most `fuel`
rounds; `none` means that it would make more. -/
def step (cpu : Cpu) (ports : Ports σ) (fuel : Nat) (host : σ) : Option (Step σ) :=
  let d := cpu.decoded
  ((cpu.past d).execute ports fuel host cpu.core.regs.pc d).map (cpu.retire d.table)

end Cpu

structure Run (σ τ : Type) where
  instructions : Nat
  states : Nat
  cpu : Cpu
  host : σ
  observed : τ

/-- A run after one more instruction, and the records made. There is a summary when
it was the last. -/
structure Turn (σ τ : Type) where
  run : Run σ τ
  log : List Log.Record
  summary : Option RunSummary

structure RunResult (σ τ : Type) where
  summary : RunSummary
  cpu : Cpu
  host : σ
  observed : τ
  log : Array Log.Record

namespace Run

variable {σ τ : Type}

/-- A run starts with a reset processor. -/
def start (cpu : Cpu) (host : σ) (observed : τ) : Run σ τ := ⟨0, 0, cpu.reset, host, observed⟩

/-- Executes the next instruction; one that takes no time is the last. -/
def turn (r : Run σ τ) (ports : Ports σ) (observer : Observer τ) (fuel : Nat) :
    Option (Turn σ τ) :=
  let (observed, seen) := observer.fetch r.cpu.upcoming r.observed
  (r.cpu.step ports fuel r.host).map fun s =>
    let run : Run σ τ := ⟨r.instructions + 1, r.states + s.cpu.states, s.cpu, s.host, observed⟩
    let log := seen ++ s.log
    if s.cpu.states = 0 then
      let summary : RunSummary := ⟨run.instructions, run.states, s.cpu.halt.getD .halt⟩
      ⟨run, log ++ [summary.record], some summary⟩
    else ⟨run, log, none⟩

/-- Goes on to the end, for at most `limit` instructions. -/
def finish (ports : Ports σ) (observer : Observer τ) (fuel : Nat) :
    (limit : Nat) → Array Log.Record → Run σ τ → Option (RunResult σ τ)
  | 0, _, _ => none
  | limit + 1, log, r =>
    match r.turn ports observer fuel with
    | none => none
    | some t =>
      let log := log ++ t.log
      match t.summary with
      | some summary => some ⟨summary, t.run.cpu, t.run.host, t.run.observed, log⟩
      | none => finish ports observer fuel limit log t.run

end Run

/-- Resets the processor and runs it until it stops. A run of more than `limit`
instructions, or a repeating output of more than `fuel` rounds, gives `none`. -/
def Cpu.run {σ τ : Type} (cpu : Cpu) (ports : Ports σ) (observer : Observer τ) (fuel limit : Nat)
    (host : σ) (observed : τ) : Option (RunResult σ τ) :=
  (Run.start cpu host observed).finish ports observer fuel limit #[]

end Cpm
