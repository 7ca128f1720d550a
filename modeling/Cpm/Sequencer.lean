import Cpm.Cpu

/-!
# The processor, byte by byte

An instruction is taken in byte by byte. What its bytes have told so far stands in
latches: the table reached, the pair in the place of HL, a displacement that came before
the opcode. Prefix bytes set them, and the row of an opcode and its operands are found
through them. Nothing clears the latches when an instruction ends, so the next one finds
them as they were left.
-/

namespace Cpm

/-- The latches that a port handler can look at. -/
structure Signals where
  /-- The table reached. -/
  table : Table
  /-- The time of the last instruction, once it has ended. -/
  states : Nat
  /-- What stands in the place of HL. -/
  pointer : Pointer
  /-- The address of the first byte of the instruction. -/
  origin : UInt16
  /-- Why the last instruction stopped the processor, if it did. -/
  halt : Option HaltReason
  deriving DecidableEq, Repr

/-- A processor that works through an instruction byte by byte. -/
structure Sequencer where
  core : Core
  /-- States not yet counted in the refresh register. -/
  waiting : Fin 4
  signals : Signals
  /-- The latest displacement that came before an opcode, widened to an address offset. -/
  displacement : UInt16

/-- The tables that prefix bytes lead to: four from the base table, and the bit table of
an index register from its own. -/
theorem Tables.next?_eq_some {mode : Mode} {t u : Table} {op : UInt8}
    (h : next? mode t op = some u) :
    (t = .base ∧ (u = .cb ∨ u = .dd ∨ u = .ed ∨ u = .fd)) ∨
      (t = .dd ∧ u = .ddcb) ∨ (t = .fd ∧ u = .fdcb) := by
  unfold next? at h
  split at h
  · split at h <;> simp_all
  · simp_all
  · simp_all
  · cases h

namespace Table

/-- How many more prefix bytes can follow those that led to the table. -/
def rank : Table → Nat
  | .base => 2
  | .dd | .fd => 1
  | _ => 0

theorem rank_of_next? {mode : Mode} {t u : Table} {op : UInt8}
    (h : Tables.next? mode t op = some u) : u.rank < t.rank := by
  obtain ⟨rfl, rfl | rfl | rfl | rfl⟩ | ⟨rfl, rfl⟩ | ⟨rfl, rfl⟩ := Tables.next?_eq_some h <;> decide

end Table

namespace Operation

/-- HL replaced by what stands in its place, in a pair. -/
def pairThrough (p : Pointer) : Pair → Pair
  | .pointer .hl => .pointer p
  | q => q

/-- An operation of the extended table with its pair named through the latches. HL itself
stays where the operation works on it. -/
def through (p : Pointer) : Operation → Operation
  | .adcHl src => .adcHl (pairThrough p src)
  | .sbcHl src => .sbcHl (pairThrough p src)
  | .ldMemPair addr src => .ldMemPair addr (pairThrough p src)
  | .ldPairMem dst addr => .ldPairMem (pairThrough p dst) addr
  | o => o

end Operation

def Instruction.through (p : Pointer) : Instruction → Instruction
  | .operation o => .operation (o.through p)
  | i => i

def Decode.Entry.through (p : Pointer) (e : Decode.Entry) : Decode.Entry :=
  ⟨e.operands, e.instruction.through p⟩

namespace Sequencer

variable {σ τ : Type}

structure Step (σ : Type) where
  sequencer : Sequencer
  host : σ
  log : List Log.Record

def byte (s : Sequencer) : UInt8 := s.core.mem.get8 s.core.regs.pc

def pass (s : Sequencer) : Sequencer := { s with core := s.core.jump (s.core.regs.pc + 1) }

/-- Sets the latches for the next instruction, all but the displacement. -/
def ready (s : Sequencer) : Sequencer :=
  { s with signals := ⟨.base, 0, .hl, s.core.regs.pc, none⟩ }

def enter (s : Sequencer) (t : Table) : Sequencer :=
  match t with
  | .dd => { s with signals := { s.signals with table := .dd, pointer := .index .ix } }
  | .fd => { s with signals := { s.signals with table := .fd, pointer := .index .iy } }
  | .ddcb | .fdcb =>
    { s.pass with
      signals := { s.signals with table := t }
      displacement := Word.signExtend s.byte }
  | _ => { s with signals := { s.signals with table := t } }

@[simp] theorem table_enter (s : Sequencer) (t : Table) : (s.enter t).signals.table = t := by
  cases t <;> rfl

def bitOperand (s : Sequencer) (op : UInt8) : Operand :=
  match Decode.reg8? (Decode.lowField op) with
  | some r => .reg (.main r)
  | none => .mem (Decode.place s.signals.pointer (Word.low s.displacement))

/-- The row of an opcode in the table reached, with what it names found through the
latches. The bytes behind the opcode are `x` and `y`. -/
def row (s : Sequencer) (op x y : UInt8) : Option Decode.Entry :=
  let p := s.signals.pointer
  match s.signals.table with
  | .base =>
    if s.core.mode = .i8080 && Decode.isZ80Only op then none else Decode.base p op x y
  | .cb => Decode.entry 0 (Decode.bitOperation op (s.bitOperand op))
  | .dd | .fd => if Decode.isIndexed op then Decode.base p op x y else none
  | .ddcb | .fdcb =>
    if Decode.lowField op = 0x06 then
      Decode.entry 0 (Decode.bitOperation op (s.bitOperand op))
    else none
  | .ed => (Decode.extended op x y).map (·.through p)

def retire (s : Sequencer) (o : Outcome σ) : Step σ where
  sequencer :=
    { core := o.core.onRegs (·.refresh s.waiting o.states)
      waiting := leftOver s.waiting o.states
      signals := { s.signals with states := o.states, halt := o.reason }
      displacement := s.displacement }
  host := o.host
  log := o.log

def execute (s : Sequencer) (ports : Signals → Ports σ) (fuel : Nat) (host : σ) (op : UInt8) :
    Option (Step σ) :=
  let pc := s.core.regs.pc
  let e := s.row op (s.core.mem.get8 pc) (s.core.mem.get8 (pc + 1))
  let d := Decode.found s.signals.table op 0 e
  ((s.core.jump (pc + UInt16.ofNat (d.length - 1))).execute (ports s.signals) fuel host
    s.signals.origin d).map s.retire

/-- Goes from table to table up to an opcode, and executes it. -/
def dispatch (s : Sequencer) (ports : Signals → Ports σ) (fuel : Nat) (host : σ) (op : UInt8) :
    Option (Step σ) :=
  match _hnext : Tables.next? s.core.mode s.signals.table op with
  | none => s.execute ports fuel host op
  | some t =>
    let entered := s.enter t
    entered.pass.dispatch ports fuel host entered.byte
termination_by s.signals.table.rank
decreasing_by
  show (s.enter t).signals.table.rank < _
  rw [table_enter]
  exact Table.rank_of_next? _hnext

/-- Executes one instruction, within the same bound as `Cpu.step`. A handler may look at
the signals. -/
def step (s : Sequencer) (ports : Signals → Ports σ) (fuel : Nat) (host : σ) : Option (Step σ) :=
  s.ready.pass.dispatch ports fuel host s.byte

def reset (s : Sequencer) : Sequencer :=
  let fresh : Cpu := .initial s.core.mode
  { core := { s.core with regs := fresh.core.regs }
    waiting := fresh.waiting
    signals := ⟨fresh.table, fresh.states, .hl, 0, fresh.halt⟩
    displacement := 0 }

def upcoming (s : Sequencer) : Fetch := ⟨s.core.regs.pc, s.byte, s.core⟩

structure Run (σ τ : Type) where
  instructions : Nat
  states : Nat
  sequencer : Sequencer
  host : σ
  observed : τ

structure RunResult (σ τ : Type) where
  summary : RunSummary
  sequencer : Sequencer
  host : σ
  observed : τ
  log : Array Log.Record

def Run.finish (ports : Signals → Ports σ) (observer : Observer τ) (fuel : Nat) :
    (limit : Nat) → Array Log.Record → Run σ τ → Option (RunResult σ τ)
  | 0, _, _ => none
  | limit + 1, log, r =>
    let (observed, seen) := observer.fetch r.sequencer.upcoming r.observed
    match r.sequencer.step ports fuel r.host with
    | none => none
    | some t =>
      let latest := t.sequencer.signals
      let next : Run σ τ :=
        ⟨r.instructions + 1, r.states + latest.states, t.sequencer, t.host, observed⟩
      let records := seen ++ t.log
      if latest.states = 0 then
        let summary : RunSummary := ⟨next.instructions, next.states, latest.halt.getD .halt⟩
        some ⟨summary, t.sequencer, t.host, observed, log ++ (records ++ [summary.record])⟩
      else finish ports observer fuel limit (log ++ records) next

/-- Resets the sequencer and runs it until it stops, within the same bounds as `Cpu.run`. -/
def run (s : Sequencer) (ports : Signals → Ports σ) (observer : Observer τ) (fuel limit : Nat)
    (host : σ) (observed : τ) : Option (RunResult σ τ) :=
  (Run.mk 0 0 s.reset host observed).finish ports observer fuel limit #[]

end Sequencer

end Cpm
