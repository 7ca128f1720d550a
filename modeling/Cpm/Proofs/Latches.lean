import Cpm.Proofs.Decoding
import Cpm.Proofs.Step
import Cpm.Sequencer

/-!
# Latches tell nothing of earlier instructions

The sequencer works with whatever its latches were left at. Here it is shown that it never
reads one that the instruction at hand did not set. Along the prefixes of an instruction the
latches come to hold what the table reached calls for, and then the row that is found
through them is the row of the table: byte by byte, the sequencer executes the instruction
that the processor decodes. So it is the processor, and two sequencers that differ in their
latches alone stay together.
-/

namespace Cpm

/-- What two related options are mapped to is equal if it is for related values. -/
theorem elim_eq_of_rel {α β : Type} {R : α → α → Prop} {a b : Option α} (h : Option.Rel R a b)
    {f : α → β} (hf : ∀ x y, R x y → f x = f y) (d : β) : a.elim d f = b.elim d f := by
  cases h with
  | none => rfl
  | some h => exact hf _ _ h

namespace Table

def pointer : Table → Pointer
  | .dd | .ddcb => .index .ix
  | .fd | .fdcb => .index .iy
  | _ => .hl

def isDisplaced : Table → Bool
  | .ddcb | .fdcb => true
  | _ => false

end Table

theorem Decode.Entry.through_hl (e : Decode.Entry) : e.through .hl = e := by
  have hpair : ∀ q, Operation.pairThrough .hl q = q := by
    intro q
    rcases q with _ | _ | (_ | _) | _ <;> rfl
  obtain ⟨n, i⟩ := e
  cases i with
  | operation o =>
    cases o
    all_goals simp only [through, Instruction.through, Operation.through, hpair]
  | output o => rfl
  | halt => rfl

namespace Sequencer

variable {σ τ : Type}

/-- The latches hold what the table reached calls for. -/
structure Reaches (s : Sequencer) (t : Table) (d : UInt8) : Prop where
  table : s.signals.table = t
  pointer : s.signals.pointer = t.pointer
  displacement : t.isDisplaced = true → s.displacement = Word.signExtend d

/-- A row of a bit table of an index register. -/
theorem bitRow_eq {s : Sequencer} {i : Index} {d : UInt8} (hp : s.signals.pointer = .index i)
    (hd : s.displacement = Word.signExtend d) (op : UInt8) :
    (if Decode.lowField op = 0x06 then
      Decode.entry 0 (Decode.bitOperation op (s.bitOperand op)) else none) =
      Tables.indexedBits i d op := by
  by_cases h : Decode.lowField op = 0x06
  · have hno : Decode.reg8? (Decode.lowField op) = none := by rw [h]; rfl
    have hrow : ¬ op &&& 0x07 ≠ 0x06 := fun hne => hne h
    rw [if_pos h, Tables.indexedBits, if_neg hrow, bitOperand, hno]
    simp only [hp, hd, Word.low_signExtend, Decode.place]
  · rw [if_neg h, Tables.indexedBits]
    exact (if_pos h).symm

/-- Then they find the row of the table. -/
theorem Reaches.row_eq {s : Sequencer} {t : Table} {d : UInt8} (h : s.Reaches t d)
    (op x y : UInt8) : s.row op x y = Tables.lookup s.core.mode t d op x y := by
  obtain ⟨ht, hp, hd⟩ := h
  simp only [row, ht]
  cases t with
  | base =>
    cases hm : s.core.mode with
    | i8080 => simp only [Tables.lookup, Tables.i8080_eq_base, hp]; simp [Table.pointer]
    | z80 => simp only [Tables.lookup, Tables.z80_eq_base, hp]; simp [Table.pointer]
  | cb =>
    simp only [Tables.lookup, Tables.bits_eq, bitOperand, hp]
    rfl
  | dd =>
    rw [hp]
    exact (Tables.indexed_eq_base .ix op x y).symm
  | fd =>
    rw [hp]
    exact (Tables.indexed_eq_base .iy op x y).symm
  | ed =>
    rw [hp]
    show (Decode.extended op x y).map (Decode.Entry.through .hl) = Tables.extended op x y
    rw [Tables.extended_eq, funext Decode.Entry.through_hl]
    exact Option.map_id'
  | ddcb => exact bitRow_eq hp (hd rfl) op
  | fdcb => exact bitRow_eq hp (hd rfl) op

/-- Executing through such latches is executing what is found in the table. -/
theorem Reaches.execute_eq {s : Sequencer} {t : Table} {d : UInt8} (h : s.Reaches t d)
    (ports : Signals → Ports σ) (fuel : Nat) (host : σ) {op x y : UInt8} {start : UInt16}
    {lead : Nat} {found : Decoded} (hpc : s.core.regs.pc = start + UInt16.ofNat (lead + 1))
    (hx : s.core.mem.get8 s.core.regs.pc = x) (hy : s.core.mem.get8 (s.core.regs.pc + 1) = y)
    (hfound : found = Decode.found t op lead (Tables.lookup s.core.mode t d op x y)) :
    s.execute ports fuel host op = ((s.core.jump (start + UInt16.ofNat found.length)).execute
      (ports s.signals) fuel host s.signals.origin found).map s.retire := by
  simp only [execute, h.row_eq, h.table, hx, hy, hfound]
  have hlength : ∀ n, s.core.regs.pc + UInt16.ofNat n = start + UInt16.ofNat (lead + 1 + n) := by
    intro n
    rw [hpc, UInt16.ofNat_add (lead + 1), UInt16.add_assoc]
  cases Tables.lookup s.core.mode t d op x y with
  | none =>
    simp only [Decode.found, Nat.add_sub_cancel, hlength]
    rfl
  | some e =>
    have hoperands : 0 + 1 + e.operands - 1 = e.operands := by omega
    simp only [Decode.found, hoperands, hlength]
    rfl

variable (s : Sequencer) (ports : Signals → Ports σ) (fuel : Nat) (host : σ)

theorem dispatch_of_next?_eq_none {s : Sequencer} {op : UInt8}
    (h : Tables.next? s.core.mode s.signals.table op = none) :
    s.dispatch ports fuel host op = s.execute ports fuel host op := by
  rw [dispatch]
  split
  · rfl
  · next hsome => rw [h] at hsome; cases hsome

theorem dispatch_of_next?_eq_some {s : Sequencer} {op : UInt8} {t : Table}
    (h : Tables.next? s.core.mode s.signals.table op = some t) :
    s.dispatch ports fuel host op =
      (s.enter t).pass.dispatch ports fuel host (s.enter t).byte := by
  rw [dispatch]
  split
  · next hnone => rw [h] at hnone; cases hnone
  · next hsome => rw [h] at hsome; cases hsome; rfl

/-- The processor without the latches that only the sequencer has. -/
def cpu : Cpu := ⟨s.core, s.waiting, s.signals.table, s.signals.states, s.signals.halt⟩

/-- The sequencer in the midst of an instruction, `n` bytes of which it has taken. -/
def midway (n : UInt16) (t : Table) (d : UInt16) : Sequencer :=
  ⟨s.core.jump (s.core.regs.pc + n), s.waiting, ⟨t, 0, t.pointer, s.core.regs.pc, none⟩, d⟩

theorem midway_pass (n : UInt16) (t : Table) (d : UInt16) :
    (s.midway n t d).pass = s.midway (n + 1) t d := by
  simp only [midway, ← UInt16.add_assoc]
  rfl

/-- A first prefix byte leads to a table whose opcodes follow at once. -/
theorem midway_enter {mode : Mode} {op : UInt8} {t : Table}
    (h : Tables.next? mode .base op = some t) (n d : UInt16) :
    t ≠ .base ∧ t.isDisplaced = false ∧ (s.midway n .base d).enter t = s.midway n t d := by
  obtain ⟨-, rfl | rfl | rfl | rfl⟩ | ⟨hbase, -⟩ | ⟨hbase, -⟩ := Tables.next?_eq_some h
  case inr.inl | inr.inr => cases hbase
  all_goals exact ⟨by decide, rfl, rfl⟩

/-- A second one leads to a bit table of the same index register, behind a displacement. -/
theorem midway_enter_bits {mode : Mode} {op : UInt8} {t u : Table} (ht : t ≠ .base)
    (h : Tables.next? mode t op = some u) (n d : UInt16) :
    u.isDisplaced = true ∧ (∀ next, Tables.next? mode u next = none) ∧
      (s.midway n t d).enter u =
        s.midway (n + 1) u (Word.signExtend (s.core.mem.get8 (s.core.regs.pc + n))) := by
  obtain ⟨hbase, -⟩ | ⟨rfl, rfl⟩ | ⟨rfl, rfl⟩ := Tables.next?_eq_some h
  · exact absurd hbase ht
  · exact ⟨rfl, fun _ => rfl, s.midway_pass n .ddcb _⟩
  · exact ⟨rfl, fun _ => rfl, s.midway_pass n .fdcb _⟩

def latched (t : Table) : UInt16 :=
  if t.isDisplaced then Word.signExtend (s.core.mem.get8 (s.core.regs.pc + 2))
  else s.displacement

/-- The sequencer as the next instruction executes, with all its bytes taken. -/
def reached : Sequencer :=
  let found := s.cpu.decoded
  s.midway (UInt16.ofNat found.length) found.table (s.latched found.table)

theorem table_found (t : Table) (op : UInt8) (lead : Nat) (e : Option Decode.Entry) :
    (Decode.found t op lead e).table = t := by
  cases e <;> rfl

/-- Once it stands behind the opcode, the sequencer executes what the processor decodes. -/
theorem midway_execute {s : Sequencer} {t : Table} {d op x y : UInt8} {lead : Nat}
    (hdecoded : s.cpu.decoded = Decode.found t op lead (Tables.lookup s.core.mode t d op x y))
    (hd : t.isDisplaced = true → s.core.mem.get8 (s.core.regs.pc + 2) = d)
    (hx : s.core.mem.get8 (s.core.regs.pc + UInt16.ofNat (lead + 1)) = x)
    (hy : s.core.mem.get8 (s.core.regs.pc + UInt16.ofNat (lead + 1) + 1) = y) :
    (s.midway (UInt16.ofNat (lead + 1)) t (s.latched t)).execute ports fuel host op =
      (s.reached.core.execute (ports s.reached.signals) fuel host s.core.regs.pc
        s.cpu.decoded).map s.reached.retire := by
  have htable : s.cpu.decoded.table = t := by rw [hdecoded, table_found]
  subst htable
  have hreaches : (s.midway (UInt16.ofNat (lead + 1)) s.cpu.decoded.table
      (s.latched s.cpu.decoded.table)).Reaches s.cpu.decoded.table d :=
    ⟨rfl, rfl, fun ht => (if_pos ht).trans (congrArg Word.signExtend (hd ht))⟩
  exact hreaches.execute_eq ports fuel host rfl hx hy hdecoded

/-- Byte by byte, the sequencer executes the instruction that the processor decodes. -/
theorem step_eq :
    s.step ports fuel host = (s.reached.core.execute (ports s.reached.signals) fuel host
      s.core.regs.pc s.cpu.decoded).map s.reached.retire := by
  let pc := s.core.regs.pc
  have h2 : pc + 1 + 1 = pc + 2 := by grind
  have h3 : pc + 2 + 1 = pc + 3 := by grind
  have hdecoded : s.cpu.decoded = Cpm.dispatch s.core.mode (.ofMemory s.core.mem pc) := rfl
  have hstart : s.step ports fuel host =
      (s.midway 1 .base s.displacement).dispatch ports fuel host (s.core.mem.get8 pc) := rfl
  rw [hstart]
  cases hfirst : Tables.next? s.core.mode .base (s.core.mem.get8 pc) with
  | none =>
    simp only [Cpm.dispatch, Window.ofMemory, hfirst] at hdecoded
    rw [dispatch_of_next?_eq_none _ _ _ hfirst]
    exact midway_execute ports fuel host hdecoded Bool.noConfusion rfl (congrArg _ h2)
  | some t =>
    simp only [Cpm.dispatch, Window.ofMemory, hfirst, Tables.behind] at hdecoded
    obtain ⟨hbase, ht, henter⟩ := s.midway_enter hfirst 1 s.displacement
    rw [dispatch_of_next?_eq_some _ _ _ hfirst, henter, midway_pass]
    cases hnext : Tables.next? s.core.mode t (s.core.mem.get8 (pc + 1)) with
    | none =>
      simp only [hnext] at hdecoded
      have hd : s.displacement = s.latched t := by rw [latched, ht]; rfl
      rw [dispatch_of_next?_eq_none _ _ _ hnext, hd]
      exact midway_execute ports fuel host hdecoded (by rw [ht]; exact Bool.noConfusion) rfl
        (congrArg _ h3)
    | some u =>
      simp only [hnext] at hdecoded
      obtain ⟨hu, hlast, henter⟩ := s.midway_enter_bits hbase hnext (1 + 1) s.displacement
      have hd : Word.signExtend (s.core.mem.get8 (pc + 2)) = s.latched u := by
        rw [latched, hu]
        rfl
      rw [dispatch_of_next?_eq_some _ _ _ hnext, henter, midway_pass,
        dispatch_of_next?_eq_none _ _ _ (hlast _)]
      have hrow : ∀ x y, Tables.lookup s.core.mode u (s.core.mem.get8 (pc + 2))
          (s.core.mem.get8 (pc + 3)) x y = Tables.lookup s.core.mode u (s.core.mem.get8 (pc + 2))
          (s.core.mem.get8 (pc + 3)) 0 0 := by
        intro x y
        cases u <;> first | rfl | cases hu
      rw [← hrow (s.core.mem.get8 (pc + 4)) (s.core.mem.get8 (pc + 4 + 1))] at hdecoded
      have h := midway_execute ports fuel host hdecoded (fun _ => rfl) rfl rfl
      rw [← hd] at h
      exact h

/-! ### The sequencer is the processor -/

def Step.cpu (r : Step σ) : Cpm.Step σ := ⟨r.sequencer.cpu, r.host, r.log⟩

/-- A step of the sequencer is a step of the processor. -/
theorem step_cpu (ports : Ports σ) :
    (s.step (fun _ => ports) fuel host).map Step.cpu = s.cpu.step ports fuel host := by
  rw [step_eq, Option.map_map]
  rfl

def Run.cpu (r : Run σ τ) : Cpm.Run σ τ :=
  ⟨r.instructions, r.states, r.sequencer.cpu, r.host, r.observed⟩

def RunResult.cpu (r : RunResult σ τ) : Cpm.RunResult σ τ :=
  ⟨r.summary, r.sequencer.cpu, r.host, r.observed, r.log⟩

theorem finish_cpu (ports : Ports σ) (observer : Observer τ) (limit : Nat)
    (log : Array Log.Record) (r : Run σ τ) :
    (r.finish (fun _ => ports) observer fuel limit log).map RunResult.cpu =
      r.cpu.finish ports observer fuel limit log := by
  induction limit generalizing log r with
  | zero => rfl
  | succ limit ih =>
    have hstep := r.sequencer.step_cpu fuel r.host ports
    have hfetch : r.sequencer.upcoming = r.cpu.cpu.upcoming := rfl
    have hcpu : r.cpu.cpu.step ports fuel r.cpu.host = r.sequencer.cpu.step ports fuel r.host := rfl
    simp only [Run.finish, Cpm.Run.finish, Cpm.Run.turn, hfetch, hcpu, ← hstep]
    cases r.sequencer.step (fun _ => ports) fuel r.host with
    | none => rfl
    | some t =>
      have hstates : t.cpu.cpu.states = t.sequencer.signals.states := rfl
      by_cases hlast : t.sequencer.signals.states = 0
      · simp only [Option.map_some, hstates, if_pos hlast]
        rfl
      · simp only [Option.map_some, hstates, if_neg hlast]
        exact ih _ _

/-- A run of the sequencer is a run of the processor. -/
theorem run_cpu (ports : Ports σ) (observer : Observer τ) (limit : Nat) (observed : τ) :
    (s.run (fun _ => ports) observer fuel limit host observed).map RunResult.cpu =
      s.cpu.run ports observer fuel limit host observed :=
  finish_cpu fuel ports observer limit #[] _

/-! ### Nothing leaks -/

def portCalls : List PortCall :=
  (s.step (fun signals => (ports signals).recorded) fuel (host, [])).elim [] (·.host.2)

/-- Two steps agree in everything. Only a displacement that the instruction did not set may
differ. -/
structure Step.Agree (a b : Step σ) : Prop where
  core : a.sequencer.core = b.sequencer.core
  waiting : a.sequencer.waiting = b.sequencer.waiting
  signals : a.sequencer.signals = b.sequencer.signals
  displacement : a.sequencer.signals.table.isDisplaced = true →
    a.sequencer.displacement = b.sequencer.displacement
  host : a.host = b.host
  log : a.log = b.log

/-- Whatever the latches hold, the same instruction executes in the same core. -/
theorem step_agree (signals : Signals) (d : UInt16) :
    Option.Rel Step.Agree (s.step ports fuel host)
      (step { s with signals := signals, displacement := d } ports fuel host) := by
  let t : Sequencer := { s with signals := signals, displacement := d }
  have hstep : t.step ports fuel host = (s.reached.core.execute (ports s.reached.signals) fuel host
      s.core.regs.pc s.cpu.decoded).map t.reached.retire := t.step_eq ports fuel host
  rw [step_eq, hstep]
  cases s.reached.core.execute (ports s.reached.signals) fuel host s.core.regs.pc
    s.cpu.decoded with
  | none => exact .none
  | some o => exact .some ⟨rfl, rfl, rfl, fun hd => (if_pos hd).trans (if_pos hd).symm, rfl, rfl⟩

/-- Sequencers that differ in their latches alone make the same calls to the port handler in
a step and agree behind it. A run starts all of them from the same state, so that it is the
same whatever the registers were, too. -/
theorem latches_never_leak (ports : Signals → Ports σ) (fuel : Nat) (host : σ) (s t : Sequencer) :
    (s.core = t.core → s.waiting = t.waiting →
      s.portCalls ports fuel host = t.portCalls ports fuel host ∧
      Option.Rel Step.Agree (s.step ports fuel host) (t.step ports fuel host)) ∧
    (s.core.mem = t.core.mem → s.core.mode = t.core.mode →
      ∀ (observer : Observer τ) (limit : Nat) (observed : τ),
        s.run ports observer fuel limit host observed =
          t.run ports observer fuel limit host observed) := by
  refine ⟨fun hcore hwaiting => ?_, fun hmem hmode observer limit observed => ?_⟩
  · have ht : t = { s with signals := t.signals, displacement := t.displacement } := by
      rw [hcore, hwaiting]
    rw [ht]
    refine ⟨?_, step_agree s ports fuel host t.signals t.displacement⟩
    have hrecorded := step_agree s (fun signals => (ports signals).recorded) fuel (host, [])
      t.signals t.displacement
    exact elim_eq_of_rel hrecorded (fun _ _ h => congrArg Prod.snd h.host) []
  · have hreset : s.reset = t.reset := by
      simp only [reset, hmem, hmode]
    rw [run, run, hreset]

/-- A bit is set at a displacement from IX, whatever IY instruction came before. -/
theorem stale_iy_latches_do_not_leak :
    let mem := (((Memory.blank.put8 0 0xDD).put8 1 0xCB).put8 2 0x05).put8 3 0xC6
    let core : Core := ⟨{ Registers.zero with ix := 0x2000 }, mem, .z80⟩
    let s : Sequencer := ⟨core, 1, ⟨.fdcb, 23, .index .iy, 0x1234, some .trap⟩, 0xFF80⟩
    let t : Sequencer := ⟨core, 1, ⟨.base, 0, .hl, 0, none⟩, 0⟩
    s.core = t.core ∧ s.waiting = t.waiting ∧
    (∃ a b, s.step (fun _ => .unattached) 0 () = some a ∧
      t.step (fun _ => .unattached) 0 () = some b ∧ a.Agree b ∧
      a.sequencer.displacement = b.sequencer.displacement) ∧
    s.core.mem = t.core.mem ∧ s.core.mode = t.core.mode ∧
    s.run (fun _ => .unattached) .fetches 0 4 () #[] =
      t.run (fun _ => .unattached) .fetches 0 4 () #[] := by
  intro mem core s t
  obtain ⟨hstep, hrun⟩ := @latches_never_leak Unit (Array (UInt16 × UInt8))
    (fun _ => .unattached) 0 () s t
  refine ⟨rfl, rfl, ?_, rfl, rfl, hrun rfl rfl .fetches 4 #[]⟩
  have hdecoded : s.cpu.decoded =
      ⟨.ddcb, 0xC6, 4, some (.operation (.set 0 (.mem (.offset .ix 0x05))))⟩ := by
    simp only [Cpu.decoded, cpu, s, core, mem, Window.ofMemory, Memory.get8_put8]
    rfl
  have hcpu := s.step_cpu 0 () .unattached
  rw [Cpu.step_of_operation _ _ _ _ (congrArg Decoded.instruction hdecoded)] at hcpu
  obtain ⟨a, ha, hlast⟩ := Option.map_eq_some_iff.mp hcpu
  have htable : a.sequencer.signals.table = .ddcb := by
    have h : a.cpu.cpu.table = s.cpu.decoded.table := by rw [hlast]; rfl
    exact h.trans (congrArg Decoded.table hdecoded)
  have hrel := (hstep rfl rfl).2
  rw [ha] at hrel
  cases hb : t.step (fun _ => .unattached) 0 () with
  | none => rw [hb] at hrel; cases hrel
  | some b =>
    rw [hb] at hrel
    cases hrel with
    | some hagree =>
      exact ⟨a, b, ha, rfl, hagree, hagree.displacement (by rw [htable]; rfl)⟩

end Sequencer

end Cpm
