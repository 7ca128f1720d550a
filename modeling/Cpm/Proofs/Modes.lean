import Cpm.Proofs.Overflow
import Cpm.Proofs.Step

/-!
# The two modes on the shared instructions

On the opcodes that both modes have, a step in one mode does what it does in the
other, apart from the parity/overflow flag after additions, subtractions and
comparisons. The mode reaches an operation only through those three, and an output
only through the handler, which is taken not to look at it.
-/

namespace Cpm

open Decode (isZ80Only entry found aluOp)

set_option maxRecDepth 2000

/-- The opcodes of addition, subtraction and comparison of bytes. -/
def reportsOverflow (op : UInt8) : Bool :=
  0x80 ≤ op && op ≤ 0x9F || 0xB8 ≤ op && op ≤ 0xBF || op ∈ [0xC6, 0xCE, 0xD6, 0xDE, 0xFE]

/-- The operation of such an opcode; `x` is the byte behind it. -/
def overflowOperation (op x : UInt8) : Operation :=
  let alu := aluOp (op >>> 3 &&& 0x07)
  if 0xC0 ≤ op then .aluImm alu x else .alu alu (Tables.operand .hl (op &&& 0x07) 0)

def Operation.isModeFree : Operation → Bool
  | .alu op _ | .aluImm op _ => op.isLogical
  | _ => true

/-- The instruction works the same way in both modes. Of the outputs that is said of
the one that both modes have. -/
def Instruction.isModeFree : Instruction → Bool
  | .operation o => o.isModeFree
  | .output (.outA _) | .halt => true
  | .output _ => false

namespace Tables

theorem common_eq_overflowOperation {op : UInt8} (h : reportsOverflow op = true) (x y : UInt8) :
    common op x y = entry (if 0xC0 ≤ op then 1 else 0) (overflowOperation op x) := by
  have hrows : (allBytes.filter reportsOverflow).map common =
      (allBytes.filter reportsOverflow).map fun op x _ =>
        entry (if 0xC0 ≤ op then 1 else 0) (overflowOperation op x) := by
    rfl
  rw [eq_of_map_filter hrows h]

theorem common_isModeFree {op : UInt8} (h : reportsOverflow op = false) (x y : UInt8) :
    (common op x y).all (·.instruction.isModeFree) = true := by
  have hrows : allBytes.map (fun op x y => (common op x y).all (·.instruction.isModeFree)) =
      allBytes.map fun op _ _ => !reportsOverflow op := by
    rfl
  have hrow := rows_eq hrows op x y
  simp only [h] at hrow
  exact hrow

/-- An opcode of addition, subtraction or comparison selects none of the other operations. -/
theorem aluOp_of_reportsOverflow {op : UInt8} (h : reportsOverflow op = true) :
    (aluOp (op >>> 3 &&& 0x07)).isLogical = false := by
  have hall := forall_of_all_allBytes
    (p := fun op => !(reportsOverflow op && (aluOp (op >>> 3 &&& 0x07)).isLogical))
    (by decide +kernel) op
  simpa [h] using hall

theorem found_isModeFree {op x y : UInt8} (h : reportsOverflow op = false) {i : Instruction}
    (hi : (found .base op 0 (common op x y)).instruction = some i) : i.isModeFree = true := by
  have hrow := common_isModeFree h x y
  cases he : common op x y with
  | none =>
    rw [he] at hi
    cases hi
  | some e =>
    rw [he] at hi hrow
    cases hi
    exact hrow

end Tables

/-- On the opcodes that both modes have, both search the common rows. -/
theorem dispatch_of_shared {w : Window} (h : isZ80Only w.b0 = false) (mode : Mode) :
    dispatch mode w = found .base w.b0 0 (Tables.common w.b0 w.b1 w.b2) := by
  cases mode with
  | i8080 => simp only [dispatch, Tables.next?, Tables.lookup, Tables.i8080_eq_common]
  | z80 =>
    have hne : ∀ op, isZ80Only op = true → w.b0 ≠ op := by
      intro op hop heq
      rw [heq, hop] at h
      exact Bool.noConfusion h
    have hnext : Tables.next? .z80 .base w.b0 = none :=
      Tables.next?_base_eq_none (hne _ rfl) (hne _ rfl) (hne _ rfl) (hne _ rfl)
    simp only [dispatch, hnext, Tables.lookup, Tables.z80_eq_common h]

/-- The 8080 finds nothing at the other opcodes. -/
theorem dispatch_i8080_of_z80Only {w : Window} (h : isZ80Only w.b0 = true) :
    dispatch .i8080 w = ⟨.base, w.b0, 1, none⟩ := by
  simp only [dispatch, Tables.next?, Tables.lookup, Tables.i8080_eq_none h]
  rfl

namespace Core

def withMode (c : Core) (mode : Mode) : Core := { c with mode := mode }

variable (c : Core) (mode : Mode)

theorem setOperand_withMode (x : Operand) (v : UInt8) :
    (c.withMode mode).setOperand x v = (c.setOperand x v).withMode mode := by
  cases x <;> rfl

/-- The mode does not reach an operation that works the same way in both. -/
theorem perform_withMode {o : Operation} (h : o.isModeFree = true) :
    (c.withMode mode).perform o = ⟨(c.perform o).states, (c.perform o).core.withMode mode⟩ := by
  cases o
  case ldir dir =>
    have hb : (c.withMode mode).regs.main.bc = c.regs.main.bc := rfl
    simp only [perform, hb, transfers_comm c (f := (withMode · mode)) fun _ => rfl]
    rfl
  case cpir dir =>
    have hb : (c.withMode mode).regs.main.bc = c.regs.main.bc := rfl
    simp only [perform, hb,
      compares_comm c (f := (withMode · mode)) (fun _ => rfl) (fun _ => rfl) fun _ => rfl]
  case inc x | dec x | shift s x =>
    simp only [perform, setOperandResult, setOperand_withMode]
    rfl
  case ldImm x n => simp only [perform, setOperand_withMode]
  case res n x | set n x =>
    simp only [perform, setOperand_withMode]
    rfl
  case alu op src =>
    have hsame := c.regs.accumulate_of_isLogical op (c.operand src) h mode c.mode
    simp only [perform, onRegs, ← hsame]
    rfl
  case aluImm op n =>
    have hsame := c.regs.accumulate_of_isLogical op n h mode c.mode
    simp only [perform, onRegs, ← hsame]
    rfl
  case jpIf cond target | jrIf cond d | callIf cond target | retIf cond =>
    have hf : (c.withMode mode).regs.main.f = c.regs.main.f := rfl
    simp only [perform, branch, hf]
    split <;> rfl
  case djnz d =>
    have hb : (c.withMode mode).regs.main.b = c.regs.main.b := rfl
    simp only [perform, hb]
    split <;> rfl
  all_goals rfl

/-- The number that an addition, a subtraction or a comparison takes to the
accumulator: the byte behind the opcode, the byte at HL or a register. -/
def overflowOperand : UInt8 :=
  let op := c.mem.get8 c.regs.pc
  if 0xC0 ≤ op then c.mem.get8 (c.regs.pc + 1) else
  match Decode.reg8? (op &&& 0x07) with
  | some r => c.regs.main.get r
  | none => c.mem.get8 c.regs.main.hl

/-- The exact result, on signed numbers, of the operation at the program counter. -/
def signedResult? : Option Int :=
  (aluOp (c.mem.get8 c.regs.pc >>> 3 &&& 0x07)).signed? c.regs.main.a c.overflowOperand
    c.regs.main.f.carry

end Core

def PortCall.withMode (mode : Mode) : PortCall → PortCall
  | .trap seen action left => .trap (seen.withMode mode) action (left.withMode mode)
  | .write port value => .write port value

variable {σ : Type}

/-- The handler does the same in both modes. It may still set the mode. -/
structure Ports.ModeBlind (ports : Ports σ) : Prop where
  action : ∀ c mode h, (ports.trap (c.withMode mode) h).action = (ports.trap c h).action
  host : ∀ c mode h, (ports.trap (c.withMode mode) h).host = (ports.trap c h).host
  regs : ∀ c mode h, (ports.trap (c.withMode mode) h).core.regs = (ports.trap c h).core.regs
  mem : ∀ c mode h, (ports.trap (c.withMode mode) h).core.mem = (ports.trap c h).core.mem

/-- Two states after writes to a port agree apart from the mode and the records made. -/
structure Written.Agree (w v : Written σ) : Prop where
  running : w.running = v.running
  regs : w.core.regs = v.core.regs
  mem : w.core.mem = v.core.mem
  host : w.host = v.host

theorem Written.Agree.symm {w v : Written σ} (h : w.Agree v) : v.Agree w :=
  ⟨h.running.symm, h.regs.symm, h.mem.symm, h.host.symm⟩

theorem Written.Agree.trans {w v u : Written σ} (h : w.Agree v) (h' : v.Agree u) : w.Agree u :=
  ⟨h.running.trans h'.running, h.regs.trans h'.regs, h.mem.trans h'.mem, h.host.trans h'.host⟩

/-- Two steps agree apart from the mode and the records made, with the registers seen
through `view`. -/
structure Step.Agree (view : Registers → Registers) (s t : Step σ) : Prop where
  states : s.cpu.states = t.cpu.states
  halt : s.cpu.halt = t.cpu.halt
  table : s.cpu.table = t.cpu.table
  waiting : s.cpu.waiting = t.cpu.waiting
  regs : view s.cpu.core.regs = view t.cpu.core.regs
  mem : s.cpu.core.mem = t.cpu.core.mem
  host : s.host = t.host

theorem Step.Agree.through {s t : Step σ} (h : s.Agree id t) (view : Registers → Registers) :
    s.Agree view t :=
  ⟨h.states, h.halt, h.table, h.waiting, congrArg view h.regs, h.mem, h.host⟩

namespace Core

variable {ports : Ports σ} (c : Core) (host : σ) (at_ : UInt16) (port value : UInt8)

/-- A write to a port has the same effect in both modes. -/
theorem writePort_withMode (hb : ports.ModeBlind) (mode : Mode) :
    ((c.withMode mode).writePort ports host at_ port value).Agree
      (c.writePort ports host at_ port value) := by
  unfold writePort
  split
  · have haction := hb.action c mode host
    refine ⟨?_, hb.regs c mode host, hb.mem c mode host, hb.host c mode host⟩
    simp only [haction]
  · split
    · have hsel := selectMode_core (c.withMode mode) at_ value
      have hsel' := selectMode_core c at_ value
      refine ⟨rfl, ?_, ?_, rfl⟩
      · simp only [hsel, hsel']
        rfl
      · simp only [hsel, hsel']
        rfl
    · exact ⟨rfl, rfl, rfl, rfl⟩

/-- A write to a port makes the same call in both modes. -/
theorem writePort_calls_withMode (hb : ports.ModeBlind) (mode other : Mode) :
    ((c.withMode mode).writePort ports.recorded (host, []) at_ port value).host.2.map
        (PortCall.withMode other) =
      (c.writePort ports.recorded (host, []) at_ port value).host.2.map
        (PortCall.withMode other) := by
  unfold writePort
  split
  · have haction := hb.action c mode host
    have hleft : ((ports.trap (c.withMode mode) host).core.withMode other) =
        (ports.trap c host).core.withMode other := by
      simp only [withMode, ← hb.regs c mode host, ← hb.mem c mode host]
    simp only [Ports.recorded, List.nil_append, List.map_cons, List.map_nil, PortCall.withMode,
      haction, hleft]
    rfl
  · split <;> rfl

end Core

namespace Cpu

def withMode (cpu : Cpu) (mode : Mode) : Cpu := { cpu with core := cpu.core.withMode mode }

variable {cpu : Cpu} {d : Decoded} (ports : Ports σ) (fuel : Nat) (host : σ)

theorem agree_retire_ofWritten {w v : Written σ} (h : w.Agree v) (t : Table) (states : Nat)
    (mode other : Mode) :
    ((cpu.withMode mode).retire t (.ofWritten w states)).Agree id
      ((cpu.withMode other).retire t (.ofWritten v states)) := by
  have hregs : ∀ waiting n, w.core.regs.refresh waiting n = v.core.regs.refresh waiting n :=
    fun _ _ => by rw [h.regs]
  unfold Outcome.ofWritten
  rw [h.running]
  split <;> exact ⟨rfl, rfl, rfl, rfl, hregs _ _, h.mem, h.host⟩

/-- The output of the accumulator is the same write to a port in both modes. -/
theorem agree_of_outA {port : UInt8} (hb : ports.ModeBlind)
    (hd : ∀ mode, (cpu.withMode mode).decoded = d)
    (hi : d.instruction = some (.output (.outA port))) (mode other : Mode) :
    ∃ s t, (cpu.withMode mode).step ports fuel host = some s ∧
      (cpu.withMode other).step ports fuel host = some t ∧ s.Agree id t ∧
      ((cpu.withMode mode).portCalls ports fuel host).map (PortCall.withMode .z80) =
        ((cpu.withMode other).portCalls ports fuel host).map (PortCall.withMode .z80) := by
  have hinstr : ∀ m, (cpu.withMode m).decoded.instruction = some (.output (.outA port)) := by
    intro m
    rw [hd, hi]
  have hw := fun m => (cpu.past d).writePort_withMode host cpu.core.regs.pc port
    cpu.core.regs.main.a hb m
  have hcalls := fun m => (cpu.past d).writePort_calls_withMode host cpu.core.regs.pc port
    cpu.core.regs.main.a hb m .z80
  refine ⟨_, _, step_of_outA (hinstr mode) _ _ _, step_of_outA (hinstr other) _ _ _, ?_, ?_⟩
  · simp only [hd]
    exact agree_retire_ofWritten ((hw mode).trans (hw other).symm) _ _ _ _
  · rw [portCalls_of_outA (hinstr mode), portCalls_of_outA (hinstr other), hd, hd]
    exact (hcalls mode).trans (hcalls other).symm

/-- Where both modes find the same instruction, and it works the same way in both, the
steps agree. -/
theorem agree_of_isModeFree (hb : ports.ModeBlind) (hd : ∀ mode, (cpu.withMode mode).decoded = d)
    (hfree : ∀ i, d.instruction = some i → i.isModeFree = true) (mode other : Mode) :
    ∃ s t, (cpu.withMode mode).step ports fuel host = some s ∧
      (cpu.withMode other).step ports fuel host = some t ∧ s.Agree id t ∧
      ((cpu.withMode mode).portCalls ports fuel host).map (PortCall.withMode .z80) =
        ((cpu.withMode other).portCalls ports fuel host).map (PortCall.withMode .z80) := by
  have hinstr : ∀ m, (cpu.withMode m).decoded.instruction = d.instruction := fun m => by rw [hd]
  have hquiet : (∀ o, d.instruction ≠ some (.output o)) →
      ∀ m, (cpu.withMode m).portCalls ports fuel host = [] := by
    intro hno m
    exact portCalls_eq_nil fun o => by rw [hinstr]; exact hno o
  cases hi : d.instruction with
  | none =>
    have hs := fun m => (cpu.withMode m).step_of_none ports fuel host ((hinstr m).trans hi)
    have hcalls := hquiet (by simp [hi])
    refine ⟨_, _, hs mode, hs other, ?_, by rw [hcalls, hcalls]⟩
    simp only [invalid, hd]
    exact ⟨rfl, rfl, rfl, rfl, rfl, rfl, rfl⟩
  | some i =>
    cases i with
    | operation o =>
      have hs := fun m => (cpu.withMode m).step_of_operation ports fuel host ((hinstr m).trans hi)
      have hcalls := hquiet (by simp [hi])
      have hmode : ∀ m, ((cpu.withMode m).past d).perform o =
          ⟨((cpu.past d).perform o).states, ((cpu.past d).perform o).core.withMode m⟩ :=
        fun m => (cpu.past d).perform_withMode m (hfree _ hi)
      refine ⟨_, _, hs mode, hs other, ?_, by rw [hcalls, hcalls]⟩
      simp only [hd, hmode]
      exact ⟨rfl, rfl, rfl, rfl, rfl, rfl, rfl⟩
    | halt =>
      have hs := fun m => (cpu.withMode m).step_of_halt ports fuel host ((hinstr m).trans hi)
      have hcalls := hquiet (by simp [hi])
      refine ⟨_, _, hs mode, hs other, ?_, by rw [hcalls, hcalls]⟩
      simp only [hd]
      exact ⟨rfl, rfl, rfl, rfl, rfl, rfl, rfl⟩
    | output o =>
      cases o with
      | outA port => exact agree_of_outA ports fuel host hb hd hi mode other
      | outC src => exact absurd (hfree _ hi) Bool.noConfusion
      | outi dir => exact absurd (hfree _ hi) Bool.noConfusion
      | otir dir => exact absurd (hfree _ hi) Bool.noConfusion

/-- The addition, subtraction or comparison at the program counter, in either mode. -/
theorem step_of_reportsOverflow {op : UInt8} (hop : cpu.core.mem.get8 cpu.core.regs.pc = op)
    (hd : ∀ mode, (cpu.withMode mode).decoded = d)
    (hi : d.instruction =
      some (.operation (overflowOperation op (cpu.core.mem.get8 (cpu.core.regs.pc + 1))))) :
    ∃ states, ∀ mode, (cpu.withMode mode).step ports fuel host =
      some ((cpu.withMode mode).retire d.table ⟨states, none, ((cpu.past d).onRegs
        (·.accumulate (aluOp (op >>> 3 &&& 0x07)) cpu.core.overflowOperand mode)).withMode mode,
        host, []⟩) := by
  by_cases himm : 0xC0 ≤ op
  · refine ⟨7, fun mode => ?_⟩
    have hv : cpu.core.overflowOperand = cpu.core.mem.get8 (cpu.core.regs.pc + 1) := by
      simp only [Core.overflowOperand, hop, himm, if_true]
    simp only [overflowOperation, himm, if_true] at hi
    rw [(cpu.withMode mode).step_of_operation ports fuel host (by rw [hd]; exact hi)]
    simp only [hd, hv]
    rfl
  · refine ⟨(Tables.operand .hl (op &&& 0x07) 0).states 4 7 19, fun mode => ?_⟩
    have hv : cpu.core.overflowOperand =
        (cpu.past d).operand (Tables.operand .hl (op &&& 0x07) 0) := by
      simp only [Core.overflowOperand, hop, himm, if_false, Tables.operand_hl]
      cases Decode.reg8? (op &&& 0x07) <;> rfl
    simp only [overflowOperation, himm, if_false] at hi
    rw [(cpu.withMode mode).step_of_operation ports fuel host (by rw [hd]; exact hi)]
    simp only [hd, hv]
    rfl

/-- At such an opcode the steps agree but for parity/overflow. -/
theorem agree_of_reportsOverflow {op : UInt8} (hop : cpu.core.mem.get8 cpu.core.regs.pc = op)
    (hr : reportsOverflow op = true) (hd : ∀ mode, (cpu.withMode mode).decoded = d)
    (hi : d.instruction =
      some (.operation (overflowOperation op (cpu.core.mem.get8 (cpu.core.regs.pc + 1)))))
    (mode other : Mode) :
    ∃ s t x, (cpu.withMode mode).step ports fuel host = some s ∧
      (cpu.withMode other).step ports fuel host = some t ∧ s.Agree Registers.withoutParity t ∧
      cpu.core.signedResult? = some x ∧
      s.cpu.core.regs.main.f.parityOverflow = Alu.parityFlag mode x ∧
      t.cpu.core.regs.main.f.parityOverflow = Alu.parityFlag other x := by
  obtain ⟨states, hs⟩ := step_of_reportsOverflow ports fuel host hop hd hi
  obtain ⟨x, hx⟩ := AluOp.exists_signed? (Tables.aluOp_of_reportsOverflow hr)
    cpu.core.regs.main.a cpu.core.overflowOperand cpu.core.regs.main.f.carry
  have hresult : cpu.core.signedResult? = some x := by
    rw [Core.signedResult?, hop]
    exact hx
  have hflag := fun m =>
    Registers.accumulate_parityOverflow (cpu.past d).regs (aluOp (op >>> 3 &&& 0x07))
      cpu.core.overflowOperand m hx
  have hregs := Registers.accumulate_withoutParity (cpu.past d).regs (aluOp (op >>> 3 &&& 0x07))
    cpu.core.overflowOperand mode other
  have hrefreshed := congrArg (·.refresh cpu.waiting states) hregs
  exact ⟨_, _, x, hs mode, hs other, ⟨rfl, rfl, rfl, rfl, hrefreshed, rfl, rfl⟩, hresult,
    hflag mode, hflag other⟩

/-- On the opcodes that both modes have, the steps in the two modes agree but for
parity/overflow, which after an addition, a subtraction or a comparison reports signed
overflow in one mode and odd parity in the other. At the other opcodes the 8080 stops. -/
theorem step_agrees_in_both_modes (cpu : Cpu) (ports : Ports σ) (hb : ports.ModeBlind)
    (fuel : Nat) (host : σ) :
    let op := cpu.core.mem.get8 cpu.core.regs.pc
    let i8080 := cpu.withMode .i8080
    let z80 := cpu.withMode .z80
    (isZ80Only op = true → ∃ s, i8080.step ports fuel host = some s ∧
      s.cpu.halt = some (.invalidOpcode ⟨cpu.core.regs.pc, .base, op⟩)) ∧
    (isZ80Only op = false → ∃ s t,
      i8080.step ports fuel host = some s ∧ z80.step ports fuel host = some t ∧
      s.Agree Registers.withoutParity t ∧
      (i8080.portCalls ports fuel host).map (PortCall.withMode .z80) =
        (z80.portCalls ports fuel host).map (PortCall.withMode .z80) ∧
      (reportsOverflow op = false → s.Agree id t) ∧
      (reportsOverflow op = true → ∃ x, cpu.core.signedResult? = some x ∧
        s.cpu.core.regs.main.f.parityOverflow = oddParity (UInt8.ofInt x) ∧
        t.cpu.core.regs.main.f.parityOverflow = overflows x)) := by
  intro op i8080 z80
  have hw : ∀ m, (cpu.withMode m).decoded =
      dispatch m (.ofMemory cpu.core.mem cpu.core.regs.pc) := fun m => rfl
  refine ⟨fun honly => ?_, fun hshared => ?_⟩
  · have hd : i8080.decoded = ⟨.base, op, 1, none⟩ :=
      (hw .i8080).trans (dispatch_i8080_of_z80Only honly)
    have hs := i8080.step_of_none ports fuel host (by rw [hd])
    refine ⟨_, hs, ?_⟩
    simp only [invalid, hd]
    rfl
  · have hd := fun m => (hw m).trans (dispatch_of_shared hshared m)
    cases hr : reportsOverflow op with
    | false =>
      obtain ⟨s, t, hs, ht, hagree, hcalls⟩ := agree_of_isModeFree ports fuel host hb hd
        (fun _ => Tables.found_isModeFree hr) .i8080 .z80
      refine ⟨s, t, hs, ht, hagree.through _, hcalls, fun _ => hagree, ?_⟩
      exact fun h => absurd h Bool.noConfusion
    | true =>
      have hrow := Tables.common_eq_overflowOperation hr
        (cpu.core.mem.get8 (cpu.core.regs.pc + 1)) (cpu.core.mem.get8 (cpu.core.regs.pc + 2))
      have hi := congrArg (fun e => (found .base op 0 e).instruction) hrow
      have hcalls : ∀ m, (cpu.withMode m).portCalls ports fuel host = [] := by
        intro m
        refine portCalls_eq_nil fun o ho => ?_
        rw [hd m] at ho
        cases hi.symm.trans ho
      obtain ⟨s, t, x, hs, ht, hagree, hx, hodd, hoverflow⟩ :=
        agree_of_reportsOverflow ports fuel host rfl hr hd hi .i8080 .z80
      refine ⟨s, t, hs, ht, hagree, ?_, ?_, fun _ => ⟨x, hx, hodd, hoverflow⟩⟩
      · rw [hcalls, hcalls]
      · exact fun h => absurd h Bool.noConfusion

/-- One and one are two: one bit is set, which is odd, and nothing overflows. -/
theorem one_plus_one_in_both_modes :
    let regs : Registers := { Registers.zero with main := { Bank.zero with a := 1, b := 1 } }
    let cpu : Cpu := ⟨⟨regs, Memory.blank.put8 0 0x80, .z80⟩, 0, .base, 0, none⟩
    ∃ s t, (cpu.withMode .i8080).step .unattached 0 () = some s ∧
      (cpu.withMode .z80).step .unattached 0 () = some t ∧ s.Agree Registers.withoutParity t ∧
      s.cpu.core.regs.main.f.parityOverflow = true ∧
      t.cpu.core.regs.main.f.parityOverflow = false := by
  intro regs cpu
  have hblind : Ports.ModeBlind .unattached :=
    ⟨fun _ _ _ => rfl, fun _ _ _ => rfl, fun _ _ _ => rfl, fun _ _ _ => rfl⟩
  have hop : cpu.core.mem.get8 cpu.core.regs.pc = 0x80 := Memory.get8_put8_same _ _ _
  obtain ⟨-, hshared⟩ := step_agrees_in_both_modes cpu .unattached hblind 0 ()
  rw [hop] at hshared
  obtain ⟨s, t, hs, ht, hagree, -, -, hflags⟩ := hshared (by decide)
  obtain ⟨x, hx, hodd, hoverflow⟩ := hflags (by decide)
  have htwo : cpu.core.signedResult? = some 2 := by
    simp only [Core.signedResult?, Core.overflowOperand, hop]
    rfl
  rw [htwo] at hx
  cases hx
  exact ⟨s, t, hs, ht, hagree, hodd, hoverflow⟩

end Cpu

end Cpm
