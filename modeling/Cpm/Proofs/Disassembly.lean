import Cpm.Instruction.Text
import Cpm.Proofs.ControlFlow
import Cpm.Proofs.Decoding
import Cpm.Proofs.Stopping

/-!
# Assembly text and execution agree

The text of an instruction lists its bytes behind `DB` exactly when the processor
stops at an invalid opcode, and its length is the number of bytes the processor
passes over: the program counter is that far on after every instruction that hands
control nowhere, and a call pushes the address that far on. The text is made from
bit fields and the processor searches its tables.
-/

namespace Cpm

namespace AssemblyLine

/-- The mnemonic has two letters or more and does not begin with `DB`. -/
def Named (line : AssemblyLine) : Prop :=
  2 ≤ line.mnemonic.toList.length ∧ ¬ "DB".toList <+: line.mnemonic.toList

theorem mnemonic_isPrefix_text (line : AssemblyLine) :
    line.mnemonic.toList <+: line.text.toList := by
  unfold text
  split
  · exact List.prefix_rfl
  · simp only [String.toList_append, List.append_assoc]
    exact List.prefix_append _ _

/-- The text of a line shows whether its mnemonic begins with `DB`. -/
theorem not_db_isPrefix_text {line : AssemblyLine} (h : line.Named) :
    ¬ "DB".toList <+: line.text.toList :=
  fun hdb => h.2 (List.prefix_of_prefix_length_le hdb line.mnemonic_isPrefix_text h.1)

theorem db_isPrefix_text_data (bytes : List UInt8) :
    "DB".toList <+: (AssemblyLine.data bytes).text.toList :=
  mnemonic_isPrefix_text (AssemblyLine.data bytes)

end AssemblyLine

theorem Operation.line_named (next : UInt16) (o : Operation) : (o.line next).Named := by
  cases o
  case alu op src | aluImm op n =>
    cases op <;> simp [AssemblyLine.Named, Operation.line, AluOp.line]
  case acc op => cases op <;> simp [AssemblyLine.Named, Operation.line, AccOp.mnemonic]
  case shift s x => cases s <;> simp [AssemblyLine.Named, Operation.line, Shift.mnemonic]
  case inC dst => cases dst <;> simp [AssemblyLine.Named, Operation.line]
  case ldi dir | ldir dir | cpi dir | cpir dir =>
    cases dir <;> simp [AssemblyLine.Named, Operation.line, Direction.pick]
  all_goals simp [AssemblyLine.Named, Operation.line]

theorem Output.line_named (o : Output) : o.line.Named := by
  cases o
  case outC src => cases src <;> simp [AssemblyLine.Named, Output.line]
  case outi dir | otir dir => cases dir <;> simp [AssemblyLine.Named, Output.line, Direction.pick]
  all_goals simp [AssemblyLine.Named, Output.line]

theorem Instruction.line_named (next : UInt16) (i : Instruction) : (i.line next).Named := by
  cases i with
  | operation o => exact o.line_named next
  | output o => exact o.line_named
  | halt => simp [AssemblyLine.Named, Instruction.line]

/-- Bytes are listed behind `DB` exactly where there is no instruction. -/
theorem Decoded.db_isPrefix_text_line (d : Decoded) (pc : UInt16) (w : Window) :
    "DB".toList <+: (d.line pc w).text.toList ↔ d.instruction = none := by
  unfold Decoded.line
  cases d.instruction with
  | none => simp only [AssemblyLine.db_isPrefix_text_data]
  | some i => simp only [AssemblyLine.not_db_isPrefix_text (i.line_named _), reduceCtorEq]

namespace Cpu

variable {σ : Type} (cpu : Cpu) (ports : Ports σ) (fuel : Nat) (host : σ)

def listing : Disassembly := disassemble cpu.core.mem cpu.core.regs.pc cpu.core.mode

theorem listing_length : cpu.listing.length = cpu.decoded.length := by
  rw [decoded, dispatch_eq_decode]
  rfl

theorem db_isPrefix_listing :
    "DB".toList <+: cpu.listing.text.toList ↔ cpu.decoded.instruction = none := by
  rw [decoded, dispatch_eq_decode]
  exact Decoded.db_isPrefix_text_line _ _ _

variable {cpu ports fuel host} {s : Step σ}

/-- The program counter passes over the disassembled bytes unless control goes elsewhere. -/
theorem step_pc (h : cpu.step ports fuel host = some s)
    (ht : ∀ i, cpu.decoded.instruction = some i → i.taken cpu.core = false)
    (hk : ∀ call ∈ cpu.portCalls ports fuel host, call.keepsPc) :
    s.cpu.core.regs.pc = cpu.core.regs.pc + UInt16.ofNat cpu.decoded.length := by
  have hperform : ∀ o, cpu.decoded.instruction = some (.operation o) →
      ((cpu.past cpu.decoded).perform o).core.regs.pc = (cpu.past cpu.decoded).regs.pc := by
    intro o hi
    have htaken : o.taken (cpu.past cpu.decoded) = false := by
      rw [past, Core.taken_jump]
      exact ht _ hi
    exact Core.perform_pc _ htaken
  obtain ⟨r, hpc, rfl⟩ := step_keeps (P := (·.regs.pc = (cpu.past cpu.decoded).regs.pc))
    (fun _ _ _ hkeeps hseen => hkeeps.trans hseen) (fun _ _ hc => hc) (fun _ _ hc => hc)
    hperform hk rfl h
  exact hpc

theorem step_call (h : cpu.step ports fuel host = some s) {i : Instruction}
    (hi : cpu.decoded.instruction = some i) (hc : i.isCall = true) (ht : i.taken cpu.core = true) :
    s.cpu.core.regs.sp = cpu.core.regs.sp - 2 ∧
      s.cpu.core.top16 = cpu.core.regs.pc + UInt16.ofNat cpu.decoded.length := by
  cases i with
  | operation o =>
    rw [cpu.step_of_operation ports fuel host hi] at h
    cases h
    have ht' : o.taken (cpu.past cpu.decoded) = true := by
      rw [past, Core.taken_jump]
      exact ht
    obtain ⟨target, hcore⟩ := Core.perform_call _ hc ht'
    simp only [retire, hcore]
    exact ⟨rfl, Core.top16_push16 _ _⟩
  | output o => exact absurd hc Bool.noConfusion
  | halt => exact absurd hc Bool.noConfusion

/-- The disassembler and the processor agree on all bytes, wherever they lie: the text
lists bytes exactly where a step reports an invalid opcode, a step passes over the
bytes the text was made from unless control goes elsewhere, and a call pushes the
address behind them. Only a block output can fail to come to an end. -/
theorem step_follows_listing (cpu : Cpu) (ports : Ports σ) (fuel : Nat) (host : σ) :
    let next := cpu.core.regs.pc + UInt16.ofNat cpu.listing.length
    let found := cpu.decoded.instruction
    ("DB".toList <+: cpu.listing.text.toList ↔
      ∃ s x, cpu.step ports fuel host = some s ∧ s.cpu.halt = some (.invalidOpcode x)) ∧
    ((∀ dir, found ≠ some (.output (.otir dir))) → ∃ s, cpu.step ports fuel host = some s) ∧
    ∀ s, cpu.step ports fuel host = some s →
      ((∀ i, found = some i → i.taken cpu.core = false) →
        (∀ call ∈ cpu.portCalls ports fuel host, call.keepsPc) → s.cpu.core.regs.pc = next) ∧
      (∀ i, found = some i → i.isCall = true → i.taken cpu.core = true →
        s.cpu.core.regs.sp = cpu.core.regs.sp - 2 ∧ s.cpu.core.top16 = next) := by
  intro next found
  have hnext : next = cpu.core.regs.pc + UInt16.ofNat cpu.decoded.length := by
    rw [← listing_length]
  refine ⟨?_, cpu.exists_step ports fuel host, fun s hs => ⟨?_, ?_⟩⟩
  · rw [db_isPrefix_listing]
    constructor
    · intro hi
      have hs := cpu.step_of_none ports fuel host hi
      obtain ⟨x, hx⟩ := (step_invalid_iff hs).mpr hi
      exact ⟨_, x, hs, hx⟩
    · rintro ⟨s, x, hs, hx⟩
      exact (step_invalid_iff hs).mp ⟨x, hx⟩
  · intro ht hk
    rw [hnext]
    exact step_pc hs ht hk
  · intro i hi hc ht
    rw [hnext]
    exact step_call hs hi hc ht

/-- A call whose bytes run round the top of memory pushes the address behind them. -/
theorem straddling_call_follows_listing :
    let mem := ((Memory.blank.put8 0xFFFE 0xCD).put8 0xFFFF 0x34).put8 0 0x12
    let regs : Registers := { Registers.zero with sp := 0x8000, pc := 0xFFFE }
    let cpu : Cpu := ⟨⟨regs, mem, .i8080⟩, 0, .base, 0, none⟩
    cpu.listing.length = 3 ∧
    ∃ s, cpu.step .unattached 0 () = some s ∧
      s.cpu.core.regs.sp = 0x7FFE ∧ s.cpu.core.top16 = 0x0001 := by
  intro mem regs cpu
  have hd : cpu.decoded = ⟨.base, 0xCD, 3, some (.operation (.call 0x1234))⟩ := by
    simp only [decoded, Window.ofMemory, cpu, mem, regs, Memory.get8_put8]
    rfl
  have hlen : cpu.listing.length = 3 := by rw [listing_length, hd]
  have hi : cpu.decoded.instruction = some (.operation (.call 0x1234)) := by rw [hd]
  obtain ⟨-, hreturns, hcalls⟩ := step_follows_listing cpu .unattached 0 ()
  obtain ⟨s, hs⟩ := hreturns (by simp [hi])
  obtain ⟨hsp, htop⟩ := (hcalls s hs).2 _ hi rfl rfl
  have hbelow : cpu.core.regs.sp - 2 = 0x7FFE := by decide
  have hround : cpu.core.regs.pc + UInt16.ofNat 3 = 0x0001 := by decide
  rw [hlen, hround] at htop
  exact ⟨hlen, s, hs, hsp.trans hbelow, htop⟩

end Cpu

end Cpm
