import Cpm.Machine
import Cpm.Proofs.Latches
import Cpm.Proofs.Loops
import Cpm.Proofs.Stopping
import Cpm.Proofs.SystemCalls

/-!
# Every instruction of the machine ends

A step of the machine takes a bounded number of rounds of every kind: prefix bytes, rounds
of the block instructions, characters of a system call. Only the repeating output is no
countdown by itself, as each of its writes can be a system call that returns results in the
registers. A function of the BIOS returns nothing in B and C; and a BDOS call from within the
loop finds the number of the trap port in C, which no BDOS function has, so it leaves zero
in B and the loop is over.
-/

namespace Cpm

/-! ### Prefix bytes -/

namespace Sequencer

variable {σ : Type}

/-- Prefix bytes taken in one after another, with their number, up to an opcode. -/
inductive Prefixed : Nat → Sequencer → UInt8 → Sequencer → UInt8 → Prop
  | opcode {s : Sequencer} {op : UInt8}
      (h : Tables.next? s.core.mode s.signals.table op = none) : Prefixed 0 s op s op
  | lead {n : Nat} {s last : Sequencer} {op op' : UInt8} {t : Table}
      (h : Tables.next? s.core.mode s.signals.table op = some t)
      (rest : Prefixed n (s.enter t).pass (s.enter t).byte last op') :
      Prefixed (n + 1) s op last op'

theorem exists_prefixed (s : Sequencer) (op : UInt8) :
    ∃ n last op', n ≤ s.signals.table.rank ∧ Prefixed n s op last op' := by
  induction hk : s.signals.table.rank using Nat.strongRecOn generalizing s op with
  | ind k ih =>
    subst hk
    cases hnext : Tables.next? s.core.mode s.signals.table op with
    | none => exact ⟨0, s, op, Nat.zero_le _, .opcode hnext⟩
    | some t =>
      have htable : (s.enter t).pass.signals.table = t := s.table_enter t
      have hrank := Table.rank_of_next? hnext
      rw [← htable] at hrank
      obtain ⟨n, last, op', hn, hrest⟩ := ih _ hrank (s.enter t).pass (s.enter t).byte rfl
      exact ⟨n + 1, last, op', by omega, .lead hnext hrest⟩

theorem Prefixed.dispatch {n : Nat} {s last : Sequencer} {op op' : UInt8}
    (h : Prefixed n s op last op') (ports : Signals → Ports σ) (fuel : Nat) (host : σ) :
    s.dispatch ports fuel host op = last.execute ports fuel host op' := by
  induction h with
  | opcode h => exact dispatch_of_next?_eq_none ports fuel host h
  | lead h _ ih => exact (dispatch_of_next?_eq_some ports fuel host h).trans ih

end Sequencer

/-! ### The repeating output against the system -/

namespace Bios

variable {κ : Type}

theorem start_regs (c : Core) (addr : UInt16) :
    (start c addr).regs = { c.regs with sp := Layout.bdosEntry - 2, pc := addr } := rfl

/-- Booting sets the stack pointer and the program counter alone. -/
theorem coldBoot_regs (b : Bios κ) (c : Core) :
    ∃ sp pc, (b.coldBoot c).core.regs = { c.regs with sp := sp, pc := pc } := by
  simp only [coldBoot]
  split
  · exact ⟨_, _, start_regs _ _⟩
  · split
    · exact ⟨_, _, start_regs _ _⟩
    · exact ⟨_, _, rfl⟩

variable [Console κ]

/-- No function returns results in B and C. -/
theorem serveFunction_bc (b : Bios κ) (c : Core) (f : BiosFunction)
    (hgo : (b.serveFunction f c).action = .continue) :
    (b.serveFunction f c).core.regs.main.b = c.regs.main.b ∧
      (b.serveFunction f c).core.regs.main.c = c.regs.main.c := by
  by_cases hf : f = .boot
  · subst hf
    obtain ⟨sp, pc, hregs⟩ := b.coldBoot_regs c
    have hboot : (b.serveFunction .boot c).core.regs = { c.regs with sp := sp, pc := pc } := hregs
    rw [hboot]
    exact ⟨rfl, rfl⟩
  · obtain ⟨⟨bank, hregs, hresults⟩, -⟩ := b.serveFunction_keeps c hf
    have hbank := hresults hgo
    rw [hregs]
    cases f
    case boot => exact absurd rfl hf
    case const | conin | reader | listst | read | write =>
      obtain ⟨a, rfl⟩ := hbank
      exact ⟨rfl, rfl⟩
    case seldsk | sectran =>
      obtain ⟨hl, rfl⟩ := hbank
      exact ⟨rfl, rfl⟩
    all_goals
      cases hbank
      exact ⟨rfl, rfl⟩

/-- A BDOS call with the number of the trap port in C is unsupported, and leaves zero in B. -/
theorem serveBdos_of_trapPort (b : Bios κ) {c : Core} (hc : c.regs.main.c = Port.trap) :
    (b.serveBdos c).core.regs.main.b = 0 := by
  have hreply : b.serveBdos c = .continuing (returning c 0x00FF) { b with console := b.console }
      [⟨.warn, .bios, "unsupported BDOS function " ++ toString c.regs.main.c.toNat⟩] := by
    simp only [serveBdos, hc]
    rfl
  rw [hreply]
  rfl

/-- A trap from within a repeating output stops the processor, or leaves B and C, or leaves
zero in B. -/
theorem trap_bc (b : Bios κ) {c : Core} (hc : c.regs.main.c = Port.trap) :
    (trap c b).action = .halt ∨ (trap c b).core.regs.main.b = c.regs.main.b ∨
      (trap c b).core.regs.main.b = 0 := by
  rw [trap_eq]
  cases Service.ofTrapPc? c.regs.pc with
  | none => exact .inl rfl
  | some s =>
    cases s with
    | bdos => exact .inr (.inr (b.serveBdos_of_trapPort hc))
    | function f =>
      cases haction : (b.serveFunction f c).action with
      | halt => exact .inl haction
      | «continue» => exact .inr (.inl (b.serveFunction_bc c f haction).1)

/-- Every round of a repeating output counts B down, or is the last, whatever the calls
made on the way return. -/
theorem ports_countsDown : (ports : Ports (Bios κ)).CountsDown := by
  intro at_ dir w
  let stepped := w.core.onRegs fun r =>
    { r with main := { r.main with b := r.main.b - 1 }.setHl (r.main.hl + dir.stride) }
  let value := w.core.mem.get8 w.core.regs.main.hl
  let left := stepped.writePort ports w.host at_ w.core.regs.main.c value
  have hb : (Written.next ports at_ dir w).core.regs.main.b = left.core.regs.main.b := rfl
  have hr : (Written.next ports at_ dir w).running = left.running := rfl
  by_cases hport : w.core.regs.main.c = Port.trap
  · have hleft : left = ⟨(trap stepped w.host).action = .continue, (trap stepped w.host).core,
        (trap stepped w.host).host, (trap stepped w.host).log⟩ := if_pos hport
    obtain hhalt | hkept | hzero := w.host.trap_bc (c := stepped) hport
    · refine .inl (.inl ?_)
      rw [hr, hleft, hhalt]
      rfl
    · refine .inr ?_
      rw [hb, hleft]
      exact hkept
    · refine .inl (.inr ?_)
      rw [hb, hleft]
      exact hzero
  · refine .inr ?_
    rw [hb]
    simp only [left, Core.writePort, if_neg hport]
    split
    · rw [Core.selectMode_core]
      rfl
    · rfl

end Bios

/-! ### Characters of a system call -/

namespace Bios

theorem length_dollarText_le (m : Memory) (addr : UInt16) (n : Nat) :
    (dollarText m addr n).1.length ≤ n := by
  induction n generalizing addr with
  | zero => exact Nat.le_refl 0
  | succ n ih =>
    simp only [dollarText]
    split
    · exact Nat.zero_le _
    · exact Nat.succ_le_succ (ih (addr + 1))

theorem output_writeAll (k : ScriptedConsole) (bytes : List UInt8) :
    (Console.writeAll k bytes).output = k.output ++ bytes.toArray := by
  induction bytes generalizing k with
  | nil => exact (Array.append_empty).symm
  | cons x rest ih =>
    have hrest : Console.writeAll k (x :: rest) = Console.writeAll (k.write x) rest := rfl
    rw [hrest, ih]
    simp [ScriptedConsole.write]

/-- The call that prints up to a dollar sign shows no more than the whole memory once. -/
theorem serveBdos_prints (b : Bios ScriptedConsole) {c : Core} (hc : c.regs.main.c = 9) :
    ∃ text : List UInt8, text.length ≤ 0x10000 ∧
      (b.serveBdos c).host.console.output = b.console.output ++ text.toArray := by
  refine ⟨(dollarText c.mem c.regs.main.de 0x10000).1, length_dollarText_le _ _ _, ?_⟩
  rw [← output_writeAll]
  simp only [serveBdos, hc]
  rfl

namespace Typing

/-- A line being read, and once that is over, whether input ended before it. -/
structure Reading where
  typing : Typing ScriptedConsole
  ended : Option Bool

def Reading.next (max : Nat) (s : Reading) : Reading :=
  match Console.read s.typing.console with
  | (none, console) => ⟨{ s.typing with console := console }, some true⟩
  | (some ch, console) =>
    let t := { s.typing with console := console }
    if ch = 0x0D ∨ ch = 0x0A then ⟨t, some false⟩ else ⟨t.key max ch, none⟩

def Reading.IsLast (s : Reading) : Prop := s.ended.isSome = true

/-- What a key does takes no input. -/
theorem input_key (t : Typing ScriptedConsole) (max : Nat) (ch : UInt8) :
    (t.key max ch).console.input = t.console.input := by
  unfold key
  split
  · unfold erase
    split <;> rfl
  · unfold take
    split <;> rfl

/-- Reading a line reads once for each byte up to its end, and at the end of the input
once more. -/
theorem readKeys_loop (max n : Nat) (t : Typing ScriptedConsole)
    (hn : t.console.input.length < n) :
    ∃ reads, reads ≤ t.console.input.length + 1 ∧
      Loop (Reading.next max) Reading.IsLast reads ⟨t, none⟩
        ⟨(readKeys max n t).1, some (readKeys max n t).2⟩ := by
  induction n generalizing t with
  | zero => exact absurd hn (Nat.not_lt_zero _)
  | succ n ih =>
    obtain ⟨⟨input, output⟩, typed⟩ := t
    cases input with
    | nil => exact ⟨1, Nat.le_refl 1, Loop.iff_first.mpr (.inl ⟨rfl, rfl, rfl⟩)⟩
    | cons ch rest =>
      let t : Typing ScriptedConsole := ⟨⟨rest, output⟩, typed⟩
      have hnext : Reading.next max ⟨⟨⟨ch :: rest, output⟩, typed⟩, none⟩ =
          if ch = 0x0D ∨ ch = 0x0A then ⟨t, some false⟩ else ⟨t.key max ch, none⟩ := rfl
      have hread : readKeys max (n + 1) ⟨⟨ch :: rest, output⟩, typed⟩ =
          if ch = 0x0D ∨ ch = 0x0A then (t, false) else readKeys max n (t.key max ch) := rfl
      by_cases hend : ch = 0x0D ∨ ch = 0x0A
      · rw [if_pos hend] at hnext hread
        rw [hread]
        refine ⟨1, Nat.le_add_left 1 _, Loop.iff_first.mpr (.inl ⟨?_, rfl, hnext.symm⟩)⟩
        rw [hnext]
        rfl
      · rw [if_neg hend] at hnext hread
        have hinput : (t.key max ch).console.input = rest := t.input_key max ch
        obtain ⟨reads, hle, hloop⟩ := ih (t.key max ch) (by rw [hinput]; simpa using hn)
        rw [hinput] at hle
        rw [hread]
        refine ⟨reads + 1, Nat.succ_le_succ hle, Loop.iff_first.mpr (.inr ⟨?_, reads, rfl, ?_⟩)⟩
        · rw [hnext]
          exact Bool.false_ne_true
        · rw [hnext]
          exact hloop

end Typing

end Bios

/-! ### The time of an instruction -/

namespace Pointer

theorem states_le (p : Pointer) (plain : Nat) : p.states plain ≤ plain + 4 := by
  cases p with
  | hl => exact Nat.le_add_right _ _
  | index i => exact Nat.le_refl _

end Pointer

theorem Pair.states_le (p : Pair) (plain : Nat) : p.states plain ≤ plain + 4 := by
  cases p with
  | pointer p => exact p.states_le plain
  | _ => exact Nat.le_add_right _ _

theorem StackPair.states_le (p : StackPair) (plain : Nat) : p.states plain ≤ plain + 4 := by
  cases p with
  | pointer p => exact p.states_le plain
  | _ => exact Nat.le_add_right _ _

theorem Place.states_le (p : Place) {atHl offset m : Nat} (hhl : atHl ≤ m) (ho : offset ≤ m) :
    p.states atHl offset ≤ m := by
  cases p <;> assumption

theorem Operand.states_le (x : Operand) {plain atHl offset m : Nat} (h : plain + 4 ≤ m)
    (hhl : atHl ≤ m) (ho : offset ≤ m) : x.states plain atHl offset ≤ m := by
  cases x with
  | reg r =>
    simp only [states, ByteReg.states]
    split <;> omega
  | mem p => exact p.states_le hhl ho

namespace Core

/-- The longest time of an instruction: that of a full pass over memory. -/
def longestStates : Nat := repeatStates 0x10000

theorem repeatStates_le {n : Nat} (h : n ≤ 0x10000) : repeatStates n ≤ longestStates := by
  unfold longestStates repeatStates
  omega

theorem branch_states_le (c : Core) (cond : Condition) {taken untaken : Timed} {m : Nat}
    (ht : taken.states ≤ m) (hu : untaken.states ≤ m) :
    (c.branch cond taken untaken).states ≤ m := by
  unfold branch
  split <;> assumption

/-- No operation takes longer. -/
theorem perform_states_le (c : Core) (o : Operation) : (c.perform o).states ≤ longestStates := by
  cases o
  case ld dst src => simp only [perform]; split <;> exact Nat.le_of_ble_eq_true rfl
  case ldFrom dst p => exact p.states_le (by decide) (by decide)
  case ldTo p src => exact p.states_le (by decide) (by decide)
  case ldImm x n | alu op x | inc x | dec x | shift s x | bit n x | res n x | set n x =>
    exact x.states_le (by decide) (by decide) (by decide)
  case ldPair p nn | incPair p | decPair p => exact Nat.le_trans (p.states_le _) (by decide)
  case push p | pop p => exact Nat.le_trans (p.states_le _) (by decide)
  case ldMemPointer addr p | ldPointerMem p addr | ldSp p | exSp p | addPair p src | jpPointer p =>
    exact Nat.le_trans (p.states_le _) (by decide)
  case jpIf cond target | jrIf cond d | callIf cond target | retIf cond =>
    exact c.branch_states_le cond (Nat.le_of_ble_eq_true rfl) (Nat.le_of_ble_eq_true rfl)
  case djnz d => simp only [perform]; split <;> exact Nat.le_of_ble_eq_true rfl
  case ldir dir => exact repeatStates_le (rounds_le _)
  case cpir dir =>
    exact repeatStates_le (Nat.le_trans (compares_loop dir c).1 (rounds_le _))
  all_goals exact Nat.le_of_ble_eq_true rfl

end Core

/-! ### One step -/

namespace Core

variable {σ : Type} {ports : Ports σ}

/-- Fuel for the rounds of a repeating output is enough for the instruction. -/
theorem output_of_loop {c : Core} {host : σ} {at_ : UInt16} {dir : Direction} {n fuel : Nat}
    {last : Written σ}
    (h : Loop (Written.next ports at_ dir) Written.IsLast n ⟨true, c, host, []⟩ last)
    (hn : n ≤ fuel) :
    c.output ports fuel host at_ (.otir dir) = some (.ofWritten last (repeatStates n)) := by
  have hb : outputRounds ports at_ dir fuel 0 c host [] = some ⟨n, last⟩ :=
    outputRounds_eq_some_iff.mpr ⟨n, hn, (Nat.zero_add n).symm, h⟩
  rw [output, hb]
  rfl

theorem states_ofWritten_le (w : Written σ) {n : Nat} (h : n ≤ longestStates) :
    (Outcome.ofWritten w n).states ≤ longestStates := by
  rw [Outcome.states_ofWritten]
  split
  · exact h
  · exact Nat.zero_le _

/-- An output instruction ends, if the rounds of a repeating one count B down. -/
theorem exists_output (h : ports.CountsDown) (c : Core) (host : σ) (at_ : UInt16) (o : Output) :
    ∃ r, (∀ fuel, 0x100 ≤ fuel → c.output ports fuel host at_ o = some r) ∧
      r.states ≤ longestStates := by
  cases o with
  | outA port => exact ⟨_, fun _ _ => rfl, states_ofWritten_le _ (Nat.le_of_ble_eq_true rfl)⟩
  | outC src => exact ⟨_, fun _ _ => rfl, states_ofWritten_le _ (Nat.le_of_ble_eq_true rfl)⟩
  | outi dir => exact ⟨_, fun _ _ => rfl, states_ofWritten_le _ (Nat.le_of_ble_eq_true rfl)⟩
  | otir dir =>
    obtain ⟨n, last, hn, hloop⟩ := h.loop at_ dir ⟨true, c, host, []⟩
    have hle : n ≤ 0x100 := Nat.le_trans hn (roundsOfByte_le _)
    exact ⟨_, fun _ hfuel => output_of_loop hloop (Nat.le_trans hle hfuel),
      states_ofWritten_le _ (repeatStates_le (Nat.le_trans hle (by decide)))⟩

end Core

/-- Every instruction ends, and what it does is the same for all fuel that is enough. -/
theorem Cpu.exists_step_of_countsDown {σ : Type} {ports : Ports σ} (h : ports.CountsDown)
    (cpu : Cpu) (host : σ) :
    ∃ s, (∀ fuel, 0x100 ≤ fuel → cpu.step ports fuel host = some s) ∧
      s.cpu.states ≤ Core.longestStates := by
  cases hi : cpu.decoded.instruction with
  | none => exact ⟨_, fun fuel _ => cpu.step_of_none ports fuel host hi, Nat.zero_le _⟩
  | some i =>
    cases i with
    | halt => exact ⟨_, fun fuel _ => cpu.step_of_halt ports fuel host hi, Nat.zero_le _⟩
    | operation o =>
      exact ⟨_, fun fuel _ => cpu.step_of_operation ports fuel host hi,
        (cpu.past cpu.decoded).perform_states_le o⟩
    | output o =>
      obtain ⟨r, hr, hstates⟩ :=
        (cpu.past cpu.decoded).exists_output h host cpu.core.regs.pc o
      refine ⟨cpu.retire cpu.decoded.table r, fun fuel hfuel => ?_, hstates⟩
      rw [cpu.step_of_output ports fuel host hi, hr fuel hfuel]
      rfl

namespace Machine

/-- Every instruction of the machine ends within bounds that hold for all its states. At most
two prefix bytes lead to the opcode. A transfer or comparison makes at most 65,536 rounds and a
repeating output at most 256, system calls in between included. Printing up to a dollar sign
shows at most 65,536 characters, and reading a line reads at most once more than there are
bytes of input. No instruction takes longer than a pass over all of memory. -/
theorem every_instruction_ends (m : Machine ScriptedConsole) :
    let c := m.cpu.past m.cpu.decoded
    let pc := m.cpu.core.regs.pc
    (∃ next log, (∀ fuel, 0x100 ≤ fuel → m.step fuel = some (next, log)) ∧
      next.cpu.states ≤ 16 + 8 * 65536) ∧
    (∀ s : Sequencer, s.cpu = m.cpu →
      ∃ n last op, n ≤ 2 ∧ Sequencer.Prefixed n s.ready.pass s.byte last op ∧
        ∀ fuel, m.cpu.step Bios.ports fuel m.bios =
          (last.execute (fun _ => Bios.ports) fuel m.bios op).map Sequencer.Step.cpu) ∧
    (∀ dir, ∃ n last, n ≤ 65536 ∧
      Loop (Core.transfer dir) (fun c => c.regs.main.bc = 0) n c last ∧
        c.perform (.ldir dir) = ⟨repeatStates n, last.withTransferFlags⟩) ∧
    (∀ dir, ∃ n last, n ≤ 65536 ∧
      Loop (Core.Comparison.next dir) Core.Comparison.IsLast n ⟨c, false⟩ last ∧
        c.perform (.cpir dir) = ⟨repeatStates n, last.core⟩) ∧
    (∀ dir, ∃ n last, n ≤ 256 ∧
      Loop (Written.next Bios.ports pc dir) Written.IsLast n ⟨true, c, m.bios, []⟩ last ∧
        ∀ fuel, n ≤ fuel → c.output Bios.ports fuel m.bios pc (.otir dir) =
          some (.ofWritten last (repeatStates n))) ∧
    (∀ (b : Bios ScriptedConsole) (seen : Core), seen.regs.main.c = 9 →
      ∃ text : List UInt8, text.length ≤ 65536 ∧
        (b.serveBdos seen).host.console.output = b.console.output ++ text.toArray) ∧
    ∀ (k : ScriptedConsole) (max : Nat),
      let line := Bios.Typing.readKeys max (Console.remaining k + 1) ⟨k, []⟩
      ∃ reads, reads ≤ k.input.length + 1 ∧
        Loop (Bios.Typing.Reading.next max) Bios.Typing.Reading.IsLast reads ⟨⟨k, []⟩, none⟩
          ⟨line.1, some line.2⟩ := by
  intro c pc
  refine ⟨?_, ?_, fun dir => ?_, fun dir => ?_, fun dir => ?_,
    fun b seen hc => b.serveBdos_prints hc,
    fun k max =>
      Bios.Typing.readKeys_loop max (Console.remaining k + 1) ⟨k, []⟩ (Nat.lt_succ_self _)⟩
  · obtain ⟨s, hs, hstates⟩ := m.cpu.exists_step_of_countsDown Bios.ports_countsDown m.bios
    refine ⟨⟨s.cpu, s.host⟩, s.log, fun fuel hfuel => ?_, hstates⟩
    rw [step, hs fuel hfuel]
    rfl
  · intro s hs
    obtain ⟨n, last, op, hn, hprefixed⟩ := s.ready.pass.exists_prefixed s.byte
    refine ⟨n, last, op, hn, hprefixed, fun fuel => ?_⟩
    rw [← hs, ← s.step_cpu fuel m.bios Bios.ports, Sequencer.step, hprefixed.dispatch]
  · exact ⟨_, _, Core.rounds_le _, Core.transfers_loop dir c, rfl⟩
  · obtain ⟨hle, found, hloop⟩ := Core.compares_loop dir c
    exact ⟨_, _, Nat.le_trans hle (Core.rounds_le _), hloop, rfl⟩
  · obtain ⟨n, last, hn, hloop⟩ := Bios.ports_countsDown.loop pc dir ⟨true, c, m.bios, []⟩
    exact ⟨n, last, Nat.le_trans hn (Core.roundsOfByte_le _), hloop,
      fun fuel hfuel => Core.output_of_loop hloop hfuel⟩

/-- A full pass of a repeating output that lies where the function selecting a drive is
trapped: HL changes between the rounds, and the instruction still ends. -/
theorem output_through_drive_selection_ends :
    let m : Machine ScriptedConsole := .initial (.ofInput []) .z80
    let mem := (Memory.blank.put8 0xFE1B 0xED).put8 0xFE1C 0xB3
    let regs : Registers := { Registers.zero with
      main := { Bank.zero with c := 0xFF }, pc := 0xFE1B }
    let m : Machine ScriptedConsole := ⟨{ m.cpu with core := ⟨regs, mem, .z80⟩ }, m.bios⟩
    let s : Sequencer := ⟨m.cpu.core, 0, ⟨.base, 0, .hl, 0, none⟩, 0⟩
    let seen : Core := { m.cpu.core with regs := { regs with main := { Bank.zero with c := 9 } } }
    m.cpu.decoded.instruction = some (.output (.otir .up)) ∧
      (Service.function .seldsk).entry = m.cpu.core.regs.pc ∧
      (∃ next log, m.step 0x100 = some (next, log) ∧ next.cpu.states ≤ 16 + 8 * 65536) ∧
      (∃ n last op, n ≤ 2 ∧ Sequencer.Prefixed n s.ready.pass s.byte last op) ∧
      ((m.cpu.past m.cpu.decoded).output Bios.ports 0x100 m.bios m.cpu.core.regs.pc
        (.otir .up)).isSome ∧
      ∃ text : List UInt8, text.length ≤ 65536 ∧
        (m.bios.serveBdos seen).host.console.output = m.bios.console.output ++ text.toArray := by
  intro m₀ mem regs m s seen
  have hd : m.cpu.decoded = ⟨.ed, 0xB3, 2, some (.output (.otir .up))⟩ := by
    simp only [Cpu.decoded, Window.ofMemory, m, mem, regs, Memory.get8_put8]
    rfl
  obtain ⟨⟨next, log, hstep, hstates⟩, hdecode, -, -, hotir, hprints, -⟩ :=
    every_instruction_ends m
  obtain ⟨k, opcode, op, hk, hprefixed, -⟩ := hdecode s rfl
  obtain ⟨n, last, hn, -, hends⟩ := hotir .up
  refine ⟨by rw [hd], by decide, ⟨next, log, hstep 0x100 (Nat.le_refl _), hstates⟩,
    ⟨k, opcode, op, hk, hprefixed⟩, ?_, hprints m.bios seen rfl⟩
  rw [hends 0x100 hn]
  rfl

end Machine

end Cpm
