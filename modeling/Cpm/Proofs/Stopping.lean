import Cpm.Proofs.Rows
import Cpm.Proofs.Step

/-!
# Why a processor stops

A step takes no time exactly when it gives a reason to stop. Operations always take
time, so a halt is reported only for the halt instruction, an invalid opcode only
for a byte without an entry in its table, and a trap only when the handler asked
for it.
-/

namespace Cpm

namespace Pointer

theorem le_states (p : Pointer) (plain : Nat) : plain ≤ p.states plain := by
  cases p with
  | hl => exact Nat.le_refl _
  | index i => exact Nat.le_add_right _ _

end Pointer

theorem Pair.le_states (p : Pair) (plain : Nat) : plain ≤ p.states plain := by
  cases p with
  | pointer p => exact p.le_states plain
  | _ => exact Nat.le_refl _

theorem StackPair.le_states (p : StackPair) (plain : Nat) : plain ≤ p.states plain := by
  cases p with
  | pointer p => exact p.le_states plain
  | _ => exact Nat.le_refl _

theorem ByteReg.le_states (r : ByteReg) (plain : Nat) : plain ≤ r.states plain := by
  unfold states
  split <;> omega

theorem Operand.states_pos (x : Operand) {plain atHl offset : Nat} (h : 0 < plain)
    (hhl : 0 < atHl) (ho : 0 < offset) : 0 < x.states plain atHl offset := by
  cases x with
  | reg r => exact Nat.lt_of_lt_of_le h (r.le_states plain)
  | mem p => cases p <;> assumption

theorem Place.states_pos (p : Place) {atHl offset : Nat} (hhl : 0 < atHl) (ho : 0 < offset) :
    0 < p.states atHl offset := by
  cases p <;> assumption

namespace Core

theorem branch_states_pos (c : Core) (cond : Condition) {taken untaken : Timed}
    (ht : 0 < taken.states) (hu : 0 < untaken.states) :
    0 < (c.branch cond taken untaken).states := by
  unfold branch
  split <;> assumption

/-- Every operation takes time. -/
theorem perform_states_pos (c : Core) (o : Operation) : 0 < (c.perform o).states := by
  cases o
  case ld dst src => simp only [perform]; split <;> decide
  case ldFrom dst src => exact src.states_pos (by decide) (by decide)
  case ldTo dst src => exact dst.states_pos (by decide) (by decide)
  case ldImm x n | alu op x | inc x | dec x | shift s x | bit n x | res n x | set n x =>
    exact x.states_pos (by decide) (by decide) (by decide)
  case ldPair p nn | incPair p | decPair p => exact Nat.lt_of_lt_of_le (by decide) (p.le_states _)
  case push p | pop p => exact Nat.lt_of_lt_of_le (by decide) (p.le_states _)
  case ldMemPointer addr p | ldPointerMem p addr | ldSp p | exSp p | addPair p src | jpPointer p =>
    exact Nat.lt_of_lt_of_le (by decide) (p.le_states _)
  case jpIf cond target | jrIf cond d | callIf cond target | retIf cond =>
    exact c.branch_states_pos cond (Nat.succ_pos _) (Nat.succ_pos _)
  case djnz d => simp only [perform]; split <;> exact Nat.succ_pos _
  case ldir dir | cpir dir => simp only [perform, repeatStates]; omega
  all_goals exact Nat.succ_pos _

end Core

theorem PortCall.exists_stops_append (calls : List PortCall) (last : PortCall) :
    (∃ call ∈ calls ++ [last], call.stops) ↔ (∃ call ∈ calls, call.stops) ∨ last.stops := by
  simp only [List.mem_append, List.mem_singleton, or_and_right, exists_or, exists_eq_left]

variable {σ : Type}

theorem Outcome.reason_ofWritten (w : Written σ) {states : Nat} (h : 0 < states) :
    (Outcome.ofWritten w states).reason = if w.running then none else some .trap := by
  unfold ofWritten reason
  cases w.running with
  | true => simp [Nat.ne_of_gt h]
  | false => simp

theorem Outcome.states_ofWritten (w : Written σ) (states : Nat) :
    (Outcome.ofWritten w states).states = if w.running then states else 0 := by
  unfold ofWritten
  split <;> rfl

namespace Cpu

variable {cpu : Cpu} {ports : Ports σ} {fuel : Nat} {host : σ} {s : Step σ}

theorem reports_of_none (hi : cpu.decoded.instruction = none)
    (h : cpu.step ports fuel host = some s) :
    s.cpu.halt = some (.invalidOpcode cpu.invalid) ∧ s.cpu.states = 0 := by
  rw [cpu.step_of_none ports fuel host hi] at h
  cases h
  exact ⟨rfl, rfl⟩

theorem reports_of_halt (hi : cpu.decoded.instruction = some .halt)
    (h : cpu.step ports fuel host = some s) :
    s.cpu.halt = some .halt ∧ s.cpu.states = 0 := by
  rw [cpu.step_of_halt ports fuel host hi] at h
  cases h
  exact ⟨rfl, rfl⟩

theorem reports_of_operation {o : Operation} (hi : cpu.decoded.instruction = some (.operation o))
    (h : cpu.step ports fuel host = some s) : s.cpu.halt = none ∧ 0 < s.cpu.states := by
  rw [cpu.step_of_operation ports fuel host hi] at h
  cases h
  have hpos := (cpu.past cpu.decoded).perform_states_pos o
  refine ⟨?_, hpos⟩
  simp only [retire, Outcome.reason, Nat.ne_of_gt hpos, decide_false, Bool.false_and]
  rfl

/-- The processor goes on exactly as long as no call asked to stop. -/
theorem stops_invariant : OutputInvariant ports.recorded
    fun running _ h => running = false ↔ ∃ call ∈ h.2, call.stops where
  trap c h hc := by
    have hold : ¬ ∃ call ∈ h.2, call.stops := fun hs => absurd (hc.mpr hs) Bool.noConfusion
    rw [Ports.recorded, PortCall.exists_stops_append, or_iff_right hold]
    show decide ((ports.trap c h.1).action = .continue) = false ↔
      (ports.trap c h.1).action = .halt
    cases (ports.trap c h.1).action <;> decide
  mode _ _ _ hc := hc
  write c h port value hc := by
    rw [hc, Ports.recorded, PortCall.exists_stops_append]
    exact (or_iff_left id).symm
  main _ _ _ _ hc := hc

/-- An output instruction stops the processor exactly if the handler asked for it. -/
theorem reports_of_output {o : Output} (hi : cpu.decoded.instruction = some (.output o))
    (h : cpu.step ports fuel host = some s) :
    (s.cpu.halt = none ∧ 0 < s.cpu.states ∧ ¬ ∃ call ∈ cpu.portCalls ports fuel host, call.stops) ∨
      (s.cpu.halt = some .trap ∧ s.cpu.states = 0 ∧
        ∃ call ∈ cpu.portCalls ports fuel host, call.stops) := by
  obtain ⟨w, states, hpos, hw, hcalls, rfl⟩ := step_output_invariant stops_invariant hi (by simp) h
  have hreason : ((Outcome.ofWritten w states).mapHost Prod.fst).reason =
    if w.running then none else some .trap := Outcome.reason_ofWritten w hpos
  have hstates : ((Outcome.ofWritten w states).mapHost Prod.fst).states =
    if w.running then states else 0 := Outcome.states_ofWritten w states
  simp only [retire, hreason, hstates, ← hcalls]
  simp only [Written.Holds] at hw
  cases hr : w.running with
  | true =>
    refine .inl ⟨rfl, hpos, fun hs => ?_⟩
    exact absurd (hr.symm.trans (hw.mpr hs)) Bool.noConfusion
  | false => exact .inr ⟨rfl, rfl, hw.mp hr⟩

/-- What an instruction gives as its reason is what is reported: one that takes no
time never lacks a reason, so none is made up for it. -/
theorem reason_of_execute {c : Core} {at_ : UInt16} {d : Decoded} {o : Outcome σ}
    (h : c.execute ports fuel host at_ d = some o) : o.reason = o.halt := by
  have hpos : o.states = 0 → o.halt.isNone = false := by
    unfold Core.execute at h
    split at h
    · cases h
      exact fun h0 => absurd h0 (Nat.ne_of_gt (c.perform_states_pos _))
    · have always : OutputInvariant ports fun _ _ _ => True :=
        ⟨fun _ _ h => h, fun _ _ _ h => h, fun _ _ _ _ h => h, fun _ _ _ _ h => h⟩
      obtain ⟨w, states, rfl, hstates, -⟩ := always.output trivial h
      intro h0
      rw [Outcome.states_ofWritten] at h0
      unfold Outcome.ofWritten
      split at h0
      · omega
      · next hr => simp only [hr, Bool.false_eq_true, if_false, Option.isNone_some]
    · cases h
      exact fun _ => rfl
    · cases h
      exact fun _ => rfl
  unfold Outcome.reason
  split
  · next hz =>
    simp only [Bool.and_eq_true, decide_eq_true_eq] at hz
    exact absurd hz.2 (by simp only [hpos hz.1, Bool.false_eq_true, not_false_eq_true])
  · rfl

/-- The four ways in which a step ends. -/
theorem step_report (h : cpu.step ports fuel host = some s) :
    let stopped := ∃ call ∈ cpu.portCalls ports fuel host, call.stops
    (cpu.decoded.instruction = none ∧
      s.cpu.halt = some (.invalidOpcode cpu.invalid) ∧ s.cpu.states = 0 ∧ ¬ stopped) ∨
    (cpu.decoded.instruction = some .halt ∧
      s.cpu.halt = some .halt ∧ s.cpu.states = 0 ∧ ¬ stopped) ∨
    ((∃ o, cpu.decoded.instruction = some (.output o)) ∧
      s.cpu.halt = some .trap ∧ s.cpu.states = 0 ∧ stopped) ∨
    ((∃ i, cpu.decoded.instruction = some i ∧ i ≠ .halt) ∧
      s.cpu.halt = none ∧ 0 < s.cpu.states ∧ ¬ stopped) := by
  intro stopped
  have hquiet : (∀ o, cpu.decoded.instruction ≠ some (.output o)) → ¬ stopped := by
    intro hi hstopped
    obtain ⟨call, hmem, -⟩ := hstopped
    rw [portCalls_eq_nil hi] at hmem
    exact absurd hmem List.not_mem_nil
  cases hi : cpu.decoded.instruction with
  | none =>
    obtain ⟨hhalt, hstates⟩ := reports_of_none hi h
    exact .inl ⟨rfl, hhalt, hstates, hquiet (by simp [hi])⟩
  | some i =>
    cases i with
    | halt =>
      obtain ⟨hhalt, hstates⟩ := reports_of_halt hi h
      exact .inr (.inl ⟨rfl, hhalt, hstates, hquiet (by simp [hi])⟩)
    | operation o =>
      obtain ⟨hhalt, hstates⟩ := reports_of_operation hi h
      exact .inr (.inr (.inr ⟨⟨_, rfl, by simp⟩, hhalt, hstates, hquiet (by simp [hi])⟩))
    | output o =>
      obtain ⟨hhalt, hstates, hs⟩ | ⟨hhalt, hstates, hs⟩ := reports_of_output hi h
      · exact .inr (.inr (.inr ⟨⟨_, rfl, by simp⟩, hhalt, hstates, hs⟩))
      · exact .inr (.inr (.inl ⟨⟨o, rfl⟩, hhalt, hstates, hs⟩))

/-- An invalid opcode is reported exactly where there is no instruction. -/
theorem step_invalid_iff (h : cpu.step ports fuel host = some s) :
    (∃ x, s.cpu.halt = some (.invalidOpcode x)) ↔ cpu.decoded.instruction = none := by
  obtain ⟨hi, hhalt, -⟩ | ⟨hi, hhalt, -⟩ | ⟨⟨o, hi⟩, hhalt, -⟩ | ⟨⟨i, hi, -⟩, hhalt, -⟩ :=
    step_report h <;> simp [hi, hhalt]

/-- A halt is reported exactly at the halt instruction. -/
theorem step_halt_iff (h : cpu.step ports fuel host = some s) :
    s.cpu.halt = some .halt ↔ cpu.decoded.instruction = some .halt := by
  obtain ⟨hi, hhalt, -⟩ | ⟨hi, hhalt, -⟩ | ⟨⟨o, hi⟩, hhalt, -⟩ | ⟨⟨i, hi, hne⟩, hhalt, -⟩ :=
    step_report h
  · simp [hi, hhalt]
  · simp [hi, hhalt]
  · simp [hi, hhalt]
  · simp [hi, hhalt, hne]

/-- A trap is reported exactly if the handler asked for it. -/
theorem step_trap_iff (h : cpu.step ports fuel host = some s) :
    s.cpu.halt = some .trap ↔ ∃ call ∈ cpu.portCalls ports fuel host, call.stops := by
  obtain ⟨-, hhalt, -, hs⟩ | ⟨-, hhalt, -, hs⟩ | ⟨-, hhalt, -, hs⟩ | ⟨-, hhalt, -, hs⟩ :=
    step_report h
  · exact iff_of_false (by simp [hhalt]) hs
  · exact iff_of_false (by simp [hhalt]) hs
  · exact iff_of_true hhalt hs
  · exact iff_of_false (by simp [hhalt]) hs

/-- A step takes no time exactly when it gives a reason to stop. -/
theorem step_states_eq_zero_iff (h : cpu.step ports fuel host = some s) :
    s.cpu.states = 0 ↔ s.cpu.halt.isSome := by
  obtain ⟨-, hhalt, hstates, -⟩ | ⟨-, hhalt, hstates, -⟩ | ⟨-, hhalt, hstates, -⟩ |
    ⟨-, hhalt, hstates, -⟩ := step_report h
  · exact iff_of_true hstates (by simp [hhalt])
  · exact iff_of_true hstates (by simp [hhalt])
  · exact iff_of_true hstates (by simp [hhalt])
  · exact iff_of_false (Nat.ne_of_gt hstates) (by simp [hhalt])

/-- A step takes no time exactly when it gives a reason to stop, and each reason has
one cause: the halt instruction, an opcode without a row in its table, a handler that
asks for it. An instruction with a row takes time otherwise, and every reason is the
one that the instruction gave. -/
theorem step_stops_iff (h : cpu.step ports fuel host = some s) :
    let t := cpu.decoded.table
    let op := cpu.decoded.opcode
    let asked := ∃ call ∈ cpu.portCalls ports fuel host, call.stops
    (s.cpu.states = 0 ↔ s.cpu.halt.isSome) ∧
    (s.cpu.halt = some .halt ↔ t = .base ∧ op = 0x76) ∧
    ((∃ x, s.cpu.halt = some (.invalidOpcode x)) ↔
      Tables.hasEntry cpu.core.mode t op = false) ∧
    (s.cpu.halt = some .trap ↔ asked) ∧
    (Tables.hasEntry cpu.core.mode t op = true → ¬ (t = .base ∧ op = 0x76) → ¬ asked →
      0 < s.cpu.states) ∧
    ∃ o, (cpu.past cpu.decoded).execute ports fuel host cpu.core.regs.pc cpu.decoded = some o ∧
      s.cpu.states = o.states ∧ s.cpu.halt = o.halt := by
  intro t op asked
  have hrow : cpu.decoded.instruction = none ↔ Tables.hasEntry cpu.core.mode t op = false :=
    dispatch_instruction_eq_none_iff _ _
  have hhalt : cpu.decoded.instruction = some .halt ↔ t = .base ∧ op = 0x76 :=
    dispatch_instruction_eq_halt_iff _ _
  rw [← hrow, ← hhalt]
  refine ⟨step_states_eq_zero_iff h, step_halt_iff h, step_invalid_iff h, step_trap_iff h, ?_, ?_⟩
  · intro hfound hgoes hquiet
    rw [← Bool.not_eq_false, ← hrow] at hfound
    obtain ⟨hi, -⟩ | ⟨hi, -⟩ | ⟨-, -, -, hs⟩ | ⟨-, -, hpos, -⟩ := step_report h
    · exact absurd hi hfound
    · exact absurd hi hgoes
    · exact absurd hs hquiet
    · exact hpos
  · obtain ⟨o, ho, rfl⟩ := Option.map_eq_some_iff.mp h
    exact ⟨o, ho, rfl, reason_of_execute ho⟩

/-- A write to the trap port with nothing attached stops a processor for that reason. -/
theorem trap_write_stops :
    let cpu : Cpu := ⟨⟨.zero, (Memory.blank.put8 0 0xD3).put8 1 0xFF, .z80⟩, 0, .base, 0, none⟩
    ∃ s, cpu.step .unattached 0 () = some s ∧ s.cpu.states = 0 ∧ s.cpu.halt = some .trap ∧
      ∃ call ∈ cpu.portCalls .unattached 0 (), call.stops := by
  intro cpu
  have hd : cpu.decoded = ⟨.base, 0xD3, 2, some (.output (.outA 0xFF))⟩ := by
    simp only [decoded, Window.ofMemory, cpu, Registers.zero, Memory.get8_put8]
    rfl
  have hi : cpu.decoded.instruction = some (.output (.outA 0xFF)) := by rw [hd]
  have hs := cpu.step_of_output .unattached 0 () hi
  refine ⟨_, hs, ?_⟩
  have hiff := step_stops_iff hs
  exact ⟨rfl, rfl, hiff.2.2.2.1.mp rfl⟩

end Cpu

end Cpm
