import Cpm.Proofs.PortContract

/-!
# Steps without a trap

Only the answer to a trap lets a handler change the core. What a step without one leaves of the
core is told by the instruction alone: an operation has been performed, an output has put out
all of its bytes, and anything else has only been passed over.
-/

namespace Cpm

namespace PortCall

def isTrap : PortCall → Bool
  | .trap _ _ _ => true
  | .write _ _ => false

/-- Only a trap can stop the processor. -/
theorem isTrap_of_stops {call : PortCall} (h : call.stops) : call.isTrap = true := by
  cases call with
  | trap seen action left => rfl
  | write port value => exact h.elim

end PortCall

namespace Core

variable {σ : Type} (ports : Ports σ)

/-- Calls are only added to those made before, and a write to the trap port adds a trap. -/
theorem writePort_calls (c : Core) (h : σ × List PortCall) (at_ : UInt16) (port value : UInt8) :
    ∃ calls, (c.writePort ports.recorded h at_ port value).host.2 = h.2 ++ calls ∧
      (port = Port.trap → ∃ call ∈ calls, call.isTrap = true) := by
  unfold writePort
  split
  · exact ⟨[_], rfl, fun _ => ⟨_, List.mem_singleton_self _, rfl⟩⟩
  · next hport =>
    split
    · exact ⟨[], (List.append_nil _).symm, fun h => absurd h hport⟩
    · exact ⟨[_], rfl, fun h => absurd h hport⟩

/-- One more round of block output adds the call of its write. -/
theorem next_calls (w : Written (σ × List PortCall)) (at_ : UInt16) (dir : Direction) :
    ∃ calls, (Written.next ports.recorded at_ dir w).host.2 = w.host.2 ++ calls ∧
      (w.core.regs.main.c = Port.trap → ∃ call ∈ calls, call.isTrap = true) :=
  writePort_calls ports _ w.host at_ w.core.regs.main.c (w.core.mem.get8 w.core.regs.main.hl)

/-- An output instruction that writes to the trap port makes a trap. -/
theorem exists_trap_of_output {ports : Ports σ} {o : Output} {c : Core}
    (hport : o.port c = Port.trap) {host : σ} {at_ : UInt16} {fuel : Nat}
    {r : Outcome (σ × List PortCall)}
    (h : c.output ports.recorded fuel (host, []) at_ o = some r) :
    ∃ call ∈ r.host.2, call.isTrap = true := by
  cases o with
  | outA port =>
    cases h
    obtain ⟨calls, hcalls, htrap⟩ := writePort_calls ports c (host, []) at_ port
      c.regs.main.a
    rw [Outcome.host_ofWritten, hcalls]
    exact htrap hport
  | outC src =>
    cases h
    obtain ⟨calls, hcalls, htrap⟩ := writePort_calls ports c (host, []) at_
      c.regs.main.c _
    rw [Outcome.host_ofWritten, hcalls]
    exact htrap hport
  | outi dir =>
    cases h
    obtain ⟨calls, hcalls, htrap⟩ := next_calls ports ⟨true, c, (host, []), []⟩ at_ dir
    have hround : (c.outputRound ports.recorded (host, []) at_ dir).host.2 = [] ++ calls := hcalls
    rw [Outcome.host_ofWritten, hround]
    exact htrap hport
  | otir dir =>
    obtain ⟨⟨count, last⟩, hb, rfl⟩ := Option.map_eq_some_iff.mp h
    obtain ⟨n, -, -, hloop⟩ := outputRounds_eq_some_iff.mp hb
    rw [Outcome.host_ofWritten]
    -- The first round makes the trap, and those behind it keep it in the list.
    refine hloop.holds_after (k := 0)
      (P := fun _ w => w.core.regs.main.c = Port.trap ∨ ∃ call ∈ w.host.2, call.isTrap = true)
      (Q := fun _ w => ∃ call ∈ w.host.2, call.isTrap = true) (fun _ w hw => ?_)
      (fun _ _ hw _ => .inr hw) (.inl hport)
    obtain ⟨calls, hcalls, htrap⟩ := next_calls ports w at_ dir
    rw [hcalls]
    obtain hc | ⟨call, hmem, htrap⟩ := hw
    · obtain ⟨call, hmem, htrap⟩ := htrap hc
      exact ⟨call, List.mem_append_right _ hmem, htrap⟩
    · exact ⟨call, List.mem_append_left _ hmem, htrap⟩

end Core

namespace Instruction

/-- The core that an instruction leaves if it makes no trap. -/
def untrapped (i : Instruction) (c : Core) : Core :=
  match i with
  | .operation o => (c.perform o).core
  | .output o => o.after c (o.bytes c).length
  | .halt => c

end Instruction

namespace Cpu

variable {σ : Type} {cpu : Cpu} {ports : Ports σ} {fuel : Nat} {host : σ} {s : Step σ}

/-- The next step makes no trap. -/
def Quiet (cpu : Cpu) (ports : Ports σ) (fuel : Nat) (host : σ) : Prop :=
  ∀ call ∈ cpu.portCalls ports fuel host, call.isTrap = false

/-- Only an output to the trap port can make a trap. -/
theorem quiet_of_port (h : ∀ o, cpu.decoded.instruction = some (.output o) →
    o.port (cpu.past cpu.decoded) ≠ Port.trap) (ports : Ports σ) (fuel : Nat) (host : σ) :
    cpu.Quiet ports fuel host := by
  intro call hmem
  by_cases hout : ∃ o, cpu.decoded.instruction = some (.output o)
  · obtain ⟨o, ho⟩ := hout
    rw [portCalls, cpu.step_of_output _ _ _ ho] at hmem
    cases hr : (cpu.past cpu.decoded).output ports.recorded fuel (host, []) cpu.core.regs.pc o with
    | none =>
      rw [hr] at hmem
      exact absurd hmem List.not_mem_nil
    | some r =>
      rw [hr] at hmem
      obtain ⟨n, hperformed⟩ := Core.performed_of_output (fun htrap => absurd htrap (h o ho)) hr
      have hasks := hperformed.asks
      rw [Asks, if_neg (h o ho)] at hasks
      have hmem : call ∈ r.host.2 := hmem
      rw [hasks] at hmem
      split at hmem
      · exact absurd hmem List.not_mem_nil
      · obtain ⟨value, -, rfl⟩ := List.mem_map.mp hmem
        rfl
  · rw [portCalls_eq_nil (not_exists.mp hout)] at hmem
    exact absurd hmem List.not_mem_nil

theorem quiet_of_operation {o : Operation} (hi : cpu.decoded.instruction = some (.operation o))
    (ports : Ports σ) (fuel : Nat) (host : σ) : cpu.Quiet ports fuel host := by
  refine quiet_of_port (fun p hp => ?_) ports fuel host
  rw [hi] at hp
  cases hp

/-- An output that makes no trap puts out all its bytes. -/
theorem Quiet.core_of_output (hquiet : cpu.Quiet ports fuel host) {o : Output}
    (hi : cpu.decoded.instruction = some (.output o)) (h : cpu.step ports fuel host = some s) :
    s.cpu.core = ((Instruction.output o).untrapped (cpu.past cpu.decoded)).onRegs
      (·.refresh cpu.waiting s.cpu.states) := by
  have hrecorded := cpu.step_recorded_eq_some ports fuel h
  rw [step_of_output _ _ _ _ hi] at hrecorded
  obtain ⟨r, hr, hs⟩ := Option.map_eq_some_iff.mp hrecorded
  have hcalls : r.host.2 = cpu.portCalls ports fuel host := congrArg (·.host.2) hs
  have hnone : ¬ ∃ call ∈ r.host.2, call.isTrap = true := by
    rintro ⟨call, hmem, htrap⟩
    exact absurd ((hquiet call (hcalls ▸ hmem)).symm.trans htrap) Bool.noConfusion
  obtain ⟨n, hperformed⟩ := Core.performed_of_output
    (fun hport => absurd (Core.exists_trap_of_output hport hr) hnone) hr
  have hall : n = (o.bytes (cpu.past cpu.decoded)).length := by
    obtain ⟨hn, -⟩ | ⟨⟨earlier, last, hlast, hstops, -⟩, -⟩ := hperformed.ends
    · exact hn
    · refine absurd ⟨last, ?_, PortCall.isTrap_of_stops hstops⟩ hnone
      rw [hlast]
      exact List.mem_append_right _ (List.mem_singleton_self last)
  have hcpu : s.cpu = (cpu.retire cpu.decoded.table r).cpu := congrArg Step.cpu hs.symm
  rw [hcpu, Instruction.untrapped, ← hall, ← hperformed.core]
  rfl

/-- The core after a step that makes no trap. Where no instruction was found, the bytes that were
decoded have been passed over and no more. -/
theorem Quiet.core_eq (hquiet : cpu.Quiet ports fuel host)
    (h : cpu.step ports fuel host = some s) :
    s.cpu.core = (cpu.decoded.instruction.elim (cpu.past cpu.decoded)
      (·.untrapped (cpu.past cpu.decoded))).onRegs (·.refresh cpu.waiting s.cpu.states) := by
  cases hi : cpu.decoded.instruction with
  | none =>
    rw [cpu.step_of_none ports fuel host hi] at h
    cases h
    rfl
  | some i =>
    cases i with
    | operation o =>
      rw [cpu.step_of_operation ports fuel host hi] at h
      cases h
      rfl
    | output o => exact hquiet.core_of_output hi h
    | halt =>
      rw [cpu.step_of_halt ports fuel host hi] at h
      cases h
      rfl

end Cpu

end Cpm
