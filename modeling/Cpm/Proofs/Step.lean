import Cpm.Proofs.ControlFlow
import Cpm.Proofs.PortCalls

/-!
# What one step does

A step decodes, passes over the bytes it decoded, and does one of four things: it
performs an operation, it writes to a port, it halts, or it finds no instruction.
There is one equation for each. What holds of every write to a port holds of all
the rounds of a block output.
-/

namespace Cpm

variable {σ : Type}

namespace Cpu

variable (cpu : Cpu) (ports : Ports σ) (fuel : Nat) (host : σ)

theorem step_of_operation {o : Operation} (h : cpu.decoded.instruction = some (.operation o)) :
    cpu.step ports fuel host = some (cpu.retire cpu.decoded.table
      ⟨((cpu.past cpu.decoded).perform o).states, none, ((cpu.past cpu.decoded).perform o).core,
        host, []⟩) := by
  simp only [step, Core.execute, h, Option.map_some]

theorem step_of_halt (h : cpu.decoded.instruction = some .halt) :
    cpu.step ports fuel host = some (cpu.retire cpu.decoded.table
      ⟨0, some .halt, cpu.past cpu.decoded, host, []⟩) := by
  simp only [step, Core.execute, h, Option.map_some]

def invalid : InvalidOpcode := ⟨cpu.core.regs.pc, cpu.decoded.table, cpu.decoded.opcode⟩

theorem step_of_none (h : cpu.decoded.instruction = none) :
    cpu.step ports fuel host = some (cpu.retire cpu.decoded.table
      ⟨0, some (.invalidOpcode cpu.invalid), cpu.past cpu.decoded, host,
        [⟨.warn, .control, cpu.invalid.message⟩]⟩) := by
  simp only [step, Core.execute, h, Option.map_some]
  rfl

theorem step_of_output {o : Output} (h : cpu.decoded.instruction = some (.output o)) :
    cpu.step ports fuel host = ((cpu.past cpu.decoded).output ports fuel host cpu.core.regs.pc
      o).map (cpu.retire cpu.decoded.table) := by
  simp only [step, Core.execute, h]

end Cpu

@[simp] theorem Outcome.host_ofWritten (w : Written σ) (states : Nat) :
    (Outcome.ofWritten w states).host = w.host := by
  unfold Outcome.ofWritten
  split <;> rfl

@[simp] theorem Outcome.core_ofWritten (w : Written σ) (states : Nat) :
    (Outcome.ofWritten w states).core = w.core := by
  unfold Outcome.ofWritten
  split <;> rfl

/-- Only a block output can fail to come to an end. -/
theorem Cpu.exists_step (cpu : Cpu) (ports : Ports σ) (fuel : Nat) (host : σ)
    (h : ∀ dir, cpu.decoded.instruction ≠ some (.output (.otir dir))) :
    ∃ s, cpu.step ports fuel host = some s := by
  cases hi : cpu.decoded.instruction with
  | none => exact ⟨_, cpu.step_of_none ports fuel host hi⟩
  | some i =>
    cases i with
    | operation o => exact ⟨_, cpu.step_of_operation ports fuel host hi⟩
    | halt => exact ⟨_, cpu.step_of_halt ports fuel host hi⟩
    | output o =>
      rw [cpu.step_of_output ports fuel host hi]
      cases o with
      | outA port => exact ⟨_, rfl⟩
      | outC src => exact ⟨_, rfl⟩
      | outi dir => exact ⟨_, rfl⟩
      | otir dir => exact absurd hi (h dir)

/-- The state after writes to a port satisfies `P`. -/
def Written.Holds (P : Bool → Core → σ → Prop) (w : Written σ) : Prop := P w.running w.core w.host

/-- A statement about writes to a port: each kind of write keeps it as long as the
processor goes on, and it does not look at the main registers. -/
structure OutputInvariant (ports : Ports σ) (P : Bool → Core → σ → Prop) : Prop where
  trap : ∀ c h, P true c h →
    P ((ports.trap c h).action = .continue) (ports.trap c h).core (ports.trap c h).host
  mode : ∀ c h m, P true c h → P true { c with mode := m } h
  write : ∀ c h port value, P true c h → P true c (ports.write port value h).1
  main : ∀ running c h (bank : Registers → Bank), P running c h →
    P running (c.onRegs fun r => { r with main := bank r }) h

theorem Core.selectMode_core (c : Core) (at_ : UInt16) (value : UInt8) :
    (c.selectMode at_ value).1 = { c with mode := (Mode.ofPortValue? value).getD c.mode } := by
  unfold selectMode
  cases Mode.ofPortValue? value <;> rfl

namespace OutputInvariant

variable {ports : Ports σ} {at_ : UInt16} {P : Bool → Core → σ → Prop} {c : Core} {host : σ}

theorem writePort (inv : OutputInvariant ports P) (at_ : UInt16) (port value : UInt8)
    (h : P true c host) : (c.writePort ports host at_ port value).Holds P := by
  unfold Core.writePort
  split
  · exact inv.trap c host h
  · split
    · show P true (c.selectMode at_ value).1 host
      rw [Core.selectMode_core]
      exact inv.mode c host _ h
    · exact inv.write c host port value h

theorem outputRound (inv : OutputInvariant ports P) (at_ : UInt16) (dir : Direction)
    (h : P true c host) : (c.outputRound ports host at_ dir).Holds P := by
  have hstepped := inv.main _ _ _
    (fun r => { r.main with b := r.main.b - 1 }.setHl (r.main.hl + dir.stride)) h
  have hwritten := inv.writePort at_ c.regs.main.c (c.mem.get8 c.regs.main.hl) hstepped
  exact inv.main _ _ _ (fun r => { r.main with
    f := Flags.ofSignZero r.main.b |>.set .subtract true |>.set .carry r.main.f.carry }) hwritten

/-- A block output goes on to the next round only while the processor runs. -/
theorem outputRounds (inv : OutputInvariant ports P) {dir : Direction} {fuel n : Nat}
    {log : List Log.Record} {b : Core.Burst σ} (h : P true c host)
    (hb : Core.outputRounds ports at_ dir fuel n c host log = some b) : b.written.Holds P := by
  induction fuel generalizing n c host log with
  | zero => cases hb
  | succ fuel ih =>
    have hround := inv.outputRound at_ dir h
    simp only [Core.outputRounds] at hb
    split at hb
    · cases hb
      exact hround
    · next hgo =>
      have hrun : (c.outputRound ports host at_ dir).running = true := by simp_all
      rw [Written.Holds, hrun] at hround
      exact ih hround hb

/-- Every output instruction ends in a state that the invariant speaks of, and takes
time if the processor goes on. -/
theorem output (inv : OutputInvariant ports P) {fuel : Nat} {o : Output} {r : Outcome σ}
    (h : P true c host) (hr : c.output ports fuel host at_ o = some r) :
    ∃ w states, r = .ofWritten w states ∧ 0 < states ∧ w.Holds P := by
  cases o with
  | outA port =>
    cases hr
    exact ⟨_, 11, rfl, by decide, inv.writePort _ _ _ h⟩
  | outC src =>
    cases hr
    exact ⟨_, 12, rfl, by decide, inv.writePort _ _ _ h⟩
  | outi dir =>
    cases hr
    exact ⟨_, 16, rfl, by decide, inv.outputRound _ dir h⟩
  | otir dir =>
    obtain ⟨b, hb, rfl⟩ := Option.map_eq_some_iff.mp hr
    exact ⟨b.written, repeatStates b.count, rfl, by unfold repeatStates; omega,
      inv.outputRounds h hb⟩

end OutputInvariant

namespace Cpu

variable {cpu : Cpu} {ports : Ports σ} {fuel : Nat} {host : σ} {s : Step σ}

/-- Only an output instruction calls the handler. -/
theorem portCalls_eq_nil (hi : ∀ o, cpu.decoded.instruction ≠ some (.output o)) :
    cpu.portCalls ports fuel host = [] := by
  unfold portCalls
  cases h : cpu.decoded.instruction with
  | none => rw [cpu.step_of_none _ _ _ h]; rfl
  | some i =>
    cases i with
    | operation o => rw [cpu.step_of_operation _ _ _ h]; rfl
    | output o => exact absurd h (hi o)
    | halt => rw [cpu.step_of_halt _ _ _ h]; rfl

/-- The output of the accumulator is one write to a port. -/
theorem step_of_outA {port : UInt8} (hi : cpu.decoded.instruction = some (.output (.outA port)))
    (ports : Ports σ) (fuel : Nat) (host : σ) :
    cpu.step ports fuel host = some (cpu.retire cpu.decoded.table (.ofWritten
      ((cpu.past cpu.decoded).writePort ports host cpu.core.regs.pc port cpu.core.regs.main.a)
      11)) := by
  rw [cpu.step_of_output ports fuel host hi]
  rfl

theorem portCalls_of_outA {port : UInt8}
    (hi : cpu.decoded.instruction = some (.output (.outA port))) :
    cpu.portCalls ports fuel host = ((cpu.past cpu.decoded).writePort ports.recorded (host, [])
      cpu.core.regs.pc port cpu.core.regs.main.a).host.2 := by
  rw [portCalls, step_of_outA hi]
  exact congrArg Prod.snd (Outcome.host_ofWritten _ _)

/-- What the calls to the handler establish holds after an output instruction. -/
theorem step_output_invariant {P : Bool → Core → σ × List PortCall → Prop} {o : Output}
    (inv : OutputInvariant ports.recorded P)
    (ho : cpu.decoded.instruction = some (.output o))
    (start : P true (cpu.past cpu.decoded) (host, []))
    (h : cpu.step ports fuel host = some s) :
    ∃ (w : Written (σ × List PortCall)) (states : Nat), 0 < states ∧ w.Holds P ∧
      w.host.2 = cpu.portCalls ports fuel host ∧
      s = cpu.retire cpu.decoded.table ((Outcome.ofWritten w states).mapHost Prod.fst) := by
  have hrec := cpu.step_recorded_eq_some ports fuel h
  rw [step_of_output _ _ _ _ ho] at hrec
  obtain ⟨r, hr, hs⟩ := Option.map_eq_some_iff.mp hrec
  obtain ⟨w, states, rfl, hpos, hw⟩ := inv.output start hr
  refine ⟨w, states, hpos, hw, ?_, congrArg (Step.mapHost Prod.fst) hs.symm⟩
  rw [← Outcome.host_ofWritten w states]
  exact congrArg (·.host.2) hs

/-- What the decoded operation and every call to the handler keep is kept by the step. An output
changes the mode and the main registers itself, so that it must not hang on them. -/
theorem step_keeps {P : Core → Prop} {keeps : PortCall → Prop}
    (trap : ∀ seen action left, keeps (.trap seen action left) → P seen → P left)
    (mode : ∀ c m, P c → P { c with mode := m })
    (main : ∀ c (bank : Registers → Bank), P c → P (c.onRegs fun r => { r with main := bank r }))
    (operation : ∀ o, cpu.decoded.instruction = some (.operation o) →
      P ((cpu.past cpu.decoded).perform o).core)
    (hcalls : ∀ call ∈ cpu.portCalls ports fuel host, keeps call)
    (start : P (cpu.past cpu.decoded)) (h : cpu.step ports fuel host = some s) :
    ∃ r : Outcome σ, P r.core ∧ s = cpu.retire cpu.decoded.table r := by
  -- The calls made so far are a part of those of the whole step.
  have inv : OutputInvariant ports.recorded fun _ c h => (∀ call ∈ h.2, keeps call) → P c :=
    { trap := fun c h hc hk => by
        simp only [Ports.recorded, List.forall_mem_append, List.forall_mem_singleton] at hk
        exact trap _ _ _ hk.2 (hc hk.1)
      mode := fun c _ m hc hk => mode c m (hc hk)
      write := fun _ _ _ _ hc hk => by
        simp only [Ports.recorded, List.forall_mem_append] at hk
        exact hc hk.1
      main := fun _ c _ bank hc hk => main c bank (hc hk) }
  cases hi : cpu.decoded.instruction with
  | none =>
    rw [cpu.step_of_none ports fuel host hi] at h
    cases h
    exact ⟨_, start, rfl⟩
  | some i =>
    cases i with
    | operation o =>
      rw [cpu.step_of_operation ports fuel host hi] at h
      cases h
      exact ⟨_, operation o hi, rfl⟩
    | output o =>
      obtain ⟨w, states, -, hw, hmade, rfl⟩ := step_output_invariant inv hi (fun _ => start) h
      refine ⟨_, ?_, rfl⟩
      simp only [Outcome.mapHost, Outcome.core_ofWritten]
      exact hw (hmade ▸ hcalls)
    | halt =>
      rw [cpu.step_of_halt ports fuel host hi] at h
      cases h
      exact ⟨_, start, rfl⟩

/-- What holds of every answer of the handler holds of the calls of a step. -/
theorem forall_portCalls {P : PortCall → Prop}
    (trap : ∀ c h, P (.trap c (ports.trap c h).action (ports.trap c h).core))
    (write : ∀ port value, P (.write port value)) (cpu : Cpu) (fuel : Nat) (host : σ) :
    ∀ call ∈ cpu.portCalls ports fuel host, P call := by
  have inv : OutputInvariant ports.recorded fun _ _ h => ∀ call ∈ h.2, P call :=
    { trap := fun c h hc => List.forall_mem_append.mpr
        ⟨hc, List.forall_mem_singleton.mpr (trap c h.1)⟩
      mode := fun _ _ _ hc => hc
      write := fun _ _ port value hc => List.forall_mem_append.mpr
        ⟨hc, List.forall_mem_singleton.mpr (write port value)⟩
      main := fun _ _ _ _ hc => hc }
  by_cases hout : ∃ o, cpu.decoded.instruction = some (.output o)
  · obtain ⟨o, ho⟩ := hout
    cases hs : cpu.step ports fuel host with
    | none =>
      have hrecorded := cpu.step_recorded ports fuel (host, [])
      rw [hs, Option.map_eq_none_iff] at hrecorded
      rw [portCalls, hrecorded]
      exact fun _ hmem => absurd hmem List.not_mem_nil
    | some s =>
      obtain ⟨w, states, -, hw, hcalls, -⟩ :=
        step_output_invariant inv ho (fun _ hmem => absurd hmem List.not_mem_nil) hs
      rw [← hcalls]
      exact hw
  · rw [portCalls_eq_nil (not_exists.mp hout)]
    exact fun _ hmem => absurd hmem List.not_mem_nil

end Cpu

end Cpm
