import Cpm.Proofs.HostMaps

/-!
# The calls an instruction makes to its port handler

A handler can be made to keep a list of the calls it gets. The list is no part of
what the handler does, so an instruction has the same effect with it and without
it; what was asked of the handler can then be read off the end of the instruction.
-/

namespace Cpm

inductive PortCall where
  /-- A trap: the core that the handler saw, what it wanted, and the core that it left. -/
  | trap (seen : Core) (action : TrapAction) (left : Core)
  | write (port value : UInt8)

namespace PortCall

def stops : PortCall → Prop
  | .trap _ action _ => action = .halt
  | .write _ _ => False

def keepsPc : PortCall → Prop
  | .trap seen _ left => left.regs.pc = seen.regs.pc
  | .write _ _ => True

end PortCall

variable {σ : Type}

/-- The handler that adds every call it gets to a list. -/
def Ports.recorded (ports : Ports σ) : Ports (σ × List PortCall) where
  trap c h :=
    let reply := ports.trap c h.1
    ⟨reply.action, reply.core, (reply.host, h.2 ++ [.trap c reply.action reply.core]), reply.log⟩
  write port value h :=
    let (host, log) := ports.write port value h.1
    ((host, h.2 ++ [.write port value]), log)

/-- Keeping a list of the calls changes nothing else. -/
theorem Ports.recorded_mapsTo (ports : Ports σ) : ports.recorded.MapsTo ports Prod.fst :=
  ⟨fun _ _ => rfl, fun _ _ _ => rfl⟩

namespace Cpu

variable (cpu : Cpu) (ports : Ports σ) (fuel : Nat)

theorem step_recorded (h : σ × List PortCall) :
    (cpu.step ports.recorded fuel h).map (Step.mapHost Prod.fst) = cpu.step ports fuel h.1 :=
  (ports.recorded_mapsTo.step h cpu fuel).symm

/-- The calls that the next instruction makes to the port handler, in order. -/
def portCalls (host : σ) : List PortCall :=
  match cpu.step ports.recorded fuel (host, []) with
  | some s => s.host.2
  | none => []

theorem step_recorded_eq_some {host : σ} {s : Step σ} (h : cpu.step ports fuel host = some s) :
    cpu.step ports.recorded fuel (host, []) =
      some (s.mapHost (·, cpu.portCalls ports fuel host)) := by
  rw [← step_recorded cpu ports fuel (host, [])] at h
  obtain ⟨r, hr, rfl⟩ := Option.map_eq_some_iff.mp h
  simp only [portCalls, hr]
  rfl

end Cpu

end Cpm
