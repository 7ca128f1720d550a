import Cpm.Proofs.Modes

/-!
# The instructions around the entries of the system

A jump, a call, a return and a write to the trap port mean the same in both modes. Each
has an equation for the step that executes it, given the bytes at the program counter.
-/

namespace Cpm

/-- The row of an opcode that both modes have, found in either of them. -/
theorem dispatch_of_common {op x y : UInt8} {e : Decode.Entry} (h : Decode.isZ80Only op = false)
    (hrow : Tables.common op x y = some e) (mode : Mode) (z : UInt8) :
    dispatch mode ⟨op, x, y, z⟩ = ⟨.base, op, 1 + e.operands, some e.instruction⟩ := by
  rw [dispatch_of_shared h]
  show Decode.found .base op 0 (Tables.common op x y) = _
  rw [hrow]
  simp only [Decode.found, Nat.zero_add]

namespace Cpu

variable {σ : Type} (cpu : Cpu)

theorem decoded_of_common {op : UInt8} {e : Decode.Entry}
    (hop : cpu.core.mem.get8 cpu.core.regs.pc = op) (h : Decode.isZ80Only op = false)
    (hrow : Tables.common op (cpu.core.mem.get8 (cpu.core.regs.pc + 1))
      (cpu.core.mem.get8 (cpu.core.regs.pc + 2)) = some e) :
    cpu.decoded = ⟨.base, op, 1 + e.operands, some e.instruction⟩ := by
  rw [decoded, Window.ofMemory, hop]
  exact dispatch_of_common h hrow _ _

theorem decoded_of_jp {target : UInt16} (hop : cpu.core.mem.get8 cpu.core.regs.pc = 0xC3)
    (htarget : cpu.core.mem.get16 (cpu.core.regs.pc + 1) = target) :
    cpu.decoded = ⟨.base, 0xC3, 3, some (.operation (.jp target))⟩ := by
  have hnext : cpu.core.regs.pc + 1 + 1 = cpu.core.regs.pc + 2 := by grind
  rw [← htarget, Memory.get16, hnext]
  exact cpu.decoded_of_common hop rfl rfl

theorem decoded_of_outA {port : UInt8} (hop : cpu.core.mem.get8 cpu.core.regs.pc = 0xD3)
    (hport : cpu.core.mem.get8 (cpu.core.regs.pc + 1) = port) :
    cpu.decoded = ⟨.base, 0xD3, 2, some (.output (.outA port))⟩ := by
  rw [← hport]
  exact cpu.decoded_of_common hop rfl rfl

theorem step_of_jp {target : UInt16} (hop : cpu.core.mem.get8 cpu.core.regs.pc = 0xC3)
    (htarget : cpu.core.mem.get16 (cpu.core.regs.pc + 1) = target) (ports : Ports σ) (fuel : Nat)
    (host : σ) :
    cpu.step ports fuel host =
      some (cpu.retire .base ⟨10, none, cpu.core.jump target, host, []⟩) := by
  have hd := cpu.decoded_of_jp hop htarget
  rw [cpu.step_of_operation ports fuel host (by rw [hd]), hd]
  rfl

/-- A call pushes the address behind it. -/
theorem step_of_call {target : UInt16} (hop : cpu.core.mem.get8 cpu.core.regs.pc = 0xCD)
    (htarget : cpu.core.mem.get16 (cpu.core.regs.pc + 1) = target) (ports : Ports σ) (fuel : Nat)
    (host : σ) :
    cpu.step ports fuel host = some (cpu.retire .base
      ⟨17, none, (cpu.core.jump (cpu.core.regs.pc + 3)).call16 target, host, []⟩) := by
  have hnext : cpu.core.regs.pc + 1 + 1 = cpu.core.regs.pc + 2 := by grind
  have hd : cpu.decoded = ⟨.base, 0xCD, 3, some (.operation (.call target))⟩ := by
    rw [← htarget, Memory.get16, hnext]
    exact cpu.decoded_of_common hop rfl rfl
  rw [cpu.step_of_operation ports fuel host (by rw [hd]), hd]
  rfl

/-- A return takes the program counter from the stack. -/
theorem step_of_ret (hop : cpu.core.mem.get8 cpu.core.regs.pc = 0xC9) (ports : Ports σ)
    (fuel : Nat) (host : σ) :
    cpu.step ports fuel host = some (cpu.retire .base
      ⟨10, none, (cpu.core.jump (cpu.core.regs.pc + 1)).return16, host, []⟩) := by
  have hd : cpu.decoded = ⟨.base, 0xC9, 1, some (.operation .ret)⟩ :=
    cpu.decoded_of_common hop rfl rfl
  rw [cpu.step_of_operation ports fuel host (by rw [hd]), hd]
  rfl

/-- A write to the trap port is a trap, with the program counter behind it. -/
theorem step_of_trapWrite (hop : cpu.core.mem.get8 cpu.core.regs.pc = 0xD3)
    (hport : cpu.core.mem.get8 (cpu.core.regs.pc + 1) = Port.trap) (ports : Ports σ) (fuel : Nat)
    (host : σ) :
    let reply := ports.trap (cpu.core.jump (cpu.core.regs.pc + 2)) host
    cpu.step ports fuel host = some (cpu.retire .base
      (.ofWritten ⟨reply.action = .continue, reply.core, reply.host, reply.log⟩ 11)) := by
  intro reply
  have hd := cpu.decoded_of_outA hop hport
  have hpast : cpu.past cpu.decoded = cpu.core.jump (cpu.core.regs.pc + 2) := by
    rw [hd]
    rfl
  have hi : cpu.decoded.instruction = some (.output (.outA Port.trap)) := by rw [hd]
  rw [step_of_outA hi, hpast, Core.writePort, if_pos rfl, hd]

theorem step_of_trap (hop : cpu.core.mem.get8 cpu.core.regs.pc = 0xD3)
    (hport : cpu.core.mem.get8 (cpu.core.regs.pc + 1) = Port.trap) (ports : Ports σ) (fuel : Nat)
    (host : σ)
    (hgoes : (ports.trap (cpu.core.jump (cpu.core.regs.pc + 2)) host).action = .continue) :
    let reply := ports.trap (cpu.core.jump (cpu.core.regs.pc + 2)) host
    cpu.step ports fuel host =
      some (cpu.retire .base ⟨11, none, reply.core, reply.host, reply.log⟩) := by
  intro reply
  have hrunning : decide (reply.action = .continue) = true := decide_eq_true hgoes
  rw [cpu.step_of_trapWrite hop hport]
  show some (cpu.retire .base (.ofWritten ⟨decide (reply.action = .continue), _, _, _⟩ 11)) = _
  rw [Outcome.ofWritten, if_pos hrunning]

end Cpu

end Cpm
