import Cpm.Core
import Cpm.Log

/-!
# Output ports

Programs reach the outside through ports. What lies there is given by `Ports`:
its state and its reactions are a parameter of the processor. One port is a trap,
whose handler sees and may change the core; one selects the mode; every other
write passes a byte out.
-/

namespace Cpm

inductive TrapAction where
  | continue | halt
  deriving DecidableEq, Repr

/-- The reaction to a trap: a new core, a new outer state, and the records made. -/
structure TrapReply (σ : Type) where
  action : TrapAction
  core : Core
  host : σ
  log : List Log.Record

/-- What lies behind the output ports, with `σ` as its state. A trap sees and may
change the core; a write to any other port passes one byte out. -/
structure Ports (σ : Type) where
  trap : Core → σ → TrapReply σ
  write : UInt8 → UInt8 → σ → σ × List Log.Record

namespace Port

/-- Writing any value here is a trap. -/
def trap : UInt8 := 0xFF

/-- Writing here selects the mode. -/
def mode : UInt8 := 0xFE

end Port

namespace Ports

/-- Nothing attached: a trap stops the processor, other writes are lost. -/
def unattached : Ports Unit where
  trap core _ :=
    ⟨.halt, core, (),
      [⟨.warn, .ports, "BIOS trap at " ++ Hex.word core.regs.pc ++ " with no BIOS attached"⟩]⟩
  write _ _ _ := ((), [])

end Ports

end Cpm
