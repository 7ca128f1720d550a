import Cpm.Bios.Bdos
import Cpm.Bios.Calls

/-!
# Traps

A trap from the BDOS entry or from a BIOS vector is a system call; a trap from
anywhere else stops the machine. The other ports have nothing attached.
-/

namespace Cpm.Bios

variable {κ : Type} [Console κ]

/-- Serves a trap, by the program counter it came from. -/
def trap (c : Core) (b : Bios κ) : TrapReply (Bios κ) :=
  let pc := c.regs.pc
  if pc = Layout.bdosEntry + 2 then b.callBdos c else
  match BiosFunction.ofTrapPc? pc with
  | some f => b.callFunction f c
  | none =>
    .halting c b
      [⟨.warn, .bios, "trap from " ++ Hex.word (pc - 2) ++ " outside the BIOS vectors"⟩]

def ports : Ports (Bios κ) where
  trap := trap
  write port value b :=
    (b, [⟨.trace, .bios, "OUT " ++ Hex.byte port ++ " <- " ++ Hex.byte value⟩])

end Cpm.Bios
