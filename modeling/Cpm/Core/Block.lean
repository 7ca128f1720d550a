import Cpm.Core

/-!
# Block transfer and comparison

The single forms work on one byte; the repeating forms run their whole loop
inside one instruction. A counter of zero at entry stands for a full pass over
65,536 bytes, so the number of rounds is known, or bounded, when the loop starts.
-/

namespace Cpm

namespace Direction

/-- What is added to an address in each round. -/
def stride : Direction → UInt16
  | .up => 1
  | .down => 0xFFFF

end Direction

namespace Core

/-- The number of rounds that a word counter stands for. -/
def rounds (counter : UInt16) : Nat := if counter = 0 then 0x10000 else counter.toNat

/-- Copies one byte from HL to DE, moves both and counts down BC. -/
def transfer (dir : Direction) (c : Core) : Core :=
  let k := c.regs.main
  let bank := ((k.setHl (k.hl + dir.stride)).setDe (k.de + dir.stride)).setBc (k.bc - 1)
  { c with
    regs := { c.regs with main := bank }
    mem := c.mem.put8 k.de (c.mem.get8 k.hl) }

/-- The flags after a transfer: half carry and subtract clear, parity/overflow
telling whether BC is not yet zero, the others kept. -/
def withTransferFlags (c : Core) : Core :=
  c.onRegs fun r =>
    r.setFlags (r.main.f.keep [.sign, .zero, .carry] |>.set .parityOverflow (r.main.bc != 0))

def transfers (dir : Direction) : Nat → Core → Core
  | 0, c => c
  | n + 1, c => transfers dir n (transfer dir c)

@[simp] theorem transfers_succ (dir : Direction) (n : Nat) (c : Core) :
    transfers dir (n + 1) c = transfers dir n (transfer dir c) := rfl

def matchesHl (c : Core) : Bool := c.regs.main.a == c.mem.get8 c.regs.main.hl

/-- Compares the accumulator with the byte at HL, moves HL and counts down BC. -/
def compare (dir : Direction) (c : Core) : Core :=
  c.onRegs fun r =>
    let k := r.main
    let bc := k.bc - 1
    let bank := (k.setHl (k.hl + dir.stride)).setBc bc
    { r with main := { bank with f := Alu.compareBlock k.a (c.mem.get8 k.hl) k.f bc } }

structure Rounds where
  count : Nat
  core : Core

/-- Compares until a match, or until BC is zero, in at most the given number of
further rounds. -/
def compares (dir : Direction) : Nat → Rounds → Rounds
  | 0, s => s
  | n + 1, s =>
    let next : Rounds := ⟨s.count + 1, compare dir s.core⟩
    if s.core.matchesHl || next.core.regs.main.bc = 0 then next else compares dir n next

theorem compares_succ (dir : Direction) (n : Nat) (s : Rounds) :
    compares dir (n + 1) s =
      if s.core.matchesHl || (compare dir s.core).regs.main.bc = 0 then
        ⟨s.count + 1, compare dir s.core⟩
      else compares dir n ⟨s.count + 1, compare dir s.core⟩ := rfl

end Core

def repeatStates (count : Nat) : Nat := 16 + 8 * count

end Cpm
