import Cpm.Proofs.Decoding
import Cpm.Proofs.Loops
import Cpm.Proofs.Stopping

/-!
# The forms of the block instructions

A block instruction copies, compares or puts out the bytes of a block. Each of the three
kinds has a single and a repeating form, and walks upwards or downwards. The twelve opcodes
are listed here, with the instruction that the processor finds at each. A walk takes one
place after another and runs round at the ends of memory.
-/

namespace Cpm

namespace Direction

variable (dir : Direction) (a : UInt16)

/-- The address that is reached in `n` rounds. -/
def walk (n : Nat) : UInt16 := a + UInt16.ofNat n * dir.stride

/-- The number of rounds in which one address is reached from another. -/
def distance (b : UInt16) : Nat := ((b - a) * dir.stride).toNat

theorem stride_mul_stride : dir.stride * dir.stride = 1 := by
  cases dir <;> rfl

@[simp] theorem walk_zero : dir.walk a 0 = a := by
  simp [walk]

theorem walk_succ (n : Nat) : dir.walk a (n + 1) = dir.walk a n + dir.stride := by
  have hone : UInt16.ofNat 1 = 1 := rfl
  simp only [walk, UInt16.ofNat_add, hone]
  grind

theorem walk_walk (m n : Nat) : dir.walk (dir.walk a m) n = dir.walk a (m + n) := by
  simp only [walk, UInt16.ofNat_add]
  grind

theorem distance_lt (b : UInt16) : dir.distance a b < 0x10000 :=
  UInt16.toNat_lt _

/-- The distance leads to the other address. -/
theorem walk_distance (b : UInt16) : dir.walk a (dir.distance a b) = b := by
  have hstride := dir.stride_mul_stride
  simp only [walk, distance, UInt16.ofNat_toNat]
  grind

/-- Places less than a whole round of memory apart are different. -/
theorem walk_inj {m n : Nat} (h : dir.walk a m = dir.walk a n) : m % 0x10000 = n % 0x10000 := by
  have hstride := dir.stride_mul_stride
  have hofNat : UInt16.ofNat m = UInt16.ofNat n := by
    simp only [walk] at h
    grind
  have htoNat := congrArg UInt16.toNat hofNat
  simpa only [UInt16.toNat_ofNat'] using htoNat

end Direction

/-- A counter after one more round. -/
theorem sub_ofNat_succ (counter : UInt16) (n : Nat) :
    counter - UInt16.ofNat n - 1 = counter - UInt16.ofNat (n + 1) := by
  have hone : UInt16.ofNat 1 = 1 := rfl
  rw [UInt16.ofNat_add, hone]
  grind

inductive Block where
  | transfer | compare | output
  deriving DecidableEq, Repr

namespace Block

def opcode : (kind : Block) → (repeats : Bool) → Direction → UInt8
  | .transfer, false, .up => 0xA0
  | .transfer, false, .down => 0xA8
  | .transfer, true, .up => 0xB0
  | .transfer, true, .down => 0xB8
  | .compare, false, .up => 0xA1
  | .compare, false, .down => 0xA9
  | .compare, true, .up => 0xB1
  | .compare, true, .down => 0xB9
  | .output, false, .up => 0xA3
  | .output, false, .down => 0xAB
  | .output, true, .up => 0xB3
  | .output, true, .down => 0xBB

def instruction : (kind : Block) → (repeats : Bool) → Direction → Instruction
  | .transfer, false, dir => .operation (.ldi dir)
  | .transfer, true, dir => .operation (.ldir dir)
  | .compare, false, dir => .operation (.cpi dir)
  | .compare, true, dir => .operation (.cpir dir)
  | .output, false, dir => .output (.outi dir)
  | .output, true, dir => .output (.otir dir)

/-- What is decoded at the bytes of a block instruction. -/
theorem dispatch_eq (kind : Block) (repeats : Bool) (dir : Direction) (x y : UInt8) :
    dispatch .z80 ⟨0xED, kind.opcode repeats dir, x, y⟩ =
      ⟨.ed, kind.opcode repeats dir, 2, some (kind.instruction repeats dir)⟩ := by
  rw [dispatch_eq_decode]
  show Decode.found .ed (kind.opcode repeats dir) 1
    (Decode.extended (kind.opcode repeats dir) x y) = _
  cases kind <;> cases repeats <;> cases dir <;> rfl

end Block

namespace Cpu

/-- The processor is in Z80 mode, with a block instruction at the program counter. -/
structure AtBlock (cpu : Cpu) (kind : Block) (repeats : Bool) (dir : Direction) : Prop where
  mode : cpu.core.mode = .z80
  lead : cpu.core.mem.get8 cpu.core.regs.pc = 0xED
  opcode : cpu.core.mem.get8 (cpu.core.regs.pc + 1) = kind.opcode repeats dir

namespace AtBlock

variable {σ : Type} {cpu : Cpu} {kind : Block} {repeats : Bool} {dir : Direction}

theorem decoded_eq (h : cpu.AtBlock kind repeats dir) :
    cpu.decoded = ⟨.ed, kind.opcode repeats dir, 2, some (kind.instruction repeats dir)⟩ := by
  rw [decoded, Window.ofMemory, h.mode, h.lead, h.opcode]
  exact Block.dispatch_eq _ _ _ _ _

variable {o : Operation}

theorem instruction_eq (h : cpu.AtBlock kind repeats dir)
    (ho : kind.instruction repeats dir = .operation o) :
    cpu.decoded.instruction = some (.operation o) := by
  rw [h.decoded_eq, ho]

/-- A block instruction that calls no handler. -/
theorem step_eq (h : cpu.AtBlock kind repeats dir)
    (ho : kind.instruction repeats dir = .operation o) (ports : Ports σ) (fuel : Nat) (host : σ) :
    let t := (cpu.core.jump (cpu.core.regs.pc + 2)).perform o
    cpu.step ports fuel host =
      some (cpu.retire .ed ⟨t.states, none, t.core, host, []⟩) := by
  rw [cpu.step_of_operation ports fuel host (h.instruction_eq ho), h.decoded_eq]
  rfl

end AtBlock

end Cpu

end Cpm
