import Cpm.Proofs.BlockForms
import Cpm.Proofs.FlagReadings
import Cpm.Proofs.Refresh

/-!
# Copying a block

The repeating transfer copies byte by byte. Where the copy begins inside the block, `d` places
from its start, the transfer comes to read what it has written, and the first `d` bytes are
repeated to the end; anywhere else the copy is what the block was. Either way a byte of the copy
is an original byte, whose number is that of the byte modulo `d`.
-/

namespace Cpm

namespace Bank

/-- The bank after `n` transfers: HL and DE moved, BC counted down. -/
def transferred (k : Bank) (dir : Direction) (n : Nat) : Bank :=
  ((k.setHl (dir.walk k.hl n)).setDe (dir.walk k.de n)).setBc (k.bc - UInt16.ofNat n)

variable (k : Bank) (dir : Direction) (n : Nat)

theorem transferred_zero : k.transferred dir 0 = k := by
  simp [transferred, setHl, setDe, setBc, hl, de, bc]

/-- One more transfer moves HL and DE and counts down BC. -/
theorem transferred_succ :
    (((k.transferred dir n).setHl ((k.transferred dir n).hl + dir.stride)).setDe
      ((k.transferred dir n).de + dir.stride)).setBc ((k.transferred dir n).bc - 1) =
      k.transferred dir (n + 1) := by
  have hhl : (k.transferred dir n).hl + dir.stride = dir.walk k.hl (n + 1) := by
    rw [Direction.walk_succ]
    exact congrArg (· + dir.stride) (hl_setHl k _)
  have hde : (k.transferred dir n).de + dir.stride = dir.walk k.de (n + 1) := by
    rw [Direction.walk_succ]
    exact congrArg (· + dir.stride) (de_setDe k _)
  have hbc : (k.transferred dir n).bc - 1 = k.bc - UInt16.ofNat (n + 1) := by
    rw [← sub_ofNat_succ]
    exact congrArg (· - 1) (bc_setBc _ _)
  rw [hhl, hde, hbc]
  rfl

end Bank

namespace Core

variable {c : Core} {dir : Direction} {n : Nat} {m : Memory}

/-- What memory holds after `n` transfers that start from `c`. At the distance zero, where each
byte is copied to itself, taking the remainder changes nothing. -/
structure Copied (c : Core) (dir : Direction) (n : Nat) (m : Memory) : Prop where
  copied : ∀ i < n, m.get8 (dir.walk c.regs.main.de i) =
    c.mem.get8 (dir.walk c.regs.main.hl (i % dir.distance c.regs.main.hl c.regs.main.de))
  kept : ∀ a, (∀ i < n, a ≠ dir.walk c.regs.main.de i) → m.get8 a = c.mem.get8 a

namespace Copied

/-- The next byte of the block, which may have been written by an earlier transfer. -/
theorem next_byte (h : c.Copied dir n m) (hn : n < 0x10000) :
    m.get8 (dir.walk c.regs.main.hl n) =
      c.mem.get8 (dir.walk c.regs.main.hl (n % dir.distance c.regs.main.hl c.regs.main.de)) := by
  let d := dir.distance c.regs.main.hl c.regs.main.de
  have hd : d < 0x10000 := dir.distance_lt _ _
  have hde : ∀ i, dir.walk c.regs.main.de i = dir.walk c.regs.main.hl (d + i) := by
    intro i
    rw [← dir.walk_walk, dir.walk_distance]
  by_cases hback : 0 < d ∧ d ≤ n
  · -- It is the byte that was written `d` transfers ago.
    have hwritten : dir.walk c.regs.main.hl n = dir.walk c.regs.main.de (n - d) := by
      rw [hde, Nat.add_sub_cancel' hback.2]
    rw [hwritten, h.copied (n - d) (by omega), ← Nat.mod_eq_sub_mod hback.2]
  · have hmod : n % d = n := by
      by_cases h0 : d = 0
      · rw [h0, Nat.mod_zero]
      · exact Nat.mod_eq_of_lt (by omega)
    show _ = c.mem.get8 (dir.walk c.regs.main.hl (n % d))
    rw [hmod]
    refine h.kept _ fun i hi he => ?_
    rw [hde] at he
    have := dir.walk_inj _ he
    omega

/-- One more transfer. -/
theorem next (h : c.Copied dir n m) (hn : n < 0x10000) :
    c.Copied dir (n + 1)
      (m.put8 (dir.walk c.regs.main.de n) (m.get8 (dir.walk c.regs.main.hl n))) where
  copied i hi := by
    rw [Memory.get8_put8]
    split
    · next he =>
      have hin : i = n := by
        have := dir.walk_inj _ he
        omega
      rw [hin]
      exact h.next_byte hn
    · next hne =>
      have hin : i ≠ n := fun he => hne (congrArg _ he)
      exact h.copied i (by omega)
  kept a ha := by
    rw [Memory.get8_put8_other _ _ (ha n (Nat.lt_succ_self n))]
    exact h.kept a fun i hi => ha i (Nat.lt_succ_of_lt hi)

end Copied

/-- The last of the transfers, instead of the first. -/
theorem transfers_succ_last (dir : Direction) (n : Nat) (c : Core) :
    transfers dir (n + 1) c = transfer dir (transfers dir n c) := by
  induction n generalizing c with
  | zero => rfl
  | succ n ih => rw [transfers_succ, ih, transfers_succ]

/-- The core after up to a full pass of transfers. -/
theorem transfers_copied (c : Core) (dir : Direction) (hn : n ≤ 0x10000) :
    (transfers dir n c).regs = { c.regs with main := c.regs.main.transferred dir n } ∧
      (transfers dir n c).mode = c.mode ∧ c.Copied dir n (transfers dir n c).mem := by
  induction n with
  | zero =>
    refine ⟨?_, rfl, fun i hi => absurd hi (Nat.not_lt_zero i), fun _ _ => rfl⟩
    rw [Bank.transferred_zero]
    rfl
  | succ n ih =>
    obtain ⟨hregs, hmode, hmem⟩ := ih (Nat.le_of_succ_le hn)
    have hhl : (transfers dir n c).regs.main.hl = dir.walk c.regs.main.hl n := by
      rw [hregs]
      exact Bank.hl_setHl c.regs.main _
    have hde : (transfers dir n c).regs.main.de = dir.walk c.regs.main.de n := by
      rw [hregs]
      exact Bank.de_setDe c.regs.main _
    rw [transfers_succ_last]
    refine ⟨?_, hmode, ?_⟩
    · rw [← Bank.transferred_succ]
      simp only [transfer, hregs]
    · have hnext := hmem.next hn
      rw [← hhl, ← hde] at hnext
      exact hnext

def flagsOfCopy (f : Flags) : Flags := (f.keep [.sign, .zero, .carry]).set .parityOverflow false

/-- The core after the repeating transfer, which makes all the rounds that BC stands for. -/
theorem ldir_copied (c : Core) (dir : Direction) :
    let k := c.regs.main
    let n := rounds k.bc
    let after := (c.perform (.ldir dir)).core
    after.regs = { c.regs with main :=
      { ((k.setHl (dir.walk k.hl n)).setDe (dir.walk k.de n)).setBc 0 with
        f := flagsOfCopy k.f } } ∧
      after.mode = c.mode ∧ c.Copied dir n after.mem := by
  intro k n after
  obtain ⟨hregs, hmode, hmem⟩ := c.transfers_copied dir (rounds_le k.bc)
  have hbc : k.transferred dir n =
      ((k.setHl (dir.walk k.hl n)).setDe (dir.walk k.de n)).setBc 0 := by
    rw [Bank.transferred, sub_rounds]
  rw [hbc] at hregs
  refine ⟨?_, hmode, hmem⟩
  have hflagged := congrArg (fun r : Registers => r.setFlags
    (r.main.f.keep [.sign, .zero, .carry] |>.set .parityOverflow (r.main.bc != 0))) hregs
  -- BC is zero, so parity/overflow is cleared.
  simp only [Registers.setFlags, Bank.bc_setBc] at hflagged
  exact hflagged

end Core

/-- The flags after a whole block was copied: half carry, subtract and parity/overflow are
clear, the other three as they were. -/
structure Flags.OfCopy (before after : Flags) : Prop where
  halfCarry : after.halfCarry = false
  subtract : after.subtract = false
  parityOverflow : after.parityOverflow = false
  sign : after.sign = before.sign
  zero : after.zero = before.zero
  carry : after.carry = before.carry

theorem Flags.ofCopy (f : Flags) :
    f.OfCopy (Core.flagsOfCopy f) := by
  constructor <;>
    simp [Core.flagsOfCopy, Flags.halfCarry, Flags.subtract, Flags.parityOverflow, Flags.sign,
      Flags.zero, Flags.carry]

namespace Cpu

variable {σ : Type}

/-- What the repeating transfer does, for every way in which the blocks can overlap. With `n`
bytes to copy and `d` the distance of the blocks, the copy is the block as it was, unless it
begins inside the block: then the first `d` bytes are repeated. No other byte changes; HL and DE
have moved by `n`, BC is zero, and of the other registers only the refresh register and the
program counter move on. The instruction itself may be overwritten, and blocks may run round the
ends of memory. -/
theorem block_copy_closed_form (cpu : Cpu) (dir : Direction) (h : cpu.AtBlock .transfer true dir)
    (ports : Ports σ) (fuel : Nat) (host : σ) :
    let c := cpu.core
    let k := c.regs.main
    let n := Core.rounds k.bc
    let d := ((k.de - k.hl) * dir.stride).toNat
    ∃ s f, cpu.step ports fuel host = some s ∧ s.host = host ∧ s.cpu.halt = none ∧
      s.cpu.states = 16 + 8 * n ∧ s.cpu.core.mode = c.mode ∧
      (∀ i < n,
        (d = 0 ∨ n ≤ d →
          s.cpu.core.mem.get8 (dir.walk k.de i) = c.mem.get8 (dir.walk k.hl i)) ∧
        (0 < d ∧ d < n →
          s.cpu.core.mem.get8 (dir.walk k.de i) = c.mem.get8 (dir.walk k.hl (i % d)))) ∧
      (∀ a, (∀ i < n, a ≠ dir.walk k.de i) → s.cpu.core.mem.get8 a = c.mem.get8 a) ∧
      k.f.OfCopy f ∧
      s.cpu.core.regs = { c.regs with
        main := { ((k.setHl (dir.walk k.hl n)).setDe (dir.walk k.de n)).setBc 0 with f := f }
        pc := c.regs.pc + 2
        r := (c.regs.refresh cpu.waiting s.cpu.states).r } := by
  intro c k n d
  obtain ⟨hregs, hmode, hmem⟩ := (c.jump (c.regs.pc + 2)).ldir_copied dir
  have hafter := congrArg (·.refresh cpu.waiting (16 + 8 * n)) hregs
  have hs := h.step_eq rfl ports fuel host
  refine ⟨_, _, hs, rfl, (reports_of_operation (h.instruction_eq rfl) hs).1, rfl, hmode,
    fun i hi => ?_, hmem.kept, k.f.ofCopy, hafter⟩
  have hcopied := hmem.copied i hi
  refine ⟨fun hfar => hcopied.trans ?_, fun _ => hcopied⟩
  have hmod : i % d = i := by
    obtain h0 | hfar := hfar
    · rw [h0, Nat.mod_zero]
    · exact Nat.mod_eq_of_lt (Nat.lt_of_lt_of_le hi hfar)
  exact congrArg (fun j => c.mem.get8 (dir.walk k.hl j)) hmod

/-- A copy to the next address repeats one byte, over the instruction that copies and on round
the top of memory. -/
theorem copy_overwrites_itself :
    let mem := ((Memory.blank.put8 0xFFFD 0x55).put8 0xFFFE 0xED).put8 0xFFFF 0xB0
    let bank := ((Bank.zero.setHl 0xFFFD).setDe 0xFFFE).setBc 4
    let cpu : Cpu := ⟨⟨{ Registers.zero with main := bank, pc := 0xFFFE }, mem, .z80⟩, 0, .base,
      0, none⟩
    cpu.AtBlock .transfer true .up ∧ ∃ s, cpu.step .unattached 0 () = some s ∧
      (∀ i < 4, s.cpu.core.mem.get8 (Direction.up.walk 0xFFFE i) = 0x55) ∧
      s.cpu.core.mem.get8 2 = mem.get8 2 ∧ s.cpu.core.regs.main.hl = 1 ∧ s.cpu.core.regs.pc = 0 ∧
      s.cpu.states = 48 := by
  intro mem bank cpu
  have hat : cpu.AtBlock .transfer true .up := by
    constructor
    · rfl
    · show mem.get8 0xFFFE = 0xED
      simp [mem]
    · show mem.get8 (0xFFFE + 1) = 0xB0
      exact Memory.get8_put8_same _ _ _
  have hfirst : mem.get8 0xFFFD = 0x55 := by simp [mem]
  clear_value mem
  obtain ⟨s, f, hs, -, -, hstates, -, hcopied, hkept, -, hregs⟩ :=
    block_copy_closed_form cpu .up hat .unattached 0 ()
  have hn : Core.rounds cpu.core.regs.main.bc = 4 :=
    show Core.rounds bank.bc = 4 by decide
  have hhl : cpu.core.regs.main.hl = 0xFFFD := show bank.hl = 0xFFFD by decide
  have hde : cpu.core.regs.main.de = 0xFFFE := show bank.de = 0xFFFE by decide
  have hd : ((0xFFFE - 0xFFFD) * Direction.up.stride).toNat = 1 := by decide
  simp only [hn, hhl, hde, hd] at hstates hcopied hkept
  refine ⟨hat, s, hs, fun i hi => ?_, hkept 2 (by decide), ?_, ?_, hstates⟩
  · refine ((hcopied i hi).2 (by decide)).trans ?_
    rw [Nat.mod_one]
    exact hfirst
  · rw [hregs, hn, hhl]
    exact (Bank.hl_setHl cpu.core.regs.main _).trans (by decide)
  · rw [hregs]
    show (0xFFFE : UInt16) + 2 = 0
    decide

/-- The refresh register is no register that a copy leaves alone. -/
theorem copy_does_not_leave_refresh :
    let mem := ((Memory.blank.put8 0 0xED).put8 1 0xB0).put8 0x1000 0xAA
    let bank := ((Bank.zero.setHl 0x1000).setDe 0x2000).setBc 1
    let cpu : Cpu := ⟨⟨{ Registers.zero with main := bank }, mem, .z80⟩, 0, .base, 0, none⟩
    cpu.AtBlock .transfer true .up ∧ ∃ s, cpu.step .unattached 0 () = some s ∧
      cpu.core.regs.r = 0 ∧ s.cpu.core.regs.r = 6 := by
  intro mem bank cpu
  have hat : cpu.AtBlock .transfer true .up := by
    constructor
    · rfl
    · show mem.get8 0 = 0xED
      simp [mem]
    · show mem.get8 1 = 0xB0
      simp [mem]
  have hs := hat.step_eq rfl .unattached 0 ()
  have hrefresh := advances_of_operation (hat.instruction_eq rfl) (by decide) hs
  exact ⟨hat, _, hs, rfl, hrefresh.trans
    (show (cpu.core.regs.refresh 0 (repeatStates (Core.rounds bank.bc))).r = 6 by decide)⟩

end Cpu

end Cpm
