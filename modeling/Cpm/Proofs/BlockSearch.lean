import Cpm.Proofs.BlockForms
import Cpm.Proofs.FlagReadings

/-!
# Searching a block

The repeating comparison ends with the first byte of the block that equals the accumulator, or
with the last byte where none does. Both ends can fall together, and only the flags then tell
that a byte was found.
-/

namespace Cpm

namespace Bank

/-- The bank after `n` comparisons, the flags apart: HL moved, BC counted down. -/
def compared (k : Bank) (dir : Direction) (n : Nat) : Bank :=
  (k.setHl (dir.walk k.hl n)).setBc (k.bc - UInt16.ofNat n)

variable (k : Bank) (dir : Direction) (n : Nat)

theorem compared_zero : k.compared dir 0 = k := by
  simp [compared, setHl, setBc, hl, bc]

theorem hl_compared : (k.compared dir n).hl = dir.walk k.hl n := hl_setHl k _

theorem bc_compared : (k.compared dir n).bc = k.bc - UInt16.ofNat n := bc_setBc _ _

/-- One more comparison moves HL and counts down BC. -/
theorem compared_succ :
    ((k.compared dir n).setHl ((k.compared dir n).hl + dir.stride)).setBc
      ((k.compared dir n).bc - 1) = k.compared dir (n + 1) := by
  rw [hl_compared, bc_compared, ← dir.walk_succ, sub_ofNat_succ]
  rfl

end Bank

/-- The comparison of a block looks at no old flag but the carry. -/
theorem Alu.compareBlock_congr {f g : Flags} (h : f.carry = g.carry) (a v : UInt8) (bc : UInt16) :
    compareBlock a v f bc = compareBlock a v g bc := by
  simp only [compareBlock, h]

/-- The flags after a byte was compared with the accumulator and the counter stepped to `bc`:
those of the difference, parity/overflow telling whether there are more bytes, the carry kept. -/
structure Flags.OfSearch (before : Flags) (a v : UInt8) (bc : UInt16) (after : Flags) : Prop where
  sign : after.sign = (128 ≤ (a - v).toNat : Bool)
  zero : after.zero = (v = a : Bool)
  halfCarry : after.halfCarry = (a.toNat % 16 < v.toNat % 16 : Bool)
  parityOverflow : after.parityOverflow = (bc ≠ 0 : Bool)
  subtract : after.subtract = true
  carry : after.carry = before.carry

theorem Flags.ofSearch (f : Flags) (a v : UInt8) (bc : UInt16) :
    f.OfSearch a v bc (Alu.compareBlock a v f bc) where
  sign := by simp [Alu.compareBlock, Flags.sign]
  zero := by
    have hzero : a - v = 0 ↔ v = a := by grind
    simp [Alu.compareBlock, Flags.zero, hzero]
  halfCarry := by simp [Alu.compareBlock, Flags.halfCarry]
  parityOverflow := by
    have hmore : (bc != 0) = (bc ≠ 0 : Bool) := by
      rw [bne, decide_not]
      rfl
    simp [Alu.compareBlock, Flags.parityOverflow, hmore]
  subtract := by simp [Alu.compareBlock, Flags.subtract]
  carry := by simp [Alu.compareBlock, Flags.carry]

namespace Core

variable {c : Core} {dir : Direction} {n : Nat} {s : Comparison}

/-- The byte that is compared in round `n`, where rounds are counted from one. -/
def comparedByte (c : Core) (dir : Direction) (n : Nat) : UInt8 :=
  c.mem.get8 (dir.walk c.regs.main.hl (n - 1))

/-- The search ends in round `n`: no earlier byte equals the accumulator, and this one does or
is the last. -/
structure SearchEnds (c : Core) (dir : Direction) (n : Nat) : Prop where
  pos : 0 < n
  le : n ≤ rounds c.regs.main.bc
  missed : ∀ i, 0 < i → i < n → c.comparedByte dir i ≠ c.regs.main.a
  ends : c.comparedByte dir n = c.regs.main.a ∨ n = rounds c.regs.main.bc

def afterComparisons (c : Core) (dir : Direction) (n : Nat) (f : Flags) : Core :=
  c.onRegs fun r => { r with main := { r.main.compared dir n with f := f } }

/-- The next comparison, in a state that `n` comparisons lead to. -/
theorem compare_afterComparisons (f : Flags) :
    (c.afterComparisons dir n f).compare dir =
      c.afterComparisons dir (n + 1)
        (Alu.compareBlock c.regs.main.a (c.comparedByte dir (n + 1)) f
          (c.regs.main.bc - UInt16.ofNat (n + 1))) := by
  -- The flags of the earlier bank are replaced, and moving HL and BC looks at no flag.
  show c.onRegs (fun r =>
    let k := r.main.compared dir n
    { r with main := { (k.setHl (k.hl + dir.stride)).setBc (k.bc - 1) with
        f := Alu.compareBlock c.regs.main.a (c.mem.get8 (c.regs.main.compared dir n).hl) f
          ((c.regs.main.compared dir n).bc - 1) } }) = _
  rw [Bank.hl_compared, Bank.bc_compared, sub_ofNat_succ]
  simp only [Bank.compared_succ]
  rfl

/-- A search that goes on after `n` rounds. -/
structure Searching (c : Core) (dir : Direction) (n : Nat) (s : Comparison) : Prop where
  core : ∃ f, f.carry = c.regs.main.f.carry ∧ s.core = c.afterComparisons dir n f
  lt : n < rounds c.regs.main.bc
  missed : ∀ i, 0 < i → i ≤ n → c.comparedByte dir i ≠ c.regs.main.a

/-- A search after its round `n`, which can have been the last. -/
structure Searched (c : Core) (dir : Direction) (n : Nat) (s : Comparison) : Prop where
  core : s.core = c.afterComparisons dir n
    (Alu.compareBlock c.regs.main.a (c.comparedByte dir n) c.regs.main.f
      (c.regs.main.bc - UInt16.ofNat n))
  found : s.found = true ↔ c.comparedByte dir n = c.regs.main.a
  pos : 0 < n
  le : n ≤ rounds c.regs.main.bc
  missed : ∀ i, 0 < i → i < n → c.comparedByte dir i ≠ c.regs.main.a

theorem searching_start (c : Core) (dir : Direction) : c.Searching dir 0 ⟨c, false⟩ where
  core := by
    refine ⟨c.regs.main.f, rfl, ?_⟩
    simp only [afterComparisons, onRegs, Bank.compared_zero]
  lt := rounds_pos _
  missed i hpos hle := absurd hpos (Nat.not_lt.mpr hle)

/-- One round of a search. -/
theorem Searching.next (h : c.Searching dir n s) : c.Searched dir (n + 1) (s.next dir) := by
  obtain ⟨⟨f, hcarry, hcore⟩, hlt, hmissed⟩ := h
  refine ⟨?_, ?_, Nat.succ_pos n, hlt, fun i hpos hi => hmissed i hpos (Nat.le_of_lt_succ hi)⟩
  · show s.core.compare dir = _
    rw [hcore, compare_afterComparisons, Alu.compareBlock_congr hcarry]
  · have hhl : s.core.regs.main.hl = dir.walk c.regs.main.hl n := by
      rw [hcore]
      exact c.regs.main.hl_compared dir n
    show s.core.matchesHl = true ↔ _
    rw [matchesHl, hhl, hcore, beq_iff_eq]
    exact eq_comm

/-- A round that was not the last leaves bytes to compare. -/
theorem Searched.goes_on (h : c.Searched dir n s) (hgo : ¬ s.IsLast) : c.Searching dir n s := by
  have hbc : s.core.regs.main.bc = c.regs.main.bc - UInt16.ofNat n := by
    rw [h.core]
    exact c.regs.main.bc_compared dir n
  have hmissed : c.comparedByte dir n ≠ c.regs.main.a := fun he => hgo (.inl (h.found.mpr he))
  refine ⟨⟨_, (Flags.ofSearch _ _ _ _).carry, h.core⟩, ?_, fun i hpos hi => ?_⟩
  · have hne : n ≠ rounds c.regs.main.bc := by
      rintro rfl
      exact hgo (.inr (hbc.trans (sub_rounds _)))
    exact Nat.lt_of_le_of_ne h.le hne
  · obtain rfl | hlt := Nat.eq_or_lt_of_le hi
    · exact hmissed
    · exact h.missed i hpos hlt

/-- The repeating comparison searches to the end. -/
theorem cpir_searched (c : Core) (dir : Direction) :
    ∃ n, c.SearchEnds dir n ∧ (c.perform (.cpir dir)).states = repeatStates n ∧
      (c.perform (.cpir dir)).core = c.afterComparisons dir n
        (Alu.compareBlock c.regs.main.a (c.comparedByte dir n) c.regs.main.f
          (c.regs.main.bc - UInt16.ofNat n)) := by
  obtain ⟨-, found, hloop⟩ := compares_loop dir c
  have hend := hloop.holds_after (P := c.Searching dir) (Q := c.Searched dir)
    (fun _ _ h => h.next) (fun _ _ h hgo => h.goes_on hgo) (searching_start c dir)
  rw [Nat.zero_add] at hend
  refine ⟨_, ⟨hend.pos, hend.le, hend.missed, ?_⟩, rfl, hend.core⟩
  obtain hfound | hzero := hloop.ends_final
  · exact .inl (hend.found.mp hfound)
  · -- BC has come to zero, which takes all the rounds.
    refine .inr (eq_rounds hend.pos hend.le (Eq.trans ?_ hzero))
    rw [hend.core]
    exact (c.regs.main.bc_compared dir _).symm

end Core

namespace Cpu

variable {σ : Type}

/-- What the repeating comparison does. It ends in round `m`, with the first byte that equals the
accumulator or with the last of the block. HL has moved by `m`, which is one past that byte, and
BC is counted down by `m`; the flags tell how the accumulator compares with that byte and whether
BC is not yet zero. No other register changes but the refresh register and the program counter,
and no memory. Where the last byte of the block is the first match, the flags report both. -/
theorem block_search_finds_first_match (cpu : Cpu) (dir : Direction)
    (h : cpu.AtBlock .compare true dir) (ports : Ports σ) (fuel : Nat) (host : σ) :
    let c := cpu.core
    let k := c.regs.main
    ∃ m s f, c.SearchEnds dir m ∧ cpu.step ports fuel host = some s ∧ s.host = host ∧
      s.cpu.halt = none ∧ s.cpu.states = 16 + 8 * m ∧ s.cpu.core.mem = c.mem ∧
      s.cpu.core.mode = c.mode ∧
      k.f.OfSearch k.a (c.comparedByte dir m) (k.bc - UInt16.ofNat m) f ∧
      s.cpu.core.regs = { c.regs with
        main := { (k.setHl (dir.walk k.hl m)).setBc (k.bc - UInt16.ofNat m) with f := f }
        pc := c.regs.pc + 2
        r := (c.regs.refresh cpu.waiting s.cpu.states).r } ∧
      (m = Core.rounds k.bc → c.comparedByte dir m = k.a →
        f.zero = true ∧ f.parityOverflow = false) := by
  intro c k
  obtain ⟨m, hends, hstates, hcore⟩ := (cpu.core.jump (cpu.core.regs.pc + 2)).cpir_searched dir
  have hs := h.step_eq rfl ports fuel host
  dsimp only at hs
  rw [hstates, hcore] at hs
  have hhalt := (reports_of_operation (h.instruction_eq rfl) hs).1
  have hflags := k.f.ofSearch k.a (c.comparedByte dir m) (k.bc - UInt16.ofNat m)
  refine ⟨m, _, _, ⟨hends.pos, hends.le, hends.missed, hends.ends⟩, hs, rfl, hhalt, rfl, rfl, rfl,
    hflags, rfl, fun hlast hfound => ⟨?_, ?_⟩⟩
  · exact hflags.zero.trans (decide_eq_true hfound)
  · have hzero : k.bc - UInt16.ofNat m = 0 := by rw [hlast, Core.sub_rounds]
    exact hflags.parityOverflow.trans (decide_eq_false (not_not_intro hzero))

/-- A search that begins in the instruction itself and runs round the top of memory: only the
last of its two bytes is equal. -/
theorem search_matches_last_byte :
    let mem := ((Memory.blank.put8 0xFFFE 0xED).put8 0xFFFF 0xB1).put8 0 0x55
    let bank := ({ Bank.zero with a := 0x55 }.setHl 0xFFFF).setBc 2
    let cpu : Cpu := ⟨⟨{ Registers.zero with main := bank, pc := 0xFFFE }, mem, .z80⟩, 0, .base,
      0, none⟩
    cpu.AtBlock .compare true .up ∧ ∃ s, cpu.step .unattached 0 () = some s ∧
      s.cpu.core.regs.main.f.zero = true ∧ s.cpu.core.regs.main.f.parityOverflow = false ∧
      s.cpu.core.regs.main.hl = 1 ∧ s.cpu.core.regs.main.bc = 0 ∧ s.cpu.states = 32 := by
  intro mem bank cpu
  have hat : cpu.AtBlock .compare true .up := by
    constructor
    · rfl
    · show mem.get8 0xFFFE = 0xED
      simp [mem]
    · show mem.get8 (0xFFFE + 1) = 0xB1
      simp [mem]
  have hfirst : cpu.core.comparedByte .up 1 ≠ 0x55 := by
    have hplace : Direction.up.walk bank.hl (1 - 1) = 0xFFFF := by decide
    show mem.get8 (Direction.up.walk bank.hl (1 - 1)) ≠ 0x55
    rw [hplace]
    simp [mem]
  have hlast : cpu.core.comparedByte .up 2 = 0x55 := by
    have hplace : Direction.up.walk bank.hl (2 - 1) = 0 := by decide
    show mem.get8 (Direction.up.walk bank.hl (2 - 1)) = 0x55
    rw [hplace]
    exact Memory.get8_put8_same _ _ _
  clear_value mem
  obtain ⟨m, s, f, hends, hs, -, -, hstates, -, -, -, hregs, hboth⟩ :=
    block_search_finds_first_match cpu .up hat .unattached 0 ()
  have hn : Core.rounds cpu.core.regs.main.bc = 2 := show Core.rounds bank.bc = 2 by decide
  have hm : m = 2 := by
    have hpos := hends.pos
    have hle := hends.le
    rw [hn] at hle
    obtain rfl | rfl : m = 1 ∨ m = 2 := by omega
    · obtain hfound | hone := hends.ends
      · exact absurd hfound hfirst
      · exact absurd (hone.trans hn) (by decide)
    · rfl
  subst hm
  obtain ⟨hzero, hmore⟩ := hboth hn.symm hlast
  refine ⟨hat, s, hs, ?_, ?_, ?_, ?_, hstates⟩
  · rw [hregs]
    exact hzero
  · rw [hregs]
    exact hmore
  · rw [hregs]
    show (bank.setHl (Direction.up.walk bank.hl 2)).hl = 1
    decide
  · rw [hregs]
    show ((bank.setHl 1).setBc (bank.bc - UInt16.ofNat 2)).bc = 0
    decide

end Cpu

end Cpm
