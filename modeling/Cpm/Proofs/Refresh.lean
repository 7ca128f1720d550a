import Cpm.Proofs.Step

/-!
# The refresh register

Only one operation writes the refresh register. After any other it has advanced by
one for every four states of the instruction, with those left over from before.
-/

namespace Cpm

theorem leftOver_leftOver (waiting : Fin 4) (m n : Nat) :
    leftOver (leftOver waiting m) n = leftOver waiting (m + n) := by
  apply Fin.ext
  simp only [leftOver]
  omega

theorem leftOver_zero (waiting : Fin 4) : leftOver waiting 0 = waiting :=
  Fin.ext (Nat.mod_eq_of_lt waiting.isLt)

namespace Registers

variable (r : Registers)

/-- Advancing touches no other register. -/
theorem refresh_with (waiting : Fin 4) (states : Nat) (bank : Bank) (sp pc : UInt16) :
    { r with main := bank, sp := sp, pc := pc }.refresh waiting states =
      { r.refresh waiting states with main := bank, sp := sp, pc := pc } := rfl

/-- What the refresh register advances to depends on nothing else in the registers. -/
theorem refresh_r_congr {r q : Registers} (h : r.r = q.r) (waiting : Fin 4) (states : Nat) :
    (r.refresh waiting states).r = (q.refresh waiting states).r := by
  simp only [refresh, h]

/-- The top bit of the refresh register stays, and the low seven bits count. -/
theorem toNat_refresh (waiting : Fin 4) (states : Nat) :
    (r.refresh waiting states).r.toNat =
      r.r.toNat / 128 * 128 + (r.r.toNat + (waiting.val + states) / 4) % 128 := by
  have htop : (r.r &&& 0x80).toNat = 2 ^ 7 * (r.r.toNat / 128) := by
    have hbyte : ∀ n < 256, n &&& 128 = 128 * (n / 128) := by decide +kernel
    exact (UInt8.toNat_and _ _).trans (hbyte r.r.toNat r.r.toNat_lt)
  have hlow : (r.r.toNat + (waiting.val + states) / 4) % 128 < 2 ^ 7 := Nat.mod_lt _ (by decide)
  simp only [refresh, UInt8.toNat_or, htop, UInt8.toNat_ofNat']
  rw [Nat.mod_eq_of_lt (by omega), ← Nat.two_pow_add_eq_or_of_lt hlow]
  omega

/-- In no time nothing advances. -/
theorem refresh_zero (waiting : Fin 4) : r.refresh waiting 0 = r := by
  have hr : (r.refresh waiting 0).r = r.r := by
    apply UInt8.toNat_inj.mp
    rw [toNat_refresh]
    omega
  simp only [refresh] at hr ⊢
  rw [hr]

/-- Advancing in two parts is advancing by the whole time. -/
theorem refresh_refresh (waiting : Fin 4) (m n : Nat) :
    (r.refresh waiting m).refresh (leftOver waiting m) n = r.refresh waiting (m + n) := by
  have hr : ((r.refresh waiting m).refresh (leftOver waiting m) n).r =
      (r.refresh waiting (m + n)).r := by
    apply UInt8.toNat_inj.mp
    simp only [toNat_refresh, leftOver]
    omega
  simp only [refresh, mk.injEq, true_and] at hr ⊢
  exact hr

/-- Three instructions that move the program counter and the stack pointer, the second of
which also replaces the main bank, advance like one that takes their time. -/
theorem refresh_of_three (waiting : Fin 4) (l m n : Nat) (bank : Bank) (sp pc sp' pc' : UInt16) :
    { { r.refresh waiting l with main := bank, sp := sp, pc := pc }.refresh (leftOver waiting l) m
        with sp := sp', pc := pc' }.refresh (leftOver waiting (l + m)) n =
      { r with main := bank, sp := sp', pc := pc', r := (r.refresh waiting (l + m + n)).r } := by
  have hsecond := refresh_with (r.refresh waiting l) (leftOver waiting l) m bank sp pc
  have hthird := refresh_with (r.refresh waiting (l + m)) (leftOver waiting (l + m)) n bank sp' pc'
  rw [refresh_refresh] at hsecond hthird
  rw [hsecond]
  exact hthird

@[simp] theorem setByte_r (x : ByteReg) (v : UInt8) : (r.setByte x v).r = r.r := by
  rcases x with _ | (_ | _) | (_ | _) <;> rfl

@[simp] theorem setPointer_r (p : Pointer) (w : UInt16) : (r.setPointer p w).r = r.r := by
  rcases p with _ | (_ | _) <;> rfl

@[simp] theorem setPair_r (p : Pair) (w : UInt16) : (r.setPair p w).r = r.r := by
  cases p with
  | pointer p => exact setPointer_r r p w
  | _ => rfl

@[simp] theorem setStackPair_r (p : StackPair) (w : UInt16) : (r.setStackPair p w).r = r.r := by
  cases p with
  | pointer p => exact setPointer_r r p w
  | _ => rfl

@[simp] theorem accumulate_r (op : AluOp) (v : UInt8) (mode : Mode) :
    (r.accumulate op v mode).r = r.r := by
  cases op <;> rfl

@[simp] theorem accumulator_r (op : AccOp) : (r.accumulator op).r = r.r := by
  cases op <;> rfl

end Registers

namespace Core

variable (c : Core)

@[simp] theorem setOperand_r (x : Operand) (v : UInt8) : (c.setOperand x v).regs.r = c.regs.r := by
  cases x with
  | reg r => exact Registers.setByte_r _ _ _
  | mem p => rfl

theorem transfers_r (dir : Direction) (n : Nat) : (transfers dir n c).regs.r = c.regs.r := by
  induction n generalizing c with
  | zero => rfl
  | succ n ih => exact ih (transfer dir c)

theorem compares_r (dir : Direction) (n k : Nat) :
    (compares dir n ⟨k, c⟩).core.regs.r = c.regs.r := by
  induction n generalizing c k with
  | zero => rfl
  | succ n ih =>
    rw [compares_succ]
    split
    · rfl
    · exact ih (compare dir c) (k + 1)

/-- Every operation but one leaves the refresh register alone. -/
theorem perform_r {o : Operation} (h : o ≠ .ldRA) : (c.perform o).core.regs.r = c.regs.r := by
  cases o
  case ldRA => exact absurd rfl h
  case ldir dir => exact transfers_r c dir _
  case cpir dir => exact compares_r c dir _ 0
  case ld | ldFrom => exact Registers.setByte_r _ _ _
  case ldPair | ldPairMem | incPair | decPair => exact Registers.setPair_r _ _ _
  case ldPointerMem | exSp => exact Registers.setPointer_r _ _ _
  case addPair => exact Registers.setPointer_r c.regs _ _
  case pop => exact Registers.setStackPair_r _ _ _
  case alu | aluImm => exact Registers.accumulate_r _ _ _ _
  case acc => exact Registers.accumulator_r _ _
  case inc | dec | shift => exact setOperand_r c _ _
  case ldImm | res | set => exact setOperand_r c _ _
  case jpIf | jrIf | callIf | retIf =>
    simp only [perform, branch]
    split <;> rfl
  case djnz =>
    simp only [perform]
    split <;> rfl
  all_goals rfl

end Core

namespace Cpu

variable {σ : Type} {cpu : Cpu} {ports : Ports σ} {fuel : Nat} {host : σ} {s : Step σ}

def Advances (cpu : Cpu) (s : Step σ) : Prop :=
  s.cpu.core.regs.r = (cpu.core.regs.refresh cpu.waiting s.cpu.states).r

/-- An instruction that leaves the register as it was lets it advance by its time. -/
theorem advances_retire {t : Table} {o : Outcome σ} (h : o.core.regs.r = cpu.core.regs.r) :
    cpu.Advances (cpu.retire t o) :=
  Registers.refresh_r_congr h cpu.waiting o.states

theorem advances_of_operation {o : Operation}
    (hi : cpu.decoded.instruction = some (.operation o)) (ho : o ≠ .ldRA)
    (h : cpu.step ports fuel host = some s) : cpu.Advances s := by
  rw [cpu.step_of_operation ports fuel host hi] at h
  cases h
  exact advances_retire ((cpu.past cpu.decoded).perform_r ho)

end Cpu

end Cpm
