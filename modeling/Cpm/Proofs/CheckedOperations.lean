import Cpm.Checked.Cpu
import Cpm.Proofs.Loops
import Cpm.Proofs.Overflow
import Cpm.Proofs.Rows

/-!
# The checks of an operation find nothing

Every field that a row reads names something, and the sums that an operation makes fit the
width they are made in, whatever the operands are. So the rows and the operations with checks
are those without.
-/

namespace Cpm.Checked

set_option maxRecDepth 2000

/-! ### Rows -/

open Cpm.Tables (rows_eq)

theorem common_eq (op x y : UInt8) : common op x y = .ok (Tables.common op x y) := by
  have h : allBytes.map common = allBytes.map fun op x y => .ok (Tables.common op x y) := rfl
  exact rows_eq h op x y

theorem indexed_eq (i : Index) (op x y : UInt8) :
    indexed i op x y = .ok (Tables.indexed i op x y) := by
  have h : allBytes.map (indexed i) =
      allBytes.map fun op x y => .ok (Tables.indexed i op x y) := rfl
  exact rows_eq h op x y

theorem extended_eq (op x y : UInt8) : extended op x y = .ok (Tables.extended op x y) := by
  have h : allBytes.map extended = allBytes.map fun op x y => .ok (Tables.extended op x y) := rfl
  exact rows_eq h op x y

theorem bits_eq (op : UInt8) : bits op = .ok (Tables.bits op) := by
  have h : allBytes.map bits = allBytes.map fun op => .ok (Tables.bits op) := rfl
  rw [eq_of_map_allBytes h]

theorem indexedBits_eq (i : Index) (d op : UInt8) :
    indexedBits i d op = .ok (Tables.indexedBits i d op) := by
  have h : allBytes.map (fun op d => indexedBits i d op) =
      allBytes.map fun op d => .ok (Tables.indexedBits i d op) := rfl
  exact congrFun (congrFun (eq_of_map_allBytes h) op) d

theorem i8080_eq (op x y : UInt8) : i8080 op x y = .ok (Tables.i8080 op x y) := by
  unfold i8080
  split
  · next h => rw [Tables.i8080_eq_none h]
  · rw [common_eq, Tables.i8080_eq_common]

theorem z80_eq (op x y : UInt8) : z80 op x y = .ok (Tables.z80 op x y) := by
  unfold z80
  split
  · rfl
  · next h => rw [common_eq, Tables.z80_eq_common (Bool.eq_false_iff.mpr h)]

/-- No row reads a field that names nothing. -/
theorem lookup_eq (mode : Mode) (t : Table) (d op x y : UInt8) :
    lookup mode t d op x y = .ok (Tables.lookup mode t d op x y) := by
  cases t with
  | base =>
    cases mode with
    | i8080 => exact i8080_eq op x y
    | z80 => exact z80_eq op x y
  | cb => exact bits_eq op
  | dd => exact indexed_eq .ix op x y
  | ddcb => exact indexedBits_eq .ix d op
  | ed => exact extended_eq op x y
  | fd => exact indexed_eq .iy op x y
  | fdcb => exact indexedBits_eq .iy d op

theorem dispatch_eq (mode : Mode) (w : Window) : dispatch mode w = .ok (Cpm.dispatch mode w) := by
  unfold dispatch Cpm.dispatch Tables.behind
  cases Tables.next? mode .base w.b0 with
  | none => simp only [lookup_eq, ok_bind, pure_eq_ok]
  | some t =>
    cases h : Tables.next? mode t w.b1 <;>
      simp only [h, lookup_eq, ok_bind, pure_eq_ok]

/-! ### Sums -/

theorem plus8_eq_ok {a b : UInt8} (h : a.toNat + b.toNat < 0x100) :
    ∃ s, plus8 a b = .ok s ∧ s.toNat = a.toNat + b.toNat :=
  ⟨a + b, if_pos h, by rw [UInt8.toNat_add]; exact Nat.mod_eq_of_lt h⟩

theorem plus16_eq_ok {a b : UInt16} (h : a.toNat + b.toNat < 0x10000) :
    ∃ s, plus16 a b = .ok s ∧ s.toNat = a.toNat + b.toNat :=
  ⟨a + b, if_pos h, by rw [UInt16.toNat_add]; exact Nat.mod_eq_of_lt h⟩

theorem plus32_eq_ok {a b : UInt32} (h : a.toNat + b.toNat < 0x100000000) :
    ∃ s, plus32 a b = .ok s ∧ s.toNat = a.toNat + b.toNat :=
  ⟨a + b, if_pos h, by rw [UInt32.toNat_add]; exact Nat.mod_eq_of_lt h⟩

theorem toNat_low (a : UInt8) : (a &&& 0x0F).toNat = a.toNat % 16 :=
  (UInt8.toNat_and a 0x0F).trans (Nat.and_two_pow_sub_one_eq_mod a.toNat 4)

theorem toNat_low16 (a : UInt16) : (a &&& 0x0FFF).toNat = a.toNat % 0x1000 :=
  (UInt16.toNat_and a 0x0FFF).trans (Nat.and_two_pow_sub_one_eq_mod a.toNat 12)

theorem toNat_carry16 (carry : Bool) : carry.toUInt16.toNat = carry.toNat := by
  cases carry <;> rfl

theorem toNat_carry32 (carry : Bool) : carry.toUInt32.toNat = carry.toNat := by
  cases carry <;> rfl

/-! ### Arithmetic -/

theorem add8_eq (a b : UInt8) (carry : Bool) (mode : Mode) :
    add8 a b carry mode = .ok (Alu.add8 a b carry mode) := by
  have ha := a.toNat_lt
  have hb := b.toNat_lt
  have hc := carry.toNat_le
  obtain ⟨both, hboth, hbothNat⟩ := @plus16_eq_ok a.toUInt16 b.toUInt16
    (by simp only [UInt8.toNat_toUInt16]; omega)
  obtain ⟨sum, hsum, hsumNat⟩ := @plus16_eq_ok both carry.toUInt16
    (by simp only [toNat_carry16, hbothNat, UInt8.toNat_toUInt16]; omega)
  obtain ⟨digits, hdigits, hdigitsNat⟩ := @plus8_eq_ok (a &&& 0x0F) (b &&& 0x0F)
    (by simp only [toNat_low]; omega)
  obtain ⟨low, hlow, hlowNat⟩ := @plus8_eq_ok digits carry.toUInt8
    (by simp only [Alu.toNat_carry, hdigitsNat, toNat_low]; omega)
  simp only [toNat_carry16, hbothNat, UInt8.toNat_toUInt16] at hsumNat
  simp only [Alu.toNat_carry, hdigitsNat, toNat_low] at hlowNat
  have hvalue : sum.toUInt8 = a + b + carry.toUInt8 := by
    apply UInt8.toNat_inj.mp
    rw [Alu.toNat_sum, UInt16.toNat_toUInt8, hsumNat]
  simp only [add8, hboth, hsum, hdigits, hlow, ok_bind, pure_eq_ok, Alu.add8,
    hvalue, GT.gt, UInt8.lt_iff_toNat_lt, UInt16.lt_iff_toNat_lt, hsumNat, hlowNat]
  rfl

theorem sub8_eq (a b : UInt8) (borrow : Bool) (mode : Mode) :
    sub8 a b borrow mode = .ok (Alu.sub8 a b borrow mode) := by
  have hb := b.toNat_lt
  have hc := borrow.toNat_le
  obtain ⟨low, hlow, hlowNat⟩ := @plus8_eq_ok (b &&& 0x0F) borrow.toUInt8
    (by simp only [Alu.toNat_carry, toNat_low]; omega)
  obtain ⟨whole, hwhole, hwholeNat⟩ := @plus16_eq_ok b.toUInt16 borrow.toUInt16
    (by simp only [toNat_carry16, UInt8.toNat_toUInt16]; omega)
  simp only [Alu.toNat_carry, toNat_low] at hlowNat
  simp only [toNat_carry16, UInt8.toNat_toUInt16] at hwholeNat
  simp only [sub8, hlow, hwhole, ok_bind, pure_eq_ok, Alu.sub8,
    UInt8.lt_iff_toNat_lt, UInt16.lt_iff_toNat_lt, toNat_low, UInt8.toNat_toUInt16, hlowNat,
    hwholeNat]

theorem add16_eq (a b : UInt16) (old : Flags) : add16 a b old = .ok (Alu.add16 a b old) := by
  have ha := a.toNat_lt
  have hb := b.toNat_lt
  obtain ⟨sum, hsum, hsumNat⟩ := @plus32_eq_ok a.toUInt32 b.toUInt32
    (by simp only [UInt16.toNat_toUInt32]; omega)
  obtain ⟨low, hlow, hlowNat⟩ := @plus16_eq_ok (a &&& 0x0FFF) (b &&& 0x0FFF)
    (by simp only [toNat_low16]; omega)
  simp only [UInt16.toNat_toUInt32] at hsumNat
  simp only [toNat_low16] at hlowNat
  have hvalue : sum.toUInt16 = a + b := by
    apply UInt16.toNat_inj.mp
    rw [UInt16.toNat_add, UInt32.toNat_toUInt16, hsumNat]
  simp only [add16, hsum, hlow, ok_bind, pure_eq_ok, Alu.add16, hvalue, GT.gt,
    UInt16.lt_iff_toNat_lt, UInt32.lt_iff_toNat_lt, hsumNat, hlowNat]
  rfl

theorem adc16_eq (a b : UInt16) (carry : Bool) : adc16 a b carry = .ok (Alu.adc16 a b carry) := by
  have ha := a.toNat_lt
  have hb := b.toNat_lt
  have hc := carry.toNat_le
  obtain ⟨both, hboth, hbothNat⟩ := @plus32_eq_ok a.toUInt32 b.toUInt32
    (by simp only [UInt16.toNat_toUInt32]; omega)
  obtain ⟨sum, hsum, hsumNat⟩ := @plus32_eq_ok both carry.toUInt32
    (by simp only [toNat_carry32, hbothNat, UInt16.toNat_toUInt32]; omega)
  obtain ⟨parts, hparts, hpartsNat⟩ := @plus32_eq_ok (a &&& 0x0FFF).toUInt32 (b &&& 0x0FFF).toUInt32
    (by simp only [UInt16.toNat_toUInt32, toNat_low16]; omega)
  obtain ⟨low, hlow, hlowNat⟩ := @plus32_eq_ok parts carry.toUInt32
    (by simp only [toNat_carry32, hpartsNat, UInt16.toNat_toUInt32, toNat_low16]; omega)
  simp only [toNat_carry32, hbothNat, UInt16.toNat_toUInt32] at hsumNat
  simp only [toNat_carry32, hpartsNat, UInt16.toNat_toUInt32, toNat_low16] at hlowNat
  have hvalue : sum.toUInt16 = a + b + carry.toUInt8.toUInt16 := by
    apply UInt16.toNat_inj.mp
    simp only [UInt16.toNat_add, UInt32.toNat_toUInt16, hsumNat, UInt8.toNat_toUInt16,
      Alu.toNat_carry]
    omega
  simp only [adc16, hboth, hsum, hparts, hlow, ok_bind, pure_eq_ok, Alu.adc16,
    hvalue, GT.gt, UInt32.lt_iff_toNat_lt, hsumNat, hlowNat]
  rfl

theorem sbc16_eq (a b : UInt16) (borrow : Bool) :
    sbc16 a b borrow = .ok (Alu.sbc16 a b borrow) := by
  have hb := b.toNat_lt
  have hc := borrow.toNat_le
  obtain ⟨low, hlow, hlowNat⟩ := @plus32_eq_ok (b &&& 0x0FFF).toUInt32 borrow.toUInt32
    (by simp only [toNat_carry32, UInt16.toNat_toUInt32, toNat_low16]; omega)
  obtain ⟨whole, hwhole, hwholeNat⟩ := @plus32_eq_ok b.toUInt32 borrow.toUInt32
    (by simp only [toNat_carry32, UInt16.toNat_toUInt32]; omega)
  simp only [toNat_carry32, UInt16.toNat_toUInt32, toNat_low16] at hlowNat
  simp only [toNat_carry32, UInt16.toNat_toUInt32] at hwholeNat
  have hword : borrow.toUInt16 = borrow.toUInt8.toUInt16 := by cases borrow <;> rfl
  simp only [sbc16, hlow, hwhole, ok_bind, pure_eq_ok, Alu.sbc16, hword,
    UInt32.lt_iff_toNat_lt, UInt16.toNat_toUInt32, toNat_low16, hlowNat, hwholeNat]

theorem bitTest_eq (bit v : UInt8) (old : Flags) :
    bitTest bit v old = .ok (Alu.bitTest bit v old) := by
  have hlt : (bit &&& 0x07).toNat < 8 := by
    have := forall_of_all_allBytes (p := fun b => decide ((b &&& 0x07).toNat < 8))
      (by decide +kernel) bit
    exact of_decide_eq_true this
  have hmask : bitMask (bit &&& 0x07) = .ok (Core.bitMask (bit &&& 0x07)) := if_pos hlt
  simp only [bitTest, hmask, ok_bind, pure_eq_ok]
  rfl

theorem accumulate_eq (r : Registers) (op : AluOp) (v : UInt8) (mode : Mode) :
    accumulate r op v mode = .ok (r.accumulate op v mode) := by
  cases op <;>
    simp only [accumulate, add8_eq, sub8_eq, ok_bind, pure_eq_ok] <;> rfl

/-! ### Rounds and operations -/

/-- The time of rounds, if it fits. -/
theorem repeatCost_eq (n : UInt32) :
    repeatCost n =
      if repeatStates n.toNat < 0x100000000 then .ok (UInt32.ofNat (repeatStates n.toNat))
      else .error .overflow := by
  have height : UInt32.toNat 8 = 8 := rfl
  have hsixteen : UInt32.toNat 16 = 16 := rfl
  by_cases hproduct : 8 * n.toNat < 0x100000000
  · have htimes : times32 8 n = .ok (8 * n) := if_pos (by rw [height]; exact hproduct)
    have hproductNat : (8 * n).toNat = 8 * n.toNat := by
      rw [UInt32.toNat_mul, height]
      exact Nat.mod_eq_of_lt hproduct
    have hsum : 16 + 8 * n = UInt32.ofNat (repeatStates n.toNat) := by
      apply UInt32.toNat_inj.mp
      rw [UInt32.toNat_add, hproductNat, hsixteen, UInt32.toNat_ofNat']
      rfl
    simp only [repeatCost, htimes, ok_bind, plus32, hproductNat, hsixteen, hsum]
    rfl
  · have htimes : times32 8 n = .error .overflow := if_neg (by rw [height]; exact hproduct)
    have hstates : ¬ repeatStates n.toNat < 0x100000000 := by
      unfold repeatStates
      omega
    rw [if_neg hstates, repeatCost, htimes]
    rfl

theorem transfers_eq (dir : Direction) (n : Nat) (s : Rounds) (h : s.count.toNat + n < 0x100000000) :
    ∃ count, transfers dir n s = .ok ⟨count, Core.transfers dir n s.core⟩ ∧
      count.toNat = s.count.toNat + n := by
  induction n generalizing s with
  | zero => exact ⟨s.count, rfl, rfl⟩
  | succ n ih =>
    have hone : UInt32.toNat 1 = 1 := rfl
    obtain ⟨next, hnext, hnextNat⟩ := @plus32_eq_ok s.count 1 (by omega)
    obtain ⟨count, hrest, hcount⟩ := ih ⟨next, s.core.transfer dir⟩ (by simp only; omega)
    refine ⟨count, ?_, by simp only at hcount; omega⟩
    simp only [transfers, hnext, ok_bind, hrest, Core.transfers_succ]

theorem compares_eq (dir : Direction) (n : Nat) (s : Rounds) (h : s.count.toNat + n < 0x100000000) :
    ∃ r, compares dir n s = .ok r ∧
      Core.compares dir n ⟨s.count.toNat, s.core⟩ = ⟨r.count.toNat, r.core⟩ := by
  induction n generalizing s with
  | zero => exact ⟨s, rfl, rfl⟩
  | succ n ih =>
    have hone : UInt32.toNat 1 = 1 := rfl
    obtain ⟨next, hnext, hnextNat⟩ := @plus32_eq_ok s.count 1 (by omega)
    rw [hone] at hnextNat
    simp only [compares, hnext, ok_bind, pure_eq_ok, Core.compares_succ, ← hnextNat]
    split
    · exact ⟨_, rfl, rfl⟩
    · exact ih ⟨next, s.core.compare dir⟩ (by simp only; omega)

theorem perform_ldir (c : Core) (dir : Direction) :
    perform c (.ldir dir) = .ok (.ofTimed (c.perform (.ldir dir))) := by
  have hzero : UInt32.toNat 0 = 0 := rfl
  have hle := Core.rounds_le c.regs.main.bc
  obtain ⟨count, hrounds, hcount⟩ := transfers_eq dir (Core.rounds c.regs.main.bc) ⟨0, c⟩
    (by simp only; omega)
  rw [hzero, Nat.zero_add] at hcount
  have hcost := repeatCost_eq count
  rw [if_pos (by unfold repeatStates; omega)] at hcost
  show (transfers dir (Core.rounds c.regs.main.bc) ⟨0, c⟩ >>= fun s => _) = _
  simp only [hrounds, ok_bind, hcost, pure_eq_ok]
  show Except.ok (Timed.ofTimed ⟨repeatStates count.toNat, _⟩) = _
  rw [hcount]
  rfl

theorem perform_cpir (c : Core) (dir : Direction) :
    perform c (.cpir dir) = .ok (.ofTimed (c.perform (.cpir dir))) := by
  have hzero : UInt32.toNat 0 = 0 := rfl
  have hle := Core.rounds_le c.regs.main.bc
  obtain ⟨r, hrounds, hr⟩ := compares_eq dir (Core.rounds c.regs.main.bc) ⟨0, c⟩
    (by simp only; omega)
  have hcount := (Core.compares_loop dir c).1
  rw [hzero] at hr
  rw [hr] at hcount
  have hcost := repeatCost_eq r.count
  rw [if_pos (by simp only at hcount; unfold repeatStates; omega)] at hcost
  have hcore : c.perform (.cpir dir) = ⟨repeatStates r.count.toNat, r.core⟩ := by
    show Cpm.Timed.mk (repeatStates (Core.compares dir _ ⟨0, c⟩).count) _ = _
    rw [hr]
  show (compares dir (Core.rounds c.regs.main.bc) ⟨0, c⟩ >>= fun s => _) = _
  simp only [hrounds, ok_bind, hcost, pure_eq_ok, hcore]
  rfl

theorem perform_eq (c : Core) (o : Operation) : perform c o = .ok (.ofTimed (c.perform o)) := by
  cases o
  case alu op src =>
    show (accumulate c.regs op (c.operand src) c.mode >>= _) = _
    rw [accumulate_eq]
    rfl
  case aluImm op n =>
    show (accumulate c.regs op n c.mode >>= _) = _
    rw [accumulate_eq]
    rfl
  case neg =>
    show (sub8 0 c.regs.main.a false .z80 >>= _) = _
    rw [sub8_eq]
    rfl
  case addPair dst src =>
    show (add16 (c.regs.pointer dst) (c.regs.pair src) c.regs.main.f >>= _) = _
    rw [add16_eq]
    rfl
  case adcHl src =>
    show (adc16 c.regs.main.hl (c.regs.pair src) c.regs.main.f.carry >>= _) = _
    rw [adc16_eq]
    rfl
  case sbcHl src =>
    show (sbc16 c.regs.main.hl (c.regs.pair src) c.regs.main.f.carry >>= _) = _
    rw [sbc16_eq]
    rfl
  case bit n x =>
    show (bitTest n (c.operand x) c.regs.main.f >>= _) = _
    rw [bitTest_eq]
    rfl
  case ldir dir => exact perform_ldir c dir
  case cpir dir => exact perform_cpir c dir
  all_goals rfl

end Cpm.Checked
