import Cpm.Proofs.AccumulatorArithmetic
import Mathlib.Data.Nat.Bitwise

/-!
# Changes of one byte

A byte can be counted up or down, rotated or shifted, and have one of its bits tested, cleared
or set. What each of these must give, with the flags it leaves, is stated on numbers or bit by
bit, apart from the masks and shifts by which the operations compute it.
-/

namespace Cpm

/-! ### Bits moved by one place -/

/-- Bits moved one place up, with the lowest filled. -/
def bitsUp (bit : Nat → Bool) (fill : Bool) : Nat → Bool
  | 0 => fill
  | i + 1 => bit i

/-- The eight bits moved one place down, with the highest filled. -/
def bitsDown (bit : Nat → Bool) (fill : Bool) (i : Nat) : Bool :=
  if i = 7 then fill else bit (i + 1)

/-- The bits of a byte under a mask of one. -/
theorem testBit_mask (n i : Fin 8) :
    (Core.bitMask (UInt8.ofNat n)).toNat.testBit i = decide (i = n) := by
  revert n i
  decide

theorem testBit_not (v : UInt8) (i : Fin 8) : (~~~v).toNat.testBit i = !v.toNat.testBit i := by
  have hnot : (~~~v.toBitVec).getLsbD i = !v.toBitVec.getLsbD i := by
    rw [BitVec.getLsbD_not, decide_eq_true i.isLt, Bool.true_and]
  exact hnot

/-- All bits but one are kept. -/
theorem testBit_and_not_bitMask (v : UInt8) (n i : Fin 8) :
    (v &&& ~~~Core.bitMask (UInt8.ofNat n)).toNat.testBit i =
      if i.val = n then false else v.toNat.testBit i := by
  rw [UInt8.toNat_and, Nat.testBit_and, testBit_not, testBit_mask]
  by_cases h : i = n <;> simp [h, Fin.val_inj]

theorem testBit_or_bitMask (v : UInt8) (n i : Fin 8) :
    (v ||| Core.bitMask (UInt8.ofNat n)).toNat.testBit i =
      if i.val = n then true else v.toNat.testBit i := by
  rw [UInt8.toNat_or, Nat.testBit_or, testBit_mask]
  by_cases h : i = n <;> simp [h, Fin.val_inj]

theorem mask_eq_bitMask (n : Fin 8) :
    (1 : UInt8) <<< (UInt8.ofNat n &&& 0x07) = Core.bitMask (UInt8.ofNat n) := by
  revert n
  decide

/-- The byte under a mask of one bit tells that bit. -/
theorem and_bitMask_ne_zero (v : UInt8) (n : Fin 8) :
    (v &&& Core.bitMask (UInt8.ofNat n) != 0) = v.toNat.testBit n := by
  have hmask : (Core.bitMask (UInt8.ofNat n)).toNat = 2 ^ n.val := by
    revert n
    decide
  rw [Bool.eq_iff_iff, bne_iff_ne, ne_eq, ← UInt8.toNat_inj, UInt8.toNat_and, hmask,
    Nat.and_two_pow]
  cases v.toNat.testBit n <;> simp

/-- A carry as a byte has no bit but the lowest. -/
theorem testBit_carry (carry : Bool) (i : Nat) :
    carry.toUInt8.toNat.testBit i = (decide (i = 0) && carry) := by
  rw [Alu.toNat_carry]
  cases carry with
  | false => simp
  | true =>
    rw [Bool.and_true, Bool.eq_iff_iff, decide_eq_true_iff]
    exact Nat.testBit_one_eq_true_iff_self_eq_zero

namespace Shift

variable (s : Shift) (v : UInt8) (fill carry : Bool)

def bits (s : Shift) (bit : Nat → Bool) (carry : Bool) : Nat → Bool :=
  match s with
  | .rlc => bitsUp bit (bit 7)
  | .rrc => bitsDown bit (bit 0)
  | .rl => bitsUp bit carry
  | .rr => bitsDown bit carry
  | .sla => bitsUp bit false
  | .sra => bitsDown bit (bit 7)
  | .sll => bitsUp bit true
  | .srl => bitsDown bit false

def leaving (s : Shift) (bit : Nat → Bool) : Bool :=
  match s with
  | .rlc | .rl | .sla | .sll => bit 7
  | .rrc | .rr | .sra | .srl => bit 0

theorem testBit_up (i : Fin 8) :
    (v <<< 1 ||| fill.toUInt8).toNat.testBit i = bitsUp v.toNat.testBit fill i := by
  have hshift : (v <<< 1).toNat = v.toNat <<< 1 % 2 ^ 8 := UInt8.toNat_shiftLeft v 1
  rw [UInt8.toNat_or, Nat.testBit_or, hshift, Nat.testBit_mod_two_pow, Nat.testBit_shiftLeft,
    testBit_carry]
  obtain ⟨i, hi⟩ := i
  cases i with
  | zero => simp [bitsUp]
  | succ i => simp [bitsUp, hi]

theorem testBit_down (i : Fin 8) :
    (v >>> 1 ||| fill.toUInt8 <<< 7).toNat.testBit i = bitsDown v.toNat.testBit fill i := by
  have hshift : (v >>> 1).toNat = v.toNat >>> 1 := UInt8.toNat_shiftRight v 1
  have hfill : (fill.toUInt8 <<< 7).toNat = fill.toUInt8.toNat <<< 7 % 2 ^ 8 :=
    UInt8.toNat_shiftLeft _ 7
  rw [UInt8.toNat_or, Nat.testBit_or, hshift, hfill, Nat.testBit_mod_two_pow,
    Nat.testBit_shiftRight, Nat.testBit_shiftLeft, testBit_carry]
  obtain ⟨i, hi⟩ := i
  by_cases htop : i = 7
  · subst htop
    have hlt : v.toNat < 2 ^ 8 := v.toNat_lt
    simp [bitsDown, Nat.testBit_lt_two_pow hlt]
  · have hbelow : ¬ 7 ≤ i := by omega
    simp [bitsDown, htop, hbelow, Nat.add_comm]

theorem topBit_eq_testBit : (v &&& 0x80 != 0) = v.toNat.testBit 7 := and_bitMask_ne_zero v 7

theorem lowBit_eq_testBit : (v &&& 0x01 != 0) = v.toNat.testBit 0 := and_bitMask_ne_zero v 0

theorem bitOut_eq : s.bitOut v = s.leaving v.toNat.testBit := by
  cases s <;> simp [bitOut, isLeft, leaving, topBit_eq_testBit, lowBit_eq_testBit]

theorem testBit_shifted (i : Fin 8) :
    (s.shifted v carry).toNat.testBit i = s.bits v.toNat.testBit carry i := by
  cases s
  case rlc | rl | sla | sll =>
    refine (testBit_up v _ i).trans ?_
    simp [bitIn, bits, bitOut_eq, leaving]
  case rrc | rr | sra | srl =>
    refine (testBit_down v _ i).trans ?_
    simp [bitIn, bits, bitOut_eq, leaving, topBit_eq_testBit]

end Shift

/-! ### What a change must give -/

/-- A change of one byte. A test of a bit leaves the byte as it is. -/
inductive ByteChange where
  | inc | dec
  | shift (s : Shift)
  | bit (n : Fin 8)
  | res (n : Fin 8)
  | set (n : Fin 8)
  deriving DecidableEq

namespace Flags

/-- The byte `v` counted by one: `edge` is the last byte before the sign changes, and `half` tells
whether the low digit carries or borrows. The carry is kept. -/
structure OfCount (step : Int) (edge : UInt8) (half down : Bool) (v r : UInt8) (f old : Flags) :
    Prop extends f.Describes r where
  result : (r.toNat : Int) = (v.toNat + step) % 256
  halfCarry : f.halfCarry = half
  parityOverflow : f.parityOverflow = (v = edge : Bool)
  subtract : f.subtract = down
  carry : f.carry = old.carry

/-- The byte `v` shifted by one place: the carry takes the bit that leaves, and parity/overflow
tells whether the number of one bits is even. -/
structure OfShift (s : Shift) (v r : UInt8) (f old : Flags) : Prop extends f.Describes r where
  result : ∀ i < 8, r.toNat.testBit i = s.bits v.toNat.testBit old.carry i
  halfCarry : f.halfCarry = false
  parityOverflow : f.parityOverflow = !oddParity r
  subtract : f.subtract = false
  carry : f.carry = s.leaving v.toNat.testBit

/-- Bit `n` of the byte `v` tested. Only bit 7 can set the sign. -/
structure OfBitTest (n : Nat) (v : UInt8) (f old : Flags) : Prop where
  sign : f.sign = (n = 7 && v.toNat.testBit n : Bool)
  zero : f.zero = !v.toNat.testBit n
  halfCarry : f.halfCarry = true
  parityOverflow : f.parityOverflow = !v.toNat.testBit n
  subtract : f.subtract = false
  carry : f.carry = old.carry
  spare : f.spare = 0

end Flags

namespace ByteChange

/-- The byte `r` and the flags `f` that a change of the byte `v` must give. -/
def Exact (ch : ByteChange) (v r : UInt8) (f old : Flags) : Prop :=
  match ch with
  | .inc => f.OfCount 1 0x7F (16 ≤ v.toNat % 16 + 1 : Bool) false v r old
  | .dec => f.OfCount (-1) 0x80 (v.toNat % 16 < 1 : Bool) true v r old
  | .shift s => f.OfShift s v r old
  | .bit n => r = v ∧ f.OfBitTest n v old
  | .res n => (∀ i < 8, r.toNat.testBit i = if i = n then false else v.toNat.testBit i) ∧ f = old
  | .set n => (∀ i < 8, r.toNat.testBit i = if i = n then true else v.toNat.testBit i) ∧ f = old

def result (ch : ByteChange) (v : UInt8) (old : Flags) : ByteResult :=
  match ch with
  | .inc => Alu.inc8 v old
  | .dec => Alu.dec8 v old
  | .shift s => Alu.shift s v old
  | .bit n => ⟨v, Alu.bitTest (UInt8.ofNat n) v old⟩
  | .res n => ⟨v &&& ~~~Core.bitMask (UInt8.ofNat n), old⟩
  | .set n => ⟨v ||| Core.bitMask (UInt8.ofNat n), old⟩

end ByteChange

namespace Alu

variable (v : UInt8) (old : Flags)

theorem ofCount_inc8 :
    (inc8 v old).flags.OfCount 1 0x7F (16 ≤ v.toNat % 16 + 1 : Bool) false v (inc8 v old).value
      old where
  toDescribes := (((Flags.describes_ofSignZero _).set (by decide) _).set (by decide) _).set
    (by decide) _
  result := by
    show ((v + 1).toNat : Int) = (v.toNat + 1) % 256
    rw [UInt8.toNat_add, UInt8.toNat_one]
    omega
  halfCarry := by
    have hiff : v.toNat % 16 = 0x0F ↔ 16 ≤ v.toNat % 16 + 1 := by omega
    have hsame : (16 ≤ v.toNat % 16 + 1 : Bool) = (v.toNat % 16 = 0x0F : Bool) :=
      decide_eq_decide.mpr hiff.symm
    rw [hsame]
    simp [inc8, Flags.halfCarry, Bool.beq_eq_decide_eq]
  parityOverflow := by simp [inc8, Flags.parityOverflow, Bool.beq_eq_decide_eq]
  subtract := by simp [inc8, Flags.subtract]
  carry := by simp [inc8, Flags.carry]

theorem ofCount_dec8 :
    (dec8 v old).flags.OfCount (-1) 0x80 (v.toNat % 16 < 1 : Bool) true v (dec8 v old).value
      old where
  toDescribes := ((((Flags.describes_ofSignZero _).set (by decide) _).set (by decide) _).set
    (by decide) _).set (by decide) _
  result := by
    show ((v - 1).toNat : Int) = (v.toNat + -1) % 256
    rw [UInt8.toNat_sub, UInt8.toNat_one]
    omega
  halfCarry := by simp [dec8, Flags.halfCarry, Bool.beq_eq_decide_eq]
  parityOverflow := by simp [dec8, Flags.parityOverflow, Bool.beq_eq_decide_eq]
  subtract := by simp [dec8, Flags.subtract]
  carry := by simp [dec8, Flags.carry]

theorem ofShift_shift (s : Shift) :
    (shift s v old).flags.OfShift s v (shift s v old).value old where
  toDescribes := (Flags.describes_ofSignZeroParity _).set (by decide) _
  result i hi := s.testBit_shifted v old.carry ⟨i, hi⟩
  halfCarry := by simp [shift, Flags.halfCarry]
  parityOverflow := by simp [shift, Flags.parityOverflow, oddParity_eq]
  subtract := by simp [shift, Flags.subtract]
  carry := by simp [shift, Flags.carry, s.bitOut_eq]

theorem ofBitTest_bitTest (n : Fin 8) :
    (bitTest (UInt8.ofNat n) v old).OfBitTest n v old := by
  have hseven : (UInt8.ofNat n == 7) = decide (n.val = 7) := by
    revert n
    decide
  constructor <;> simp [bitTest, mask_eq_bitMask, and_bitMask_ne_zero, hseven, Flags.sign,
    Flags.zero, Flags.halfCarry, Flags.parityOverflow, Flags.subtract, Flags.carry]

end Alu

/-- The operations on bytes give what each change must give. -/
theorem ByteChange.exact_result (ch : ByteChange) (v : UInt8) (old : Flags) :
    ch.Exact v (ch.result v old).value (ch.result v old).flags old := by
  cases ch with
  | inc => exact Alu.ofCount_inc8 v old
  | dec => exact Alu.ofCount_dec8 v old
  | shift s => exact Alu.ofShift_shift v old s
  | bit n => exact ⟨rfl, Alu.ofBitTest_bitTest v old n⟩
  | res n => exact ⟨fun i hi => testBit_and_not_bitMask v n ⟨i, hi⟩, rfl⟩
  | set n => exact ⟨fun i hi => testBit_or_bitMask v n ⟨i, hi⟩, rfl⟩

end Cpm
