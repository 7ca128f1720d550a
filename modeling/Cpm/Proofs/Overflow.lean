import Cpm.Core.Perform
import Cpm.Proofs.FlagReadings

/-!
# Signed overflow and parity

The parity/overflow flag is computed from the bits of the operands and the result.
In Z80 mode it says that the exact result on signed numbers does not fit a byte, in
8080 mode that the result has an odd number of one bits. The other flags do not
depend on the mode.
-/

namespace Cpm

def signed (v : UInt8) : Int := v.toInt8.toInt

/-- The number is out of the range of a signed byte. -/
def overflows (x : Int) : Bool := x < -128 || 127 < x

/-- The byte has an odd number of one bits. -/
def oddParity (v : UInt8) : Bool := v.toBitVec.cpop.toNat % 2 = 1

theorem oddParity_eq (v : UInt8) : oddParity v = !Flags.evenParity v :=
  eq_of_all_allBytes (f := oddParity) (g := fun v => !Flags.evenParity v) (by decide +kernel) v

theorem topBit_ne_zero (v : UInt8) : (v &&& 0x80 != 0) = v.toBitVec.msb :=
  eq_of_all_allBytes (f := fun v => v &&& 0x80 != 0) (g := fun v => v.toBitVec.msb)
    (by decide +kernel) v

theorem msb_eq_decide (v : UInt8) : v.toBitVec.msb = decide (128 ≤ v.toNat) :=
  BitVec.msb_eq_decide v.toBitVec

/-- The top bit tells the negative numbers. -/
theorem signed_eq (v : UInt8) :
    signed v = if 128 ≤ v.toNat then (v.toNat : Int) - 256 else v.toNat := by
  have h : signed v = if v.toBitVec.msb then (v.toNat : Int) - 256 else v.toNat :=
    BitVec.toInt_eq_msb_cond v.toBitVec
  rw [h, msb_eq_decide]
  simp only [decide_eq_true_eq]

/-- Two pairs of bytes each have different signs. -/
theorem topBit_xor_and_xor (p q r t : UInt8) :
    ((p ^^^ q) &&& (r ^^^ t) &&& 0x80 != 0) = true ↔
      ¬ (128 ≤ p.toNat ↔ 128 ≤ q.toNat) ∧ ¬ (128 ≤ r.toNat ↔ 128 ≤ t.toNat) := by
  rw [topBit_ne_zero, UInt8.toBitVec_and, UInt8.toBitVec_xor, UInt8.toBitVec_xor, BitVec.msb_and,
    BitVec.msb_xor, BitVec.msb_xor]
  simp only [msb_eq_decide, Bool.and_eq_true, bne_iff_ne, ne_eq, decide_eq_decide]

@[simp] theorem ofInt_signed (v : UInt8) : UInt8.ofInt (signed v) = v :=
  eq_of_all_allBytes (f := fun v => UInt8.ofInt (signed v)) (g := id) (by decide +kernel) v

theorem ofInt_carry (carry : Bool) : UInt8.ofInt carry.toNat = carry.toUInt8 := by
  cases carry <;> rfl

namespace Alu

variable (a b : UInt8) (carry : Bool)

theorem toNat_carry : carry.toUInt8.toNat = carry.toNat := by
  cases carry <;> rfl

theorem toNat_sum :
    (a + b + carry.toUInt8).toNat = (a.toNat + b.toNat + carry.toNat) % 256 := by
  simp only [UInt8.toNat_add, toNat_carry]
  omega

theorem toNat_difference :
    (a - b - carry.toUInt8).toNat = (512 + a.toNat - b.toNat - carry.toNat) % 256 := by
  have hb : b.toNat < 256 := b.toNat_lt
  have hc : carry.toNat ≤ 1 := carry.toNat_le
  simp only [UInt8.toNat_sub, toNat_carry]
  omega

/-- A sum overflows if it has another sign than both numbers. -/
theorem sum_overflows :
    let v := a + b + carry.toUInt8
    ((a ^^^ v) &&& (b ^^^ v) &&& 0x80 != 0) = overflows (signed a + signed b + carry.toNat) := by
  intro v
  have hv : v.toNat = (a.toNat + b.toNat + carry.toNat) % 256 := toNat_sum a b carry
  have ha : a.toNat < 256 := a.toNat_lt
  have hb : b.toNat < 256 := b.toNat_lt
  have hc : carry.toNat ≤ 1 := carry.toNat_le
  rw [Bool.eq_iff_iff, topBit_xor_and_xor, signed_eq, signed_eq, overflows]
  simp only [Bool.or_eq_true, decide_eq_true_eq]
  split <;> split <;> omega

/-- A difference overflows if the numbers have different signs and it has another sign
than the first. -/
theorem difference_overflows :
    let v := a - b - carry.toUInt8
    ((a ^^^ b) &&& (a ^^^ v) &&& 0x80 != 0) = overflows (signed a - signed b - carry.toNat) := by
  intro v
  have hv : v.toNat = (512 + a.toNat - b.toNat - carry.toNat) % 256 := toNat_difference a b carry
  have ha : a.toNat < 256 := a.toNat_lt
  have hb : b.toNat < 256 := b.toNat_lt
  have hc : carry.toNat ≤ 1 := carry.toNat_le
  rw [Bool.eq_iff_iff, topBit_xor_and_xor, signed_eq, signed_eq, overflows]
  simp only [Bool.or_eq_true, decide_eq_true_eq]
  split <;> split <;> omega

/-- The sum of the bytes is the exact sum cut off to a byte. -/
theorem ofInt_sum : UInt8.ofInt (signed a + signed b + carry.toNat) = a + b + carry.toUInt8 := by
  simp only [UInt8.ofInt_add, ofInt_signed, ofInt_carry]

theorem ofInt_difference :
    UInt8.ofInt (signed a - signed b - carry.toNat) = a - b - carry.toUInt8 := by
  simp only [Int.sub_eq_add_neg, UInt8.ofInt_add, UInt8.ofInt_neg, ofInt_signed, ofInt_carry]
  rw [← UInt8.sub_eq_add_neg, ← UInt8.sub_eq_add_neg]

end Alu

namespace Flags

variable (f : Flags) (on : Bool)

@[simp] theorem parityOverflow_set : (f.set .parityOverflow on).parityOverflow = on := by
  simp [parityOverflow]

def withoutParity : Flags := f.set .parityOverflow false

@[simp] theorem withoutParity_set :
    (f.set .parityOverflow on).withoutParity = f.withoutParity := by
  have h : ∀ v : UInt8, (set ⟨v⟩ .parityOverflow on).withoutParity = withoutParity ⟨v⟩ :=
    eq_of_all_allBytes (by cases on <;> decide +kernel)
  exact h f.bits

end Flags

namespace AluOp

/-- The operation works on each bit alone. -/
def isLogical : AluOp → Bool
  | .and | .xor | .or => true
  | _ => false

/-- The exact result on signed numbers of the operations that have one. -/
def signed? (op : AluOp) (a v : UInt8) (carry : Bool) : Option Int :=
  match op with
  | .add => some (signed a + signed v)
  | .adc => some (signed a + signed v + carry.toNat)
  | .sub | .cp => some (signed a - signed v)
  | .sbc => some (signed a - signed v - carry.toNat)
  | .and | .xor | .or => none

theorem exists_signed? {op : AluOp} (h : op.isLogical = false) (a v : UInt8) (carry : Bool) :
    ∃ x, op.signed? a v carry = some x := by
  cases op
  case and | xor | or => exact absurd h (by decide)
  all_goals exact ⟨_, rfl⟩

end AluOp

namespace Alu

variable (a v : UInt8) (carry : Bool) (mode : Mode)

/-- What parity/overflow reports of an exact result. -/
def parityFlag (x : Int) : Bool :=
  match mode with
  | .i8080 => oddParity (UInt8.ofInt x)
  | .z80 => overflows x

theorem parityOverflow_add8 :
    (add8 a v carry mode).flags.parityOverflow =
      parityFlag mode (signed a + signed v + carry.toNat) := by
  have hsum := sum_overflows a v carry
  simp only [add8, Flags.parityOverflow_set]
  cases mode with
  | i8080 => simp only [overflowFlag, parityFlag, ofInt_sum, oddParity_eq]
  | z80 => exact hsum

theorem parityOverflow_sub8 :
    (sub8 a v carry mode).flags.parityOverflow =
      parityFlag mode (signed a - signed v - carry.toNat) := by
  have hdifference := difference_overflows a v carry
  simp only [sub8, Flags.parityOverflow_set]
  cases mode with
  | i8080 => simp only [overflowFlag, parityFlag, ofInt_difference, oddParity_eq]
  | z80 => exact hdifference

end Alu

namespace Registers

variable (r : Registers) (op : AluOp) (v : UInt8)

def withoutParity : Registers := r.setFlags r.main.f.withoutParity

/-- Only parity/overflow can depend on the mode. -/
theorem accumulate_withoutParity (mode other : Mode) :
    (r.accumulate op v mode).withoutParity = (r.accumulate op v other).withoutParity := by
  cases op <;>
    simp only [accumulate, withoutParity, setResult, setFlags, Alu.add8, Alu.sub8, Alu.compare8,
      Flags.withoutParity_set]

/-- It depends on the mode only after additions, subtractions and comparisons. -/
theorem accumulate_of_isLogical (h : op.isLogical = true) (mode other : Mode) :
    r.accumulate op v mode = r.accumulate op v other := by
  cases op
  case and | xor | or => rfl
  all_goals exact absurd h (by decide)

theorem accumulate_parityOverflow (mode : Mode) {x : Int}
    (h : op.signed? r.main.a v r.main.f.carry = some x) :
    (r.accumulate op v mode).main.f.parityOverflow = Alu.parityFlag mode x := by
  have hno : (false.toNat : Int) = 0 := rfl
  cases op
  case add =>
    cases h
    have hflag := Alu.parityOverflow_add8 r.main.a v false mode
    rw [hno, Int.add_zero] at hflag
    exact hflag
  case adc =>
    cases h
    exact Alu.parityOverflow_add8 _ _ _ mode
  case sub | cp =>
    cases h
    have hflag := Alu.parityOverflow_sub8 r.main.a v false mode
    rw [hno, Int.sub_zero] at hflag
    exact hflag
  case sbc =>
    cases h
    exact Alu.parityOverflow_sub8 _ _ _ mode
  case and | xor | or => exact absurd h (Option.some_ne_none _).symm

end Registers

end Cpm
