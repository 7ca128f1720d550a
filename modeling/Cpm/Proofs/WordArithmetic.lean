import Cpm.Proofs.CarryChains

/-!
# Words as numbers of two bytes

The three operations on words are written on their own, with carries out of bits 11 and 15.
They are shown to be the operations on bytes, carried from the low bytes to the high ones:
the flags are those of the high byte, and only zero has to look at the whole word.
-/

namespace Cpm

namespace Word

theorem high_and (v w : UInt16) : high (v &&& w) = high v &&& high w := by
  simp only [high, UInt16.shiftRight_and, UInt16.toUInt8_and]

theorem high_xor (v w : UInt16) : high (v ^^^ w) = high v ^^^ high w := by
  simp only [high, UInt16.shiftRight_xor, UInt16.toUInt8_xor]

/-- The top bit of a word is that of its high byte. -/
theorem topBit_ne_zero (w : UInt16) : (w &&& 0x8000 != 0) = (high w &&& 0x80 != 0) := by
  have hhigh : high (w &&& 0x8000) = high w &&& 0x80 := high_and w 0x8000
  have hlow : low (w &&& 0x8000) = 0 := by
    rw [low, UInt16.toUInt8_and]
    exact UInt8.and_zero
  have hzero : w &&& 0x8000 = 0 ↔ high w &&& 0x80 = 0 := by
    rw [← hhigh]
    constructor
    · intro h
      rw [h]
      rfl
    · intro h
      rw [← ofBytes_high_low (w &&& 0x8000), h, hlow]
      rfl
  rw [Bool.eq_iff_iff, bne_iff_ne, bne_iff_ne, ne_eq, hzero]

end Word

namespace Alu

variable (a b : UInt16) (carry : Bool)

theorem toNat_wordSum : (a + b + carry.toUInt8.toUInt16).toNat =
    (a.toNat + b.toNat + carry.toNat) % 0x10000 := by
  simp only [UInt16.toNat_add, UInt8.toNat_toUInt16, toNat_carry]
  omega

theorem toNat_wordDifference : (a - b - carry.toUInt8.toUInt16).toNat =
    (0x20000 + a.toNat - b.toNat - carry.toNat) % 0x10000 := by
  have hb := b.toNat_lt
  have hc := carry.toNat_le
  simp only [UInt16.toNat_sub, UInt8.toNat_toUInt16, toNat_carry]
  omega

variable (mode : Mode)

theorem value_add8_low : (add8 (Word.low a) (Word.low b) carry mode).value =
    Word.low (a + b + carry.toUInt8.toUInt16) := by
  apply UInt8.toNat_inj.mp
  rw [Word.toNat_low, toNat_wordSum]
  refine (toNat_sum _ _ _).trans ?_
  rw [Word.toNat_low, Word.toNat_low]
  omega

/-- The carry out of the low bytes. -/
theorem carry_add8_low : (add8 (Word.low a) (Word.low b) carry mode).flags.carry =
    decide (a.toNat % 256 + b.toNat % 256 + carry.toNat > 0xFF) := by
  rw [carry_add8, Word.toNat_low, Word.toNat_low]

theorem value_add8_high :
    (add8 (Word.high a) (Word.high b)
      (add8 (Word.low a) (Word.low b) carry mode).flags.carry mode).value =
      Word.high (a + b + carry.toUInt8.toUInt16) := by
  have ha := a.toNat_lt
  have hb := b.toNat_lt
  have hc := carry.toNat_le
  apply UInt8.toNat_inj.mp
  rw [Word.toNat_high, toNat_wordSum, carry_add8_low]
  refine (toNat_sum _ _ _).trans ?_
  rw [Word.toNat_high, Word.toNat_high, toNat_decide]
  split <;> omega

theorem value_sub8_low : (sub8 (Word.low a) (Word.low b) carry mode).value =
    Word.low (a - b - carry.toUInt8.toUInt16) := by
  have hb := b.toNat_lt
  have hc := carry.toNat_le
  apply UInt8.toNat_inj.mp
  rw [Word.toNat_low, toNat_wordDifference]
  refine (toNat_difference _ _ _).trans ?_
  rw [Word.toNat_low, Word.toNat_low]
  omega

/-- The borrow out of the low bytes. -/
theorem carry_sub8_low : (sub8 (Word.low a) (Word.low b) carry mode).flags.carry =
    decide (a.toNat % 256 < b.toNat % 256 + carry.toNat) := by
  rw [carry_sub8, Word.toNat_low, Word.toNat_low]

theorem value_sub8_high :
    (sub8 (Word.high a) (Word.high b)
      (sub8 (Word.low a) (Word.low b) carry mode).flags.carry mode).value =
      Word.high (a - b - carry.toUInt8.toUInt16) := by
  have ha := a.toNat_lt
  have hb := b.toNat_lt
  have hc := carry.toNat_le
  apply UInt8.toNat_inj.mp
  rw [Word.toNat_high, toNat_wordDifference, carry_sub8_low]
  refine (toNat_difference _ _ _).trans ?_
  rw [Word.toNat_high, Word.toNat_high, toNat_decide]
  split <;> omega

end Alu

/-- A result on words is what a chain over their bytes gives: the value lies in the chain's
bytes, and the flags are those of the high byte but for zero, which tells of the whole word. -/
structure WordResult.FollowsChain (w : WordResult) (r : Alu.Chained) : Prop where
  value : r.bytes = Word.bytes w.value
  flags : ∀ flag, flag ≠ .zero → w.flags.get flag = r.flags.get flag
  zero : w.flags.zero = decide (w.value = 0)
  spare : w.flags.spare = 0

/-- The same of a sum that sets but half carry, subtract and carry, and keeps the rest. -/
structure WordResult.FollowsChainKeeping (w : WordResult) (r : Alu.Chained) (old : Flags) :
    Prop where
  value : r.bytes = Word.bytes w.value
  halfCarry : w.flags.halfCarry = r.flags.halfCarry
  carry : w.flags.carry = r.flags.carry
  subtract : w.flags.subtract = false
  kept : w.flags.sign = old.sign ∧ w.flags.zero = old.zero ∧
    w.flags.parityOverflow = old.parityOverflow
  spare : w.flags.spare = 0

namespace Alu

variable (a b : UInt16) (f : Flags)

theorem adc16_followsChain :
    (adc16 a b f.carry).FollowsChain
      (chain (add8 · · · .z80) (Word.bytes a) (Word.bytes b) f) where
  value := by
    show [_, _] = [_, _]
    rw [value_add8_low, value_add8_high]
    rfl
  flags flag hflag := by
    have hk := congrArg Bool.toNat (carry_add8_low a b f.carry .z80)
    have hhigh := value_add8_high a b f.carry .z80
    show _ = (add8 (Word.high a) (Word.high b)
      (add8 (Word.low a) (Word.low b) f.carry .z80).flags.carry .z80).flags.get flag
    rw [toNat_decide] at hk
    generalize (add8 (Word.low a) (Word.low b) f.carry .z80).flags.carry = k at hk hhigh ⊢
    have hsum := ofSum_add8 (Word.high a) (Word.high b) k .z80
    have ha := a.toNat_lt
    have hb := b.toNat_lt
    have hc := f.carry.toNat_le
    cases flag with
    | zero => exact absurd rfl hflag
    | subtract => simp [adc16, add8]
    | sign =>
      refine Eq.trans ?_ hsum.sign.symm
      rw [hhigh, ← msb_eq_decide, ← topBit_ne_zero, ← Word.topBit_ne_zero]
      simp [adc16]
    | halfCarry =>
      refine Eq.trans ?_ hsum.halfCarry.symm
      simp only [adc16, Flags.get_set, reduceCtorEq, if_false, if_true, decide_eq_decide,
        Word.toNat_high]
      split at hk <;> omega
    | carry =>
      refine Eq.trans ?_ hsum.carry.symm
      simp only [adc16, Flags.get_set, reduceCtorEq, if_false, if_true, decide_eq_decide,
        Word.toNat_high]
      split at hk <;> omega
    | parityOverflow =>
      simp only [adc16, Flags.get_set, reduceCtorEq, if_false, if_true, Word.topBit_ne_zero,
        Word.high_and, Word.high_xor, ← hhigh]
      simp [add8, overflowFlag]
  zero := by simp [adc16, Flags.zero, beq_eq_decide]
  spare := by simp [adc16]

theorem sbc16_followsChain :
    (sbc16 a b f.carry).FollowsChain
      (chain (sub8 · · · .z80) (Word.bytes a) (Word.bytes b) f) where
  value := by
    show [_, _] = [_, _]
    rw [value_sub8_low, value_sub8_high]
    rfl
  flags flag hflag := by
    have hk := congrArg Bool.toNat (carry_sub8_low a b f.carry .z80)
    have hhigh := value_sub8_high a b f.carry .z80
    show _ = (sub8 (Word.high a) (Word.high b)
      (sub8 (Word.low a) (Word.low b) f.carry .z80).flags.carry .z80).flags.get flag
    rw [toNat_decide] at hk
    generalize (sub8 (Word.low a) (Word.low b) f.carry .z80).flags.carry = k at hk hhigh ⊢
    have hdifference := ofDifference_sub8 (Word.high a) (Word.high b) k .z80
    have ha := a.toNat_lt
    have hb := b.toNat_lt
    have hc := f.carry.toNat_le
    cases flag with
    | zero => exact absurd rfl hflag
    | subtract => simp [sbc16, sub8]
    | sign =>
      refine Eq.trans ?_ hdifference.sign.symm
      rw [hhigh, ← msb_eq_decide, ← topBit_ne_zero, ← Word.topBit_ne_zero]
      simp [sbc16]
    | halfCarry =>
      refine Eq.trans ?_ hdifference.halfCarry.symm
      simp only [sbc16, Flags.get_set, reduceCtorEq, if_false, if_true, decide_eq_decide,
        Word.toNat_high]
      split at hk <;> omega
    | carry =>
      refine Eq.trans ?_ hdifference.carry.symm
      simp only [sbc16, Flags.get_set, reduceCtorEq, if_false, if_true, decide_eq_decide,
        Word.toNat_high]
      split at hk <;> omega
    | parityOverflow =>
      simp only [sbc16, Flags.get_set, reduceCtorEq, if_false, if_true, Word.topBit_ne_zero,
        Word.high_and, Word.high_xor, ← hhigh]
      simp [sub8, overflowFlag]
  zero := by simp [sbc16, Flags.zero, beq_eq_decide]
  spare := by simp [sbc16]

/-- A sum without a carry is one whose carry is clear. -/
theorem add16_followsChainKeeping :
    (add16 a b f).FollowsChainKeeping
      (chain (add8 · · · .z80) (Word.bytes a) (Word.bytes b) Flags.none) f := by
  have hchain := adc16_followsChain a b Flags.none
  have hnone : Flags.none.carry = false := rfl
  have hvalue : (add16 a b f).value = (adc16 a b false).value :=
    (UInt16.add_zero (a + b)).symm
  rw [hnone] at hchain
  constructor
  case value => rw [hchain.value, hvalue]
  case halfCarry =>
    refine Eq.trans ?_ (hchain.flags .halfCarry (by decide))
    simp [add16, adc16, Flags.halfCarry]
  case carry =>
    refine Eq.trans ?_ (hchain.flags .carry (by decide))
    simp [add16, adc16, Flags.carry]
  case subtract => simp [add16, Flags.subtract]
  case kept => simp [add16, Flags.sign, Flags.zero, Flags.parityOverflow]
  case spare => simp [add16]

/-- Bytes worked on from the lowest up, each with the carry of the one before, give the sum or
the difference of the whole numbers in either mode, and the operations on words are chains of
two bytes in Z80 mode. -/
theorem carry_chains_compute_integers :
    (∀ (mode : Mode) (xs ys : List UInt8) (f : Flags),
      xs.length = ys.length → 1 ≤ xs.length →
        (chain (add8 · · · mode) xs ys f).IsSum mode xs ys f.carry ∧
        (chain (sub8 · · · mode) xs ys f).IsDifference mode xs ys f.carry) ∧
    ∀ (a b : UInt16) (f : Flags),
      (adc16 a b f.carry).FollowsChain
        (chain (add8 · · · .z80) (Word.bytes a) (Word.bytes b) f) ∧
      (sbc16 a b f.carry).FollowsChain
        (chain (sub8 · · · .z80) (Word.bytes a) (Word.bytes b) f) ∧
      (add16 a b f).FollowsChainKeeping
        (chain (add8 · · · .z80) (Word.bytes a) (Word.bytes b) Flags.none) f := by
  refine ⟨fun mode xs ys f hlength hpos => ?_, fun a b f => ?_⟩
  · have hne : xs ≠ [] := List.ne_nil_of_length_pos hpos
    exact ⟨chain_isSum hlength hne mode f, chain_isDifference hlength hne mode f⟩
  · exact ⟨adc16_followsChain a b f, sbc16_followsChain a b f, add16_followsChainKeeping a b f⟩

/-- The greatest signed number of three bytes and a carry: it runs through all the bytes, and the
sum is negative. -/
theorem carry_through_three_bytes_overflows :
    let xs : List UInt8 := [0xFF, 0xFF, 0x7F]
    let ys : List UInt8 := [0, 0, 0]
    let r := chain (add8 · · · .z80) xs ys ⟨0x01⟩
    xs.length = ys.length ∧ 1 ≤ xs.length ∧ binary xs = 0x7FFFFF ∧
      r.flags.parityOverflow = true ∧ r.flags.sign = true ∧
      binary r.bytes + 0x1000000 * r.flags.carry.toNat = 0x800000 := by
  intro xs ys r
  obtain ⟨hchains, -⟩ := carry_chains_compute_integers
  obtain ⟨hsum, -⟩ := hchains .z80 xs ys ⟨0x01⟩ rfl (by decide)
  exact ⟨rfl, by decide, by decide, (hsum.overflow rfl).trans (by decide),
    hsum.sign.trans (by decide), hsum.value.trans (by decide)⟩

end Alu

end Cpm
