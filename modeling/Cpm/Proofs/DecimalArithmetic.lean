import Cpm.Proofs.CarryChains

/-!
# Decimal numbers of any length

A byte holds two decimal digits, one in each half. Addition and subtraction work on the byte
as on any other, and the adjustment puts each half right that left the decimal digits: it adds
or takes away six there. With the adjustment a place is exact in base 100, and so is a number
of any length.
-/

namespace Cpm

/-- Both halves of the byte are decimal digits. -/
def IsPacked (v : UInt8) : Prop := v.toNat / 16 ≤ 9 ∧ v.toNat % 16 ≤ 9

/-- The number below a hundred that the two digits of a byte stand for. -/
def packed (v : UInt8) : Nat := 10 * (v.toNat / 16) + v.toNat % 16

def decimal (bytes : List UInt8) : Nat := numberOf 100 packed bytes

namespace Alu

/-- An operation with the decimal adjustment of its result. -/
def adjusted (op : UInt8 → UInt8 → Bool → ByteResult) (x y : UInt8) (carry : Bool) : ByteResult :=
  daa (op x y carry).value (op x y carry).flags

theorem toNat_correction (low high : Bool) :
    ((if low then (0x06 : UInt8) else 0) ||| if high then 0x60 else 0).toNat =
      6 * low.toNat + 96 * high.toNat := by
  cases low <;> cases high <;> rfl

section Adjustment

variable {a : UInt8} {f : Flags}

theorem toNat_daa_of_sum (h : f.subtract = false) :
    (daa a f).value.toNat =
      (a.toNat + (6 * (lowDigitOff a f).toNat + 96 * (highDigitOff a f).toNat)) % 256 := by
  rw [← toNat_correction, ← UInt8.toNat_add]
  simp only [daa, h, Bool.false_eq_true, if_false]

theorem toNat_daa_of_difference (h : f.subtract = true) :
    (daa a f).value.toNat =
      (256 - (6 * (lowDigitOff a f).toNat + 96 * (highDigitOff a f).toNat) + a.toNat) % 256 := by
  rw [← toNat_correction, ← UInt8.toNat_sub]
  simp only [daa, h, if_true]

theorem carry_daa (a : UInt8) (f : Flags) : (daa a f).flags.carry = highDigitOff a f := by
  simp [daa, Flags.carry]

end Adjustment

/-- The high half is off if the byte is beyond 99h, or has a carry. -/
theorem highDigitOff_eq (a : UInt8) (f : Flags) :
    highDigitOff a f = (f.carry || decide (0x99 < a.toNat)) := rfl

section Sum

variable {x y : UInt8} (carry : Bool) (mode : Mode)

/-- The low half is off exactly if the low digits add up to ten or more. -/
theorem lowDigitOff_add8 (hx : IsPacked x) (hy : IsPacked y) :
    lowDigitOff (add8 x y carry mode).value (add8 x y carry mode).flags =
      decide (10 ≤ x.toNat % 16 + y.toNat % 16 + carry.toNat) := by
  have hsum := ofSum_add8 x y carry mode
  obtain ⟨-, hx⟩ := hx
  obtain ⟨-, hy⟩ := hy
  rw [lowDigitOff, hsum.halfCarry, hsum.result, ← Bool.decide_or, decide_eq_decide]
  omega

/-- The high half is off exactly if the two numbers add up to a hundred or more. -/
theorem highDigitOff_add8 (hx : IsPacked x) (hy : IsPacked y) :
    highDigitOff (add8 x y carry mode).value (add8 x y carry mode).flags =
      decide (100 ≤ packed x + packed y + carry.toNat) := by
  have hsum := ofSum_add8 x y carry mode
  have hcarry := carry.toNat_le
  obtain ⟨hx, hx'⟩ := hx
  obtain ⟨hy, hy'⟩ := hy
  rw [highDigitOff_eq, hsum.carry, hsum.result, ← Bool.decide_or, decide_eq_decide, packed, packed]
  omega

/-- An adjusted sum has six more for ten in the low half, and sixteen tens less for a hundred. -/
theorem toNat_adjusted_add8 (hx : IsPacked x) (hy : IsPacked y) :
    (adjusted (add8 · · · mode) x y carry).value.toNat +
        160 * (if 100 ≤ packed x + packed y + carry.toNat then 1 else 0) =
      x.toNat + y.toNat + carry.toNat +
        6 * (if 10 ≤ x.toNat % 16 + y.toNat % 16 + carry.toNat then 1 else 0) := by
  have hsum := ofSum_add8 x y carry mode
  have hc := carry.toNat_le
  rw [adjusted, toNat_daa_of_sum hsum.subtract, lowDigitOff_add8 carry mode hx hy,
    highDigitOff_add8 carry mode hx hy, toNat_decide, toNat_decide, hsum.result]
  obtain ⟨hx, hx'⟩ := hx
  obtain ⟨hy, hy'⟩ := hy
  split <;> split <;> simp only [packed] at * <;> omega

/-- With the adjustment a sum is exact in base 100. -/
theorem exactInPlace_adjusted_add8 :
    ExactInPlace (adjusted (add8 · · · mode)) 100 packed 1 IsPacked where
  valid x y carry hx hy := by
    have hvalue := toNat_adjusted_add8 carry mode hx hy
    have hc := carry.toNat_le
    obtain ⟨hx, hx'⟩ := hx
    obtain ⟨hy, hy'⟩ := hy
    split at hvalue <;> split at hvalue <;> simp only [IsPacked, packed] at * <;> omega
  exact x y carry hx hy := by
    have hvalue := toNat_adjusted_add8 carry mode hx hy
    have hcarry : (adjusted (add8 · · · mode) x y carry).flags.carry = _ :=
      (carry_daa _ _).trans (highDigitOff_add8 carry mode hx hy)
    have hc := carry.toNat_le
    obtain ⟨hx, hx'⟩ := hx
    obtain ⟨hy, hy'⟩ := hy
    rw [hcarry, toNat_decide]
    revert hvalue
    split <;> split <;> simp only [packed] at * <;> omega

end Sum

section Difference

variable {x y : UInt8} (carry : Bool) (mode : Mode)

/-- The low half is off exactly if the low digits borrow. -/
theorem lowDigitOff_sub8 (hx : IsPacked x) (hy : IsPacked y) :
    lowDigitOff (sub8 x y carry mode).value (sub8 x y carry mode).flags =
      decide (x.toNat % 16 < y.toNat % 16 + carry.toNat) := by
  have hdifference := ofDifference_sub8 x y carry mode
  have hvalue : (sub8 x y carry mode).value.toNat = _ := toNat_difference x y carry
  have hcarry := carry.toNat_le
  obtain ⟨-, hx⟩ := hx
  obtain ⟨-, hy⟩ := hy
  rw [lowDigitOff, hdifference.halfCarry, hvalue, ← Bool.decide_or, decide_eq_decide]
  omega

/-- The high half is off exactly if the numbers borrow. -/
theorem highDigitOff_sub8 (hx : IsPacked x) (hy : IsPacked y) :
    highDigitOff (sub8 x y carry mode).value (sub8 x y carry mode).flags =
      decide (packed x < packed y + carry.toNat) := by
  have hdifference := ofDifference_sub8 x y carry mode
  have hvalue : (sub8 x y carry mode).value.toNat = _ := toNat_difference x y carry
  have hcarry := carry.toNat_le
  obtain ⟨hx, hx'⟩ := hx
  obtain ⟨hy, hy'⟩ := hy
  rw [highDigitOff_eq, hdifference.carry, hvalue, ← Bool.decide_or, decide_eq_decide, packed,
    packed]
  omega

/-- An adjusted difference has six less for a ten that the low half borrows, and sixteen tens
more for a hundred. -/
theorem toNat_adjusted_sub8 (hx : IsPacked x) (hy : IsPacked y) :
    (adjusted (sub8 · · · mode) x y carry).value.toNat + y.toNat + carry.toNat +
        6 * (if x.toNat % 16 < y.toNat % 16 + carry.toNat then 1 else 0) =
      x.toNat + 160 * (if packed x < packed y + carry.toNat then 1 else 0) := by
  have hdifference := ofDifference_sub8 x y carry mode
  have hvalue : (sub8 x y carry mode).value.toNat = _ := toNat_difference x y carry
  have hc := carry.toNat_le
  rw [adjusted, toNat_daa_of_difference hdifference.subtract, lowDigitOff_sub8 carry mode hx hy,
    highDigitOff_sub8 carry mode hx hy, toNat_decide, toNat_decide, hvalue]
  obtain ⟨hx, hx'⟩ := hx
  obtain ⟨hy, hy'⟩ := hy
  split <;> split <;> simp only [packed] at * <;> omega

/-- With the adjustment a difference is exact in base 100. -/
theorem exactInPlace_adjusted_sub8 :
    ExactInPlace (adjusted (sub8 · · · mode)) 100 packed (-1) IsPacked where
  valid x y carry hx hy := by
    have hvalue := toNat_adjusted_sub8 carry mode hx hy
    have hc := carry.toNat_le
    obtain ⟨hx, hx'⟩ := hx
    obtain ⟨hy, hy'⟩ := hy
    split at hvalue <;> split at hvalue <;> simp only [IsPacked, packed] at * <;> omega
  exact x y carry hx hy := by
    have hvalue := toNat_adjusted_sub8 carry mode hx hy
    have hcarry : (adjusted (sub8 · · · mode) x y carry).flags.carry = _ :=
      (carry_daa _ _).trans (highDigitOff_sub8 carry mode hx hy)
    have hc := carry.toNat_le
    obtain ⟨hx, hx'⟩ := hx
    obtain ⟨hy, hy'⟩ := hy
    rw [hcarry, toNat_decide]
    revert hvalue
    split <;> split <;> simp only [packed] at * <;> omega

end Difference

/-- With the adjustment after each byte, sums and differences of decimal numbers are exact at any
length and in either mode: the result is decimal again, and the last carry is what does not fit
or was borrowed. -/
theorem decimal_chains_are_exact (mode : Mode) (xs ys : List UInt8) (f : Flags)
    (hlength : xs.length = ys.length) (hxs : ∀ x ∈ xs, IsPacked x) (hys : ∀ y ∈ ys, IsPacked y) :
    let sum := chain (adjusted (add8 · · · mode)) xs ys f
    let difference := chain (adjusted (sub8 · · · mode)) xs ys f
    (sum.bytes.length = xs.length ∧ (∀ r ∈ sum.bytes, IsPacked r) ∧
      decimal sum.bytes + 100 ^ xs.length * sum.flags.carry.toNat =
        decimal xs + decimal ys + f.carry.toNat) ∧
    difference.bytes.length = xs.length ∧ (∀ r ∈ difference.bytes, IsPacked r) ∧
      (decimal difference.bytes : Int) = decimal xs - decimal ys - f.carry.toNat +
        100 ^ xs.length * difference.flags.carry.toNat := by
  intro sum difference
  have hsum := exactInPlace_adjusted_add8 mode
  have hdifference := exactInPlace_adjusted_sub8 mode
  refine ⟨⟨length_chain hlength f, hsum.valid_chain hlength hxs hys f, ?_⟩,
    length_chain hlength f, hdifference.valid_chain hlength hxs hys f, ?_⟩
  · have hexact := hsum.exact_chain hlength hxs hys f
    zify
    rw [decimal, hexact, decimal, decimal]
    push_cast
    ring
  · have hexact := hdifference.exact_chain hlength hxs hys f
    rw [decimal, hexact, decimal, decimal]
    push_cast
    ring

/-- One more than 9999, and one less than nothing: the carry and the borrow run through both
bytes. -/
theorem decimal_carry_and_borrow_run_through :
    let xs : List UInt8 := [0x99, 0x99]
    let zeros : List UInt8 := [0, 0]
    let sum := chain (adjusted (add8 · · · .z80)) xs zeros ⟨0x01⟩
    let difference := chain (adjusted (sub8 · · · .i8080)) zeros zeros ⟨0x01⟩
    (∀ x ∈ xs, IsPacked x) ∧ (∀ x ∈ zeros, IsPacked x) ∧
      decimal sum.bytes + 10000 * sum.flags.carry.toNat = 10000 ∧
      (decimal difference.bytes : Int) = -1 + 10000 * difference.flags.carry.toNat := by
  intro xs zeros sum difference
  have hxs : ∀ x ∈ xs, IsPacked x := by simp [xs, IsPacked]
  have hzeros : ∀ x ∈ zeros, IsPacked x := by simp [zeros, IsPacked]
  obtain ⟨⟨-, -, hsum⟩, -⟩ := decimal_chains_are_exact .z80 xs zeros ⟨0x01⟩ rfl hxs hzeros
  obtain ⟨-, -, -, hdifference⟩ :=
    decimal_chains_are_exact .i8080 zeros zeros ⟨0x01⟩ rfl hzeros hzeros
  exact ⟨hxs, hzeros, hsum.trans (by decide), hdifference.trans (by decide)⟩

end Alu

end Cpm
