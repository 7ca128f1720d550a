/-!
# Words made of two bytes

A 16-bit word is a high and a low byte. The two halves and the word determine
each other, which is all that pairs of byte registers and little-endian words in
memory need.
-/

namespace Cpm.Word

/-- The word with the given high and low byte. -/
def ofBytes (high low : UInt8) : UInt16 := high.toUInt16 <<< 8 ||| low.toUInt16

def high (w : UInt16) : UInt8 := (w >>> 8).toUInt8

def low (w : UInt16) : UInt8 := w.toUInt8

/-- A displacement byte read as a signed number, widened to an address offset. -/
def signExtend (d : UInt8) : UInt16 :=
  if d &&& 0x80 = 0 then d.toUInt16 else d.toUInt16 ||| 0xFF00

theorem toNat_ofBytes (h l : UInt8) : (ofBytes h l).toNat = h.toNat * 256 + l.toNat := by
  have hl : l.toNat < 2 ^ 8 := l.toNat_lt
  have hh : h.toNat < 2 ^ 8 := h.toNat_lt
  simp only [ofBytes, UInt16.toNat_or, UInt16.toNat_shiftLeft, UInt8.toNat_toUInt16]
  have : h.toNat <<< (UInt16.toNat 8 % 16) % 2 ^ 16 = 2 ^ 8 * h.toNat := by
    rw [Nat.shiftLeft_eq]
    have e : UInt16.toNat 8 % 16 = 8 := rfl
    rw [e]
    omega
  rw [this, ← Nat.two_pow_add_eq_or_of_lt hl]
  omega

theorem toNat_high (w : UInt16) : (high w).toNat = w.toNat / 256 := by
  have h : w.toNat < 2 ^ 16 := w.toNat_lt
  simp only [high, UInt16.toNat_toUInt8, UInt16.toNat_shiftRight]
  have e : UInt16.toNat 8 % 16 = 8 := rfl
  rw [e, Nat.shiftRight_eq_div_pow]
  omega

theorem toNat_low (w : UInt16) : (low w).toNat = w.toNat % 256 := by
  simp [low]

@[simp] theorem high_ofBytes (h l : UInt8) : high (ofBytes h l) = h := by
  apply UInt8.toNat_inj.mp
  have : l.toNat < 2 ^ 8 := l.toNat_lt
  rw [toNat_high, toNat_ofBytes]
  omega

@[simp] theorem low_ofBytes (h l : UInt8) : low (ofBytes h l) = l := by
  apply UInt8.toNat_inj.mp
  have : l.toNat < 2 ^ 8 := l.toNat_lt
  rw [toNat_low, toNat_ofBytes]
  omega

@[simp] theorem ofBytes_high_low (w : UInt16) : ofBytes (high w) (low w) = w := by
  apply UInt16.toNat_inj.mp
  rw [toNat_ofBytes, toNat_high, toNat_low]
  omega

theorem low_signExtend (d : UInt8) : low (signExtend d) = d := by
  unfold low signExtend
  split
  · exact UInt8.toUInt8_toUInt16 d
  · show (d.toUInt16 ||| 0xFF00).toUInt8 = d
    rw [UInt16.toUInt8_or, UInt8.toUInt8_toUInt16]
    exact UInt8.or_zero

end Cpm.Word
