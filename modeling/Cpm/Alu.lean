import Cpm.Flags
import Cpm.Mode

/-!
# Arithmetic and logic

Each operation takes its operands, and the old flags where some of them survive,
and gives the result with the new flags. Where a result goes is decided
elsewhere. Carries and borrows are stated on natural numbers.

Addition, subtraction and comparison of bytes are the only operations whose flags
depend on the mode: the parity/overflow flag reports signed overflow in Z80 mode
and an odd number of result bits in 8080 mode.
-/

namespace Cpm

structure ByteResult where
  value : UInt8
  flags : Flags
  deriving DecidableEq, Repr

structure WordResult where
  value : UInt16
  flags : Flags
  deriving DecidableEq, Repr

namespace Alu

def overflowFlag (mode : Mode) (value : UInt8) (overflow : Bool) : Bool :=
  match mode with
  | .i8080 => !Flags.evenParity value
  | .z80 => overflow

def add8 (a b : UInt8) (carry : Bool) (mode : Mode) : ByteResult :=
  let value := a + b + carry.toUInt8
  let overflow := (a ^^^ value) &&& (b ^^^ value) &&& 0x80 != 0
  ⟨value, Flags.ofSignZero value
    |>.set .halfCarry (a.toNat % 16 + b.toNat % 16 + carry.toNat > 0x0F)
    |>.set .carry (a.toNat + b.toNat + carry.toNat > 0xFF)
    |>.set .parityOverflow (overflowFlag mode value overflow)⟩

def sub8 (a b : UInt8) (borrow : Bool) (mode : Mode) : ByteResult :=
  let value := a - b - borrow.toUInt8
  let overflow := (a ^^^ b) &&& (a ^^^ value) &&& 0x80 != 0
  ⟨value, Flags.ofSignZero value
    |>.set .subtract true
    |>.set .halfCarry (a.toNat % 16 < b.toNat % 16 + borrow.toNat)
    |>.set .carry (a.toNat < b.toNat + borrow.toNat)
    |>.set .parityOverflow (overflowFlag mode value overflow)⟩

/-- The flags of a difference whose value is dropped. -/
def compare8 (a b : UInt8) (mode : Mode) : Flags := (sub8 a b false mode).flags

/-- The flags of a block comparison: the carry is kept, and parity/overflow tells
whether the byte counter `bc`, already stepped, is not yet zero. -/
def compareBlock (a b : UInt8) (old : Flags) (bc : UInt16) : Flags :=
  Flags.ofSignZero (a - b)
    |>.set .halfCarry (a.toNat % 16 < b.toNat % 16)
    |>.set .subtract true
    |>.set .parityOverflow (bc != 0)
    |>.set .carry old.carry

/-- One more, with the carry kept. -/
def inc8 (a : UInt8) (old : Flags) : ByteResult :=
  let value := a + 1
  ⟨value, Flags.ofSignZero value
    |>.set .halfCarry (a.toNat % 16 == 0x0F)
    |>.set .parityOverflow (a == 0x7F)
    |>.set .carry old.carry⟩

/-- One less, with the carry kept. -/
def dec8 (a : UInt8) (old : Flags) : ByteResult :=
  let value := a - 1
  ⟨value, Flags.ofSignZero value
    |>.set .halfCarry (a.toNat % 16 == 0)
    |>.set .parityOverflow (a == 0x80)
    |>.set .subtract true
    |>.set .carry old.carry⟩

def and8 (a b : UInt8) : ByteResult :=
  let value := a &&& b
  ⟨value, (Flags.ofSignZeroParity value).set .halfCarry true⟩

def or8 (a b : UInt8) : ByteResult :=
  let value := a ||| b
  ⟨value, Flags.ofSignZeroParity value⟩

def xor8 (a b : UInt8) : ByteResult :=
  let value := a ^^^ b
  ⟨value, Flags.ofSignZeroParity value⟩

def lowDigitOff (a : UInt8) (old : Flags) : Bool := old.halfCarry || a.toNat % 16 > 9

def highDigitOff (a : UInt8) (old : Flags) : Bool := old.carry || a > 0x99

/-- Decimal adjustment after an addition, or after a subtraction where the
subtract flag is set: six is added to, or taken from, each digit that is off. -/
def daa (a : UInt8) (old : Flags) : ByteResult :=
  let correction : UInt8 :=
    (if lowDigitOff a old then 0x06 else 0) ||| (if highDigitOff a old then 0x60 else 0)
  let value := if old.subtract then a - correction else a + correction
  let half :=
    if old.subtract then old.halfCarry && a.toNat % 16 < 6 else decide (a.toNat % 16 > 9)
  ⟨value, Flags.ofSignZeroParity value
    |>.set .subtract old.subtract
    |>.set .halfCarry half
    |>.set .carry (highDigitOff a old)⟩

end Alu

inductive Shift where
  | rlc | rrc | rl | rr | sla | sra | sll | srl
  deriving DecidableEq, Repr

namespace Shift

/-- The shift that the low three bits of a code select. -/
def ofCode (code : UInt8) : Shift :=
  match code &&& 0x07 with
  | 0 => .rlc
  | 1 => .rrc
  | 2 => .rl
  | 3 => .rr
  | 4 => .sla
  | 5 => .sra
  | 6 => .sll
  | _ => .srl

def isLeft : Shift → Bool
  | .rlc | .rl | .sla | .sll => true
  | .rrc | .rr | .sra | .srl => false

def bitOut (s : Shift) (v : UInt8) : Bool :=
  if s.isLeft then v &&& 0x80 != 0 else v &&& 0x01 != 0

def bitIn (s : Shift) (v : UInt8) (carry : Bool) : Bool :=
  match s with
  | .rlc | .rrc => s.bitOut v
  | .rl | .rr => carry
  | .sla | .srl => false
  | .sra => v &&& 0x80 != 0
  | .sll => true

/-- The byte moved one place, with the vacated bit filled. -/
def shifted (s : Shift) (v : UInt8) (carry : Bool) : UInt8 :=
  let fill := (s.bitIn v carry).toUInt8
  if s.isLeft then v <<< 1 ||| fill else v >>> 1 ||| fill <<< 7

end Shift

namespace Alu

/-- A rotation or shift of any operand: the carry takes the bit that leaves. -/
def shift (s : Shift) (v : UInt8) (old : Flags) : ByteResult :=
  let value := s.shifted v old.carry
  ⟨value, (Flags.ofSignZeroParity value).set .carry (s.bitOut v)⟩

/-- The flags of a bit test. Only the test of bit 7 can set the sign. -/
def bitTest (bit v : UInt8) (old : Flags) : Flags :=
  let on := v &&& ((1 : UInt8) <<< (bit &&& 0x07)) != 0
  Flags.none
    |>.set .zero (!on)
    |>.set .parityOverflow (!on)
    |>.set .sign (bit == 7 && on)
    |>.set .halfCarry true
    |>.set .carry old.carry

/-- The sum of two words; sign, zero and parity/overflow are kept. -/
def add16 (a b : UInt16) (old : Flags) : WordResult :=
  ⟨a + b, old.keep [.sign, .zero, .parityOverflow]
    |>.set .halfCarry (a.toNat % 0x1000 + b.toNat % 0x1000 > 0x0FFF)
    |>.set .carry (a.toNat + b.toNat > 0xFFFF)⟩

def adc16 (a b : UInt16) (carry : Bool) : WordResult :=
  let value := a + b + carry.toUInt8.toUInt16
  ⟨value, Flags.none
    |>.set .sign (value &&& 0x8000 != 0)
    |>.set .zero (value == 0)
    |>.set .halfCarry (a.toNat % 0x1000 + b.toNat % 0x1000 + carry.toNat > 0x0FFF)
    |>.set .parityOverflow ((a ^^^ value) &&& (b ^^^ value) &&& 0x8000 != 0)
    |>.set .carry (a.toNat + b.toNat + carry.toNat > 0xFFFF)⟩

def sbc16 (a b : UInt16) (borrow : Bool) : WordResult :=
  let value := a - b - borrow.toUInt8.toUInt16
  ⟨value, Flags.none
    |>.set .sign (value &&& 0x8000 != 0)
    |>.set .zero (value == 0)
    |>.set .halfCarry (a.toNat % 0x1000 < b.toNat % 0x1000 + borrow.toNat)
    |>.set .parityOverflow ((a ^^^ b) &&& (a ^^^ value) &&& 0x8000 != 0)
    |>.set .subtract true
    |>.set .carry (a.toNat < b.toNat + borrow.toNat)⟩

end Alu

end Cpm
