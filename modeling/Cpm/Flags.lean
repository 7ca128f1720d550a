/-!
# The flag register

Six bits of the flag byte have a meaning. The other two, bits 3 and 5, are
stored, pushed and exchanged with the rest, and no operation computes them.
-/

namespace Cpm

inductive Flag where
  | carry | subtract | parityOverflow | halfCarry | zero | sign
  deriving DecidableEq, Repr

namespace Flag

def mask : Flag → UInt8
  | .carry => 0x01
  | .subtract => 0x02
  | .parityOverflow => 0x04
  | .halfCarry => 0x10
  | .zero => 0x40
  | .sign => 0x80

end Flag

structure Flags where
  bits : UInt8
  deriving DecidableEq, Repr

namespace Flags

def none : Flags := ⟨0⟩

instance : Inhabited Flags := ⟨none⟩

def get (f : Flags) (flag : Flag) : Bool := f.bits &&& flag.mask != 0

def set (f : Flags) (flag : Flag) (on : Bool) : Flags :=
  ⟨if on then f.bits ||| flag.mask else f.bits &&& ~~~flag.mask⟩

/-- Clears every bit that belongs to none of the listed flags. -/
def keep (f : Flags) (flags : List Flag) : Flags :=
  ⟨f.bits &&& flags.foldl (fun mask flag => mask ||| flag.mask) 0⟩

def evenParity (v : UInt8) : Bool :=
  !((v &&& 0x01 != 0) ^^ (v &&& 0x02 != 0) ^^ (v &&& 0x04 != 0) ^^ (v &&& 0x08 != 0) ^^
    (v &&& 0x10 != 0) ^^ (v &&& 0x20 != 0) ^^ (v &&& 0x40 != 0) ^^ (v &&& 0x80 != 0))

/-- Sign and zero of a result, all other bits clear. -/
def ofSignZero (v : UInt8) : Flags :=
  ⟨(v &&& Flag.sign.mask) ||| (if v = 0 then Flag.zero.mask else 0)⟩

/-- Sign, zero and even parity of a result, all other bits clear. -/
def ofSignZeroParity (v : UInt8) : Flags :=
  ⟨(ofSignZero v).bits ||| (if evenParity v then Flag.parityOverflow.mask else 0)⟩

def carry (f : Flags) : Bool := f.get .carry

def subtract (f : Flags) : Bool := f.get .subtract

def parityOverflow (f : Flags) : Bool := f.get .parityOverflow

def halfCarry (f : Flags) : Bool := f.get .halfCarry

def zero (f : Flags) : Bool := f.get .zero

def sign (f : Flags) : Bool := f.get .sign

end Flags

end Cpm
