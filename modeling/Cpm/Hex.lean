/-!
# Hexadecimal text

Bytes and words are written with a fixed number of digits, most significant
first. The digits `A` to `F` are upper case.
-/

namespace Cpm.Hex

/-- The digit with the given value, taken modulo sixteen. -/
def digit (n : Nat) : Char :=
  let k := n % 16
  if k < 10 then Char.ofNat (48 + k) else Char.ofNat (55 + k)

/-- The last `width` digits of `n`. -/
def digits (width n : Nat) : List Char :=
  match width with
  | 0 => []
  | k + 1 => digits k (n / 16) ++ [digit n]

def byte (b : UInt8) : String := String.ofList (digits 2 b.toNat)

def word (w : UInt16) : String := String.ofList (digits 4 w.toNat)

end Cpm.Hex
