import Cpm.Flags
import Cpm.Hex
import Cpm.Word

/-!
# The register file

The accumulator, the flags and six byte registers form a bank. There are two
banks; programs work on the main one and exchange parts of it with the shadow
bank. Byte registers of a bank also serve in pairs, high byte first.
-/

namespace Cpm

structure Bank where
  a : UInt8
  f : Flags
  b : UInt8
  c : UInt8
  d : UInt8
  e : UInt8
  h : UInt8
  l : UInt8
  deriving DecidableEq, Repr

namespace Bank

def zero : Bank := ⟨0, .none, 0, 0, 0, 0, 0, 0⟩

instance : Inhabited Bank := ⟨zero⟩

def af (k : Bank) : UInt16 := Word.ofBytes k.a k.f.bits

def bc (k : Bank) : UInt16 := Word.ofBytes k.b k.c

def de (k : Bank) : UInt16 := Word.ofBytes k.d k.e

def hl (k : Bank) : UInt16 := Word.ofBytes k.h k.l

def setAf (k : Bank) (w : UInt16) : Bank := { k with a := Word.high w, f := ⟨Word.low w⟩ }

def setBc (k : Bank) (w : UInt16) : Bank := { k with b := Word.high w, c := Word.low w }

def setDe (k : Bank) (w : UInt16) : Bank := { k with d := Word.high w, e := Word.low w }

def setHl (k : Bank) (w : UInt16) : Bank := { k with h := Word.high w, l := Word.low w }

@[simp] theorem af_setAf (k : Bank) (w : UInt16) : (k.setAf w).af = w := by simp [af, setAf]
@[simp] theorem bc_setBc (k : Bank) (w : UInt16) : (k.setBc w).bc = w := by simp [bc, setBc]
@[simp] theorem de_setDe (k : Bank) (w : UInt16) : (k.setDe w).de = w := by simp [de, setDe]
@[simp] theorem hl_setHl (k : Bank) (w : UInt16) : (k.setHl w).hl = w := by simp [hl, setHl]

end Bank

structure Registers where
  main : Bank
  shadow : Bank
  ix : UInt16
  iy : UInt16
  sp : UInt16
  pc : UInt16
  i : UInt8
  /-- Refresh counter; only its low seven bits count. -/
  r : UInt8
  deriving DecidableEq, Repr

namespace Registers

def zero : Registers := ⟨.zero, .zero, 0, 0, 0, 0, 0, 0⟩

instance : Inhabited Registers := ⟨zero⟩

/-- The letter of a flag that is set, a dash for one that is not. -/
def flagLetter (f : Flags) (flag : Flag) (letter : Char) : Char :=
  if f.get flag then letter else '-'

def flagText (f : Flags) : String :=
  String.ofList [flagLetter f .sign 'S', flagLetter f .zero 'Z', flagLetter f .halfCarry 'H',
    flagLetter f .parityOverflow 'P', flagLetter f .subtract 'N', flagLetter f .carry 'C']

/-- The line of registers shown with a traced instruction. -/
def dump (r : Registers) : String :=
  "AF=" ++ Hex.word r.main.af ++ " BC=" ++ Hex.word r.main.bc ++
    " DE=" ++ Hex.word r.main.de ++ " HL=" ++ Hex.word r.main.hl ++
    " IX=" ++ Hex.word r.ix ++ " IY=" ++ Hex.word r.iy ++ " SP=" ++ Hex.word r.sp ++
    " [" ++ flagText r.main.f ++ "]"

end Registers

end Cpm
