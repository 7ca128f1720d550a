/-!
# Instruction set modes and decoding tables

The processor runs in one of two modes. A program changes the mode by writing to
a port. The byte that selects an instruction is looked up in one of seven tables;
the bytes that lead to a table name it in diagnostics.
-/

namespace Cpm

inductive Mode where
  | i8080 | z80
  deriving DecidableEq, Repr, Inhabited

namespace Mode

def ofPortValue? (v : UInt8) : Option Mode :=
  if v = 0xFF then some .i8080 else if v = 0xFE then some .z80 else none

def ofName? (s : String) : Option Mode :=
  if s = "8080" ∨ s = "i8080" then some .i8080 else if s = "z80" then some .z80 else none

def label : Mode → String
  | .i8080 => "I80"
  | .z80 => "Z80"

end Mode

inductive Table where
  | base | cb | dd | ddcb | ed | fd | fdcb
  deriving DecidableEq, Repr, Inhabited

namespace Table

def label : Table → String
  | .base => "Base"
  | .cb => "CB"
  | .dd => "DD"
  | .ddcb => "DDCB"
  | .ed => "ED"
  | .fd => "FD"
  | .fdcb => "FDCB"

/-- The bytes that lead to the table, in hexadecimal, each followed by a blank. -/
def leadText : Table → String
  | .base => ""
  | .cb => "CB "
  | .dd => "DD "
  | .ddcb => "DD CB "
  | .ed => "ED "
  | .fd => "FD "
  | .fdcb => "FD CB "

def leadBytes : Table → List UInt8
  | .base => []
  | .cb => [0xCB]
  | .dd => [0xDD]
  | .ddcb => [0xDD, 0xCB]
  | .ed => [0xED]
  | .fd => [0xFD]
  | .fdcb => [0xFD, 0xCB]

end Table

end Cpm
