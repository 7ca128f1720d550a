/-!
# BIOS functions

The seventeen functions have their vectors side by side, three bytes each: a
write to the trap port and a return. When the trap is served the program counter
stands on the return, so it tells which function was called.
-/

namespace Cpm

inductive BiosFunction where
  | boot | wboot | const | conin | conout | list | punch | reader | home | seldsk | settrk | setsec
  | setdma | read | write | listst | sectran
  deriving DecidableEq, Repr

namespace BiosFunction

/-- The functions in the order of their vectors. -/
def all : List BiosFunction :=
  [.boot, .wboot, .const, .conin, .conout, .list, .punch, .reader, .home, .seldsk, .settrk,
    .setsec, .setdma, .read, .write, .listst, .sectran]

def base : UInt16 := 0xFE00

def ofIndex? (n : Nat) : Option BiosFunction := all[n]?

def index (f : BiosFunction) : Nat := all.idxOf f

def vector (f : BiosFunction) : UInt16 := base + 3 * UInt16.ofNat f.index

/-- The function whose vector was trapped from, by the program counter after it. -/
def ofTrapPc? (pc : UInt16) : Option BiosFunction :=
  let offset := (pc - 2 - base).toNat
  if offset % 3 = 0 then ofIndex? (offset / 3) else none

@[simp] theorem ofIndex?_index (f : BiosFunction) : ofIndex? f.index = some f := by
  cases f <;> rfl

theorem ofTrapPc?_vector (f : BiosFunction) : ofTrapPc? (f.vector + 2) = some f := by
  cases f <;> decide

def label : BiosFunction → String
  | .boot => "Boot"
  | .wboot => "WBoot"
  | .const => "Const"
  | .conin => "Conin"
  | .conout => "Conout"
  | .list => "List"
  | .punch => "Punch"
  | .reader => "Reader"
  | .home => "Home"
  | .seldsk => "SelDsk"
  | .settrk => "SetTrk"
  | .setsec => "SetSec"
  | .setdma => "SetDma"
  | .read => "Read"
  | .write => "Write"
  | .listst => "ListSt"
  | .sectran => "SecTran"

end BiosFunction

end Cpm
