import Cpm.Hex
import Cpm.Mode

/-!
# Reasons to stop

A processor stops at a halt instruction, at an opcode that means nothing, or
because a port handler asks for it.
-/

namespace Cpm

/-- An opcode with no entry in the table it was looked up in. -/
structure InvalidOpcode where
  /-- The address of the first byte of the instruction. -/
  addr : UInt16
  table : Table
  opcode : UInt8
  deriving DecidableEq, Repr

namespace InvalidOpcode

def message (x : InvalidOpcode) : String :=
  "invalid opcode " ++ x.table.leadText ++ Hex.byte x.opcode ++ " at " ++ Hex.word x.addr

end InvalidOpcode

inductive HaltReason where
  | halt
  | invalidOpcode (x : InvalidOpcode)
  /-- A port handler asked for it. -/
  | trap
  deriving DecidableEq, Repr

namespace HaltReason

/-- The form in which a reason appears in log messages. -/
def label : HaltReason → String
  | .halt => "Halt"
  | .invalidOpcode x =>
    "InvalidOpcode(InvalidOpcode \x7b addr: " ++ toString x.addr.toNat ++
      ", set: " ++ x.table.label ++ ", opcode: " ++ toString x.opcode.toNat ++ " \x7d)"
  | .trap => "Trap"

end HaltReason

end Cpm
