import Cpm.Core
import Cpm.Instruction.Text
import Cpm.Log

/-!
# Observers

An observer is told of every instruction before it executes. It keeps a state of
its own and makes records; nothing it does reaches the processor.
-/

namespace Cpm

structure Fetch where
  pc : UInt16
  opcode : UInt8
  core : Core

/-- A reaction to instructions, with `τ` as the state it keeps. -/
structure Observer (τ : Type) where
  fetch : Fetch → τ → τ × List Log.Record

namespace Observer

def silent : Observer Unit := ⟨fun _ _ => ((), [])⟩

/-- The line that shows a fetched instruction with the registers before it. -/
def traceLine (f : Fetch) : String :=
  let text := (disassemble f.core.mem f.pc f.core.mode).text
  let padding := String.ofList (List.replicate (20 - text.length) ' ')
  Hex.word f.pc ++ "  " ++ text ++ padding ++ " " ++ f.core.regs.dump

def tracer : Observer Unit := ⟨fun f _ => ((), [⟨.trace, .tracer, traceLine f⟩])⟩

def fetches : Observer (Array (UInt16 × UInt8)) := ⟨fun f seen => (seen.push (f.pc, f.opcode), [])⟩

def both {τ υ : Type} (a : Observer τ) (b : Observer υ) : Observer (τ × υ) where
  fetch f s :=
    let (x, first) := a.fetch f s.1
    let (y, second) := b.fetch f s.2
    ((x, y), first ++ second)

end Observer

end Cpm
