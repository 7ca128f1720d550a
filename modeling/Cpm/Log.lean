import Cpm.Text.ControlSequence

/-!
# Log records

A record has a level, the component it comes from and a message. What is computed
never depends on records: they are collected beside the results, and a threshold
picks those that are shown.
-/

namespace Cpm

namespace Log

inductive Level where
  | error | warn | info | debug | trace
  deriving DecidableEq, Repr

namespace Level

/-- More severe levels have smaller ranks. -/
def rank : Level → Nat
  | .error => 1
  | .warn => 2
  | .info => 3
  | .debug => 4
  | .trace => 5

def name : Level → String
  | .error => "ERROR"
  | .warn => "WARN"
  | .info => "INFO"
  | .debug => "DEBUG"
  | .trace => "TRACE"

end Level

/-- The least severe level that is shown, or none at all. -/
inductive Threshold where
  | off
  | level (l : Level)
  deriving DecidableEq, Repr

namespace Threshold

def rank : Threshold → Nat
  | .off => 0
  | .level l => l.rank

def all : List Threshold :=
  [.off, .level .error, .level .warn, .level .info, .level .debug, .level .trace]

def name : Threshold → String
  | .off => "OFF"
  | .level l => l.name

/-- The threshold with the given name, in either letter case. -/
def ofName? (s : String) : Option Threshold :=
  all.find? fun t => t.name.toList = s.toList.map Char.toUpper

/-- Raises the threshold by a number of steps, at most to the last one. -/
def raise (t : Threshold) (steps : Nat) : Threshold :=
  (all[min (t.rank + steps) 5]?).getD (.level .trace)

def shows (t : Threshold) (l : Level) : Bool := l.rank ≤ t.rank

end Threshold

inductive Component where
  | control | io | engine | ports | tracer | bios | disk | machine
  deriving DecidableEq, Repr

namespace Component

def path : Component → String
  | .control => "cpm80_core::cpu::z80::control"
  | .io => "cpm80_core::cpu::z80::io"
  | .engine => "cpm80_core::cpu::z80"
  | .ports => "cpm80_core::core::ports"
  | .tracer => "cpm80_core::core::trace"
  | .bios => "cpm80_machines::bios"
  | .disk => "cpm80_machines::disk"
  | .machine => "cpm80_machines::machine"

end Component

structure Record where
  level : Level
  component : Component
  message : String
  deriving DecidableEq, Repr

namespace Record

/-- A message broken over several lines has its further lines indented. -/
def indented (message : String) : String :=
  String.ofList (message.toList.flatMap fun c => if c = '\n' then "\n    ".toList else [c])

/-- The line shown for a record, with the level padded to five characters. -/
def line (r : Record) : String :=
  let level := r.level.name
  let padding := String.ofList (List.replicate (5 - level.length) ' ')
  "[" ++ level ++ padding ++ " " ++ r.component.path ++ "] " ++ indented r.message

/-- What is shown of the line and its end. A control sequence that the message leaves
open takes the end of the line with it. -/
def text (r : Record) : String := ControlSequence.strip (r.line ++ "\n")

end Record

def text (t : Threshold) (log : List Record) : String :=
  String.join ((log.filter fun r => t.shows r.level).map Record.text)

end Log

end Cpm
