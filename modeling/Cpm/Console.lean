/-!
# Consoles

A console is the character device that programs talk to. It tells whether a
character is ready, gives the next one or says that none will come, and takes
characters to show. The bytes it still holds bound the number of reads that
succeed.
-/

namespace Cpm

class Console (κ : Type) where
  /-- Whether a character is ready. -/
  status : κ → Bool × κ
  /-- The next character, or none when input is exhausted. -/
  read : κ → Option UInt8 × κ
  write : κ → UInt8 → κ
  /-- The number of bytes still to be read. -/
  remaining : κ → Nat
  remaining_read : ∀ {c d : κ} {b : UInt8}, read c = (some b, d) → remaining d < remaining c

namespace Console

def writeAll {κ : Type} [Console κ] (c : κ) (bytes : List UInt8) : κ := bytes.foldl write c

end Console

/-- A console whose whole input is known from the start. -/
structure ScriptedConsole where
  input : List UInt8
  output : Array UInt8
  deriving DecidableEq, Repr, Inhabited

namespace ScriptedConsole

def ofInput (input : List UInt8) : ScriptedConsole := ⟨input, #[]⟩

def status (c : ScriptedConsole) : Bool := !c.input.isEmpty

def read (c : ScriptedConsole) : Option UInt8 × ScriptedConsole :=
  match c.input with
  | [] => (none, c)
  | b :: rest => (some b, { c with input := rest })

def write (c : ScriptedConsole) (b : UInt8) : ScriptedConsole :=
  { c with output := c.output.push b }

theorem length_read {c d : ScriptedConsole} {b : UInt8} (h : c.read = (some b, d)) :
    d.input.length < c.input.length := by
  cases hc : c.input with
  | nil => simp [read, hc] at h
  | cons x rest =>
    simp only [read, hc, Prod.mk.injEq, Option.some.injEq] at h
    rw [← h.2]
    simp

instance : Console ScriptedConsole where
  status c := (c.status, c)
  read := read
  write := write
  remaining c := c.input.length
  remaining_read := length_read

end ScriptedConsole

end Cpm
