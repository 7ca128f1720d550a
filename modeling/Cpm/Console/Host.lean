import Cpm.Console

/-!
# The host console

Input from the host arrives in pieces while the program runs, and waits in a
channel. Line feeds become carriage returns on the way. Asking the status of the
console may move one byte out of the channel; it is kept and read first. Once the
end of input has been seen the console stays exhausted.
-/

namespace Cpm

structure Channel where
  queue : List UInt8
  /-- More may still arrive. -/
  isOpen : Bool
  deriving DecidableEq, Repr

namespace Channel

/-- A line feed is read as a carriage return. -/
def keyCode (b : UInt8) : UInt8 := if b = 0x0A then 0x0D else b

/-- A piece of input arrives; after the end of input nothing does. -/
def deliver (ch : Channel) (piece : List UInt8) : Channel :=
  if ch.isOpen then { ch with queue := ch.queue ++ piece.map keyCode } else ch

/-- Input ends, or fails for good. What was delivered before stays. -/
def close (ch : Channel) : Channel := { ch with isOpen := false }

end Channel

structure HostConsole where
  channel : Channel
  /-- A byte that a status call took out of the channel. -/
  ahead : Option UInt8
  /-- The end of input was seen. -/
  ended : Bool
  /-- A read found nothing although more may arrive; it has to be made again. -/
  starved : Bool
  output : Array UInt8
  deriving DecidableEq, Repr

namespace HostConsole

/-- A console to which nothing was delivered yet. -/
def waiting : HostConsole := ⟨⟨[], true⟩, none, false, false, #[]⟩

def ofInput (input : List UInt8) : HostConsole :=
  { waiting with channel := (waiting.channel.deliver input).close }

def deliver (c : HostConsole) (piece : List UInt8) : HostConsole :=
  { c with channel := c.channel.deliver piece }

def close (c : HostConsole) : HostConsole := { c with channel := c.channel.close }

def status (c : HostConsole) : Bool × HostConsole :=
  if c.ahead.isSome then (true, c)
  else if c.ended then (false, c)
  else match c.channel.queue with
    | b :: rest => (true, { c with ahead := some b, channel := { c.channel with queue := rest } })
    | [] => if c.channel.isOpen then (false, c) else (false, { c with ended := true })

def read (c : HostConsole) : Option UInt8 × HostConsole :=
  match c.ahead with
  | some b => (some b, { c with ahead := none })
  | none =>
    if c.ended then (none, c)
    else match c.channel.queue with
      | b :: rest => (some b, { c with channel := { c.channel with queue := rest } })
      | [] =>
        if c.channel.isOpen then (none, { c with starved := true })
        else (none, { c with ended := true })

def write (c : HostConsole) (b : UInt8) : HostConsole := { c with output := c.output.push b }

/-- The console after its output was passed on. -/
def emptied (c : HostConsole) : HostConsole := { c with output := #[] }

/-- The bytes that reads will give, in order. -/
def pending (c : HostConsole) : List UInt8 :=
  c.ahead.toList ++ if c.ended then [] else c.channel.queue

theorem pending_read {c d : HostConsole} {b : UInt8} (h : c.read = (some b, d)) :
    c.pending = b :: d.pending := by
  obtain ⟨⟨queue, isOpen⟩, ahead, ended, starved, output⟩ := c
  cases ahead with
  | some x =>
    simp only [read, Prod.mk.injEq, Option.some.injEq] at h
    rw [← h.1, ← h.2]
    simp [pending]
  | none =>
    cases ended <;> cases queue <;> cases isOpen <;>
      simp [read] at h <;> obtain ⟨rfl, rfl⟩ := h <;> simp [pending]

@[simp] theorem pending_status (c : HostConsole) : c.status.2.pending = c.pending := by
  obtain ⟨⟨queue, isOpen⟩, ahead, ended, starved, output⟩ := c
  cases ahead <;> cases ended <;> cases queue <;> cases isOpen <;> simp [status, pending]

instance : Console HostConsole where
  status := status
  read := read
  write := write
  remaining c := c.pending.length
  remaining_read h := by rw [pending_read h]; simp

end HostConsole

end Cpm
