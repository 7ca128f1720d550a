import Cpm.Console.Host

/-!
# The input thread

Behind the host console a thread reads the input of the host, a piece at a time, and sends
the bytes one by one into the channel. It ends with the input, or when reading fails for
good; a read that was interrupted is made again. The console is asked in between, at any
moment; what happens is a sequence of events.
-/

namespace Cpm

inductive Arrival where
  /-- Some bytes; a piece without any is the end of input. -/
  | piece (bytes : List UInt8)
  | interrupted
  | failed
  deriving DecidableEq, Repr

namespace HostConsole

/-- A read would wait: nothing is left, but more may arrive. -/
def blocks (c : HostConsole) : Bool :=
  c.ahead.isNone && !c.ended && c.channel.queue.isEmpty && c.channel.isOpen

end HostConsole

/-- A console and the thread that feeds it. -/
structure Feed where
  console : HostConsole
  /-- The bytes of the last piece that are still to be sent. -/
  hand : List UInt8
  /-- The thread has not ended. -/
  running : Bool
  deriving DecidableEq, Repr

namespace Feed

def initial : Feed := ⟨.waiting, [], true⟩

/-- What arrived and was not read yet, as reads will give it. -/
def incoming (f : Feed) : List UInt8 := f.console.pending ++ f.hand.map Channel.keyCode

def stop (f : Feed) : Feed := { f with console := f.console.close, running := false }

/-- The thread is given what a read gave. -/
def arrive (f : Feed) : Arrival → Feed
  | .piece [] => f.stop
  | .piece bytes => { f with hand := bytes }
  | .interrupted => f
  | .failed => f.stop

/-- One thing that happens, with the answer of the console if it is asked. -/
inductive Event where
  | arrival (a : Arrival)
  /-- The thread sends the next byte. -/
  | send
  | status (ready : Bool)
  | read (key : Option UInt8)
  deriving DecidableEq, Repr

def Event.isRead : Event → Bool
  | .read _ => true
  | _ => false

/-- What an event leaves, if it can happen: the thread reads when it has nothing to send, and
the console gives its own answers, to a read when it need not wait. -/
def next? (f : Feed) : Event → Option Feed
  | .arrival a => if f.running && f.hand.isEmpty then some (f.arrive a) else none
  | .send =>
    match f.hand with
    | [] => none
    | b :: rest => some { f with console := f.console.deliver [b], hand := rest }
  | .status ready =>
    let (answer, console) := f.console.status
    if answer = ready then some { f with console := console } else none
  | .read key =>
    let (answer, console) := f.console.read
    if !f.console.blocks && answer = key then some { f with console := console } else none

def after? (f : Feed) : List Event → Option Feed
  | [] => some f
  | e :: events => (f.next? e).bind fun g => g.after? events

def delivered (events : List Event) : List UInt8 :=
  events.flatMap fun
    | .arrival (.piece bytes) => bytes
    | _ => []

def taken (events : List Event) : List UInt8 :=
  events.flatMap fun
    | .read key => key.toList
    | _ => []

end Feed

end Cpm
