import Cpm.Bios

/-!
# The BDOS

The function number is in C and its argument in DE or E. Results are words; they
are returned in HL, with a copy of the low byte in A and of the high byte in B.
Only the console functions, the version and the program end are served.
-/

namespace Cpm.Bios

variable {κ : Type}

/-- Returns a word the way system calls do. -/
def returning (c : Core) (w : UInt16) : Core :=
  c.onRegs fun r =>
    { r with main := { r.main.setHl w with a := Word.low w, b := Word.high w } }

def bdosVersion : UInt16 := 0x0022

/-- The bytes from an address up to the first dollar sign, among the next `n`
bytes, and whether there is one. -/
def dollarText (m : Memory) (addr : UInt16) : Nat → List UInt8 × Bool
  | 0 => ([], false)
  | n + 1 =>
    let ch := m.get8 addr
    if ch = 0x24 then ([], true) else
    let (rest, found) := dollarText m (addr + 1) n
    (ch :: rest, found)

variable [Console κ]

/-- A console, and what was typed so far, last character first. -/
structure Typing (κ : Type) where
  console : κ
  typed : List UInt8

namespace Typing

def erase (t : Typing κ) : Typing κ :=
  match t.typed with
  | [] => t
  | _ :: rest => ⟨Console.writeAll t.console [0x08, 0x20, 0x08], rest⟩

/-- Takes a character while the line is shorter than `max`, and shows it. -/
def take (t : Typing κ) (max : Nat) (ch : UInt8) : Typing κ :=
  if t.typed.length < max then ⟨Console.write t.console ch, ch :: t.typed⟩ else t

/-- What an ordinary key does: backspace and delete erase, all others are taken. -/
def key (t : Typing κ) (max : Nat) (ch : UInt8) : Typing κ :=
  if ch = 0x08 ∨ ch = 0x7F then t.erase else t.take max ch

/-- Reads keys up to the end of the line or of the input, at most `n` of them. The
flag tells whether input ended first. -/
def readKeys (max : Nat) : Nat → Typing κ → Typing κ × Bool
  | 0, t => (t, true)
  | n + 1, t =>
    match Console.read t.console with
    | (none, console) => ({ t with console := console }, true)
    | (some ch, console) =>
      let t := { t with console := console }
      if ch = 0x0D ∨ ch = 0x0A then (t, false) else readKeys max n (t.key max ch)

end Typing

/-- Reads a line into the buffer at DE, whose first byte is the longest length; the
second receives the length and the characters follow. None where input ends before
anything is typed. -/
def readLine (console : κ) (c : Core) : κ × Option Core :=
  let buffer := c.regs.main.de
  let max := (c.mem.get8 buffer).toNat
  let (t, inputEnded) := Typing.readKeys max (Console.remaining console + 1) ⟨console, []⟩
  if inputEnded && t.typed.isEmpty then (t.console, none) else
  let line := t.typed.reverse
  let mem := (c.mem.put8 (buffer + 1) (UInt8.ofNat line.length)).putList (buffer + 2) line
  (Console.write t.console 0x0D, some { c with mem := mem })

def serveBdos (b : Bios κ) (c : Core) : TrapReply (Bios κ) :=
  let function := c.regs.main.c
  let e := c.regs.main.e
  let de := c.regs.main.de
  let result (console : κ) (w : UInt16) (log : List Log.Record) : TrapReply (Bios κ) :=
    .continuing (returning c w) { b with console := console } log
  let status : TrapReply (Bios κ) :=
    let (ready, console) := Console.status b.console
    result console (readyByte ready).toUInt16 []
  match function with
  | 0 => .halting c b [⟨.info, .bios, "program terminated through BDOS 0"⟩]
  | 1 =>
    match Console.read b.console with
    | (some ch, console) => result (Console.write console ch) ch.toUInt16 []
    | (none, console) => .halting c { b with console := console } []
  | 2 => result (Console.write b.console e) 0 []
  | 6 =>
    match e with
    | 0xFF =>
      match Console.status b.console with
      | (true, console) =>
        let (ch, console) := Console.read console
        result console (ch.getD 0).toUInt16 []
      | (false, console) => result console 0 []
    | 0xFE => status
    | ch => result (Console.write b.console ch) 0 []
  | 9 =>
    let (text, found) := dollarText c.mem de 0x10000
    let unterminated : Log.Record :=
      ⟨.warn, .bios, "BDOS 9: no '$' terminator in memory from " ++ Hex.word de⟩
    result (Console.writeAll b.console text) 0 (if found then [] else [unterminated])
  | 10 =>
    match readLine b.console c with
    | (console, some c) => .continuing (returning c 0) { b with console := console } []
    | (console, none) => .halting c { b with console := console } []
  | 11 => status
  | 12 => result b.console bdosVersion []
  | _ =>
    result b.console 0x00FF
      [⟨.warn, .bios, "unsupported BDOS function " ++ toString function.toNat⟩]

/-- Serves a BDOS call, with a record of the call before those it makes. -/
def callBdos (b : Bios κ) (c : Core) : TrapReply (Bios κ) :=
  let reply := b.serveBdos c
  let call : Log.Record :=
    ⟨.trace, .bios, "BDOS " ++ toString c.regs.main.c.toNat ++ " DE=" ++ Hex.word c.regs.main.de⟩
  { reply with log := call :: reply.log }

end Cpm.Bios
