/-!
# Control sequences

A terminal takes escapes, and the characters that belong to them, as orders and not
as text. What is shown of a text leaves them out, together with all controls but
those that move to another place on the page.

Reading alternates between shown stretches and skipped ones. A shown stretch goes on
as long as the characters can be shown; at the first one that cannot, skipping begins
and lasts until a character is found that is text where it stands.
-/

namespace Cpm.ControlSequence

inductive State where
  | text
  /-- After an escape. -/
  | escape
  /-- After an escape and characters that announce its last one. -/
  | escapeMiddle
  /-- A control with its parameters, up to its last character. -/
  | control
  /-- A command to the system, up to a bell. -/
  | command
  /-- The start of a string for a device. -/
  | device
  /-- The parameters of a string for a device. -/
  | deviceParameter
  /-- What announces the last character of the start of a string for a device. -/
  | deviceMiddle
  /-- A string that is for others than the reader. -/
  | string
  deriving DecidableEq, Repr

def within (low high : Nat) (c : Char) : Bool := low ≤ c.toNat && c.toNat ≤ high

/-- The controls that move on the page. -/
def isMove (c : Char) : Bool := c = '\t' || c = '\n' || c = '\x0C' || c = '\r'

/-- The characters that go on with a shown stretch. -/
def isShown (c : Char) : Bool := isMove c || within 0x20 0x7E c || 0x80 ≤ c.toNat

/-- The byte that ends a string; it also does so inside a longer character. -/
def terminator : UInt8 := 0x9C

def hasTerminator (c : Char) : Bool := (String.utf8EncodeChar c).contains terminator

namespace State

/-- Whether a character is text, although it follows a skipped one. -/
def resumes (s : State) (c : Char) : Bool :=
  match s with
  | .text => isShown c
  | .escape | .escapeMiddle | .control => isMove c
  | _ => false

def afterEscape (c : Char) : State :=
  if within 0x20 0x2F c then .escapeMiddle
  else if c = '[' then .control
  else if c = ']' then .command
  else if c = 'P' then .device
  else if c = 'X' || c = '^' || c = '_' then .string
  else if within 0x30 0x7E c then .text
  else .escape

/-- What follows one of the first characters of a string for a device, all of them
being parameters up to the code `last`. -/
def afterDevice (s : State) (last : Nat) (c : Char) : State :=
  if within 0x20 0x2F c then .deviceMiddle
  else if within 0x30 last c then .deviceParameter
  else if within 0x30 0x7E c then .string
  else s

/-- What is being read after a skipped character. Two controls break off whatever
went before, and an escape begins anew. -/
def afterSkipped (s : State) (c : Char) : State :=
  if c = '\x18' || c = '\x1A' then .text
  else if c = '\x1B' then .escape
  else match s with
    | .text => .text
    | .escape => afterEscape c
    | .escapeMiddle => if within 0x30 0x7E c then .text else .escapeMiddle
    | .control => if within 0x40 0x7E c then .text else .control
    | .command => if c = '\x07' then .text else .command
    | .device => afterDevice .device 0x3F c
    | .deviceParameter => afterDevice .deviceParameter 0x3B c
    | .deviceMiddle => if within 0x30 0x7E c then .string else .deviceMiddle
    | .string => if hasTerminator c then .text else .string

/-- What is being read after a shown character. A character outside ASCII ends a
sequence that a move had interrupted; the others leave it to be gone on with. -/
def afterShown (s : State) (c : Char) : State := if 0x80 ≤ c.toNat then .text else s

end State

/-- The shown characters, where `showing` says whether the stretch is a shown one. -/
def shown (s : State) (showing : Bool) : List Char → List Char
  | [] => []
  | c :: cs =>
    if (if showing then isShown c else s.resumes c) then c :: shown (s.afterShown c) true cs
    else shown (s.afterSkipped c) false cs

def strip (s : String) : String := String.ofList (shown .text true s.toList)

end Cpm.ControlSequence
