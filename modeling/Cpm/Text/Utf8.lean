/-!
# UTF-8

Bytes are read one at a time. A character of several bytes starts with a lead
byte, which tells how many continuation bytes follow and in which range the first
of them has to be; the ranges leave out overlong forms, surrogates and codes that
are too large. A byte that cannot go on ends what was begun as one faulty piece,
and is read as the start of the next character.
-/

namespace Cpm.Utf8

/-- A character of which some bytes are still to come. -/
structure Pending where
  /-- The bits read so far. -/
  bits : Nat
  /-- The number of bytes that follow the next one. -/
  later : Nat
  /-- The range of the next byte. -/
  low : UInt8
  high : UInt8
  deriving DecidableEq, Repr

/-- What has been read: whole characters, with `none` for a faulty piece, and the
character that has been begun. -/
structure Scan where
  done : Array (Option Char)
  pending : Option Pending
  deriving Inhabited

namespace Pending

/-- The range of a continuation byte that is not bound any further. -/
def ordinary (bits later : Nat) : Pending := ⟨bits, later, 0x80, 0xBF⟩

def ofLead? (b : UInt8) : Option Pending :=
  let n := b.toNat
  if 0xC2 ≤ b ∧ b ≤ 0xDF then some (ordinary (n - 0xC0) 0)
  else if b = 0xE0 then some ⟨0, 1, 0xA0, 0xBF⟩
  else if b = 0xED then some ⟨0xD, 1, 0x80, 0x9F⟩
  else if 0xE1 ≤ b ∧ b ≤ 0xEF then some (ordinary (n - 0xE0) 1)
  else if b = 0xF0 then some ⟨0, 2, 0x90, 0xBF⟩
  else if 0xF1 ≤ b ∧ b ≤ 0xF3 then some (ordinary (n - 0xF0) 2)
  else if b = 0xF4 then some ⟨4, 2, 0x80, 0x8F⟩
  else none

def extend (p : Pending) (b : UInt8) : Nat := p.bits * 64 + (b.toNat - 0x80)

end Pending

namespace Scan

def empty : Scan := ⟨#[], none⟩

def start (done : Array (Option Char)) (b : UInt8) : Scan :=
  if b < 0x80 then ⟨done.push (some (Char.ofNat b.toNat)), none⟩
  else match Pending.ofLead? b with
    | some p => ⟨done, some p⟩
    | none => ⟨done.push none, none⟩

def push (s : Scan) (b : UInt8) : Scan :=
  match s.pending with
  | none => start s.done b
  | some p =>
    if p.low ≤ b ∧ b ≤ p.high then
      match p.later with
      | 0 => ⟨s.done.push (some (Char.ofNat (p.extend b))), none⟩
      | later + 1 => ⟨s.done, some (.ordinary (p.extend b) later)⟩
    else start (s.done.push none) b

/-- Everything that was read; a character whose end is missing is faulty. -/
def finish (s : Scan) : List (Option Char) :=
  (if s.pending.isSome then s.done.push none else s.done).toList

end Scan

/-- The characters of a byte string, with `none` for each faulty piece. -/
def characters (bytes : ByteArray) : List (Option Char) := (bytes.foldl Scan.push .empty).finish

/-- The text with a replacement character for each faulty piece. -/
def decodeLossy (bytes : ByteArray) : String :=
  String.ofList ((characters bytes).map fun c => c.getD '\uFFFD')

/-- The text, if no piece is faulty. -/
def decode? (bytes : ByteArray) : Option String := ((characters bytes).mapM id).map String.ofList

end Cpm.Utf8
