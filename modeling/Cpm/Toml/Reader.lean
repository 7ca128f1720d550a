/-!
# Readers

A reader takes a part off the front of a text and leaves the rest, or fails. What a
reader does not want it leaves in place.
-/

namespace Cpm.Toml

/-- Reads a part of a text. -/
abbrev Reader (α : Type) := StateT (List Char) Option α

namespace Reader

variable {α : Type}

def fail : Reader α := fun _ => none

def peek : Reader (Option Char) := fun s => some (s.head?, s)

def next : Reader Char := fun
  | [] => none
  | c :: rest => some (c, rest)

def take (n : Nat) : Reader (List Char) := fun s =>
  if n ≤ s.length then some (s.take n, s.drop n) else none

def takeWhile (p : Char → Bool) : Reader (List Char) := fun s =>
  some (s.takeWhile p, s.dropWhile p)

/-- Takes at least one character that satisfies a test, and all that follow it. -/
def takeWhileOne (p : Char → Bool) : Reader (List Char) := do
  let cs ← takeWhile p
  if cs.isEmpty then fail else pure cs

/-- Passes over the given characters if they are next, and says whether it did. -/
def skip? (cs : List Char) : Reader Bool := fun s =>
  some (if cs.isPrefixOf s then (true, s.drop cs.length) else (false, s))

/-- Passes over the given characters, which have to be next. -/
def expect (cs : List Char) : Reader Unit := do
  if ← skip? cs then pure () else fail

def atEnd : Reader Bool := fun s => some (s.isEmpty, s)

/-- Collects what `r` reads until it reads none, at most `n` times. -/
def collect (r : Reader (Option α)) : Nat → Reader (List α)
  | 0 => fail
  | n + 1 => do
    match ← r with
    | none => pure []
    | some a => return a :: (← collect r n)

/-- Collects what `r` reads until it reads none. Of a text no more parts can be read
than it has characters. -/
def many (r : Reader (Option α)) : Reader (List α) := fun s => collect r (s.length + 1) s

end Reader

end Cpm.Toml
