import Cpm.Toml.Reader

/-!
# Strings and integers

The characters of comments and strings, the four kinds of strings, and integers. A
string of one line cannot hold a line end; one between triple quotes can, and a line
end right after the opening quotes is not part of it.
-/

namespace Cpm.Toml

open Reader

def isSpace (c : Char) : Bool := c = ' ' || c = '\t'

def spaces : Reader Unit := do
  let _ ← takeWhile isSpace

def lineEnd? : Reader Bool := do
  if ← skip? ['\n'] then pure true else skip? ['\r', '\n']

/-- The characters that may stand in a line: no control but the tab. -/
def isShown (c : Char) : Bool := c = '\t' || (' ' ≤ c && c ≠ '\x7f')

def comment? : Reader Bool := do
  if ← skip? ['#'] then
    let _ ← takeWhile isShown
    pure true
  else pure false

/-- Which quotes a string stands between. -/
inductive Quote where
  /-- Backslashes escape. -/
  | basic
  /-- Every character is itself. -/
  | literal
  deriving DecidableEq, Repr

namespace Quote

def mark : Quote → Char
  | .basic => '"'
  | .literal => '\''

def isPlain (q : Quote) (c : Char) : Bool :=
  isShown c && c ≠ q.mark && !(q = .basic && c = '\\')

end Quote

def hexValue? (c : Char) : Option Nat :=
  if '0' ≤ c ∧ c ≤ '9' then some (c.toNat - '0'.toNat)
  else if 'a' ≤ c ∧ c ≤ 'f' then some (c.toNat - 'a'.toNat + 10)
  else if 'A' ≤ c ∧ c ≤ 'F' then some (c.toNat - 'A'.toNat + 10)
  else none

def number? (base : Nat) (digits : List Char) : Option Nat :=
  digits.foldlM (fun value c =>
    ((hexValue? c).filter (· < base)).map fun d => value * base + d) 0

def codePoint (digits : Nat) : Reader Char := do
  match number? 16 (← take digits) with
  | some n => if n.isValidChar then pure (Char.ofNat n) else fail
  | none => fail

def escaped : Reader Char := do
  match ← next with
  | 'b' => pure '\x08'
  | 't' => pure '\t'
  | 'n' => pure '\n'
  | 'f' => pure '\x0c'
  | 'r' => pure '\r'
  | '"' => pure '"'
  | '\\' => pure '\\'
  | 'u' => codePoint 4
  | 'U' => codePoint 8
  | _ => fail

def linePart? (q : Quote) : Reader (Option (List Char)) := do
  match ← peek with
  | none => pure none
  | some c =>
    if q.isPlain c then some <$> takeWhile q.isPlain
    else if q = .basic ∧ c = '\\' then
      let _ ← next
      return some [← escaped]
    else pure none

def lineString (q : Quote) : Reader (List Char) := do
  expect [q.mark]
  let parts ← many (linePart? q)
  expect [q.mark]
  pure parts.flatten

def blankLines : Reader Unit := do
  let _ ← many do
    spaces
    return if ← lineEnd? then some () else none

/-- Reads what follows a backslash in a string of several lines. At the end of a line
a backslash takes away all blanks and line ends up to the next character. -/
def escapedPart : Reader (List Char) := fun s =>
  let joined : Reader (List Char) := do
    spaces
    if ← lineEnd? then
      blankLines
      pure []
    else fail
  match joined s with
  | some r => some r
  | none => (do return [← escaped] : Reader (List Char)) s

/-- The number of marks at the front of a text. -/
def runLength (mark : Char) (s : List Char) : Nat := (s.takeWhile (· = mark)).length

/-- Takes quotes that do not end the string: a run of one or two. -/
def innerQuotes? (q : Quote) : Reader (Option (List Char)) := fun s =>
  let marks := runLength q.mark s
  some (if marks < 3 then (some (s.take marks), s.drop marks) else (none, s))

/-- Takes up to two quotes from a run, so that three are left. -/
def lastQuotes (q : Quote) : Reader (List Char) := fun s =>
  let kept := min (runLength q.mark s - 3) 2
  some (s.take kept, s.drop kept)

def blockPart? (q : Quote) : Reader (Option (List Char)) := do
  match ← peek with
  | none => pure none
  | some c =>
    if q.isPlain c then some <$> takeWhile q.isPlain
    else if c = q.mark then innerQuotes? q
    else if q = .basic ∧ c = '\\' then
      let _ ← next
      some <$> escapedPart
    else return if ← lineEnd? then some ['\n'] else none

/-- Reads a string of several lines. Quotes right before the closing ones belong to
it, two at most. -/
def blockString (q : Quote) : Reader (List Char) := do
  let marks := [q.mark, q.mark, q.mark]
  expect marks
  let _ ← lineEnd?
  let parts ← many (blockPart? q)
  let last ← lastQuotes q
  expect marks
  pure (parts.flatten ++ last)

def anyString (q : Quote) : Reader (List Char) := fun s =>
  if [q.mark, q.mark, q.mark].isPrefixOf s then blockString q s else lineString q s

/-- Reads digits in the given base. Single underscores may stand between them. -/
def digits (base : Nat) : Reader (List Char) := do
  let isDigit (c : Char) : Bool := (hexValue? c).any (· < base)
  let first ← takeWhileOne isDigit
  let more ← many do
    if ← skip? ['_'] then some <$> takeWhileOne isDigit else pure none
  pure (first ++ more.flatten)

def based (base : Nat) : Reader Nat := do
  match number? base (← digits base) with
  | some n => pure n
  | none => fail

/-- Reads a decimal integer. Only zero itself starts with a zero. -/
def decimal : Reader Nat := do
  let zero := (← peek) = some '0'
  let cs ← digits 10
  if zero && 1 < cs.length then fail else
  match number? 10 cs with
  | some n => pure n
  | none => fail

/-- Reads an integer. Those with a base mark have no sign. -/
def integer : Reader Int := do
  if ← skip? ['0', 'x'] then return ← based 16
  if ← skip? ['0', 'o'] then return ← based 8
  if ← skip? ['0', 'b'] then return ← based 2
  if ← skip? ['-'] then return -(← decimal : Int)
  let _ ← skip? ['+']
  return ← decimal

end Cpm.Toml
