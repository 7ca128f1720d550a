import Cpm.Toml.Scalar
import Cpm.Toml.Value

/-!
# Documents

A document is read into sections: the entries before the first header, and the
entries below each header. Together they make one table. Of the values only strings,
integers, arrays and inline tables are read, and of the headers those of single
tables; a document with anything else is refused.
-/

namespace Cpm.Toml

open Reader

/-- The characters of keys without quotes. -/
def isBare (c : Char) : Bool := c.isAlphanum || c = '_' || c = '-'

def simpleKey : Reader String := do
  match ← peek with
  | some '"' => String.ofList <$> lineString .basic
  | some '\'' => String.ofList <$> lineString .literal
  | _ => String.ofList <$> takeWhileOne isBare

/-- Reads a key, whose parts have dots between them. -/
def key : Reader Key := do
  let part : Reader String := do
    spaces
    let k ← simpleKey
    spaces
    pure k
  let first ← part
  let rest ← many do
    if ← skip? ['.'] then some <$> part else pure none
  pure ⟨first, rest⟩

/-- Passes over blanks, comments and line ends. -/
def gap : Reader Unit := do
  let _ ← many do
    spaces
    if ← comment? then
      if ← lineEnd? then pure (some ()) else fail
    else return if ← lineEnd? then some () else none

/-- Reads what `item` reads, as often as there is a comma after it. -/
def separated {α : Type} (item : Reader α) : Reader (List α) := do
  let first ← item
  let rest ← many do
    if ← skip? [','] then some <$> item else pure none
  pure (first :: rest)

/-- Reads the items of an array after its opening bracket. A comma may follow the
last. -/
def arrayItems (value : Reader Value) : Reader (List Value) := do
  gap
  let items ← many do
    if (← peek) = some ']' then pure none else
    let v ← value
    gap
    if ← skip? [','] then gap
    else if (← peek) ≠ some ']' then fail
    pure (some v)
  expect [']']
  pure items

def entry (value : Reader Value) : Reader Entry := do
  let k ← key
  expect ['=']
  spaces
  let v ← value
  spaces
  pure ⟨k, v⟩

def inlineEntries (value : Reader Value) : Reader Entries := do
  spaces
  if ← skip? ['\x7d'] then pure [] else
  let entries ← separated (entry value)
  expect ['\x7d']
  match Entries.addAll [] entries with
  | some es => pure es
  | none => fail

/-- Arrays and inline tables are nested at most this deep. -/
def nesting : Nat := 80

/-- Reads a value with at most `depth` levels of arrays and inline tables. -/
def value : (depth : Nat) → Reader Value
  | 0 => fail
  | depth + 1 => do
    match ← peek with
    | some '"' => return .string (String.ofList (← anyString .basic))
    | some '\'' => return .string (String.ofList (← anyString .literal))
    | some '[' =>
      expect ['[']
      return .array (← arrayItems (value depth))
    | some '\x7b' =>
      expect ['\x7b']
      return .table .inline (← inlineEntries (value depth))
    | _ => return .integer (← integer)

/-- Reads the end of a line, which a comment may precede. The text may end here. -/
def endOfLine : Reader Unit := do
  spaces
  let _ ← comment?
  if ← lineEnd? then pure () else
  if ← atEnd then pure () else fail

def entries : Reader (List Entry) := do
  let lines ← many do
    spaces
    match ← peek with
    | none | some '[' => pure none
    | some '#' | some '\n' | some '\r' =>
      endOfLine
      pure (some none)
    | _ =>
      let e ← entry (value nesting)
      endOfLine
      pure (some (some e))
  pure (lines.filterMap id)

/-- A header and the entries below it. -/
structure Section where
  header : Key
  entries : List Entry

def section? : Reader (Option Section) := do
  if ← atEnd then pure none else
  expect ['[']
  let header ← key
  expect [']']
  endOfLine
  return some ⟨header, ← entries⟩

structure Document where
  entries : List Entry
  sections : List Section

namespace Document

/-- Reads a whole document. A byte order mark may precede it. -/
def reader : Reader Document := do
  let _ ← skip? ['\uFEFF']
  let first ← Toml.entries
  let sections ← many section?
  if ← atEnd then pure ⟨first, sections⟩ else fail

def table? (d : Document) : Option Entries := do
  let top ← Entries.addAll [] d.entries
  d.sections.foldlM (fun es s =>
    es.fill (fun inner => inner.addAll s.entries) s.header.first s.header.rest) top

end Document

def parse? (text : String) : Option Entries := do
  let (d, _) ← Document.reader text.toList
  d.table?

end Cpm.Toml
