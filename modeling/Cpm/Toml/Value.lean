/-!
# Values and tables

A table remembers how it came to be, because that decides what may still be added to
it: an inline table is complete, a table under a header is opened only once, a table
that only a longer header or a dotted key named can still be extended in the same
way.
-/

namespace Cpm.Toml

/-- How a table came to be. -/
inductive Origin where
  /-- It was written in braces. -/
  | inline
  /-- It has a header. -/
  | header
  /-- A longer header runs through it. -/
  | implicit
  /-- A dotted key runs through it. -/
  | dotted
  deriving DecidableEq, Repr

inductive Value where
  | string (s : String)
  | integer (n : Int)
  | array (items : List Value)
  | table (origin : Origin) (entries : List (String × Value))
  deriving Repr, Inhabited

/-- What a table holds, with each key at most once. -/
abbrev Entries := List (String × Value)

/-- The keys on the way to an entry, and the entry's own. -/
structure Key where
  first : String
  rest : List String
  deriving DecidableEq, Repr

namespace Entries

/-- Replaces what is under a key; `f` is told what is there and may refuse. -/
def alter (key : String) (f : Option Value → Option Value) : Entries → Option Entries
  | [] => (f none).map fun v => [(key, v)]
  | (k, old) :: others =>
    if k = key then (f (some old)).map fun v => (k, v) :: others
    else (alter key f others).map ((k, old) :: ·)

/-- Adds a value under a key, which has to be new. Tables on the way to it are made, or
were made by dotted keys before. -/
def add (value : Value) (key : String) : List String → Entries → Option Entries
  | [], es => alter key (fun old => if old.isNone then some value else none) es
  | next :: rest, es =>
    es.alter key fun
      | none => (add value next rest []).map (.table .dotted)
      | some (.table .dotted inner) => (add value next rest inner).map (.table .dotted)
      | some _ => none

/-- Fills the table with the given header. It may have been named by longer headers,
but not have been opened before. -/
def fill (f : Entries → Option Entries) (key : String) : List String → Entries → Option Entries
  | [], es =>
    es.alter key fun
      | none => (f []).map (.table .header)
      | some (.table .implicit inner) => (f inner).map (.table .header)
      | some _ => none
  | next :: rest, es =>
    es.alter key fun
      | none => (fill f next rest []).map (.table .implicit)
      | some (.table .inline _) => none
      | some (.table origin inner) => (fill f next rest inner).map (.table origin)
      | some _ => none

end Entries

structure Entry where
  key : Key
  value : Value

def Entries.addAll (es : Entries) (entries : List Entry) : Option Entries :=
  entries.foldlM (fun es e => es.add e.value e.key.first e.key.rest) es

end Cpm.Toml
