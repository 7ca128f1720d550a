import Cpm.Text.Extending
import Cpm.Text.Unprintable

/-!
# Quoted text

Messages show text that comes from outside between quotes. Quotes, backslashes and
the common controls are written with a backslash; characters that would not show,
or would combine with the one before, are written as their code point in
hexadecimal.
-/

namespace Cpm.Quoted

def hexDigits (n : Nat) : List Char := Nat.toDigits 16 n

def codePoint (c : Char) : List Char := ['\\', 'u', '\x7b'] ++ hexDigits c.toNat ++ ['\x7d']

def escape (c : Char) : List Char :=
  if c = '\x00' then ['\\', '0']
  else if c = '\t' then ['\\', 't']
  else if c = '\r' then ['\\', 'r']
  else if c = '\n' then ['\\', 'n']
  else if c = '"' ∨ c = '\\' then ['\\', c]
  else if CodePoints.extending.contains c || CodePoints.unprintable.contains c then codePoint c
  else [c]

def encode (s : List Char) : List Char := '"' :: s.flatMap escape ++ ['"']

end Cpm.Quoted

namespace Cpm

/-- Text shown between quotes. -/
def quoted (s : String) : String := String.ofList (Quoted.encode s.toList)

end Cpm
