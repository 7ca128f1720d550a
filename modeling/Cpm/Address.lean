import Cpm.Text.Blank
import Cpm.Text.Quoted

/-!
# Addresses

An address is a word: decimal digits, or hexadecimal ones with `0x` before or `h`
after them. Blanks around it do not count. One plus sign and any number of leading
zeros may precede the digits.
-/

namespace Cpm.Address

inductive DigitError where
  | empty | invalid | tooLarge
  deriving DecidableEq, Repr

namespace DigitError

def message : DigitError → String
  | .empty => "cannot parse integer from empty string"
  | .invalid => "invalid digit found in string"
  | .tooLarge => "number too large to fit in target type"

end DigitError

inductive Radix where
  | decimal | hexadecimal
  deriving DecidableEq, Repr

namespace Radix

def base : Radix → Nat
  | .decimal => 10
  | .hexadecimal => 16

/-- The value of a character as a digit, in either letter case. -/
def digit? (r : Radix) (c : Char) : Option Nat :=
  let value :=
    if '0' ≤ c ∧ c ≤ '9' then some (c.toNat - '0'.toNat)
    else if 'a' ≤ c ∧ c ≤ 'f' then some (c.toNat - 'a'.toNat + 10)
    else if 'A' ≤ c ∧ c ≤ 'F' then some (c.toNat - 'A'.toNat + 10)
    else none
  value.filter (· < r.base)

end Radix

/-- Reads digits after those that made `value`. The first fault counts, be it a
character that is no digit or a value above a word. -/
def readDigits (r : Radix) (value : Nat) : List Char → Except DigitError UInt16
  | [] => .ok (UInt16.ofNat value)
  | c :: rest =>
    match r.digit? c with
    | none => .error .invalid
    | some d =>
      let value := value * r.base + d
      if 0xFFFF < value then .error .tooLarge else readDigits r value rest

/-- Reads a word written in digits. A sign needs a digit after it. -/
def readWord (r : Radix) : List Char → Except DigitError UInt16
  | [] => .error .empty
  | ['+'] => .error .invalid
  | '+' :: digits => readDigits r 0 digits
  | digits => readDigits r 0 digits

/-- Splits a text without outer blanks into its base and its digits. A mark before
the digits is looked for first. -/
def split (s : List Char) : Radix × List Char :=
  match s with
  | '0' :: 'x' :: digits => (.hexadecimal, digits)
  | '0' :: 'X' :: digits => (.hexadecimal, digits)
  | _ =>
    match s.getLast? with
    | some 'h' => (.hexadecimal, s.dropLast)
    | some 'H' => (.hexadecimal, s.dropLast)
    | _ => (.decimal, s)

structure Error where
  text : List Char
  cause : DigitError
  deriving DecidableEq, Repr

namespace Error

def message (e : Error) : String :=
  "bad address " ++ String.ofList (Quoted.encode e.text) ++ ": " ++ e.cause.message

end Error

def parse (s : String) : Except Error UInt16 :=
  let text := trimBlanks s.toList
  let (radix, digits) := split text
  (readWord radix digits).mapError (⟨text, ·⟩)

end Cpm.Address
