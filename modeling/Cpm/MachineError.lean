import Cpm.Hex
import Cpm.HostFiles

/-!
# Errors of the machine

What can go wrong when programs are loaded and disks are mounted or written back.
-/

namespace Cpm

inductive MachineError where
  | io (path : String) (cause : IoError)
  /-- An image reaches into the area of the operating system. -/
  | imageTooLarge (addr : UInt16) (size : Nat) (limit : UInt16)
  /-- A disk image holds more than a disk. -/
  | diskGeometry (path : String) (size expected : Nat)
  | noSuchDrive (drive : Nat)
  deriving DecidableEq, Repr

namespace MachineError

def message : MachineError → String
  | .io path cause => "io error on " ++ path ++ ": " ++ cause.message
  | .imageTooLarge addr size limit =>
    "image of " ++ toString size ++ " bytes does not fit at " ++ Hex.word addr ++ "h (limit " ++
      Hex.word limit ++ "h)"
  | .diskGeometry path size expected =>
    "disk image " ++ path ++ " is " ++ toString size ++ " bytes, expected at most " ++
      toString expected
  | .noSuchDrive drive => "no drive " ++ toString drive ++ ": only A-D exist"

def cause? : MachineError → Option IoError
  | .io _ cause => some cause
  | _ => none

end MachineError

end Cpm
