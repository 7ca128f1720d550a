import Cpm.Bios.Function
import Cpm.Memory
import Cpm.Ports

/-!
# High memory

The operating system lives at the top of memory:

- `FD00` the BDOS entry
- `FE00` the BIOS vectors
- `FE40` the sector skew table
- `FE5A` the disk parameter block
- `FE69` the directory buffer
- `FEF0` the disk parameter headers, one for each drive
- `FF30` the allocation and check areas, two for each drive

The entry and the vectors hold the same three bytes: a write to the trap port and
a return.
-/

namespace Cpm.Layout

def bdosEntry : UInt16 := 0xFD00

def skewTable : UInt16 := 0xFE40

def parameterBlock : UInt16 := 0xFE5A

def directoryBuffer : UInt16 := 0xFE69

def headers : UInt16 := 0xFEF0

def headerSize : UInt16 := 16

def areas : UInt16 := 0xFF30

def allocationSize : UInt16 := 31

def checkSize : UInt16 := 16

def drives : Nat := 4

/-- Where data is moved to and from unless a program says otherwise. -/
def defaultDma : UInt16 := 0x0080

def programArea : UInt16 := 0x0100

/-- The bytes of an entry: output to the trap port, return. -/
def stub : List UInt8 := [0xD3, Port.trap, 0xC9]

/-- The physical sector for each logical one, six apart. -/
def skew : List UInt8 :=
  [1, 7, 13, 19, 25, 5, 11, 17, 23, 3, 9, 15, 21, 2, 8, 14, 20, 26, 6, 12, 18, 24, 4, 10, 16, 22]

/-- The parameters of an eight-inch disk: sectors per track, block shift and mask,
extent mask, last block, last directory entry, directory blocks, size of the check
area, and reserved tracks. -/
def parameters : List UInt8 := [26, 0, 3, 7, 0, 242, 0, 63, 0, 0xC0, 0x00, 16, 0, 2, 0]

def header (drive : Nat) : UInt16 := headers + headerSize * UInt16.ofNat drive

def allocationArea (drive : Nat) : UInt16 :=
  areas + (allocationSize + checkSize) * UInt16.ofNat drive

def checkArea (drive : Nat) : UInt16 := allocationArea drive + allocationSize

def headerWords (drive : Nat) : List UInt16 :=
  [skewTable, 0, 0, 0, directoryBuffer, parameterBlock, checkArea drive,
    allocationArea drive]

def putJump (m : Memory) (at_ target : UInt16) : Memory := (m.put8 at_ 0xC3).put16 (at_ + 1) target

def putWords (m : Memory) (at_ : UInt16) : List UInt16 → Memory
  | [] => m
  | w :: ws => putWords (m.put16 at_ w) (at_ + 2) ws

def install (m : Memory) : Memory :=
  let m := putJump m 0 BiosFunction.boot.vector
  let m := m.putList bdosEntry stub
  let m := BiosFunction.all.foldl (fun m f => m.putList f.vector stub) m
  let m := m.putList skewTable skew
  let m := m.putList parameterBlock parameters
  (List.range drives).foldl (fun m drive => putWords m (header drive) (headerWords drive)) m

end Cpm.Layout
