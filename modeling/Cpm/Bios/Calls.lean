import Cpm.Bios

/-!
# Serving BIOS functions

Each function takes its arguments from registers and leaves its results there.
Booting writes page zero and starts the program; a warm boot stops the machine.
-/

namespace Cpm.Bios

variable {κ : Type}

/-- Page zero: the jump to the warm boot, the byte of device assignments, the
current drive, and the jump to the BDOS. -/
def putPageZero (m : Memory) : Memory :=
  let m := Layout.putJump m 0x0000 BiosFunction.wboot.vector
  let m := (m.put8 0x0003 0x00).put8 0x0004 0x00
  Layout.putJump m 0x0005 Layout.bdosEntry

/-- Starts a program with a stack whose return address is the warm boot. -/
def start (c : Core) (addr : UInt16) : Core :=
  let sp := Layout.bdosEntry - 2
  { c with
    regs := { c.regs with sp := sp, pc := addr }
    mem := c.mem.put16 sp 0x0000 }

def startRecord (addr : UInt16) : Log.Record :=
  ⟨.info, .bios, "boot: starting at " ++ Hex.word addr⟩

/-- The cold boot. The boot sector is read to the start of the program area; where
there is none, the selection stays as the attempt left it. -/
def coldBoot (b : Bios κ) (c : Core) : TrapReply (Bios κ) :=
  let c := { c with mem := putPageZero c.mem }
  let b := b.select fun _ => .initial
  match b.boot with
  | .program addr => .continuing (start c addr) b [startRecord addr]
  | .disk =>
    let attempt := b.select ({ · with dma := Layout.programArea })
    let access := attempt.readSelected c.mem
    let c := { c with mem := access.result }
    if access.ok then
      .continuing (start c Layout.programArea) b [startRecord Layout.programArea]
    else
      .halting c attempt (access.log ++ [⟨.error, .bios, "no bootable disk in drive A"⟩])

/-- Selects the drive in C if it holds a disk, and reports its header. -/
def selectDrive (b : Bios κ) (c : Core) : TrapReply (Bios κ) :=
  let number := c.regs.main.c.toNat
  let withHl (w : UInt16) := c.onRegs (·.setPointer .hl w)
  if h : number < 4 then
    if b.disks[number].isSome then
      .continuing (withHl (Layout.header number)) (b.select ({ · with drive := ⟨number, h⟩ })) []
    else .continuing (withHl 0) b [missing number]
  else .continuing (withHl 0) b [missing number]
where
  missing (number : Nat) : Log.Record :=
    ⟨.debug, .bios, "select of missing drive " ++ toString number⟩

/-- The physical sector for the logical one in BC, by the table at DE if there is
one. -/
def physicalSector (c : Core) : UInt16 :=
  let logical := c.regs.main.bc
  let table := c.regs.main.de
  if table = 0 then logical else (c.mem.get8 (table + logical)).toUInt16

variable [Console κ]

def serveFunction (f : BiosFunction) (b : Bios κ) (c : Core) : TrapReply (Bios κ) :=
  let withA (v : UInt8) := c.onRegs (·.setA v)
  let bc := c.regs.main.bc
  match f with
  | .boot => b.coldBoot c
  | .wboot => .halting c b [⟨.info, .bios, "warm boot requested, stopping"⟩]
  | .const =>
    let (ready, console) := Console.status b.console
    .continuing (withA (readyByte ready)) { b with console := console } []
  | .conin =>
    match Console.read b.console with
    | (some ch, console) => .continuing (withA ch) { b with console := console } []
    | (none, console) => .halting c { b with console := console } []
  | .conout => .continuing c { b with console := Console.write b.console c.regs.main.c } []
  | .list | .punch =>
    .continuing c b
      [⟨.trace, .bios, f.label ++ " discarded " ++ Hex.byte c.regs.main.c⟩]
  | .reader => .continuing (withA 0x1A) b []
  | .listst => .continuing (withA 0xFF) b []
  | .home => .continuing c (b.select ({ · with track := 0 })) []
  | .seldsk => b.selectDrive c
  | .settrk => .continuing c (b.select ({ · with track := bc })) []
  | .setsec => .continuing c (b.select ({ · with sector := bc })) []
  | .setdma => .continuing c (b.select ({ · with dma := bc })) []
  | .read =>
    let access := b.readSelected c.mem
    .continuing { withA (statusByte access.ok) with mem := access.result } b access.log
  | .write =>
    let access := b.writeSelected c.mem
    .continuing (withA (statusByte access.ok)) access.result access.log
  | .sectran => .continuing (c.onRegs (·.setPointer .hl (physicalSector c))) b []

/-- Serves a function, with a record of the call before those it makes. -/
def callFunction (f : BiosFunction) (b : Bios κ) (c : Core) : TrapReply (Bios κ) :=
  let reply := b.serveFunction f c
  let call : Log.Record :=
    ⟨.debug, .bios, "BIOS " ++ f.label ++ " BC=" ++ Hex.word c.regs.main.bc ++ " DE=" ++
      Hex.word c.regs.main.de⟩
  { reply with log := call :: reply.log }

end Cpm.Bios
