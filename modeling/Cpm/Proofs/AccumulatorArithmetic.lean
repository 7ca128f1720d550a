import Cpm.Proofs.Encodings
import Cpm.Proofs.EntrySteps
import Cpm.Proofs.FlagReadings
import Cpm.Proofs.IndexSteps
import Cpm.Proofs.Overflow
import Cpm.Proofs.Stopping

/-!
# Arithmetic on the accumulator

Eight operations combine the accumulator with a byte that comes from a register, from the
instruction itself or from memory. What each must give is stated on natural and on signed
numbers, and for the logical operations on the single bits. It is then shown of the bytes in
memory that encode the instruction, whichever of the sources they name.
-/

namespace Cpm

namespace Flags

/-- Sign and zero describe the result, and the bits that belong to no flag are clear. -/
structure Describes (f : Flags) (r : UInt8) : Prop where
  sign : f.sign = (128 ≤ r.toNat : Bool)
  zero : f.zero = (r = 0 : Bool)
  spare : f.spare = 0

/-- Parity/overflow of an exact result on signed numbers: in Z80 mode whether it leaves the range
of a byte, in 8080 mode whether the byte that is left of it has an odd number of one bits. -/
def parityOf (mode : Mode) (exact : Int) (r : UInt8) : Bool :=
  match mode with
  | .z80 => overflows exact
  | .i8080 => oddParity r

structure OfSum (mode : Mode) (a v : UInt8) (added : Bool) (r : UInt8) (f : Flags) : Prop
    extends f.Describes r where
  result : r.toNat = (a.toNat + v.toNat + added.toNat) % 256
  halfCarry : f.halfCarry = (16 ≤ a.toNat % 16 + v.toNat % 16 + added.toNat : Bool)
  carry : f.carry = (256 ≤ a.toNat + v.toNat + added.toNat : Bool)
  subtract : f.subtract = false
  parityOverflow : f.parityOverflow = parityOf mode (signed a + signed v + added.toNat) r

structure OfDifference (mode : Mode) (a v : UInt8) (taken : Bool) (r : UInt8) (f : Flags) : Prop
    extends f.Describes r where
  result : (r.toNat : Int) = ((a.toNat : Int) - v.toNat - taken.toNat) % 256
  halfCarry : f.halfCarry = (a.toNat % 16 < v.toNat % 16 + taken.toNat : Bool)
  carry : f.carry = (a.toNat < v.toNat + taken.toNat : Bool)
  subtract : f.subtract = true
  parityOverflow : f.parityOverflow = parityOf mode (signed a - signed v - taken.toNat) r

/-- The flags and the result of an operation on each bit alone. -/
structure OfLogic (bit : Bool → Bool → Bool) (half : Bool) (a v r : UInt8) (f : Flags) : Prop
    extends f.Describes r where
  result : ∀ i < 8, r.toNat.testBit i = bit (a.toNat.testBit i) (v.toNat.testBit i)
  halfCarry : f.halfCarry = half
  carry : f.carry = false
  subtract : f.subtract = false
  parityOverflow : f.parityOverflow = !oddParity r

theorem describes_ofSignZero (v : UInt8) : (ofSignZero v).Describes v where
  sign := by simp [sign]
  zero := by simp [zero]
  spare := spare_ofSignZero v

theorem describes_ofSignZeroParity (v : UInt8) : (ofSignZeroParity v).Describes v where
  sign := by simp [sign]
  zero := by simp [zero]
  spare := spare_ofSignZeroParity v

/-- The other flags can be set without harm. -/
theorem Describes.set {f : Flags} {r : UInt8} {flag : Flag} (h : f.Describes r)
    (hflag : flag ≠ .sign ∧ flag ≠ .zero) (on : Bool) : (f.set flag on).Describes r where
  sign := by
    rw [← h.sign, Flags.sign, get_set, if_neg hflag.1.symm]
    rfl
  zero := by
    rw [← h.zero, Flags.zero, get_set, if_neg hflag.2.symm]
    rfl
  spare := by rw [spare_set, h.spare]

end Flags

/-- The result and the flags that an operation must give, in a mode and with the carry as it was.
A comparison gives the flags of a difference. -/
def AluOp.Exact (op : AluOp) (mode : Mode) (a v : UInt8) (carry : Bool) (r : UInt8) (f : Flags) :
    Prop :=
  match op with
  | .add => f.OfSum mode a v false r
  | .adc => f.OfSum mode a v carry r
  | .sub | .cp => f.OfDifference mode a v false r
  | .sbc => f.OfDifference mode a v carry r
  | .and => f.OfLogic (· && ·) true a v r
  | .xor => f.OfLogic (· ^^ ·) false a v r
  | .or => f.OfLogic (· || ·) false a v r

namespace Alu

variable (a v : UInt8) (carry : Bool) (mode : Mode)

theorem ofSum_add8 :
    (add8 a v carry mode).flags.OfSum mode a v carry (add8 a v carry mode).value where
  toDescribes := (((Flags.describes_ofSignZero _).set (by decide) _).set (by decide) _).set
    (by decide) _
  result := toNat_sum a v carry
  halfCarry := by simp [add8, Flags.halfCarry, Nat.lt_iff_add_one_le]
  carry := by simp [add8, Flags.carry, Nat.lt_iff_add_one_le]
  subtract := by simp [add8, Flags.subtract]
  parityOverflow := by
    rw [parityOverflow_add8]
    cases mode with
    | i8080 =>
      rw [parityFlag, ofInt_sum]
      rfl
    | z80 => rfl

theorem ofDifference_sub8 :
    (sub8 a v carry mode).flags.OfDifference mode a v carry (sub8 a v carry mode).value where
  toDescribes := ((((Flags.describes_ofSignZero _).set (by decide) _).set (by decide) _).set
    (by decide) _).set (by decide) _
  result := by
    have hvalue : (sub8 a v carry mode).value.toNat = _ := toNat_difference a v carry
    have ha := a.toNat_lt
    have hv := v.toNat_lt
    have hcarry := carry.toNat_le
    omega
  halfCarry := by simp [sub8, Flags.halfCarry]
  carry := by simp [sub8, Flags.carry]
  subtract := by simp [sub8, Flags.subtract]
  parityOverflow := by
    rw [parityOverflow_sub8]
    cases mode with
    | i8080 =>
      rw [parityFlag, ofInt_difference]
      rfl
    | z80 => rfl

end Alu

namespace Flags

variable {bit : Bool → Bool → Bool} {a v r : UInt8}

theorem ofLogic_ofSignZeroParity
    (h : ∀ i < 8, r.toNat.testBit i = bit (a.toNat.testBit i) (v.toNat.testBit i)) :
    (ofSignZeroParity r).OfLogic bit false a v r where
  toDescribes := describes_ofSignZeroParity r
  result := h
  halfCarry := by simp [halfCarry]
  carry := by simp [carry]
  subtract := by simp [subtract]
  parityOverflow := by simp [parityOverflow, oddParity_eq]

/-- Setting the half carry changes nothing else that an operation on bits says. -/
theorem OfLogic.set_halfCarry {f : Flags} {half : Bool} (h : f.OfLogic bit half a v r) :
    (f.set .halfCarry true).OfLogic bit true a v r where
  toDescribes := h.toDescribes.set (by decide) true
  result := h.result
  halfCarry := by simp [Flags.halfCarry]
  carry := by simpa [Flags.carry] using h.carry
  subtract := by simpa [Flags.subtract] using h.subtract
  parityOverflow := by simpa [Flags.parityOverflow] using h.parityOverflow

end Flags

namespace Registers

/-- What an operation leaves in the registers is its exact result; a comparison leaves the
accumulator as it was. -/
theorem accumulate_exact (r : Registers) (op : AluOp) (v : UInt8) (mode : Mode) :
    ∃ result f, op.Exact mode r.main.a v r.main.f.carry result f ∧
      r.accumulate op v mode = { r with
        main := { r.main with a := if op = .cp then r.main.a else result, f := f } } := by
  cases op with
  | add => exact ⟨_, _, Alu.ofSum_add8 _ _ _ _, rfl⟩
  | adc => exact ⟨_, _, Alu.ofSum_add8 _ _ _ _, rfl⟩
  | sub => exact ⟨_, _, Alu.ofDifference_sub8 _ _ _ _, rfl⟩
  | sbc => exact ⟨_, _, Alu.ofDifference_sub8 _ _ _ _, rfl⟩
  | cp => exact ⟨_, _, Alu.ofDifference_sub8 _ _ _ _, rfl⟩
  | and =>
    have hbits : ∀ i < 8, (r.main.a &&& v).toNat.testBit i =
        (r.main.a.toNat.testBit i && v.toNat.testBit i) := fun i _ => by
      rw [UInt8.toNat_and, Nat.testBit_and]
    exact ⟨_, _, (Flags.ofLogic_ofSignZeroParity hbits).set_halfCarry, rfl⟩
  | xor =>
    have hbits : ∀ i < 8, (r.main.a ^^^ v).toNat.testBit i =
        (r.main.a.toNat.testBit i ^^ v.toNat.testBit i) := fun i _ => by
      rw [UInt8.toNat_xor, Nat.testBit_xor]
    exact ⟨_, _, Flags.ofLogic_ofSignZeroParity hbits, rfl⟩
  | or =>
    have hbits : ∀ i < 8, (r.main.a ||| v).toNat.testBit i =
        (r.main.a.toNat.testBit i || v.toNat.testBit i) := fun i _ => by
      rw [UInt8.toNat_or, Nat.testBit_or]
    exact ⟨_, _, Flags.ofLogic_ofSignZeroParity hbits, rfl⟩

end Registers

/-! ### The bytes of an instruction -/

inductive Source where
  | operand (x : Operand)
  | immediate (n : UInt8)

/-- A displacement counts as a signed number. -/
theorem signExtend_eq (d : UInt8) : Word.signExtend d = UInt16.ofInt (signed d) :=
  eq_of_all_allBytes (f := Word.signExtend) (g := fun d => UInt16.ofInt (signed d))
    (by decide +kernel) d

namespace Source

def operation (op : AluOp) : Source → Operation
  | .operand x => .alu op x
  | .immediate n => .aluImm op n

/-- The pointer that the source names, directly or by one of its halves; the others have no
form with an index register. -/
def pointer : Source → Pointer
  | .operand (.reg r) => r.pointer
  | .operand (.mem p) => p.pointer
  | .immediate _ => .hl

def value (src : Source) (c : Core) : UInt8 :=
  match src with
  | .operand (.reg r) => c.regs.byte r
  | .operand (.mem .atHl) => c.mem.get8 c.regs.main.hl
  | .operand (.mem (.offset i d)) => c.mem.get8 (c.regs.index i + UInt16.ofInt (signed d))
  | .immediate n => n

@[simp] theorem value_jump (src : Source) (c : Core) (pc : UInt16) :
    src.value (c.jump pc) = src.value c := by
  match src with
  | .immediate n => rfl
  | .operand (.reg r) => rfl
  | .operand (.mem .atHl) => rfl
  | .operand (.mem (.offset i d)) => rfl

/-- The operation combines the accumulator with the byte of its source. -/
theorem perform_operation (op : AluOp) (src : Source) (c : Core) :
    (c.perform (src.operation op)).core = c.onRegs (·.accumulate op (src.value c) c.mode) := by
  match src with
  | .immediate n => rfl
  | .operand (.reg r) => rfl
  | .operand (.mem .atHl) => rfl
  | .operand (.mem (.offset i d)) =>
    simp only [value, ← signExtend_eq]
    rfl

end Source

namespace Tables

variable (op : AluOp) (x y : UInt8)

theorem common_register (r : Reg8) :
    common (0x80 ||| op.code ||| r.code) x y = Decode.entry 0 (.alu op (.reg (.main r))) := by
  cases op <;> cases r <;> rfl

theorem common_atHl :
    common (0x80 ||| op.code ||| 6) x y = Decode.entry 0 (.alu op (.mem .atHl)) := by
  cases op <;> rfl

theorem common_immediate :
    common (0xC6 ||| op.code) x y = Decode.entry 1 (.aluImm op x) := by
  cases op <;> rfl

theorem indexed_high (i : Index) :
    indexed i (0x80 ||| op.code ||| 4) x y = Decode.entry 0 (.alu op (.reg (.high i))) := by
  cases i <;> cases op <;> rfl

theorem indexed_low (i : Index) :
    indexed i (0x80 ||| op.code ||| 5) x y = Decode.entry 0 (.alu op (.reg (.low i))) := by
  cases i <;> cases op <;> rfl

theorem indexed_offset (i : Index) :
    indexed i (0x80 ||| op.code ||| 6) x y = Decode.entry 1 (.alu op (.mem (.offset i x))) := by
  cases i <;> cases op <;> rfl

end Tables
namespace Cpu

/-- The program counter is at an operation on the accumulator. The forms with an index register
are those of the Z80 alone. -/
structure AtAlu (cpu : Cpu) (op : AluOp) (src : Source) : Prop where
  bytes : cpu.core.mem.getList cpu.core.regs.pc (src.operation op).encode.length =
    (src.operation op).encode
  mode : cpu.core.mode = .z80 ∨ src.pointer = .hl

variable {σ : Type} {cpu : Cpu} {op : AluOp} {src : Source}

/-- A row of the table of an index register, found behind the byte that leads there. -/
theorem decoded_of_indexed {i : Index} {opcode : UInt8} {e : Decode.Entry}
    (hmode : cpu.core.mode = .z80) (hlead : cpu.core.mem.get8 cpu.core.regs.pc = i.lead)
    (hop : cpu.core.mem.get8 (cpu.core.regs.pc + 1) = opcode)
    (hnext : Tables.next? .z80 i.table opcode = none)
    (hrow : Tables.indexed i opcode (cpu.core.mem.get8 (cpu.core.regs.pc + 2))
      (cpu.core.mem.get8 (cpu.core.regs.pc + 3)) = some e) :
    cpu.decoded = ⟨i.table, opcode, 2 + e.operands, some e.instruction⟩ := by
  rw [decoded_indexed hmode hlead hop hnext, hrow]
  rfl

theorem AtAlu.decoded_eq (h : cpu.AtAlu op src) :
    ∃ table opcode, cpu.decoded = ⟨table, opcode, (src.operation op).encode.length,
      some (.operation (src.operation op))⟩ := by
  obtain ⟨hbytes, hmode⟩ := h
  match src with
  | .immediate n =>
    obtain ⟨hop, hrest⟩ := List.cons.inj hbytes
    obtain ⟨rfl, -⟩ := List.cons.inj hrest
    exact ⟨_, _, cpu.decoded_of_common hop (by cases op <;> rfl)
      (Tables.common_immediate op _ _)⟩
  | .operand (.reg (.main r)) =>
    obtain ⟨hop, -⟩ := List.cons.inj hbytes
    exact ⟨_, _, cpu.decoded_of_common hop (by cases op <;> cases r <;> rfl)
      (Tables.common_register op _ _ r)⟩
  | .operand (.mem .atHl) =>
    obtain ⟨hop, -⟩ := List.cons.inj hbytes
    exact ⟨_, _, cpu.decoded_of_common hop (by cases op <;> rfl) (Tables.common_atHl op _ _)⟩
  | .operand (.reg (.high i)) =>
    obtain ⟨hlead, hrest⟩ := List.cons.inj hbytes
    obtain ⟨hop, -⟩ := List.cons.inj hrest
    exact ⟨_, _, decoded_of_indexed (hmode.resolve_right nofun) hlead hop
      (by cases i <;> cases op <;> rfl) (Tables.indexed_high op _ _ i)⟩
  | .operand (.reg (.low i)) =>
    obtain ⟨hlead, hrest⟩ := List.cons.inj hbytes
    obtain ⟨hop, -⟩ := List.cons.inj hrest
    exact ⟨_, _, decoded_of_indexed (hmode.resolve_right nofun) hlead hop
      (by cases i <;> cases op <;> rfl) (Tables.indexed_low op _ _ i)⟩
  | .operand (.mem (.offset i d)) =>
    have hnext : cpu.core.regs.pc + 1 + 1 = cpu.core.regs.pc + 2 := by grind
    obtain ⟨hlead, hrest⟩ := List.cons.inj hbytes
    obtain ⟨hop, hrest⟩ := List.cons.inj hrest
    obtain ⟨rfl, -⟩ := List.cons.inj hrest
    rw [hnext]
    exact ⟨_, _, decoded_of_indexed (hmode.resolve_right nofun) hlead hop
      (by cases i <;> cases op <;> rfl) (Tables.indexed_offset op _ _ i)⟩

/-- What an operation on the accumulator does, whatever it takes its byte from. The result and
the flags are those that the operation must give; a comparison leaves the accumulator. No other
register changes but the refresh register and the program counter, and no memory. -/
theorem accumulator_arithmetic_is_exact (cpu : Cpu) (op : AluOp) (src : Source)
    (h : cpu.AtAlu op src) (ports : Ports σ) (fuel : Nat) (host : σ) :
    let c := cpu.core
    let k := c.regs.main
    ∃ s result f, cpu.step ports fuel host = some s ∧ s.host = host ∧ s.cpu.halt = none ∧
      op.Exact c.mode k.a (src.value c) k.f.carry result f ∧
      s.cpu.core = { c with regs := { c.regs with
        main := { k with a := if op = .cp then k.a else result, f := f }
        pc := c.regs.pc + UInt16.ofNat (src.operation op).encode.length
        r := (c.regs.refresh cpu.waiting s.cpu.states).r } } := by
  intro c k
  obtain ⟨table, opcode, hd⟩ := h.decoded_eq
  have hi : cpu.decoded.instruction = some (.operation (src.operation op)) := by rw [hd]
  have hpast : cpu.past cpu.decoded =
      c.jump (c.regs.pc + UInt16.ofNat (src.operation op).encode.length) := by rw [past, hd]
  have hs := cpu.step_of_operation ports fuel host hi
  have hhalt := (reports_of_operation hi hs).1
  rw [hpast, src.perform_operation, src.value_jump] at hs hhalt
  generalize c.regs.pc + UInt16.ofNat (src.operation op).encode.length = pc at hs hhalt
  obtain ⟨result, f, hexact, hregs⟩ := (c.jump pc).regs.accumulate_exact op (src.value c) c.mode
  let states := ((c.jump pc).perform (src.operation op)).states
  have hcore := congrArg (fun regs => { c with regs := regs.refresh cpu.waiting states }) hregs
  exact ⟨_, result, f, hs, rfl, hhalt, hexact, hcore⟩

/-- The least number less the greatest and a borrow, with the instruction running round the top of
memory and its byte lying before the index register: the byte that is left is zero, and the exact
result is far out of range. -/
theorem least_less_greatest_overflows :
    let mem := (((Memory.blank.put8 0xFFFE 0xDD).put8 0xFFFF 0x9E).put8 0 0xFF).put8 0x1000 0x7F
    let bank : Bank := { Bank.zero with a := 0x80, f := ⟨0x01⟩ }
    let cpu : Cpu := ⟨⟨{ Registers.zero with main := bank, ix := 0x1001, pc := 0xFFFE }, mem,
      .z80⟩, 0, .base, 0, none⟩
    cpu.AtAlu .sbc (.operand (.mem (.offset .ix 0xFF))) ∧
      ∃ s, cpu.step .unattached 0 () = some s ∧ s.cpu.core.regs.main.a = 0 ∧
        s.cpu.core.regs.main.f.zero = true ∧ s.cpu.core.regs.main.f.halfCarry = true ∧
        s.cpu.core.regs.main.f.parityOverflow = true ∧
        s.cpu.core.regs.main.f.carry = false ∧ s.cpu.core.regs.pc = 1 := by
  intro mem bank cpu
  let src : Source := .operand (.mem (.offset .ix 0xFF))
  have hat : cpu.AtAlu .sbc src := by
    refine ⟨?_, .inl rfl⟩
    show [mem.get8 0xFFFE, mem.get8 (0xFFFE + 1), mem.get8 (0xFFFE + 1 + 1)] = [0xDD, 0x9E, 0xFF]
    simp [mem]
  have hvalue : src.value cpu.core = 0x7F := by
    have hplace : (0x1001 : UInt16) + UInt16.ofInt (signed 0xFF) = 0x1000 := by decide
    show mem.get8 (0x1001 + UInt16.ofInt (signed 0xFF)) = 0x7F
    rw [hplace]
    exact Memory.get8_put8_same _ _ _
  clear_value mem
  obtain ⟨s, result, f, hs, -, -, hexact, hcore⟩ :=
    accumulator_arithmetic_is_exact cpu .sbc src hat .unattached 0 ()
  have hcarry : cpu.core.regs.main.f.carry = true := show bank.f.carry = true by decide
  rw [hvalue, hcarry] at hexact
  have hexact : f.OfDifference .z80 0x80 0x7F true result := hexact
  have hresult : result = 0 := by
    have h : (result.toNat : Int) = 0 := hexact.result.trans (by decide)
    exact UInt8.toNat_inj.mp (Int.ofNat_inj.mp h)
  refine ⟨hat, s, hs, ?_⟩
  rw [hcore]
  exact ⟨hresult, hexact.zero.trans (decide_eq_true hresult), hexact.halfCarry.trans (by decide),
    hexact.parityOverflow.trans (show overflows (-128 - 127 - 1) = true by decide),
    hexact.carry.trans (by decide), show (0xFFFE : UInt16) + 3 = 1 by decide⟩

end Cpu

end Cpm
