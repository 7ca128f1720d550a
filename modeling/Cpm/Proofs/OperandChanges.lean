import Cpm.Proofs.ByteChanges
import Cpm.Proofs.RefreshLaw

/-!
# Instructions that change their operand

An instruction that counts, shifts or sets bits reads its operand and writes it back. It is
shown of the bytes in memory that encode it, whichever operand they name, that this one byte
is replaced and no other: neither a register, nor a byte of memory. Where the operand lies is
told from the registers as they were before.
-/

namespace Cpm

namespace Registers

variable (r : Registers) (v : UInt8)

theorem byte_setByte (x y : ByteReg) : (r.setByte x v).byte y = if x = y then v else r.byte y := by
  cases x with
  | main x =>
    cases y with
    | main y =>
      by_cases h : x = y
      · subst h
        simp [setByte, byte]
      · simp [setByte, byte, h, r.main.get_put_other v (Ne.symm h)]
    | high i | low i => cases i <;> rfl
  | high i =>
    cases y with
    | main y => cases i <;> rfl
    | high j | low j => cases i <;> cases j <;> simp [setByte, byte, setIndex, index]
  | low i =>
    cases y with
    | main y => cases i <;> rfl
    | high j | low j => cases i <;> cases j <;> simp [setByte, byte, setIndex, index]

/-- A register can be replaced by what it holds. -/
theorem setByte_self (x : ByteReg) : r.setByte x (r.byte x) = r := by
  cases x with
  | main x => cases x <;> rfl
  | high i | low i => cases i <;> simp [setByte, byte, setIndex, index]

theorem setByte_frame (x : ByteReg) :
    (r.setByte x v).main.f = r.main.f ∧ (r.setByte x v).shadow = r.shadow ∧
      (r.setByte x v).sp = r.sp ∧ (r.setByte x v).i = r.i := by
  cases x with
  | main x => cases x <;> exact ⟨rfl, rfl, rfl, rfl⟩
  | high i | low i => cases i <;> exact ⟨rfl, rfl, rfl, rfl⟩

end Registers

namespace Operand

def address? (x : Operand) (c : Core) : Option UInt16 :=
  match x with
  | .reg _ => none
  | .mem .atHl => some c.regs.main.hl
  | .mem (.offset i d) => some (c.regs.index i + UInt16.ofInt (signed d))

theorem address?_mem (p : Place) (c : Core) :
    (Operand.mem p).address? c = some (c.regs.address p) := by
  cases p with
  | atHl => rfl
  | offset i d => rw [Registers.address, signExtend_eq, address?]

theorem value_eq (x : Operand) (c : Core) : (Source.operand x).value c = c.operand x := by
  match x with
  | .reg r => rfl
  | .mem .atHl => rfl
  | .mem (.offset i d) => rw [Core.operand, Registers.address, signExtend_eq, Source.value]

end Operand

namespace Core

/-- From `c` to `c'` the operand `x` became `v` and the flags became `f`. All other registers but
the program counter and the refresh register are as they were, and so is the memory. -/
structure Changed (c : Core) (x : Operand) (v : UInt8) (f : Flags) (c' : Core) : Prop where
  byte : ∀ r, c'.regs.byte r = if x = .reg r then v else c.regs.byte r
  mem : ∀ a, c'.mem.get8 a = if x.address? c = some a then v else c.mem.get8 a
  flags : c'.regs.main.f = f
  shadow : c'.regs.shadow = c.regs.shadow
  sp : c'.regs.sp = c.regs.sp
  i : c'.regs.i = c.regs.i
  mode : c'.mode = c.mode

variable {c c' : Core} {x : Operand} {v : UInt8} {f : Flags}

/-- The program counter and the refresh register may be anything. -/
theorem Changed.with_pc_r (h : Changed c x v f c') (pc : UInt16) (r : UInt8) :
    Changed c x v f { c' with regs := { c'.regs with pc := pc, r := r } } where
  byte y := by
    rw [← h.byte y]
    cases y with
    | main y => rfl
    | high i | low i => cases i <;> rfl
  mem := h.mem
  flags := h.flags
  shadow := h.shadow
  sp := h.sp
  i := h.i
  mode := h.mode

/-- A register that is replaced. -/
theorem changed_setByte (c : Core) (r : ByteReg) (v : UInt8) :
    Changed c (.reg r) v c.regs.main.f (c.onRegs (·.setByte r v)) := by
  obtain ⟨hflags, hshadow, hsp, hi⟩ := c.regs.setByte_frame v r
  exact {
    byte := fun y => by simp [onRegs, Registers.byte_setByte]
    mem := fun a => by simp [onRegs, Operand.address?]
    flags := hflags
    shadow := hshadow
    sp := hsp
    i := hi
    mode := rfl }

/-- A byte of memory that is replaced. -/
theorem changed_put8 (c : Core) (p : Place) (v : UInt8) :
    Changed c (.mem p) v c.regs.main.f { c with mem := c.mem.put8 (c.regs.address p) v } where
  byte y := by simp
  mem a := by
    rw [Operand.address?_mem, Memory.get8_put8]
    by_cases h : a = c.regs.address p
    · simp [h]
    · simp [h, Ne.symm h]
  flags := rfl
  shadow := rfl
  sp := rfl
  i := rfl
  mode := rfl

theorem changed_setOperand (c : Core) (x : Operand) (v : UInt8) :
    Changed c x v c.regs.main.f (c.setOperand x v) := by
  cases x with
  | reg r => exact changed_setByte c r v
  | mem p => exact changed_put8 c p v

theorem Changed.setFlags (h : Changed c x v f c') (f' : Flags) :
    Changed c x v f' (c'.onRegs (·.setFlags f')) where
  byte y := by
    rw [← h.byte y]
    cases y with
    | main y => cases y <;> rfl
    | high i | low i => cases i <;> rfl
  mem := h.mem
  flags := rfl
  shadow := h.shadow
  sp := h.sp
  i := h.i
  mode := h.mode

theorem changed_setOperandResult (c : Core) (x : Operand) (res : ByteResult) :
    Changed c x res.value res.flags (c.setOperandResult x res) :=
  (changed_setOperand c x res.value).setFlags res.flags

/-- An operand can be replaced by what it holds. -/
theorem setOperand_self (c : Core) (x : Operand) : c.setOperand x (c.operand x) = c := by
  cases x with
  | reg r => rw [setOperand, operand, onRegs, Registers.setByte_self]
  | mem p => rw [setOperand, operand, Memory.put8_get8_self]

/-- Where the flags are the old ones, only the operand is replaced. -/
theorem setOperandResult_keep (c : Core) (x : Operand) (v : UInt8) :
    c.setOperandResult x ⟨v, c.regs.main.f⟩ = c.setOperand x v := by
  have hflags := (changed_setOperand c x v).flags
  rw [setOperandResult, onRegs, ← hflags]
  rfl

end Core

namespace ByteChange

def operation (ch : ByteChange) (x : Operand) : Operation :=
  match ch with
  | .inc => .inc x
  | .dec => .dec x
  | .shift s => .shift s x
  | .bit n => .bit (UInt8.ofNat n) x
  | .res n => .res (UInt8.ofNat n) x
  | .set n => .set (UInt8.ofNat n) x

theorem perform_operation (ch : ByteChange) (x : Operand) (c : Core) :
    (c.perform (ch.operation x)).core =
      c.setOperandResult x (ch.result (c.operand x) c.regs.main.f) := by
  cases ch with
  | inc | dec | shift s => rfl
  | bit n =>
    rw [result, Core.setOperandResult, Core.setOperand_self]
    rfl
  | res n | set n =>
    rw [result, Core.setOperandResult_keep]
    rfl

/-- The change is a count, whose opcodes lie in the base table; the others lie in the bit table. -/
def isCount : ByteChange → Bool
  | .inc | .dec => true
  | _ => false

/-- The opcode of the change without the field of its operand. -/
def code : ByteChange → UInt8
  | .inc => 0x04
  | .dec => 0x05
  | .shift s => s.code
  | .bit n => 0x40 ||| inMiddle (UInt8.ofNat n)
  | .res n => 0x80 ||| inMiddle (UInt8.ofNat n)
  | .set n => 0xC0 ||| inMiddle (UInt8.ofNat n)

/-- There is an instruction that makes the change on the operand. Halves of an index register
have none in the bit table. -/
def applies (ch : ByteChange) : Operand → Bool
  | .reg r => ch.isCount || !r.isHalf
  | .mem _ => true

theorem eq_of_isCount {ch : ByteChange} (h : ch.isCount = true) : ch = .inc ∨ ch = .dec := by
  cases ch with
  | inc => exact .inl rfl
  | dec => exact .inr rfl
  | shift s => cases h
  | bit n | res n | set n => cases h

theorem encode_of_isCount {ch : ByteChange} (h : ch.isCount = true) (x : Operand) :
    (ch.operation x).encode = x.encode (ch.code ||| inMiddle ·) := by
  obtain rfl | rfl := eq_of_isCount h <;> rfl

theorem encode_of_not_isCount {ch : ByteChange} (h : ch.isCount = false) (x : Operand) :
    (ch.operation x).encode = x.encodeBits ch.code := by
  have hbit : ∀ n : Fin 8, UInt8.ofNat n < 8 := by decide
  cases ch with
  | inc | dec => cases h
  | shift s => rfl
  | bit n | res n | set n => exact if_pos (hbit n)

/-- The operand does not depend on the program counter. -/
theorem perform_operation_jump (ch : ByteChange) (x : Operand) (c : Core) (pc : UInt16) :
    ((c.jump pc).perform (ch.operation x)).core =
      (c.setOperandResult x (ch.result (c.operand x) c.regs.main.f)).jump pc := by
  have hvalue : (c.jump pc).operand x = c.operand x := by
    rw [← x.value_eq, ← x.value_eq, Source.value_jump]
  rw [perform_operation, hvalue]
  exact c.setOperandResult_jump pc x _

end ByteChange

/-! ### The rows of the tables -/

theorem Reg8.exists_code (r : Reg8) : ∃ k : Fin 8, r.code = UInt8.ofNat k := by
  cases r
  case b => exact ⟨0, rfl⟩
  case c => exact ⟨1, rfl⟩
  case d => exact ⟨2, rfl⟩
  case e => exact ⟨3, rfl⟩
  case h => exact ⟨4, rfl⟩
  case l => exact ⟨5, rfl⟩
  case a => exact ⟨7, rfl⟩

namespace Tables

variable {ch : ByteChange}

theorem common_count_register (h : ch.isCount = true) (r : Reg8) (x y : UInt8) :
    common (ch.code ||| inMiddle r.code) x y =
      Decode.entry 0 (ch.operation (.reg (.main r))) := by
  obtain rfl | rfl := ByteChange.eq_of_isCount h <;> cases r <;> rfl

theorem common_count_atHl (h : ch.isCount = true) (x y : UInt8) :
    common (ch.code ||| inMiddle 6) x y = Decode.entry 0 (ch.operation (.mem .atHl)) := by
  obtain rfl | rfl := ByteChange.eq_of_isCount h <;> rfl

/-- No opcode of a count leads to another table, or is one that the 8080 lacks. -/
theorem count_spares (h : ch.isCount = true) (k : Fin 8) :
    Decode.isZ80Only (ch.code ||| inMiddle (UInt8.ofNat k)) = false ∧
      ∀ i : Index, next? .z80 i.table (ch.code ||| inMiddle (UInt8.ofNat k)) = none := by
  have hall : ∀ base ∈ [(0x04 : UInt8), 0x05], ∀ k : Fin 8,
      Decode.isZ80Only (base ||| inMiddle (UInt8.ofNat k)) = false ∧
        base ||| inMiddle (UInt8.ofNat k) ≠ 0xCB := by
    decide +kernel
  have hcode : ch.code ∈ [(0x04 : UInt8), 0x05] := by
    obtain rfl | rfl := ByteChange.eq_of_isCount h <;> decide
  obtain ⟨hshared, hcb⟩ := hall _ hcode k
  refine ⟨hshared, fun i => ?_⟩
  cases i <;> simp [next?, Index.table, hcb]

theorem indexed_count_high (h : ch.isCount = true) (i : Index) (x y : UInt8) :
    indexed i (ch.code ||| inMiddle 4) x y = Decode.entry 0 (ch.operation (.reg (.high i))) := by
  obtain rfl | rfl := ByteChange.eq_of_isCount h <;> cases i <;> rfl

theorem indexed_count_low (h : ch.isCount = true) (i : Index) (x y : UInt8) :
    indexed i (ch.code ||| inMiddle 5) x y = Decode.entry 0 (ch.operation (.reg (.low i))) := by
  obtain rfl | rfl := ByteChange.eq_of_isCount h <;> cases i <;> rfl

theorem indexed_count_offset (h : ch.isCount = true) (i : Index) (x y : UInt8) :
    indexed i (ch.code ||| inMiddle 6) x y =
      Decode.entry 1 (ch.operation (.mem (.offset i x))) := by
  obtain rfl | rfl := ByteChange.eq_of_isCount h <;> cases i <;> rfl

/-- The three fields of an opcode behind the shifts in the bit table. -/
theorem bitFields : ∀ base ∈ [(0x40 : UInt8), 0x80, 0xC0], ∀ n k : Fin 8,
    let op := base ||| inMiddle (UInt8.ofNat n) ||| UInt8.ofNat k
    op >>> 6 = base >>> 6 ∧ Decode.middle op = UInt8.ofNat n ∧ op &&& 0x07 = UInt8.ofNat k := by
  decide +kernel

theorem shiftFields (s : Shift) : ∀ k : Fin 8,
    let op := s.code ||| UInt8.ofNat k
    op >>> 6 = 0 ∧ Shift.ofCode (Decode.middle op) = s ∧ op &&& 0x07 = UInt8.ofNat k := by
  cases s <;> decide +kernel

/-- The two high fields name the change and the low one does not matter to it. -/
theorem bitOperation_code (h : ch.isCount = false) (k : Fin 8) (x : Operand) :
    Decode.bitOperation (ch.code ||| UInt8.ofNat k) x = ch.operation x := by
  cases ch with
  | inc | dec => cases h
  | shift s =>
    obtain ⟨hhigh, hmiddle, -⟩ := shiftFields s k
    simp only [Decode.bitOperation, ByteChange.code, hhigh, hmiddle]
    rfl
  | bit n =>
    obtain ⟨hhigh, hmiddle, -⟩ := bitFields 0x40 (by decide) n k
    simp only [Decode.bitOperation, ByteChange.code, hhigh, hmiddle]
    rfl
  | res n =>
    obtain ⟨hhigh, hmiddle, -⟩ := bitFields 0x80 (by decide) n k
    simp only [Decode.bitOperation, ByteChange.code, hhigh, hmiddle]
    rfl
  | set n =>
    obtain ⟨hhigh, hmiddle, -⟩ := bitFields 0xC0 (by decide) n k
    simp only [Decode.bitOperation, ByteChange.code, hhigh, hmiddle]
    rfl

theorem lowField_code (h : ch.isCount = false) (k : Fin 8) :
    (ch.code ||| UInt8.ofNat k) &&& 0x07 = UInt8.ofNat k := by
  cases ch with
  | inc | dec => cases h
  | shift s => exact (shiftFields s k).2.2
  | bit n => exact (bitFields 0x40 (by decide) n k).2.2
  | res n => exact (bitFields 0x80 (by decide) n k).2.2
  | set n => exact (bitFields 0xC0 (by decide) n k).2.2

theorem bits_register (h : ch.isCount = false) (r : Reg8) :
    bits (ch.code ||| r.code) = Decode.entry 0 (ch.operation (.reg (.main r))) := by
  have hoperand : operand .hl r.code 0 = .reg (.main r) := by cases r <;> rfl
  obtain ⟨k, hk⟩ := r.exists_code
  rw [← hoperand, hk, bits, lowField_code h, bitOperation_code h]

theorem bits_atHl (h : ch.isCount = false) :
    bits (ch.code ||| 6) = Decode.entry 0 (ch.operation (.mem .atHl)) := by
  have hlow : (ch.code ||| 6) &&& 0x07 = 6 := lowField_code h 6
  rw [bits, hlow]
  exact congrArg (Decode.entry 0) (bitOperation_code h 6 _)

theorem indexedBits_offset (h : ch.isCount = false) (i : Index) (d : UInt8) :
    indexedBits i d (ch.code ||| 6) = Decode.entry 0 (ch.operation (.mem (.offset i d))) := by
  have hlow : (ch.code ||| 6) &&& 0x07 = 6 := lowField_code h 6
  rw [indexedBits, hlow, if_neg (by decide)]
  exact congrArg (Decode.entry 0) (bitOperation_code h 6 _)

end Tables

namespace Cpu

/-- In Z80 mode, the program counter is at the bytes of a change of the operand. -/
structure AtChange (cpu : Cpu) (ch : ByteChange) (x : Operand) : Prop where
  mode : cpu.core.mode = .z80
  applies : ch.applies x = true
  bytes : cpu.core.mem.getList cpu.core.regs.pc (ch.operation x).encode.length =
    (ch.operation x).encode

variable {σ : Type} {cpu : Cpu} {ch : ByteChange} {x : Operand}

/-- The rows of the base table and of the index tables lead back to the instruction. -/
theorem AtChange.decoded_of_isCount (h : cpu.AtChange ch x) (hcount : ch.isCount = true) :
    ∃ table opcode, cpu.decoded = ⟨table, opcode, (ch.operation x).encode.length,
      some (.operation (ch.operation x))⟩ := by
  obtain ⟨hmode, -, hbytes⟩ := h
  rw [ByteChange.encode_of_isCount hcount] at hbytes ⊢
  have hspares := Tables.count_spares hcount
  match x with
  | .reg (.main r) =>
    obtain ⟨hop, -⟩ := List.cons.inj hbytes
    obtain ⟨k, hk⟩ := r.exists_code
    have hshared : Decode.isZ80Only (ch.code ||| inMiddle r.code) = false := by
      rw [hk]
      exact (hspares k).1
    exact ⟨_, _, cpu.decoded_of_common hop hshared (Tables.common_count_register hcount r _ _)⟩
  | .mem .atHl =>
    obtain ⟨hop, -⟩ := List.cons.inj hbytes
    exact ⟨_, _, cpu.decoded_of_common hop (hspares 6).1 (Tables.common_count_atHl hcount _ _)⟩
  | .reg (.high i) =>
    obtain ⟨hlead, hrest⟩ := List.cons.inj hbytes
    obtain ⟨hop, -⟩ := List.cons.inj hrest
    exact ⟨_, _, decoded_of_indexed hmode hlead hop ((hspares 4).2 i)
      (Tables.indexed_count_high hcount i _ _)⟩
  | .reg (.low i) =>
    obtain ⟨hlead, hrest⟩ := List.cons.inj hbytes
    obtain ⟨hop, -⟩ := List.cons.inj hrest
    exact ⟨_, _, decoded_of_indexed hmode hlead hop ((hspares 5).2 i)
      (Tables.indexed_count_low hcount i _ _)⟩
  | .mem (.offset i d) =>
    have hnext : cpu.core.regs.pc + 1 + 1 = cpu.core.regs.pc + 2 := by grind
    obtain ⟨hlead, hrest⟩ := List.cons.inj hbytes
    obtain ⟨hop, hrest⟩ := List.cons.inj hrest
    obtain ⟨rfl, -⟩ := List.cons.inj hrest
    rw [hnext]
    exact ⟨_, _, decoded_of_indexed hmode hlead hop ((hspares 6).2 i)
      (Tables.indexed_count_offset hcount i _ _)⟩

/-- The rows of the bit tables lead back to the instruction. -/
theorem AtChange.decoded_of_not_isCount (h : cpu.AtChange ch x) (hcount : ch.isCount = false) :
    ∃ table opcode, cpu.decoded = ⟨table, opcode, (ch.operation x).encode.length,
      some (.operation (ch.operation x))⟩ := by
  obtain ⟨hmode, happlies, hbytes⟩ := h
  rw [ByteChange.encode_of_not_isCount hcount] at hbytes ⊢
  match x with
  | .reg (.main r) =>
    obtain ⟨hcb, hrest⟩ := List.cons.inj hbytes
    obtain ⟨hop, -⟩ := List.cons.inj hrest
    have hrow : Tables.bits (ch.code ||| (ByteReg.main r).code) = _ :=
      Tables.bits_register hcount r
    have hd := decoded_bits hmode hcb hop
    rw [hrow] at hd
    exact ⟨_, _, hd⟩
  | .mem .atHl =>
    obtain ⟨hcb, hrest⟩ := List.cons.inj hbytes
    obtain ⟨hop, -⟩ := List.cons.inj hrest
    have hd := decoded_bits hmode hcb hop
    rw [Tables.bits_atHl hcount] at hd
    exact ⟨_, _, hd⟩
  | .reg (.high i) | .reg (.low i) =>
    rw [ByteChange.applies, hcount] at happlies
    cases happlies
  | .mem (.offset i d) =>
    have htwo : cpu.core.regs.pc + 1 + 1 = cpu.core.regs.pc + 2 := by grind
    have hthree : cpu.core.regs.pc + 1 + 1 + 1 = cpu.core.regs.pc + 3 := by grind
    obtain ⟨hlead, hrest⟩ := List.cons.inj hbytes
    obtain ⟨hcb, hrest⟩ := List.cons.inj hrest
    obtain ⟨hdisplacement, hrest⟩ := List.cons.inj hrest
    obtain ⟨hop, -⟩ := List.cons.inj hrest
    rw [htwo] at hdisplacement
    rw [hthree] at hop
    have hd := decoded_indexedBits hmode hlead hcb hop
    rw [hdisplacement, Tables.indexedBits_offset hcount] at hd
    exact ⟨_, _, hd⟩

theorem AtChange.decoded_eq (h : cpu.AtChange ch x) :
    ∃ table opcode, cpu.decoded = ⟨table, opcode, (ch.operation x).encode.length,
      some (.operation (ch.operation x))⟩ := by
  cases hcount : ch.isCount with
  | true => exact h.decoded_of_isCount hcount
  | false => exact h.decoded_of_not_isCount hcount

/-- An instruction that changes a byte replaces its operand by what the change must give, and
touches nothing else but the flags, the program counter and the refresh register. Where the
operand lies is told from the registers as they were before. -/
theorem changes_touch_only_their_operand (cpu : Cpu) (ch : ByteChange) (x : Operand)
    (h : cpu.AtChange ch x) (ports : Ports σ) (fuel : Nat) (host : σ) :
    let c := cpu.core
    ∃ s v f, cpu.step ports fuel host = some s ∧ s.host = host ∧ s.cpu.halt = none ∧
      ch.Exact ((Source.operand x).value c) v f c.regs.main.f ∧ c.Changed x v f s.cpu.core ∧
      s.cpu.core.regs.pc = c.regs.pc + UInt16.ofNat (ch.operation x).encode.length ∧
      s.cpu.core.regs.r = (c.regs.refresh cpu.waiting s.cpu.states).r := by
  intro c
  obtain ⟨table, opcode, hd⟩ := h.decoded_eq
  have hi : cpu.decoded.instruction = some (.operation (ch.operation x)) := by rw [hd]
  have hpast : cpu.past cpu.decoded =
      c.jump (c.regs.pc + UInt16.ofNat (ch.operation x).encode.length) := by rw [past, hd]
  have hs := cpu.step_of_operation ports fuel host hi
  have hhalt := (reports_of_operation hi hs).1
  rw [hpast, ch.perform_operation_jump] at hs hhalt
  generalize c.regs.pc + UInt16.ofNat (ch.operation x).encode.length = pc at hs hhalt ⊢
  let res := ch.result (c.operand x) c.regs.main.f
  have hchanged : c.Changed x res.value res.flags (c.setOperandResult x res) :=
    Core.changed_setOperandResult c x res
  have hr : (c.setOperandResult x res).regs.r = c.regs.r := Core.setOperand_r c x res.value
  rw [Operand.value_eq]
  refine ⟨_, res.value, res.flags, hs, rfl, hhalt, ch.exact_result _ _,
    hchanged.with_pc_r pc _, rfl, ?_⟩
  exact Registers.refresh_r_congr hr _ _

/-- The high half of IX counted up past 7Fh: its low half and H are left alone. -/
theorem high_half_is_counted_alone :
    let mem := (Memory.blank.put8 0 0xDD).put8 1 0x24
    let bank : Bank := { Bank.zero with h := 0x12, f := ⟨0x01⟩ }
    let cpu : Cpu := ⟨⟨{ Registers.zero with main := bank, ix := 0x7FFF }, mem, .z80⟩, 0, .base, 0,
      none⟩
    cpu.AtChange .inc (.reg (.high .ix)) ∧
      ∃ s, cpu.step .unattached 0 () = some s ∧ s.cpu.core.regs.byte (.high .ix) = 0x80 ∧
        s.cpu.core.regs.byte (.low .ix) = 0xFF ∧ s.cpu.core.regs.byte (.main .h) = 0x12 ∧
        s.cpu.core.regs.main.f.parityOverflow = true ∧ s.cpu.core.regs.main.f.carry = true ∧
        s.cpu.core.regs.pc = 2 := by
  intro mem bank cpu
  have hat : cpu.AtChange .inc (.reg (.high .ix)) := by
    refine ⟨rfl, rfl, ?_⟩
    show [mem.get8 0, mem.get8 (0 + 1)] = [0xDD, 0x24]
    simp [mem]
  clear_value mem
  obtain ⟨s, v, f, hs, -, -, hexact, hchanged, hpc, -⟩ :=
    changes_touch_only_their_operand cpu .inc (.reg (.high .ix)) hat .unattached 0 ()
  have hvalue : (Source.operand (.reg (.high .ix))).value cpu.core = 0x7F :=
    show Word.high 0x7FFF = 0x7F by decide
  rw [hvalue] at hexact
  have hv : v = 0x80 := by
    have h : (v.toNat : Int) = 0x80 := hexact.result.trans (by decide)
    exact UInt8.toNat_inj.mp (Int.ofNat_inj.mp h)
  refine ⟨hat, s, hs, ?_, ?_, ?_, ?_, ?_, hpc⟩
  · exact (hchanged.byte (.high .ix)).trans hv
  · exact (hchanged.byte (.low .ix)).trans (show Word.low 0x7FFF = 0xFF by decide)
  · exact hchanged.byte (.main .h)
  · rw [hchanged.flags]
    exact hexact.parityOverflow
  · rw [hchanged.flags]
    exact hexact.carry.trans (show bank.f.carry = true by decide)

end Cpu

end Cpm
