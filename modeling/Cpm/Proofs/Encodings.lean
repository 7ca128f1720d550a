import Cpm.Proofs.InstructionText

/-!
# The bytes of an instruction

The bytes that encode an instruction are put together from its parts, field by field.
Seven families of instructions have more than one encoding, all of them on the Z80; an
instruction outside them was decoded from the bytes it is encoded by, and no others.
For each table the check runs through the 256 opcodes, with the bytes behind the opcode
left open.
-/

namespace Cpm

set_option maxRecDepth 2000

/-! ## Fields of an opcode -/

def inMiddle (code : UInt8) : UInt8 := code <<< 3

namespace Pointer

/-- The byte in front of an instruction that names an index register. -/
def lead : Pointer → List UInt8
  | .hl => []
  | .index i => [i.lead]

/-- The index register that one of two operands brings in. -/
def orElse (p q : Pointer) : Pointer :=
  match p with
  | .hl => q
  | .index i => .index i

end Pointer

namespace Reg8

def code : Reg8 → UInt8
  | .b => 0
  | .c => 1
  | .d => 2
  | .e => 3
  | .h => 4
  | .l => 5
  | .a => 7

end Reg8

namespace ByteReg

def code : ByteReg → UInt8
  | .main r => r.code
  | .high _ => 4
  | .low _ => 5

def pointer : ByteReg → Pointer
  | .main _ => .hl
  | .high i | .low i => .index i

end ByteReg

namespace Place

def pointer : Place → Pointer
  | .atHl => .hl
  | .offset i _ => .index i

def displacement : Place → List UInt8
  | .atHl => []
  | .offset _ d => [d]

end Place

namespace Operand

/-- An instruction on the operand, given the opcode with the operand's field in it. -/
def encode (opcode : UInt8 → UInt8) : Operand → List UInt8
  | .reg r => r.pointer.lead ++ [opcode r.code]
  | .mem p => p.pointer.lead ++ opcode 6 :: p.displacement

/-- An instruction of the bit tables on the operand. A displacement stands before the
opcode. -/
def encodeBits (opcode : UInt8) : Operand → List UInt8
  | .reg r => r.pointer.lead ++ [0xCB, opcode ||| r.code]
  | .mem p => p.pointer.lead ++ 0xCB :: p.displacement ++ [opcode ||| 6]

end Operand

namespace Pair

def code : Pair → UInt8
  | .bc => 0x00
  | .de => 0x10
  | .pointer _ => 0x20
  | .sp => 0x30

def lead : Pair → List UInt8
  | .pointer p => p.lead
  | _ => []

end Pair

namespace StackPair

def code : StackPair → UInt8
  | .bc => 0x00
  | .de => 0x10
  | .pointer _ => 0x20
  | .af => 0x30

def lead : StackPair → List UInt8
  | .pointer p => p.lead
  | _ => []

end StackPair

namespace Condition

def code : Condition → UInt8
  | .nz => 0x00
  | .z => 0x08
  | .nc => 0x10
  | .c => 0x18
  | .po => 0x20
  | .pe => 0x28
  | .p => 0x30
  | .m => 0x38

end Condition

namespace AluOp

def code : AluOp → UInt8
  | .add => 0x00
  | .adc => 0x08
  | .sub => 0x10
  | .sbc => 0x18
  | .and => 0x20
  | .xor => 0x28
  | .or => 0x30
  | .cp => 0x38

end AluOp

namespace AccOp

def code : AccOp → UInt8
  | .rlca => 0x07
  | .rrca => 0x0F
  | .rla => 0x17
  | .rra => 0x1F
  | .daa => 0x27
  | .cpl => 0x2F
  | .scf => 0x37
  | .ccf => 0x3F

end AccOp

namespace Shift

def code : Shift → UInt8
  | .rlc => 0x00
  | .rrc => 0x08
  | .rl => 0x10
  | .rr => 0x18
  | .sla => 0x20
  | .sra => 0x28
  | .sll => 0x30
  | .srl => 0x38

end Shift

namespace Direction

def code : Direction → UInt8
  | .up => 0x00
  | .down => 0x08

end Direction

/-! ## Encodings -/

/-- A word behind an opcode, the low byte first. -/
def Word.bytes (w : UInt16) : List UInt8 := [low w, high w]

namespace Operation

def encodeBit (opcode n : UInt8) (x : Operand) : List UInt8 :=
  if n < 8 then x.encodeBits (opcode ||| inMiddle n) else []

/-- The bytes of an operation, the shortest where there is a choice. Bit numbers and
interrupt modes that do not exist have no bytes. -/
def encode : Operation → List UInt8
  | .nop => [0x00]
  | .di => [0xF3]
  | .ei => [0xFB]
  | .im level =>
    if level = 0 then [0xED, 0x46]
    else if level = 1 then [0xED, 0x56]
    else if level = 2 then [0xED, 0x5E]
    else []
  | .inA port => [0xDB, port]
  | .inC dst => [0xED, 0x40 ||| inMiddle (dst.elim 6 Reg8.code)]
  | .ld dst src =>
    (dst.pointer.orElse src.pointer).lead ++ [0x40 ||| inMiddle dst.code ||| src.code]
  | .ldFrom dst src => src.pointer.lead ++ (0x46 ||| inMiddle dst.code) :: src.displacement
  | .ldTo dst src => dst.pointer.lead ++ (0x70 ||| src.code) :: dst.displacement
  | .ldImm dst n => dst.encode (0x06 ||| inMiddle ·) ++ [n]
  | .ldAVia .bc => [0x0A]
  | .ldAVia .de => [0x1A]
  | .ldViaA .bc => [0x02]
  | .ldViaA .de => [0x12]
  | .ldAMem addr => 0x3A :: Word.bytes addr
  | .ldMemA addr => 0x32 :: Word.bytes addr
  | .ldPair dst nn => dst.lead ++ (0x01 ||| dst.code) :: Word.bytes nn
  | .ldMemPointer addr src => src.lead ++ 0x22 :: Word.bytes addr
  | .ldPointerMem dst addr => dst.lead ++ 0x2A :: Word.bytes addr
  | .ldMemPair addr src => 0xED :: (0x43 ||| src.code) :: Word.bytes addr
  | .ldPairMem dst addr => 0xED :: (0x4B ||| dst.code) :: Word.bytes addr
  | .ldSp src => src.lead ++ [0xF9]
  | .ldIA => [0xED, 0x47]
  | .ldRA => [0xED, 0x4F]
  | .ldAI => [0xED, 0x57]
  | .ldAR => [0xED, 0x5F]
  | .exAf => [0x08]
  | .exx => [0xD9]
  | .exDeHl => [0xEB]
  | .exSp p => p.lead ++ [0xE3]
  | .push p => p.lead ++ [0xC5 ||| p.code]
  | .pop p => p.lead ++ [0xC1 ||| p.code]
  | .alu op src => src.encode (0x80 ||| op.code ||| ·)
  | .aluImm op n => [0xC6 ||| op.code, n]
  | .inc x => x.encode (0x04 ||| inMiddle ·)
  | .dec x => x.encode (0x05 ||| inMiddle ·)
  | .acc op => [op.code]
  | .neg => [0xED, 0x44]
  -- The source is the destination wherever it is a pointer.
  | .addPair dst src => dst.lead ++ [0x09 ||| src.code]
  | .adcHl src => [0xED, 0x4A ||| src.code]
  | .sbcHl src => [0xED, 0x42 ||| src.code]
  | .incPair x => x.lead ++ [0x03 ||| x.code]
  | .decPair x => x.lead ++ [0x0B ||| x.code]
  | .shift s x => x.encodeBits s.code
  | .bit n x => encodeBit 0x40 n x
  | .res n x => encodeBit 0x80 n x
  | .set n x => encodeBit 0xC0 n x
  | .rrd => [0xED, 0x67]
  | .rld => [0xED, 0x6F]
  | .jp target => 0xC3 :: Word.bytes target
  | .jpIf cond target => (0xC2 ||| cond.code) :: Word.bytes target
  | .jpPointer p => p.lead ++ [0xE9]
  | .jr d => [0x18, d]
  | .jrIf cond d => [0x20 ||| cond.code, d]
  | .djnz d => [0x10, d]
  | .call target => 0xCD :: Word.bytes target
  | .callIf cond target => (0xC4 ||| cond.code) :: Word.bytes target
  | .ret => [0xC9]
  | .retIf cond => [0xC0 ||| cond.code]
  | .retn => [0xED, 0x45]
  | .reti => [0xED, 0x4D]
  | .rst target => [0xC7 ||| target]
  | .ldi dir => [0xED, 0xA0 ||| dir.code]
  | .ldir dir => [0xED, 0xB0 ||| dir.code]
  | .cpi dir => [0xED, 0xA1 ||| dir.code]
  | .cpir dir => [0xED, 0xB1 ||| dir.code]

end Operation

def Output.encode : Output → List UInt8
  | .outA port => [0xD3, port]
  | .outC src => [0xED, 0x41 ||| inMiddle (src.elim 6 Reg8.code)]
  | .outi dir => [0xED, 0xA3 ||| dir.code]
  | .otir dir => [0xED, 0xB3 ||| dir.code]

/-- The instructions of the Z80 that have more than one encoding. -/
inductive Family where
  | neg | retn | im0 | im1 | im2
  /-- A store of HL at an address. -/
  | storeHl (addr : UInt16)
  /-- A load of HL from an address. -/
  | loadHl (addr : UInt16)
  deriving DecidableEq, Repr

namespace Family

/-- The opcodes of a family; but for the two short ones, they stand behind `EDh`. -/
def opcodes : Family → List UInt8
  | .neg => [0x44, 0x4C, 0x54, 0x5C, 0x64, 0x6C, 0x74, 0x7C]
  | .retn => [0x45, 0x55, 0x5D, 0x65, 0x6D, 0x75, 0x7D]
  | .im0 => [0x46, 0x4E, 0x66, 0x6E]
  | .im1 => [0x56, 0x76]
  | .im2 => [0x5E, 0x7E]
  | .storeHl _ => [0x22, 0x63]
  | .loadHl _ => [0x2A, 0x6B]

def operands : Family → List UInt8
  | .storeHl addr | .loadHl addr => Word.bytes addr
  | _ => []

def encode (f : Family) (op : UInt8) : List UInt8 :=
  if op = 0x22 ∨ op = 0x2A then op :: f.operands else 0xED :: op :: f.operands

def encodings (f : Family) : List (List UInt8) := f.opcodes.map f.encode

end Family

namespace Instruction

def encode : Instruction → List UInt8
  | .operation o => o.encode
  | .output o => o.encode
  | .halt => [0x76]

def family? : Instruction → Option Family
  | .operation .neg => some .neg
  | .operation .retn => some .retn
  | .operation (.im level) =>
    if level = 0 then some .im0
    else if level = 1 then some .im1
    else if level = 2 then some .im2
    else none
  | .operation (.ldMemPointer addr .hl) => some (.storeHl addr)
  | .operation (.ldPointerMem .hl addr) => some (.loadHl addr)
  | _ => none

def encodings (i : Instruction) : List (List UInt8) :=
  match i.family? with
  | some f => f.encodings
  | none => [i.encode]

def extendedEncode (i : Instruction) (op : UInt8) : List UInt8 :=
  match i.family? with
  | some f => if op ∈ f.opcodes then f.encode op else []
  | none => i.encode

end Instruction

open Decode (Entry)

/-- The bytes behind an opcode that its entry takes, put together again where they make a
word; of two bytes, only those behind `36h` make none. -/
def operandBytes (op : UInt8) (n : Nat) (x y : UInt8) : List UInt8 :=
  match n with
  | 0 => []
  | 1 => [x]
  | _ => if op = 0x36 then [x, y] else Word.bytes (Word.ofBytes y x)

/-- The entries of a table, with `lead` before them, lie in the bytes that their
instructions are encoded by, and take a word at most. -/
def EncodedBy (lead : List UInt8) (row : UInt8 → UInt8 → UInt8 → Option Entry)
    (encode : UInt8 → Instruction → List UInt8) : Prop :=
  ∀ op x y,
    (row op x y).map (fun e => (encode op e.instruction.canonical, decide (e.operands ≤ 2))) =
      (row op x y).map fun e => (lead ++ op :: operandBytes op e.operands x y, true)

theorem base_encodedBy : EncodedBy [] (Decode.base .hl) fun _ => Instruction.encode :=
  Tables.rows_eq (by rfl)

theorem index_encodedBy (i : Index) :
    EncodedBy [i.lead] (fun op x y =>
      if Decode.isIndexed op then Decode.base (.index i) op x y else none)
      fun _ => Instruction.encode := by
  intro op x y
  have h : (allBytes.filter Decode.isIndexed).map (fun op x y =>
      (Decode.base (.index i) op x y).map fun e =>
        (e.instruction.canonical.encode, decide (e.operands ≤ 2))) =
      (allBytes.filter Decode.isIndexed).map fun op x y =>
        (Decode.base (.index i) op x y).map fun e =>
          (i.lead :: op :: operandBytes op e.operands x y, true) := by
    -- With the register left open the opcodes would not be closed terms.
    cases i <;> rfl
  by_cases hop : Decode.isIndexed op = true
  · simp only [hop, if_true]
    exact congrFun (congrFun (eq_of_map_filter h hop) x) y
  · simp only [hop, if_false, Bool.false_eq_true, Option.map_none]

theorem extended_encodedBy :
    EncodedBy [0xED] Decode.extended fun op i => i.extendedEncode op :=
  Tables.rows_eq (by rfl)

theorem bits_encode (op : UInt8) : (Decode.bits op).canonical.encode = [0xCB, op] := by
  have h : allBytes.map (fun op => (Decode.bits op).canonical.encode) =
      allBytes.map fun op => [0xCB, op] := by
    rfl
  exact congrFun (eq_of_map_allBytes h) op

theorem indexBits_encode (i : Index) (d op : UInt8) :
    (Decode.indexBits i d op).map (fun o => o.canonical.encode) =
      (Decode.indexBits i d op).map fun _ => [i.lead, 0xCB, d, op] := by
  have h : allBytes.map (fun op => (Decode.indexBits i d op).map fun o => o.canonical.encode) =
      allBytes.map fun op => (Decode.indexBits i d op).map fun _ => [i.lead, 0xCB, d, op] := by
    rfl
  exact congrFun (eq_of_map_allBytes h) op

theorem operandBytes_eq (op : UInt8) (n : Nat) (x y : UInt8) :
    operandBytes op n x y = [x, y].take n := by
  match n with
  | 0 => rfl
  | 1 => rfl
  | n + 2 => simp [operandBytes, Word.bytes]

namespace EncodedBy

variable {lead : List UInt8} {row : UInt8 → UInt8 → UInt8 → Option Entry}
  {encode : UInt8 → Instruction → List UInt8} {op x y : UInt8} {e : Entry}

theorem bytes_eq (h : EncodedBy lead row encode) (he : row op x y = some e) :
    lead ++ op :: [x, y].take e.operands = encode op e.instruction.canonical := by
  have := h op x y
  rw [he, Option.map_some, Option.map_some, Option.some_inj, operandBytes_eq] at this
  exact (Prod.mk.inj this).1.symm

theorem operands_le (h : EncodedBy lead row encode) (he : row op x y = some e) :
    e.operands ≤ 2 := by
  have := h op x y
  rw [he, Option.map_some, Option.map_some, Option.some_inj] at this
  exact of_decide_eq_true (Prod.mk.inj this).2

theorem length_found_le (h : EncodedBy lead row encode) (table : Table) (n : Nat) :
    (Decode.found table op n (row op x y)).length ≤ n + 3 := by
  cases he : row op x y with
  | none => exact Nat.add_le_add_left (by decide) n
  | some e => exact Nat.add_le_add_left (h.operands_le he) (n + 1)

end EncodedBy

namespace Decoded

def bytes (d : Decoded) (w : Window) : List UInt8 := w.toList.take d.length

end Decoded

namespace Instruction

theorem encode_im_mem_encodings (level : UInt8) :
    encode (.operation (.im level)) ∈ encodings (.operation (.im level)) := by
  by_cases h0 : level = 0
  · subst h0
    decide
  by_cases h1 : level = 1
  · subst h1
    decide
  by_cases h2 : level = 2
  · subst h2
    decide
  simp only [encodings, family?, encode, Operation.encode, h0, h1, h2, if_false,
    List.mem_singleton]

theorem encode_mem_encodings (i : Instruction) : i.encode ∈ i.encodings := by
  cases hf : i.family? with
  | none =>
    simp only [encodings, hf]
    exact List.mem_singleton_self _
  | some f =>
    revert hf
    unfold family?
    split <;> intro hf
    case h_3 level => exact encode_im_mem_encodings level
    case h_6 => cases hf
    all_goals exact List.mem_cons_self

theorem extendedEncode_mem_encodings {i : Instruction} {op : UInt8}
    (h : i.extendedEncode op ≠ []) : i.extendedEncode op ∈ i.encodings := by
  unfold extendedEncode encodings at *
  cases hf : i.family? with
  | none => exact List.mem_singleton_self _
  | some f =>
    rw [hf] at h
    by_cases hop : op ∈ f.opcodes
    · simp only [hop, if_true]
      exact List.mem_map_of_mem hop
    · simp only [hop, if_false, ne_eq, not_true] at h

/-- The numbers of bits and interrupt modes that can be encoded are digits. -/
theorem hasDigits_of_mem_encodings {i : Instruction} {bytes : List UInt8}
    (h : bytes ∈ i.canonical.encodings) (hne : bytes ≠ []) : i.HasDigits := by
  by_cases hdigits : i.HasDigits
  · exact hdigits
  · have hnone : i.canonical.encodings = [[]] := by
      unfold HasDigits at hdigits
      split at hdigits
      · next n =>
        have h0 : n ≠ 0 := by rintro rfl; exact hdigits (by decide)
        have h1 : n ≠ 1 := by rintro rfl; exact hdigits (by decide)
        have h2 : n ≠ 2 := by rintro rfl; exact hdigits (by decide)
        simp only [encodings, canonical, Operation.canonical, family?, encode, Operation.encode,
          h0, h1, h2, if_false]
      · exact congrArg ([·]) (if_neg hdigits)
      · exact congrArg ([·]) (if_neg hdigits)
      · exact congrArg ([·]) (if_neg hdigits)
      · exact absurd trivial hdigits
    rw [hnone] at h
    exact absurd (List.mem_singleton.mp h) hne

theorem length_of_isRelative {i : Instruction} (hi : i.isRelative = true) {bytes : List UInt8}
    (h : bytes ∈ i.canonical.encodings) : bytes.length = 2 := by
  unfold isRelative at hi
  split at hi
  · cases List.mem_singleton.mp h; rfl
  · cases List.mem_singleton.mp h; rfl
  · cases List.mem_singleton.mp h; rfl
  · cases hi

end Instruction

namespace Decode

open Instruction

variable {w : Window} {i : Instruction}

theorem bytes_base {entry : Option Entry}
    (hentry : ∀ e, entry = some e → base .hl w.b0 w.b1 w.b2 = some e)
    (h : (found .base w.b0 0 entry).instruction = some i) :
    (found .base w.b0 0 entry).bytes w = i.canonical.encode := by
  cases entry with
  | none => cases h
  | some e =>
    cases h
    have hrow := hentry e rfl
    have htake : ∀ n ≤ 2, w.toList.take (0 + 1 + n) = w.b0 :: [w.b1, w.b2].take n
      | 0, _ | 1, _ | 2, _ => rfl
    exact (htake _ (base_encodedBy.operands_le hrow)).trans (base_encodedBy.bytes_eq hrow)

/-- The bytes of an entry in a table behind one leading byte. -/
theorem bytes_found {table : Table} {row : UInt8 → UInt8 → UInt8 → Option Entry}
    {encode : UInt8 → Instruction → List UInt8} (hrow : EncodedBy [w.b0] row encode)
    (h : (found table w.b1 1 (row w.b1 w.b2 w.b3)).instruction = some i) :
    (found table w.b1 1 (row w.b1 w.b2 w.b3)).bytes w = encode w.b1 i.canonical := by
  cases he : row w.b1 w.b2 w.b3 with
  | none =>
    rw [he] at h
    cases h
  | some e =>
    rw [he] at h
    cases h
    rw [← hrow.bytes_eq he]
    show w.toList.take (1 + 1 + e.operands) = _
    rw [Nat.add_comm]
    rfl

theorem bytes_index {r : Index} {table bitTable : Table} (hlead : w.b0 = r.lead)
    (h : (index r table bitTable w).instruction = some i) :
    (index r table bitTable w).bytes w = i.canonical.encode := by
  unfold index at *
  split at h
  · next hcb =>
    obtain ⟨o, ho, rfl⟩ := Option.map_eq_some_iff.mp h
    have hencode := indexBits_encode r w.b2 w.b3
    rw [ho, Option.map_some, Option.map_some, Option.some_inj, ← hlead, ← hcb] at hencode
    rw [if_pos hcb]
    exact hencode.symm
  · next hcb =>
    rw [if_neg hcb]
    have hrow := index_encodedBy r
    rw [← hlead] at hrow
    exact bytes_found hrow h

theorem bytes_extended (hlead : w.b0 = 0xED)
    (h : (found .ed w.b1 1 (extended w.b1 w.b2 w.b3)).instruction = some i) :
    (found .ed w.b1 1 (extended w.b1 w.b2 w.b3)).bytes w = i.canonical.extendedEncode w.b1 := by
  have hrow := extended_encodedBy
  rw [← hlead] at hrow
  exact bytes_found hrow h

theorem length_found_pos (table : Table) (op : UInt8) (n : Nat) (entry : Option Entry) :
    0 < (found table op n entry).length := by
  cases entry <;> simp only [found] <;> omega

theorem length_index_pos (r : Index) (table bitTable : Table) (w : Window) :
    0 < (index r table bitTable w).length := by
  unfold index
  split
  · exact Nat.succ_pos 3
  · exact length_found_pos _ _ _ _

theorem length_index_le (r : Index) (table bitTable : Table) (w : Window) :
    (index r table bitTable w).length ≤ 4 := by
  unfold index
  split
  · exact Nat.le_refl 4
  · exact (index_encodedBy r).length_found_le table 1

end Decode

theorem decode_length_pos (mode : Mode) (w : Window) : 0 < (decode mode w).length := by
  cases mode with
  | i8080 => exact Decode.length_found_pos _ _ _ _
  | z80 =>
    simp only [decode, Decode.z80]
    split
    · exact Nat.succ_pos 1
    · exact Decode.length_index_pos _ _ _ _
    · exact Decode.length_found_pos _ _ _ _
    · exact Decode.length_index_pos _ _ _ _
    · exact Decode.length_found_pos _ _ _ _

/-- No instruction is longer than the window. -/
theorem decode_length_le (mode : Mode) (w : Window) : (decode mode w).length ≤ 4 := by
  have hbase (op : UInt8) : (Decode.found .base op 0 (Decode.base .hl op w.b1 w.b2)).length ≤ 4 :=
    Nat.le_succ_of_le (base_encodedBy.length_found_le .base 0)
  cases mode with
  | i8080 =>
    simp only [decode, Decode.i8080]
    split
    · exact Nat.succ_le_of_lt (by decide)
    · exact hbase w.b0
  | z80 =>
    simp only [decode, Decode.z80]
    split
    · exact Nat.le_of_ble_eq_true rfl
    · exact Decode.length_index_le _ _ _ _
    · exact extended_encodedBy.length_found_le .ed 1
    · exact Decode.length_index_le _ _ _ _
    · exact hbase w.b0

namespace Decoded

/-- On the 8080 an instruction has one encoding. -/
theorem bytes_i8080 {w : Window} {i : Instruction} (h : (decode .i8080 w).instruction = some i) :
    (decode .i8080 w).bytes w = i.canonical.encode := by
  apply Decode.bytes_base _ h
  intro e he
  split at he
  · cases he
  · exact he

theorem bytes_ne_nil (mode : Mode) (w : Window) : (decode mode w).bytes w ≠ [] := by
  intro h
  have hlength : ((decode mode w).bytes w).length = 0 := by rw [h]; rfl
  rw [bytes, List.length_take] at hlength
  have hpos := decode_length_pos mode w
  have hwindow : w.toList.length = 4 := rfl
  omega

theorem bytes_z80 {w : Window} {i : Instruction} (h : (decode .z80 w).instruction = some i) :
    (decode .z80 w).bytes w ∈ i.canonical.encodings := by
  have hne := bytes_ne_nil .z80 w
  revert h hne
  simp only [decode, Decode.z80]
  split <;> intro h hne
  · next hb =>
    cases h
    have hbits := Instruction.encode_mem_encodings (.operation (Decode.bits w.b1).canonical)
    rw [Instruction.encode, bits_encode, ← hb] at hbits
    exact hbits
  · next hb =>
    rw [Decode.bytes_index hb h]
    exact Instruction.encode_mem_encodings _
  · next hb =>
    rw [Decode.bytes_extended hb h] at hne ⊢
    exact Instruction.extendedEncode_mem_encodings hne
  · next hb =>
    rw [Decode.bytes_index hb h]
    exact Instruction.encode_mem_encodings _
  · rw [Decode.bytes_base (fun _ he => he) h]
    exact Instruction.encode_mem_encodings _

end Decoded

end Cpm
