import Cpm.Instruction.Tables

/-!
# The opcode tables and the bit fields agree

The processor searches its tables row by row; assembly text is made from bit
fields. Both readings find the same instruction, of the same length, in the same
table, for all bytes and in both modes. For each table the check runs through the
256 opcodes, with the bytes behind the opcode left open.
-/

namespace Cpm

set_option maxRecDepth 2000

def allBytes : List UInt8 := (List.range 256).map UInt8.ofNat

theorem mem_allBytes (b : UInt8) : b ∈ allBytes :=
  List.mem_map.mpr ⟨b.toNat, List.mem_range.mpr b.toNat_lt, by simp⟩

/-- Functions of a byte that give the same list over all bytes are equal. -/
theorem eq_of_map_allBytes {β : Type} {f g : UInt8 → β} (h : allBytes.map f = allBytes.map g) :
    f = g := by
  funext b
  exact List.map_inj_left.mp h b (mem_allBytes b)

/-- The same for the bytes with a property. -/
theorem eq_of_map_filter {β : Type} {f g : UInt8 → β} {p : UInt8 → Bool}
    (h : (allBytes.filter p).map f = (allBytes.filter p).map g) {b : UInt8} (hb : p b = true) :
    f b = g b :=
  List.map_inj_left.mp h b (List.mem_filter.mpr ⟨mem_allBytes b, hb⟩)

/-- A property of bytes that holds all through the list holds of every byte. -/
theorem forall_of_all_allBytes {p : UInt8 → Bool} (h : allBytes.all p = true) (b : UInt8) :
    p b = true :=
  List.all_eq_true.mp h b (mem_allBytes b)

/-- Two functions of a byte that a check finds equal all through the list are equal. -/
theorem eq_of_all_allBytes {β : Type} [BEq β] [LawfulBEq β] {f g : UInt8 → β}
    (h : (allBytes.all fun b => f b == g b) = true) (b : UInt8) : f b = g b :=
  eq_of_beq (forall_of_all_allBytes h b)

namespace Tables

open Decode (entry found reg8? isZ80Only isIndexed)

variable {t : Table}

/-- Rows that agree for each opcode, with the bytes behind it left open, agree. -/
theorem rows_eq {β : Type} {f g : UInt8 → UInt8 → UInt8 → β}
    (h : allBytes.map f = allBytes.map g) (op x y : UInt8) : f op x y = g op x y := by
  rw [eq_of_map_allBytes h]

theorem z80_eq_base : z80 = Decode.base .hl := by
  apply eq_of_map_allBytes
  rfl

/-- The rows that only the Z80 has serve the opcodes listed as its own. -/
theorem z80_eq_common {op : UInt8} (h : isZ80Only op = false) (x y : UInt8) :
    z80 op x y = common op x y := by
  have hjr : op &&& 0xE7 ≠ 0x20 := by
    have := forall_of_all_allBytes (p := fun b => isZ80Only b || b &&& 0xE7 != 0x20) (by decide) op
    simpa [h] using this
  simp only [isZ80Only, decide_eq_false_iff_not, List.mem_cons, not_or] at h
  simp [z80, hjr, h]

/-- The common rows leave out what only the Z80 has. -/
theorem i8080_eq_common (op x y : UInt8) : i8080 op x y = common op x y := by
  unfold i8080
  split <;> rfl

theorem i8080_eq_none {op : UInt8} (h : isZ80Only op = true) (x y : UInt8) :
    i8080 op x y = none := by
  unfold i8080
  split <;> first | rfl | simp_all [isZ80Only]

theorem i8080_eq_base (op x y : UInt8) :
    i8080 op x y = if isZ80Only op then none else Decode.base .hl op x y := by
  cases h : isZ80Only op with
  | true => exact i8080_eq_none h x y
  | false => rw [i8080_eq_common, ← z80_eq_common h, z80_eq_base]; rfl

theorem indexed_eq_base (i : Index) (op x y : UInt8) :
    indexed i op x y = if isIndexed op then Decode.base (.index i) op x y else none := by
  have h : allBytes.map (indexed i) = allBytes.map fun op x y =>
      if isIndexed op then Decode.base (.index i) op x y else none := by
    rfl
  exact rows_eq h op x y

theorem extended_eq : extended = Decode.extended := by
  apply eq_of_map_allBytes
  rfl

theorem operand_hl (code d : UInt8) :
    operand .hl code d = match reg8? code with
      | some r => .reg (.main r)
      | none => .mem .atHl := by
  simp only [operand, Decode.byteReg?]
  cases reg8? code <;> rfl

theorem bits_eq (op : UInt8) : bits op = entry 0 (Decode.bits op) := by
  rw [bits, operand_hl]
  rfl

theorem indexedBits_eq (i : Index) (d op : UInt8) :
    found t op 3 (indexedBits i d op) = ⟨t, op, 4, (Decode.indexBits i d op).map .operation⟩ := by
  unfold indexedBits Decode.indexBits Decode.lowField
  by_cases h : op &&& 0x07 = 0x06 <;> simp [h, found, entry]

/-- The tables behind the byte that leads to an index register. -/
theorem behind_index (i : Index) (w : Window) :
    behind .z80 i.table w = Decode.index i i.table i.bitTable w := by
  unfold behind Decode.index
  by_cases h : w.b1 = 0xCB
  · cases i <;> simp only [h, if_true, ← indexedBits_eq] <;> rfl
  · cases i <;> simp only [h, if_false, ← indexed_eq_base] <;> simp [next?, h, lookup, Index.table]

theorem behind_cb (w : Window) :
    behind .z80 .cb w = ⟨.cb, w.b1, 2, some (.operation (Decode.bits w.b1))⟩ := by
  simp [behind, next?, lookup, bits_eq, found, entry]

theorem behind_ed (w : Window) :
    behind .z80 .ed w = found .ed w.b1 1 (Decode.extended w.b1 w.b2 w.b3) := by
  simp [behind, next?, lookup, extended_eq]

/-- In the base table only four bytes lead on. -/
theorem next?_base_eq_none {op : UInt8} (hcb : op ≠ 0xCB) (hdd : op ≠ 0xDD) (hed : op ≠ 0xED)
    (hfd : op ≠ 0xFD) : next? .z80 .base op = none := by
  unfold next?
  split <;> simp_all

end Tables

open Tables in
/-- Searching the tables finds what the bit fields say. -/
theorem dispatch_eq_decode (mode : Mode) (w : Window) : dispatch mode w = decode mode w := by
  cases mode with
  | i8080 => simp only [dispatch, next?, lookup, decode, Decode.i8080, i8080_eq_base]
  | z80 =>
    simp only [decode, Decode.z80]
    split
    · next h => rw [dispatch, h]; exact behind_cb w
    · next h => rw [dispatch, h]; exact behind_index .ix w
    · next h => rw [dispatch, h]; exact behind_ed w
    · next h => rw [dispatch, h]; exact behind_index .iy w
    · next hcb hdd hed hfd =>
      simp only [dispatch, next?_base_eq_none hcb hdd hed hfd, lookup, z80_eq_base]

end Cpm
