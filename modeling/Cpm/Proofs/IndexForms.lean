import Cpm.Proofs.Decoding
import Cpm.Proofs.IndexOperations
import Cpm.Proofs.Refresh

/-!
# Instructions with an index register

Every row of the table of an index register is a row of the base table with HL
replaced: by the register where no byte of memory is named, and by the byte at a
displacement where one is. The immediate bytes stand behind the displacement. For
each kind of row the check runs through the opcodes that have one.
-/

namespace Cpm

open Decode (Entry entry)

def namesMemory (op : UInt8) : Bool :=
  op ∈ [0x34, 0x35, 0x36] ||
  op &&& 0xC0 = 0x40 && (op &&& 0x07 = 0x06 || op >>> 3 &&& 0x07 = 0x06) ||
  op &&& 0xC0 = 0x80 && op &&& 0x07 = 0x06

/-- The number of immediate bytes of the opcodes that have a form with an index register. -/
def immediates (op : UInt8) : Nat :=
  if op ∈ [0x21, 0x22, 0x2A] then 2 else if op ∈ [0x26, 0x2E, 0x36] then 1 else 0

namespace Tables

def isIndexed (i : Index) (op : UInt8) : Bool := (indexed i op 0 0).isSome

theorem hasEntry_table (i : Index) (op : UInt8) : hasEntry .z80 i.table op = isIndexed i op := by
  cases i <;> rfl

/-- What the row of an opcode without a byte of memory has to be, in the base table. -/
def isRegisterRow (op : UInt8) : Entry → Bool
  | ⟨n, .operation o⟩ => n = immediates op && o.namesHl && (o.isTransfer == (op == 0xE9))
  | _ => false

/-- What the row of an opcode with a byte of memory has to be, in the base table. -/
def isMemoryRow (op : UInt8) : Entry → Bool
  | ⟨n, .operation o⟩ =>
    n = immediates op && o.namesAtHl && o.offsetStates = if op = 0x36 then 9 else 12
  | _ => false

def onIndex (i : Index) : Entry → Option Entry
  | ⟨n, .operation o⟩ => entry n (o.onIndex i)
  | _ => none

/-- The row with the byte at HL replaced by the byte at a displacement, which stands
before the immediate bytes. -/
def atOffset (i : Index) (d : UInt8) : Entry → Option Entry
  | ⟨n, .operation o⟩ => entry (n + 1) (o.atOffset i d)
  | _ => none

/-- The opcodes that have a form with an index register, by whether they name a byte of
memory. -/
def indexedBytes (memory : Bool) : List UInt8 :=
  allBytes.filter fun op => Decode.isIndexed op && namesMemory op == memory

variable {i : Index} {op : UInt8}

theorem decode_isIndexed (h : isIndexed i op = true) : Decode.isIndexed op = true := by
  cases hdecode : Decode.isIndexed op with
  | true => rfl
  | false =>
    rw [isIndexed, indexed_eq_base, hdecode] at h
    exact Bool.noConfusion h

/-- Functions of an opcode that give the same list over such opcodes agree on them. -/
theorem eq_of_map_indexedBytes {β : Type} {f g : UInt8 → β} {memory : Bool}
    (h : (indexedBytes memory).map f = (indexedBytes memory).map g)
    (hop : isIndexed i op = true) (hm : namesMemory op = memory) : f op = g op :=
  eq_of_map_filter h (by simp only [decode_isIndexed hop, hm, BEq.rfl, Bool.and_self])

theorem indexed_of_isIndexed (h : isIndexed i op = true) (x y : UInt8) :
    indexed i op x y = Decode.base (.index i) op x y := by
  rw [indexed_eq_base, decode_isIndexed h, if_pos rfl]

theorem row_of_register (h : isIndexed i op = true) (hm : namesMemory op = false)
    (x y : UInt8) :
    (z80 op x y).any (isRegisterRow op) = true ∧
      indexed i op x y = (z80 op x y).bind (onIndex i) := by
  have hkind : (indexedBytes false).map
      (fun op x y => (Decode.base .hl op x y).any (isRegisterRow op)) =
      (indexedBytes false).map fun _ _ _ => true := by
    rfl
  have hrow : (indexedBytes false).map (Decode.base (.index i)) =
      (indexedBytes false).map fun op x y => (Decode.base .hl op x y).bind (onIndex i) := by
    rfl
  rw [indexed_of_isIndexed h, z80_eq_base]
  exact ⟨congrFun (congrFun (eq_of_map_indexedBytes hkind h hm) x) y,
    congrFun (congrFun (eq_of_map_indexedBytes hrow h hm) x) y⟩

theorem row_of_memory (h : isIndexed i op = true) (hm : namesMemory op = true)
    (d x y : UInt8) :
    (z80 op x y).any (isMemoryRow op) = true ∧
      indexed i op d x = (z80 op x y).bind (atOffset i d) := by
  have hkind : (indexedBytes true).map
      (fun op x y => (Decode.base .hl op x y).any (isMemoryRow op)) =
      (indexedBytes true).map fun _ _ _ => true := by
    rfl
  have hrow : (indexedBytes true).map (fun op d x (_ : UInt8) => Decode.base (.index i) op d x) =
      (indexedBytes true).map fun op d x y => (Decode.base .hl op x y).bind (atOffset i d) := by
    rfl
  rw [indexed_of_isIndexed h, z80_eq_base]
  exact ⟨congrFun (congrFun (eq_of_map_indexedBytes hkind h hm) x) y,
    congrFun (congrFun (congrFun (eq_of_map_indexedBytes hrow h hm) d) x) y⟩

/-- A row depends on the immediate bytes alone. -/
theorem z80_congr (h : isIndexed i op = true) {x y x' y' : UInt8}
    (hx : 0 < immediates op → x = x') (hy : 1 < immediates op → y = y') :
    z80 op x y = z80 op x' y' := by
  have hrow : ∀ memory, (indexedBytes memory).map z80 =
      (indexedBytes memory).map fun op x y => Decode.base .hl op
        (if 0 < immediates op then x else 0) (if 1 < immediates op then y else 0) := by
    intro memory
    cases memory <;> rfl
  have hop := eq_of_map_indexedBytes (hrow _) h rfl
  have hx' : (if 0 < immediates op then x else 0) = if 0 < immediates op then x' else 0 := by
    split
    · next hpos => exact hx hpos
    · rfl
  have hy' : (if 1 < immediates op then y else 0) = if 1 < immediates op then y' else 0 := by
    split
    · next hpos => exact hy hpos
    · rfl
  rw [hop]
  simp only [hx', hy']

/-- No byte with a row leads on to another table. -/
theorem next?_eq_none_of_isIndexed (h : isIndexed i op = true) :
    next? .z80 .base op = none ∧ next? .z80 i.table op = none := by
  have hne : ∀ b, Decode.isIndexed b = false → op ≠ b := by
    intro b hb heq
    have hop := decode_isIndexed h
    rw [heq, hb] at hop
    exact Bool.noConfusion hop
  have hcb := hne 0xCB rfl
  refine ⟨next?_base_eq_none hcb (hne 0xDD rfl) (hne 0xED rfl) (hne 0xFD rfl), ?_⟩
  cases i <;> simp [next?, Index.table, hcb]

end Tables

end Cpm
