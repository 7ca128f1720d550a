import Cpm.Memory

/-!
# Blocks of memory

What lies at an address after a block was stored: the byte of the block at the
distance from its start, taken around the ring, and the old byte where the block
does not reach. The block that is moved in one piece is the one that is moved byte by
byte.
-/

namespace Cpm

/-- What lies at a place of some bytes after a piece of them was replaced. -/
theorem getElem?_replaced {bytes data : ByteArray} {start size : Nat} (hsize : bytes.size = size)
    (h : start + data.size ≤ size) (i : Nat) :
    (bytes.extract 0 start ++ data ++ bytes.extract (start + data.size) size).data[i]? =
      if start ≤ i ∧ i < start + data.size then data.data[i - start]? else bytes.data[i]? := by
  have hb : bytes.data.size = size := hsize
  have hd : data.data.size = data.size := rfl
  have hfront : min start size - 0 = start := by omega
  simp only [ByteArray.data_append, ByteArray.data_extract, Array.getElem?_append,
    Array.size_append, Array.size_extract, Array.getElem?_extract, hb, hd, hfront]
  by_cases hbelow : i < start
  · rw [if_pos (by omega), if_pos hbelow, if_pos (by omega), Nat.zero_add, if_neg (by omega)]
  · by_cases hin : i < start + data.size
    · rw [if_pos hin, if_neg hbelow, if_pos (by omega)]
    · have hrest : start + data.size + (i - (start + data.size)) = i := by omega
      have hout : ¬ (start ≤ i ∧ i < start + data.size) := by omega
      rw [if_neg hin, if_neg hout, hrest]
      split
      · rfl
      · exact (Array.getElem?_eq_none (by omega)).symm

namespace Memory

variable (m : Memory)

/-- A place below the top of memory, by its distance from an address. -/
theorem toNat_add_ofNat {a : UInt16} {i : Nat} (h : a.toNat + i < 0x10000) :
    (a + UInt16.ofNat i).toNat = a.toNat + i := by
  rw [UInt16.toNat_add, UInt16.toNat_ofNat']
  omega

/-- The distance is found again, also around the ring. -/
theorem toNat_add_ofNat_sub (a : UInt16) {i : Nat} (h : i < 0x10000) :
    (a + UInt16.ofNat i - a).toNat = i := by
  have hcancel : a + UInt16.ofNat i - a = UInt16.ofNat i := by grind
  rw [hcancel, UInt16.toNat_ofNat']
  omega

theorem toNat_sub_of_ne {a x : UInt16} (h : x ≠ a) :
    (x - a).toNat = (x - (a + 1)).toNat + 1 := by
  have hne : x.toNat ≠ a.toNat := fun e => h (UInt16.toNat_inj.mp e)
  have hx : x.toNat < 2 ^ 16 := x.toNat_lt
  have ha : a.toNat < 2 ^ 16 := a.toNat_lt
  simp only [UInt16.toNat_sub, UInt16.toNat_add, UInt16.toNat_one]
  omega

/-- No block is longer than the memory, so each byte of it has an address of its own. -/
theorem get8_putList (a x : UInt16) {data : List UInt8} (h : data.length ≤ 0x10000) :
    (m.putList a data).get8 x = data[(x - a).toNat]?.getD (m.get8 x) := by
  induction data generalizing m a with
  | nil => rfl
  | cons v vs ih =>
    simp only [List.length_cons] at h
    rw [putList_cons, ih (m.put8 a v) (a + 1) (by omega)]
    by_cases hx : x = a
    · -- Seen from the next address, the first byte lies a whole round away.
      have hlast : (x - (a + 1)).toNat = 0xFFFF := by
        have hround : x - (a + 1) = 0xFFFF := by grind
        rw [hround]
        rfl
      have hnone : vs[(x - (a + 1)).toNat]? = none := List.getElem?_eq_none (by omega)
      rw [hnone, hx]
      simp
    · rw [toNat_sub_of_ne hx, List.getElem?_cons_succ, get8_put8_other _ _ hx]

/-- A block stored in one piece. -/
theorem get8_loadBlock (a x : UInt16) (data : ByteArray)
    (fits : a.toNat + data.size ≤ 0x10000) :
    (m.loadBlock a data fits).get8 x = data.data[(x - a).toNat]?.getD (m.get8 x) := by
  have hd : data.data.size = data.size := rfl
  have hx : x.toNat < 2 ^ 16 := x.toNat_lt
  have ha : a.toNat < 2 ^ 16 := a.toNat_lt
  have hbytes := (m.loadBlock a data fits).getElem?_bytes x
  rw [loadBlock, getElem?_replaced m.size_bytes fits, m.getElem?_bytes] at hbytes
  by_cases hin : a.toNat ≤ x.toNat ∧ x.toNat < a.toNat + data.size
  · have hsub : (x - a).toNat = x.toNat - a.toNat := by
      rw [UInt16.toNat_sub]
      omega
    rw [if_pos hin, ← hsub] at hbytes
    rw [hbytes]
    rfl
  · have hnone : data.data[(x - a).toNat]? = none := by
      apply Array.getElem?_eq_none
      rw [UInt16.toNat_sub]
      omega
    rw [if_neg hin] at hbytes
    rw [hnone]
    exact (Option.some.inj hbytes).symm

/-- The block moved in one piece is the block moved byte by byte. -/
theorem load_eq_putList (a : UInt16) (data : ByteArray) :
    m.load a data = m.putList a data.data.toList := by
  unfold load
  split
  · next fits =>
    have hlength : data.data.toList.length ≤ 0x10000 := by
      have hsize : data.data.toList.length = data.size := Array.length_toList
      omega
    apply ext_get8
    intro x
    rw [get8_loadBlock, get8_putList m a x hlength, Array.getElem?_toList]
  · rfl

theorem getElem?_getList (a : UInt16) {n i : Nat} (h : i < n) :
    (m.getList a n)[i]? = some (m.get8 (a + UInt16.ofNat i)) := by
  induction n generalizing a i with
  | zero => exact absurd h (Nat.not_lt_zero i)
  | succ n ih =>
    cases i with
    | zero => simp [getList]
    | succ i =>
      have ha : a + UInt16.ofNat (i + 1) = a + 1 + UInt16.ofNat i := by
        rw [Nat.add_comm, UInt16.ofNat_add, ← UInt16.add_assoc]
        rfl
      rw [getList, List.getElem?_cons_succ, ih (a + 1) (by omega), ha]

theorem take_getList (a : UInt16) {n k : Nat} (h : n ≤ k) :
    (m.getList a k).take n = m.getList a n := by
  induction n generalizing a k with
  | zero => rfl
  | succ n ih =>
    obtain ⟨k, rfl⟩ : ∃ k', k = k' + 1 := ⟨k - 1, by omega⟩
    rw [getList, List.take_succ_cons, ih (a + 1) (by omega), getList]

/-- A block is read where each of its bytes lies. -/
theorem getList_eq {a : UInt16} {data : List UInt8}
    (h : ∀ i (hi : i < data.length), m.get8 (a + UInt16.ofNat i) = data[i]) :
    m.getList a data.length = data := by
  apply List.ext_getElem?
  intro i
  by_cases hi : i < data.length
  · rw [getElem?_getList _ a hi, h i hi, List.getElem?_eq_getElem hi]
  · rw [List.getElem?_eq_none (by rw [length_getList]; omega),
      List.getElem?_eq_none (by omega)]

/-- What was stored is read back. -/
theorem getList_putList (a : UInt16) {data : List UInt8} (h : data.length ≤ 0x10000) :
    (m.putList a data).getList a data.length = data := by
  apply getList_eq
  intro i hi
  rw [get8_putList m a _ h, toNat_add_ofNat_sub a (by omega), List.getElem?_eq_getElem hi]
  rfl

/-- The block taken in one piece is the block taken byte by byte. -/
theorem toList_read (a : UInt16) (n : Nat) : (m.read a n).data.toList = m.getList a n := by
  unfold read
  split
  · next fits =>
    apply List.ext_getElem?
    intro i
    have hm : m.bytes.data.size = 0x10000 := m.size_bytes
    rw [readBlock, ByteArray.data_extract, Array.getElem?_toList, Array.getElem?_extract]
    by_cases hi : i < n
    · rw [if_pos (by omega), getElem?_getList m a hi, ← getElem?_bytes,
        toNat_add_ofNat (by omega)]
    · rw [if_neg (by omega), List.getElem?_eq_none (by rw [length_getList]; omega)]
  · rfl

/-! ### Words -/

theorem get8_put16_low (a w : UInt16) : (m.put16 a w).get8 a = Word.low w := by
  have hne : a ≠ a + 1 := by grind
  rw [put16, get8_put8_other _ _ hne, get8_put8_same]

theorem get8_put16_other {a b : UInt16} (w : UInt16) (h : b ∉ [a, a + 1]) :
    (m.put16 a w).get8 b = m.get8 b := by
  obtain ⟨hlow, hhigh⟩ : b ≠ a ∧ b ≠ a + 1 := by simpa using h
  rw [put16, get8_put8_other _ _ hhigh, get8_put8_other _ _ hlow]

theorem get8_put16_zero (a x : UInt16) :
    (m.put16 a 0).get8 x = if x = a ∨ x = a + 1 then 0 else m.get8 x := by
  rw [put16, get8_put8, get8_put8]
  by_cases hhigh : x = a + 1
  · rw [if_pos hhigh, if_pos (.inr hhigh)]
    rfl
  · rw [if_neg hhigh]
    by_cases hlow : x = a
    · rw [if_pos hlow, if_pos (.inl hlow)]
      rfl
    · rw [if_neg hlow, if_neg (not_or.mpr ⟨hlow, hhigh⟩)]

/-- A word is read back, also one that lies across the top of memory. -/
@[simp] theorem get16_put16 (a w : UInt16) : (m.put16 a w).get16 a = w := by
  rw [get16, get8_put16_low, put16, get8_put8_same, Word.ofBytes_high_low]

/-- A word that was replaced can be put back. -/
theorem put16_put16_get16 (a w : UInt16) : (m.put16 a w).put16 a (m.get16 a) = m := by
  apply ext_get8
  intro b
  simp only [put16, get16, Word.low_ofBytes, Word.high_ofBytes, get8_put8]
  split
  · next h => rw [h]
  · split
    · next h => rw [h]
    · rfl

/-! ### Several blocks -/

def putBlocks (m : Memory) (blocks : List (UInt16 × List UInt8)) : Memory :=
  blocks.foldl (fun m block => m.putList block.1 block.2) m

/-- The byte that the last block to reach an address puts there. -/
def blockByte? (x : UInt16) : List (UInt16 × List UInt8) → Option UInt8
  | [] => none
  | block :: rest => (blockByte? x rest).or block.2[(x - block.1).toNat]?

theorem get8_putBlocks {blocks : List (UInt16 × List UInt8)}
    (h : ∀ block ∈ blocks, block.2.length ≤ 0x10000) (x : UInt16) :
    (m.putBlocks blocks).get8 x = (blockByte? x blocks).getD (m.get8 x) := by
  induction blocks generalizing m with
  | nil => rfl
  | cons block rest ih =>
    have hrest := ih (m.putList block.1 block.2) fun b hb => h b (List.mem_cons_of_mem block hb)
    show ((m.putList block.1 block.2).putBlocks rest).get8 x = _
    rw [hrest, get8_putList m _ _ (h block List.mem_cons_self), blockByte?]
    cases blockByte? x rest <;> rfl

/-- An address that no block reaches. -/
theorem blockByte?_eq_none {blocks : List (UInt16 × List UInt8)} {x : UInt16}
    (h : ∀ block ∈ blocks, block.2.length ≤ (x - block.1).toNat) : blockByte? x blocks = none := by
  induction blocks with
  | nil => rfl
  | cons block rest ih =>
    rw [blockByte?, ih fun b hb => h b (List.mem_cons_of_mem block hb),
      List.getElem?_eq_none (h block List.mem_cons_self)]
    rfl

end Memory

end Cpm
