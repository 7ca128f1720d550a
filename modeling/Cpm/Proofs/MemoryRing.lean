import Cpm.Proofs.MemoryBlocks
import Mathlib.Data.List.Induction

/-!
# The ring of memory

Memory has no end: the byte behind `FFFFh` is the one at `0000h`. A block of any length can
be stored or taken, also one that is longer than the memory and runs over itself; then the
byte stored last stays. Blocks and words are what their bytes are, whether they are moved in
one piece or byte by byte.
-/

namespace Cpm.Memory

variable (m : Memory) (a x : UInt16)

/-- Of the bytes of a block stored from `a` on, the one with number `i` is the last that
comes to lie at `x`. -/
structure LandsLast (size i : Nat) : Prop where
  inside : i < size
  lands : a + UInt16.ofNat i = x
  last : ∀ j, i < j → j < size → a + UInt16.ofNat j ≠ x

variable {a x}

/-- A block behind which one more byte is stored. -/
theorem putList_concat (vs : List UInt8) (v : UInt8) :
    m.putList a (vs ++ [v]) = (m.putList a vs).put8 (a + UInt16.ofNat vs.length) v := by
  induction vs generalizing m a with
  | nil =>
    have ha : a + UInt16.ofNat 0 = a := UInt16.add_zero a
    rw [List.length_nil, ha]
    rfl
  | cons w vs ih =>
    have ha : a + 1 + UInt16.ofNat vs.length = a + UInt16.ofNat (vs.length + 1) := by
      rw [Nat.add_comm, UInt16.ofNat_add, ← UInt16.add_assoc]
      rfl
    rw [List.cons_append, putList_cons, ih, ha]
    rfl

/-- The byte that lands last stays. -/
theorem get8_putList_of_landsLast {data : List UInt8} {i : Nat} (hi : i < data.length)
    (h : LandsLast a x data.length i) : (m.putList a data).get8 x = data[i] := by
  -- From the end: only the last byte of all is stored over what the others left.
  induction data using List.reverseRecOn with
  | nil => exact absurd hi (Nat.not_lt_zero i)
  | append_singleton vs v ih =>
    have hlength : (vs ++ [v]).length = vs.length + 1 := List.length_append
    rw [putList_concat, get8_put8]
    by_cases hx : x = a + UInt16.ofNat vs.length
    · have hlast : i = vs.length := by
        by_contra hne
        exact h.last vs.length (by omega) (by omega) hx.symm
      subst hlast
      rw [if_pos hx, List.getElem_concat_length rfl]
    · have hbefore : i < vs.length := by
        by_contra hle
        have hlast : i = vs.length := by omega
        exact hx (hlast ▸ h.lands.symm)
      have hvs : LandsLast a x vs.length i :=
        ⟨hbefore, h.lands, fun j hj hlt => h.last j hj (by omega)⟩
      rw [if_neg hx, ih hbefore hvs, List.getElem_append_left hbefore]

/-- Where no byte of a block lands, the old one stays. -/
theorem get8_putList_of_aside {data : List UInt8}
    (h : ∀ i < data.length, a + UInt16.ofNat i ≠ x) : (m.putList a data).get8 x = m.get8 x := by
  induction data using List.reverseRecOn with
  | nil => rfl
  | append_singleton vs v ih =>
    have hlength : (vs ++ [v]).length = vs.length + 1 := List.length_append
    have hx : x ≠ a + UInt16.ofNat vs.length := (h vs.length (by omega)).symm
    rw [putList_concat, get8_put8_other _ _ hx, ih fun i hi => h i (by omega)]

/-! ### One piece or many -/

theorem loadBlock_eq_loadRing (data : ByteArray) (fits : a.toNat + data.size ≤ 0x10000) :
    m.loadBlock a data fits = m.loadRing a data := by
  have hload := m.load_eq_putList a data
  rw [load, dif_pos fits] at hload
  exact hload

theorem readBlock_eq_readRing {n : Nat} (fits : a.toNat + n ≤ 0x10000) :
    m.readBlock a n = m.readRing a n := by
  have hread := m.toList_read a n
  rw [read, if_pos fits] at hread
  apply ByteArray.ext
  apply Array.toList_inj.mp
  rw [hread]
  rfl

theorem getElem_read {n i : Nat} (h : i < (m.read a n).size) :
    (m.read a n)[i] = m.get8 (a + UInt16.ofNat i) := by
  have hi : i < n := by rwa [size_read] at h
  have hbyte := m.getElem?_getList a hi
  rw [← toList_read, Array.getElem?_toList] at hbyte
  exact Option.some.inj ((Array.getElem?_eq_getElem h).symm.trans hbyte)

/-- What was just stored is read back, unless it is longer than the memory. -/
theorem read_load {data : ByteArray} (h : data.size ≤ 0x10000) :
    (m.load a data).read a data.size = data := by
  have hlength : data.data.toList.length = data.size := Array.length_toList
  apply ByteArray.ext
  apply Array.toList_inj.mp
  rw [toList_read, load_eq_putList, ← hlength]
  exact m.getList_putList a (by omega)

/-- Blocks and words are moved as their bytes are, at every address of the ring and in every
length. After storing a block, each address holds the last byte of it that came to lie there,
or its old byte if there is none; reading gives the bytes at the addresses one after another.
Moving in one piece is moving byte by byte, and what is stored, if it is no longer than the
memory, is read back. A word is two bytes, the low one first, and no other byte. -/
theorem block_and_word_accesses_are_byte_accesses (m : Memory) (a : UInt16) :
    (∀ (data : ByteArray) (x : UInt16),
      (∀ i (h : i < data.size), LandsLast a x data.size i → (m.load a data).get8 x = data[i]) ∧
      ((∀ i < data.size, a + UInt16.ofNat i ≠ x) → (m.load a data).get8 x = m.get8 x)) ∧
    (∀ n, (m.read a n).size = n ∧
      ∀ i (h : i < (m.read a n).size), (m.read a n)[i] = m.get8 (a + UInt16.ofNat i)) ∧
    (∀ (data : ByteArray) (fits : a.toNat + data.size ≤ 0x10000),
      m.loadBlock a data fits = m.loadRing a data) ∧
    (∀ n, a.toNat + n ≤ 0x10000 → m.readBlock a n = m.readRing a n) ∧
    (∀ data : ByteArray, data.size ≤ 0x10000 → (m.load a data).read a data.size = data) ∧
    (m.get16 a).toNat = (m.get8 (a + 1)).toNat * 256 + (m.get8 a).toNat ∧
    ∀ w : UInt16, (m.put16 a w).get16 a = w ∧
      (m.put16 a w).get8 a = Word.low w ∧ (m.put16 a w).get8 (a + 1) = Word.high w ∧
      ∀ x, x ≠ a → x ≠ a + 1 → (m.put16 a w).get8 x = m.get8 x := by
  refine ⟨fun data x => ⟨fun i h hlast => ?_, fun haside => ?_⟩,
    fun n => ⟨m.size_read a n, fun i h => m.getElem_read h⟩,
    fun data fits => m.loadBlock_eq_loadRing data fits,
    fun n fits => m.readBlock_eq_readRing fits,
    fun data h => m.read_load h, Word.toNat_ofBytes _ _,
    fun w => ⟨m.get16_put16 a w, m.get8_put16_low a w, get8_put8_same _ _ _, fun x hlow hhigh => ?_⟩⟩
  · have hlength : data.data.toList.length = data.size := Array.length_toList
    rw [load_eq_putList, get8_putList_of_landsLast m (hlength.symm ▸ h) (hlength.symm ▸ hlast)]
    rfl
  · have hlength : data.data.toList.length = data.size := Array.length_toList
    rw [load_eq_putList]
    exact m.get8_putList_of_aside fun i hi => haside i (hlength ▸ hi)
  · exact m.get8_put16_other w (by simp [hlow, hhigh])

/-- A block one byte longer than the memory runs over its own first byte, and a word across the
top leaves the byte behind it alone. -/
theorem long_block_runs_over_itself :
    let first : Array UInt8 := Array.replicate 0x10000 0xAA
    let data : ByteArray := ⟨first.push 0xBB⟩
    LandsLast 0xFFFE 0xFFFE data.size first.size ∧ (blank.load 0xFFFE data).get8 0xFFFE = 0xBB ∧
      ((0x0001 : UInt16) ≠ 0xFFFF ∧ (0x0001 : UInt16) ≠ 0xFFFF + 1) ∧
      (blank.put16 0xFFFF 0x1234).get8 0x0001 = blank.get8 0x0001 := by
  -- Only the size of the first bytes counts.
  have hbytes : (Array.replicate 0x10000 (0xAA : UInt8)).size = 0x10000 := Array.size_replicate
  generalize Array.replicate 0x10000 (0xAA : UInt8) = bytes at hbytes ⊢
  intro first data
  have hsize : data.size = first.size + 1 := Array.size_push 0xBB
  have hround : (0xFFFE : UInt16) + UInt16.ofNat first.size = 0xFFFE := by
    rw [show first.size = 0x10000 from hbytes]
    decide
  have hlast : LandsLast 0xFFFE 0xFFFE data.size first.size :=
    ⟨by omega, hround, fun j hj hlt => by omega⟩
  have hbyte : data[first.size] = 0xBB := Array.getElem_push_eq
  have haside : (0x0001 : UInt16) ≠ 0xFFFF ∧ (0x0001 : UInt16) ≠ 0xFFFF + 1 := by decide
  obtain ⟨hload, -⟩ := block_and_word_accesses_are_byte_accesses blank 0xFFFE
  obtain ⟨-, -, -, -, -, -, hword⟩ := block_and_word_accesses_are_byte_accesses blank 0xFFFF
  obtain ⟨-, -, -, hother⟩ := hword 0x1234
  exact ⟨hlast, ((hload data 0xFFFE).1 first.size hlast.inside hlast).trans hbyte, haside,
    hother 0x0001 haside.1 haside.2⟩

end Cpm.Memory
