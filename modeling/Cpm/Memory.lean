import Cpm.Word

/-!
# The 64K memory

Every 16-bit address names one byte, so no access can miss, and addresses run
round from `FFFFh` to `0000h`. Words lie low byte first. Blocks are moved in one
piece where they do not run past the top and byte by byte where they do; both
ways are defined here on their own.

Proofs read memories by `get8_put8`. One about a memory with given bytes first says what is
read from it and then clears how it was made, since its array is too long to be evaluated.
-/

namespace Cpm

structure Memory where
  bytes : ByteArray
  size_bytes : bytes.size = 0x10000

namespace Memory

theorem toNat_lt_size (m : Memory) (a : UInt16) : a.toNat < m.bytes.size := by
  have : a.toNat < 2 ^ 16 := a.toNat_lt
  have := m.size_bytes
  omega

/-- Memory with every byte zero. -/
def blank : Memory := ⟨⟨Array.replicate 0x10000 0⟩, by simp [ByteArray.size]⟩

instance : Inhabited Memory := ⟨blank⟩

def get8 (m : Memory) (a : UInt16) : UInt8 := m.bytes.get a.toNat (m.toNat_lt_size a)

def put8 (m : Memory) (a : UInt16) (v : UInt8) : Memory :=
  ⟨m.bytes.set a.toNat v (m.toNat_lt_size a), (Array.size_set _).trans m.size_bytes⟩

theorem getElem?_bytes (m : Memory) (a : UInt16) :
    m.bytes.data[a.toNat]? = some (m.get8 a) :=
  Array.getElem?_eq_getElem (m.toNat_lt_size a)

theorem data_put8 (m : Memory) (a : UInt16) (v : UInt8) :
    (m.put8 a v).bytes.data = m.bytes.data.set a.toNat v (m.toNat_lt_size a) := rfl

@[simp] theorem get8_put8_same (m : Memory) (a : UInt16) (v : UInt8) :
    (m.put8 a v).get8 a = v := by
  have h := (m.put8 a v).getElem?_bytes a
  rw [data_put8, Array.getElem?_set_self] at h
  exact (Option.some.inj h).symm

@[simp] theorem get8_put8_other (m : Memory) {a b : UInt16} (v : UInt8) (h : b ≠ a) :
    (m.put8 a v).get8 b = m.get8 b := by
  have hne : a.toNat ≠ b.toNat := fun e => h (UInt16.toNat_inj.mp e.symm)
  have hb := (m.put8 a v).getElem?_bytes b
  rw [data_put8, Array.getElem?_set_ne _ hne, getElem?_bytes] at hb
  exact (Option.some.inj hb).symm

theorem get8_put8 (m : Memory) (a b : UInt16) (v : UInt8) :
    (m.put8 a v).get8 b = if b = a then v else m.get8 b := by
  by_cases h : b = a
  · subst h; simp
  · simp [h]

/-- Two memories that agree at every address are equal. -/
theorem ext_get8 {m n : Memory} (h : ∀ a, m.get8 a = n.get8 a) : m = n := by
  have hm : m.bytes.data.size = 0x10000 := m.size_bytes
  have hn : n.bytes.data.size = 0x10000 := n.size_bytes
  have hdata : m.bytes.data = n.bytes.data := by
    apply Array.ext_getElem?
    intro i
    by_cases hi : i < 0x10000
    · have ha : (UInt16.ofNat i).toNat = i := Nat.mod_eq_of_lt hi
      have hbytes := m.getElem?_bytes (UInt16.ofNat i)
      rw [h, ← n.getElem?_bytes, ha] at hbytes
      exact hbytes
    · rw [Array.getElem?_eq_none (by omega), Array.getElem?_eq_none (by omega)]
  obtain ⟨⟨p⟩, _⟩ := m
  obtain ⟨⟨q⟩, _⟩ := n
  cases hdata
  rfl

@[simp] theorem put8_get8_self (m : Memory) (a : UInt16) : m.put8 a (m.get8 a) = m := by
  apply ext_get8
  intro b
  rw [get8_put8]
  split
  · next h => rw [h]
  · rfl

/-- The word whose low byte lies at `a` and whose high byte follows it. -/
def get16 (m : Memory) (a : UInt16) : UInt16 := Word.ofBytes (m.get8 (a + 1)) (m.get8 a)

def put16 (m : Memory) (a w : UInt16) : Memory :=
  (m.put8 a (Word.low w)).put8 (a + 1) (Word.high w)

/-- Stores the bytes one after another from `a` on, running round at the top. -/
def putList (m : Memory) (a : UInt16) : List UInt8 → Memory
  | [] => m
  | v :: vs => (m.put8 a v).putList (a + 1) vs

@[simp] theorem putList_cons (m : Memory) (a : UInt16) (v : UInt8) (vs : List UInt8) :
    m.putList a (v :: vs) = (m.put8 a v).putList (a + 1) vs := rfl

/-- The `n` bytes from `a` on, running round at the top. -/
def getList (m : Memory) (a : UInt16) : Nat → List UInt8
  | 0 => []
  | n + 1 => m.get8 a :: m.getList (a + 1) n

@[simp] theorem length_getList (m : Memory) (a : UInt16) (n : Nat) :
    (m.getList a n).length = n := by
  induction n generalizing a with
  | zero => rfl
  | succ n ih => simp [getList, ih]

/-- Replaces a block that ends at or below the top of memory in one piece. -/
def loadBlock (m : Memory) (a : UInt16) (data : ByteArray)
    (fits : a.toNat + data.size ≤ 0x10000) : Memory :=
  ⟨m.bytes.extract 0 a.toNat ++ data ++ m.bytes.extract (a.toNat + data.size) 0x10000, by
    have := m.size_bytes
    simp only [ByteArray.size_append, ByteArray.size_extract]
    omega⟩

/-- Replaces a block byte by byte, running round at the top. -/
def loadRing (m : Memory) (a : UInt16) (data : ByteArray) : Memory :=
  m.putList a data.data.toList

def load (m : Memory) (a : UInt16) (data : ByteArray) : Memory :=
  if fits : a.toNat + data.size ≤ 0x10000 then m.loadBlock a data fits else m.loadRing a data

/-- A block that ends at or below the top of memory, taken in one piece. -/
def readBlock (m : Memory) (a : UInt16) (n : Nat) : ByteArray :=
  m.bytes.extract a.toNat (a.toNat + n)

/-- A block taken byte by byte, running round at the top. -/
def readRing (m : Memory) (a : UInt16) (n : Nat) : ByteArray :=
  ⟨(m.getList a n).toArray⟩

def read (m : Memory) (a : UInt16) (n : Nat) : ByteArray :=
  if a.toNat + n ≤ 0x10000 then m.readBlock a n else m.readRing a n

@[simp] theorem size_read (m : Memory) (a : UInt16) (n : Nat) : (m.read a n).size = n := by
  unfold read
  split
  · have := m.size_bytes
    simp only [readBlock, ByteArray.size_extract]
    omega
  · simp [readRing, ByteArray.size]

end Memory

end Cpm
