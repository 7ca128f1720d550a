import Cpm.Bios.Calls
import Cpm.Proofs.MemoryBlocks

/-!
# What the system writes to memory

The installed system and page zero are blocks of fixed bytes. They lie at the start of
memory and from the entry of the BDOS up, so the memory between is the program's.
-/

namespace Cpm.Layout

def wordBytes (words : List UInt16) : List UInt8 := words.flatMap fun w => [Word.low w, Word.high w]

theorem putWords_eq (m : Memory) (a : UInt16) (words : List UInt16) :
    putWords m a words = m.putList a (wordBytes words) := by
  induction words generalizing m a with
  | nil => rfl
  | cons w rest ih =>
    have hnext : a + 1 + 1 = a + 2 := by grind
    show putWords (m.put16 a w) (a + 2) rest = _
    rw [ih, ← hnext]
    rfl

/-- The blocks of the installed system, in the order in which they are written. -/
def installed : List (UInt16 × List UInt8) :=
  [(0x0000, [0xC3, 0x00, 0xFE]), (bdosEntry, stub)] ++
    BiosFunction.all.map (fun f => (f.vector, stub)) ++
    [(skewTable, skew), (parameterBlock, parameters)] ++
    (List.range drives).map fun drive => (header drive, wordBytes (headerWords drive))

theorem install_eq (m : Memory) : install m = m.putBlocks installed := by
  simp only [install, installed, Memory.putBlocks, List.foldl_append, List.foldl_map, putWords_eq]
  rfl

/-- The installed blocks lie at the start of memory or from the entry of the BDOS up. -/
theorem installed_outside_program : ∀ block ∈ installed,
    (block.1.toNat = 0 ∧ block.2.length = 3) ∨
      (0xFD00 ≤ block.1.toNat ∧ block.1.toNat + block.2.length ≤ 0x10000) := by
  decide

/-- The installed byte at an address, or the old one. -/
theorem get8_install (m : Memory) (x : UInt16) :
    (install m).get8 x = (Memory.blockByte? x installed).getD (m.get8 x) := by
  rw [install_eq, Memory.get8_putBlocks]
  intro block hblock
  have hplace := installed_outside_program block hblock
  omega

def IsInstalled (m : Memory) : Prop :=
  ∀ x v, Memory.blockByte? x installed = some v → m.get8 x = v

theorem isInstalled_install (m : Memory) : IsInstalled (install m) := by
  intro x v h
  rw [get8_install, h]
  rfl

/-- At the start of memory is the jump to the cold boot. -/
theorem IsInstalled.coldStart {m : Memory} (h : IsInstalled m) :
    m.get8 0x0000 = 0xC3 ∧ m.get16 0x0001 = 0xFE00 := by
  have hlow : m.get8 0x0001 = 0x00 := h _ _ (by decide)
  have hhigh : m.get8 0x0002 = 0xFE := h _ _ (by decide)
  refine ⟨h _ _ (by decide), ?_⟩
  show Word.ofBytes (m.get8 0x0002) (m.get8 0x0001) = _
  rw [hlow, hhigh]
  decide

/-- At the vector of the cold boot is the trap. -/
theorem IsInstalled.bootVector {m : Memory} (h : IsInstalled m) :
    m.get8 0xFE00 = 0xD3 ∧ m.get8 0xFE01 = Port.trap :=
  ⟨h _ _ (by decide), h _ _ (by decide)⟩

/-- Installing leaves the memory of the program alone. -/
theorem get8_install_of_program (m : Memory) {x : UInt16} (h : 3 ≤ x.toNat)
    (hx : x.toNat < 0xFD00) : (install m).get8 x = m.get8 x := by
  rw [get8_install, Memory.blockByte?_eq_none]
  · rfl
  · intro block hblock
    have hplace := installed_outside_program block hblock
    have ha : block.1.toNat < 2 ^ 16 := block.1.toNat_lt
    rw [UInt16.toNat_sub]
    omega

end Cpm.Layout

namespace Cpm.Bios

/-- The bytes of page zero that booting writes. -/
def pageZero : List UInt8 := [0xC3, 0x03, 0xFE, 0x00, 0x00, 0xC3, 0x00, 0xFD]

theorem putPageZero_eq (m : Memory) : putPageZero m = m.putList 0x0000 pageZero := rfl

theorem get8_putPageZero (m : Memory) (x : UInt16) :
    (putPageZero m).get8 x = pageZero[x.toNat]?.getD (m.get8 x) := by
  have hx : x - 0x0000 = x := UInt16.sub_zero x
  rw [putPageZero_eq, Memory.get8_putList m _ _ (by decide), hx]

end Cpm.Bios
