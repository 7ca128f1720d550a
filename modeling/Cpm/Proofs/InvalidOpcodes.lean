import Cpm.Proofs.Latches
import Cpm.Proofs.MemoryBlocks
import Cpm.Proofs.Modes
import Cpm.Proofs.Refresh
import Cpm.Proofs.Stopping

/-!
# Bytes that form no instruction

Where the bytes at the program counter form no instruction a step passes over them and does
nothing else. What it reports are the first address, the table and the opcode, and the bytes
passed over are those that lead to the table, a displacement where its opcodes have one before
them, and the opcode.
-/

namespace Cpm

open Decode (isZ80Only found)

/-! ### The bytes up to the opcode -/

namespace Decode

variable {t : Table} {op : UInt8} {lead : Nat} {e : Option Entry}

@[simp] theorem table_found : (found t op lead e).table = t := by
  cases e <;> rfl

@[simp] theorem opcode_found : (found t op lead e).opcode = op := by
  cases e <;> rfl

theorem length_found_of_none (h : (found t op lead e).instruction = none) :
    (found t op lead e).length = lead + 1 := by
  cases e with
  | none => rfl
  | some e => cases h

end Decode

/-- The byte that leads from one table to the next is the last of those that lead there, and
only a second one is followed by a displacement. -/
theorem Tables.leadBytes_of_next? {mode : Mode} {t u : Table} {op : UInt8}
    (h : next? mode t op = some u) :
    u ≠ .base ∧ u.leadBytes = t.leadBytes ++ [op] ∧ u.isDisplaced = decide (t ≠ .base) := by
  unfold next? at h
  split at h
  · split at h <;> cases h <;> exact ⟨by decide, rfl, rfl⟩
  · cases h
    exact ⟨by decide, rfl, rfl⟩
  · cases h
    exact ⟨by decide, rfl, rfl⟩
  · cases h

section Ways

variable {mode : Mode} {w : Window} {t u : Table}

theorem dispatch_of_no_lead (h : Tables.next? mode .base w.b0 = none) :
    dispatch mode w = found .base w.b0 0 (Tables.lookup mode .base 0 w.b0 w.b1 w.b2) := by
  simp only [dispatch, h]

theorem dispatch_of_lead (h : Tables.next? mode .base w.b0 = some t)
    (hend : Tables.next? mode t w.b1 = none) :
    dispatch mode w = found t w.b1 1 (Tables.lookup mode t 0 w.b1 w.b2 w.b3) := by
  simp only [dispatch, h, Tables.behind, hend]

theorem dispatch_of_leads (h : Tables.next? mode .base w.b0 = some t)
    (h' : Tables.next? mode t w.b1 = some u) :
    dispatch mode w = found u w.b3 3 (Tables.lookup mode u w.b2 w.b3 0 0) := by
  simp only [dispatch, h, Tables.behind, h']

end Ways

/-- The bytes that end in an opcode of the table: those that lead to the table, a displacement
where one comes before its opcodes, and the opcode. -/
def Table.Spells (t : Table) (op : UInt8) (bytes : List UInt8) : Prop :=
  ∃ gap, bytes = t.leadBytes ++ gap ++ [op] ∧ gap.length = if t.isDisplaced then 1 else 0

/-- The way to an opcode through the tables, whether it has a row or not: the opcode leads no
further. Where it has no row nothing behind it is taken. -/
theorem exists_spells_dispatch (mode : Mode) (w : Window) :
    let d := dispatch mode w
    Tables.next? mode d.table d.opcode = none ∧ ∃ n ≤ 4,
      d.table.Spells d.opcode (w.toList.take n) ∧ (d.instruction = none → d.length = n) := by
  intro d
  cases ht : Tables.next? mode .base w.b0 with
  | none =>
    rw [show d = _ from dispatch_of_no_lead ht, Decode.table_found, Decode.opcode_found]
    exact ⟨ht, 1, by decide, ⟨[], rfl, rfl⟩, Decode.length_found_of_none⟩
  | some t =>
    obtain ⟨hbase, hlead, hplain⟩ := Tables.leadBytes_of_next? ht
    cases hu : Tables.next? mode t w.b1 with
    | none =>
      rw [show d = _ from dispatch_of_lead ht hu, Decode.table_found, Decode.opcode_found]
      refine ⟨hu, 2, by decide, ⟨[], ?_, ?_⟩, Decode.length_found_of_none⟩
      · rw [hlead]
        rfl
      · rw [hplain]
        rfl
    | some u =>
      obtain ⟨-, hlead', hdisplaced⟩ := Tables.leadBytes_of_next? hu
      have hlast : Tables.next? mode u w.b3 = none := by
        obtain ⟨h, -⟩ | ⟨-, rfl⟩ | ⟨-, rfl⟩ := Tables.next?_eq_some hu
        · exact absurd h hbase
        · rfl
        · rfl
      rw [show d = _ from dispatch_of_leads ht hu, Decode.table_found, Decode.opcode_found]
      refine ⟨hlast, 4, by decide, ⟨[w.b2], ?_, ?_⟩, Decode.length_found_of_none⟩
      · rw [hlead', hlead]
        rfl
      · rw [hdisplaced, decide_eq_true hbase, if_pos rfl]
        rfl

/-! ### Which bytes form no instruction -/

/-- The bytes at the start of the window have no row: an opcode that only the Z80 has, or on the
Z80 a gap in the extended table, in the table of an index register, or in the bit table behind
one, which has rows for the byte of memory alone. -/
inductive Unmapped : Mode → Window → Prop
  | z80Only {w : Window} (h : isZ80Only w.b0 = true) : Unmapped .i8080 w
  | extended {w : Window} (lead : w.b0 = 0xED) (h : Tables.hasEntry .z80 .ed w.b1 = false) :
      Unmapped .z80 w
  | indexed {w : Window} (i : Index) (lead : w.b0 = i.lead) (next : w.b1 ≠ 0xCB)
      (h : Tables.hasEntry .z80 i.table w.b1 = false) : Unmapped .z80 w
  | indexedBits {w : Window} (i : Index) (lead : w.b0 = i.lead) (next : w.b1 = 0xCB)
      (h : w.b3 &&& 0x07 ≠ 0x06) : Unmapped .z80 w

namespace Tables

/-- In the base table of the 8080 the gaps are the opcodes that only the Z80 has. -/
theorem hasEntry_i8080 (op : UInt8) : hasEntry .i8080 .base op = !isZ80Only op :=
  eq_of_all_allBytes (f := hasEntry .i8080 .base) (g := fun op => !isZ80Only op)
    (by decide +kernel) op

/-- In the base table of the Z80 every byte has a row or leads to another table. -/
theorem hasEntry_z80 (op : UInt8) : hasEntry .z80 .base op = (next? .z80 .base op).isNone :=
  eq_of_all_allBytes (f := hasEntry .z80 .base) (g := fun op => (next? .z80 .base op).isNone)
    (by decide +kernel) op

/-- In the bit table behind an index register the rows are those for the byte of memory. -/
theorem hasEntry_bitTable (i : Index) (op : UInt8) :
    hasEntry .z80 i.bitTable op = decide (op &&& 0x07 = 0x06) := by
  have hrow : hasEntry .z80 i.bitTable op = (indexedBits i 0 op).isSome := by
    cases i <;> rfl
  rw [hrow, indexedBits]
  by_cases h : op &&& 0x07 = 0x06
  · rw [if_neg (not_not_intro h), decide_eq_true h]
    rfl
  · rw [if_pos h, decide_eq_false h]
    rfl

theorem next?_lead (i : Index) : next? .z80 .base i.lead = some i.table := by
  cases i <;> rfl

theorem next?_table (i : Index) (op : UInt8) :
    next? .z80 i.table op = if op = 0xCB then some i.bitTable else none := by
  by_cases h : op = 0xCB
  · subst h
    cases i <;> rfl
  · rw [if_neg h]
    cases i <;> simp [next?, Index.table, h]

/-- The bytes of the base table that lead on, and where to. -/
theorem next?_z80_eq_some {op : UInt8} {t : Table} (h : next? .z80 .base op = some t) :
    op = 0xCB ∧ t = .cb ∨ op = 0xED ∧ t = .ed ∨ ∃ i : Index, op = i.lead ∧ t = i.table := by
  simp only [next?] at h
  split at h
  · exact .inl ⟨rfl, (Option.some.inj h).symm⟩
  · exact .inr (.inr ⟨.ix, rfl, (Option.some.inj h).symm⟩)
  · exact .inr (.inl ⟨rfl, (Option.some.inj h).symm⟩)
  · exact .inr (.inr ⟨.iy, rfl, (Option.some.inj h).symm⟩)
  · cases h

end Tables

/-- The instructions that are not found are those of the unmapped bytes. -/
theorem dispatch_instruction_eq_none_iff_unmapped (mode : Mode) (w : Window) :
    (dispatch mode w).instruction = none ↔ Unmapped mode w := by
  rw [dispatch_instruction_eq_none_iff]
  constructor
  · intro h
    cases ht : Tables.next? mode .base w.b0 with
    | none =>
      rw [dispatch_of_no_lead ht, Decode.table_found, Decode.opcode_found] at h
      cases mode with
      | i8080 => exact .z80Only (by simpa [Tables.hasEntry_i8080] using h)
      | z80 => simp [Tables.hasEntry_z80, ht] at h
    | some t =>
      cases mode with
      | i8080 => cases ht
      | z80 =>
        obtain ⟨-, rfl⟩ | ⟨hlead, rfl⟩ | ⟨i, hlead, rfl⟩ := Tables.next?_z80_eq_some ht
        · rw [dispatch_of_lead ht rfl, Decode.table_found] at h
          cases h
        · rw [dispatch_of_lead ht rfl, Decode.table_found, Decode.opcode_found] at h
          exact .extended hlead h
        · have hnext := Tables.next?_table i w.b1
          by_cases hcb : w.b1 = 0xCB
          · rw [if_pos hcb] at hnext
            rw [dispatch_of_leads ht hnext, Decode.table_found, Decode.opcode_found,
              Tables.hasEntry_bitTable] at h
            exact .indexedBits i hlead hcb (of_decide_eq_false h)
          · rw [if_neg hcb] at hnext
            rw [dispatch_of_lead ht hnext, Decode.table_found, Decode.opcode_found] at h
            exact .indexed i hlead hcb h
  · intro h
    cases h with
    | z80Only h => rw [dispatch_of_no_lead rfl]; simp [Tables.hasEntry_i8080, h]
    | extended lead h =>
      rw [dispatch_of_lead (t := .ed) (by rw [lead]; rfl) rfl]
      simpa using h
    | indexed i lead next h =>
      rw [dispatch_of_lead (t := i.table) (by rw [lead, Tables.next?_lead])
        (by rw [Tables.next?_table, if_neg next])]
      simpa using h
    | indexedBits i lead next h =>
      rw [dispatch_of_leads (t := i.table) (u := i.bitTable) (by rw [lead, Tables.next?_lead])
        (by rw [Tables.next?_table, if_pos next])]
      simpa [Tables.hasEntry_bitTable] using h

/-! ### The step -/

/-- The bytes at the program counter that a report names: they spell an opcode that has no row
in its table and leads no further. -/
structure InvalidOpcode.Names (x : InvalidOpcode) (c : Core) (bytes : List UInt8) : Prop where
  addr : x.addr = c.regs.pc
  stored : c.mem.getList x.addr bytes.length = bytes
  spelled : x.table.Spells x.opcode bytes
  ends : Tables.next? c.mode x.table x.opcode = none
  noRow : Tables.hasEntry c.mode x.table x.opcode = false

theorem Window.toList_ofMemory (m : Memory) (pc : UInt16) :
    (Window.ofMemory m pc).toList = m.getList pc 4 := by
  have hnext : ∀ k : UInt16, pc + k + 1 = pc + (k + 1) := fun k => UInt16.add_assoc pc k 1
  simp only [Memory.getList, hnext]
  rfl

namespace Cpu

variable {σ : Type}

/-- Where the bytes at the program counter form no instruction a step takes no time, calls no
handler and changes nothing of the core but the program counter, which moves past the bytes that
the report names. An invalid opcode is reported nowhere else. -/
theorem invalid_opcode_only_passes_over (cpu : Cpu) (ports : Ports σ) (fuel : Nat) (host : σ) :
    let unmapped := Unmapped cpu.core.mode (.ofMemory cpu.core.mem cpu.core.regs.pc)
    (unmapped → ∃ (s : Step σ) (x : InvalidOpcode) (bytes : List UInt8),
      cpu.step ports fuel host = some s ∧ s.cpu.states = 0 ∧
      cpu.portCalls ports fuel host = [] ∧ s.host = host ∧
      s.cpu.core = cpu.core.jump (cpu.core.regs.pc + UInt16.ofNat bytes.length) ∧
      s.cpu.waiting = cpu.waiting ∧
      s.cpu.halt = some (.invalidOpcode x) ∧ x.Names cpu.core bytes) ∧
    ∀ s x, cpu.step ports fuel host = some s → s.cpu.halt = some (.invalidOpcode x) →
      unmapped := by
  intro unmapped
  constructor
  · intro h
    have hi : cpu.decoded.instruction = none :=
      (dispatch_instruction_eq_none_iff_unmapped _ _).mpr h
    obtain ⟨hends, n, hn, hspelled, hlength⟩ :=
      exists_spells_dispatch cpu.core.mode (.ofMemory cpu.core.mem cpu.core.regs.pc)
    have hcalls : cpu.portCalls ports fuel host = [] := portCalls_eq_nil (by simp [hi])
    have hbytes : ((Window.ofMemory cpu.core.mem cpu.core.regs.pc).toList.take n).length = n := by
      rw [List.length_take]
      exact Nat.min_eq_left hn
    have hstored : cpu.core.mem.getList cpu.core.regs.pc n =
        (Window.ofMemory cpu.core.mem cpu.core.regs.pc).toList.take n := by
      rw [Window.toList_ofMemory, Memory.take_getList _ _ hn]
    refine ⟨_, cpu.invalid, _, cpu.step_of_none ports fuel host hi, rfl, hcalls, rfl, ?_,
      leftOver_zero _, rfl, rfl, ?_, hspelled, hends, (dispatch_instruction_eq_none_iff _ _).mp hi⟩
    · rw [hbytes, ← hlength hi]
      exact congrArg (fun r => { cpu.past cpu.decoded with regs := r })
        ((cpu.past cpu.decoded).regs.refresh_zero cpu.waiting)
    · rw [hbytes]
      exact hstored
  · intro s x hs hx
    exact (dispatch_instruction_eq_none_iff_unmapped _ _).mp ((step_invalid_iff hs).mp ⟨x, hx⟩)

/-- The bytes of an index register's bit table may run over the top of memory. -/
theorem invalid_opcode_across_the_top :
    let mem := (((Memory.blank.put8 0xFFFE 0xDD).put8 0xFFFF 0xCB).put8 0 0x05).put8 1 0x40
    let regs : Registers := { Registers.zero with pc := 0xFFFE, r := 0xFF }
    let cpu : Cpu := ⟨⟨regs, mem, .z80⟩, 3, .base, 0, none⟩
    Unmapped .z80 (.ofMemory mem 0xFFFE) ∧ ∃ s x bytes,
      cpu.step .unattached 0 () = some s ∧ x.Names cpu.core bytes ∧
      s.cpu.halt = some (.invalidOpcode x) ∧ x = ⟨0xFFFE, .ddcb, 0x40⟩ ∧
      bytes = [0xDD, 0xCB, 0x05, 0x40] ∧ s.cpu.core.regs.pc = 2 ∧ s.cpu.core.regs.r = 0xFF := by
  intro mem regs cpu
  have hwindow : Window.ofMemory mem 0xFFFE = ⟨0xDD, 0xCB, 0x05, 0x40⟩ := by
    simp only [Window.ofMemory, mem, Memory.get8_put8]
    rfl
  clear_value mem
  have hunmapped : Unmapped .z80 (.ofMemory mem 0xFFFE) := by
    rw [hwindow]
    exact .indexedBits .ix rfl rfl (by decide)
  obtain ⟨s, x, bytes, hs, -, -, -, hcore, -, hx, hnames⟩ :=
    (cpu.invalid_opcode_only_passes_over .unattached 0 ()).1 hunmapped
  have hd : cpu.decoded = ⟨.ddcb, 0x40, 4, none⟩ := congrArg (dispatch .z80) hwindow
  have hx' : x = ⟨0xFFFE, .ddcb, 0x40⟩ := by
    rw [(reports_of_none (by rw [hd]) hs).1, invalid, hd] at hx
    cases hx
    rfl
  have hbytes : bytes = [0xDD, 0xCB, 0x05, 0x40] := by
    obtain ⟨gap, hspelled, hgap⟩ := hnames.spelled
    have hlength : bytes.length = 4 := by
      rw [hspelled, hx', List.length_append, List.length_append, hgap, hx']
      rfl
    rw [← hnames.stored, hlength, hx', ← Window.toList_ofMemory]
    exact congrArg Window.toList hwindow
  refine ⟨hunmapped, s, x, bytes, hs, hnames, hx, hx', hbytes, ?_, ?_⟩
  · rw [hcore, hbytes]
    show (0xFFFE : UInt16) + 4 = 2
    decide
  · rw [hcore]
    rfl

end Cpu

end Cpm
