import Cpm.Proofs.IndexForms
import Cpm.Proofs.Stopping

/-!
# Steps with an index register

A step of an instruction with an index register has the effect of the step of its
plain form: with HL and the register exchanged where no byte of memory is named, and
with the same registers where HL holds the address of the displaced byte. The
program counter passes over the longer form, and the refresh register counts its
longer time; both are compared with the plain step on their own.
-/

namespace Cpm

open Decode (entry found)

/-- The registers without the two that tell the steps apart. -/
def Registers.apartFromCounters (r : Registers) : Registers := { r with pc := 0, r := 0 }

variable {σ : Type}

/-- Two steps that go on have the same effect, with the registers after the first seen
through `view`; the first takes `more` states more. -/
structure Step.Matches (view : Registers → Registers) (more : Nat) (s t : Step σ) : Prop where
  goes : s.cpu.halt = none ∧ t.cpu.halt = none
  states : s.cpu.states = t.cpu.states + more
  regs : (view s.cpu.core.regs).apartFromCounters = t.cpu.core.regs.apartFromCounters
  mem : s.cpu.core.mem = t.cpu.core.mem
  mode : s.cpu.core.mode = t.cpu.core.mode
  host : s.host = t.host

namespace Tables

variable {i : Index} {op : UInt8}

theorem exists_register_row (h : isIndexed i op = true) (hm : namesMemory op = false)
    (x y : UInt8) :
    ∃ o, z80 op x y = entry (immediates op) o ∧
      indexed i op x y = entry (immediates op) (o.onIndex i) ∧
      o.namesHl = true ∧ o.isTransfer = (op == 0xE9) := by
  obtain ⟨hkind, hrow⟩ := row_of_register h hm x y
  obtain ⟨⟨n, instruction⟩, he, hkind⟩ := (Option.any_eq_true _ _).mp hkind
  cases instruction with
  | operation o =>
    simp only [isRegisterRow, Bool.and_eq_true, decide_eq_true_eq, beq_iff_eq] at hkind
    obtain ⟨⟨rfl, hnames⟩, htransfer⟩ := hkind
    refine ⟨o, he, ?_, hnames, htransfer⟩
    rw [hrow, he]
    rfl
  | output o => exact absurd hkind Bool.noConfusion
  | halt => exact absurd hkind Bool.noConfusion

theorem exists_memory_row (h : isIndexed i op = true) (hm : namesMemory op = true)
    (d x y : UInt8) :
    ∃ o, z80 op x y = entry (immediates op) o ∧
      indexed i op d x = entry (immediates op + 1) (o.atOffset i d) ∧
      o.namesAtHl = true ∧ o.offsetStates = if op = 0x36 then 9 else 12 := by
  obtain ⟨hkind, hrow⟩ := row_of_memory h hm d x y
  obtain ⟨⟨n, instruction⟩, he, hkind⟩ := (Option.any_eq_true _ _).mp hkind
  cases instruction with
  | operation o =>
    simp only [isMemoryRow, Bool.and_eq_true, decide_eq_true_eq] at hkind
    obtain ⟨⟨rfl, hnames⟩, hstates⟩ := hkind
    refine ⟨o, he, ?_, hnames, hstates⟩
    rw [hrow, he]
    rfl
  | output o => exact absurd hkind Bool.noConfusion
  | halt => exact absurd hkind Bool.noConfusion

theorem exists_bit_row (hop : op &&& 0x07 = 0x06) (i : Index) (d : UInt8) :
    ∃ o, bits op = entry 0 o ∧ indexedBits i d op = entry 0 (o.atOffset i d) ∧
      o.namesAtHl = true ∧ o.offsetStates = 8 := by
  refine ⟨Decode.bitOperation op (.mem .atHl), ?_, ?_, ?_, ?_⟩
  · rw [bits, operand_hl, hop]
    rfl
  · simp only [indexedBits, hop, ne_eq, not_true_eq_false, if_false, Decode.bitOperation]
    split <;> rfl
  · unfold Decode.bitOperation
    split <;> rfl
  · unfold Decode.bitOperation
    split <;> rfl

end Tables

namespace Cpu

/-- The step of `s` has the effect of that of `t`, and the program counters end at `pc`
and `pc'`. -/
def RunsLike (view : Registers → Registers) (more : Nat) (s t : Cpu) (ports : Ports σ)
    (fuel : Nat) (host : σ) (pc pc' : UInt16) : Prop :=
  ∃ u v, s.step ports fuel host = some u ∧ t.step ports fuel host = some v ∧
    u.Matches view more v ∧ s.Advances u ∧ t.Advances v ∧
    u.cpu.core.regs.pc = pc ∧ v.cpu.core.regs.pc = pc'

variable {s t : Cpu} {i : Index} {o : Operation} (ports : Ports σ) (fuel : Nat) (host : σ)

/-- Two operations that end in the same core, with the registers seen through `view` and
apart from the program counter, make for steps that are alike. -/
theorem runsLike_of_perform {view : Registers → Registers} {o' : Operation} {k : Core}
    {n more : Nat} {pc pc' : UInt16}
    (hview : ∀ (r : Registers) at_ waiting states,
      (view (({ r with pc := at_ } : Registers).refresh waiting states)).apartFromCounters =
        (view r).apartFromCounters)
    (hs : s.decoded.instruction = some (.operation o')) (ho' : o' ≠ .ldRA)
    (ht : t.decoded.instruction = some (.operation o)) (ho : o ≠ .ldRA)
    (hperform : (s.past s.decoded).perform o' = ⟨n + more, k.jump pc⟩)
    (hplain : (t.past t.decoded).perform o = ⟨n, (k.onRegs view).jump pc'⟩) :
    s.RunsLike view more t ports fuel host pc pc' := by
  have hu := s.step_of_operation ports fuel host hs
  have hv := t.step_of_operation ports fuel host ht
  have hgoes := (reports_of_operation hs hu).1
  have hgoes' := (reports_of_operation ht hv).1
  have hadvances := advances_of_operation hs ho' hu
  have hadvances' := advances_of_operation ht ho hv
  rw [hperform] at hu hgoes hadvances
  rw [hplain] at hv hgoes' hadvances'
  have hregs := hview k.regs pc s.waiting (n + more)
  exact ⟨_, _, hu, hv, ⟨⟨hgoes, hgoes'⟩, rfl, hregs, rfl, rfl, rfl⟩, hadvances, hadvances', rfl,
    rfl⟩

/-- Where HL and the index register are exchanged, the step of the replaced operation has
the effect of the plain one, and takes four states more. -/
theorem runsLike_onIndex (hs : s.decoded.instruction = some (.operation (o.onIndex i)))
    (ht : t.decoded.instruction = some (.operation o)) (ho : o.namesHl = true)
    (hcore : t.core = (s.core.exchange i).jump t.core.regs.pc) :
    s.RunsLike (·.exchange i) 4 t ports fuel host
      (if o.isTransfer then s.core.regs.index i
        else s.core.regs.pc + UInt16.ofNat s.decoded.length)
      (if o.isTransfer then s.core.regs.index i
        else t.core.regs.pc + UInt16.ofNat t.decoded.length) := by
  obtain ⟨k, n, hperform, hplain⟩ := s.core.perform_onIndex_jump i ho
    (s.core.regs.pc + UInt16.ofNat s.decoded.length)
    (t.core.regs.pc + UInt16.ofNat t.decoded.length)
  have hpast : t.past t.decoded =
      (s.core.exchange i).jump (t.core.regs.pc + UInt16.ofNat t.decoded.length) := by
    rw [past, hcore]
    rfl
  have hplainRA : o ≠ .ldRA := by
    rintro rfl
    exact Bool.noConfusion ho
  rw [← hpast] at hplain
  refine runsLike_of_perform ports fuel host ?_ hs (Operation.onIndex_ne_ldRA i ho) ht hplainRA
    hperform hplain
  intro r at_ waiting states
  cases i <;> rfl

/-- Where HL holds the address of the displaced byte, the step of the replaced operation
has the effect of the plain one. -/
theorem runsLike_atOffset {d : UInt8}
    (hs : s.decoded.instruction = some (.operation (o.atOffset i d)))
    (ht : t.decoded.instruction = some (.operation o)) (ho : o.namesAtHl = true)
    (hl : s.core.regs.main.hl = s.core.regs.index i + Word.signExtend d)
    (hcore : t.core = s.core.jump t.core.regs.pc) :
    s.RunsLike id o.offsetStates t ports fuel host
      (s.core.regs.pc + UInt16.ofNat s.decoded.length)
      (t.core.regs.pc + UInt16.ofNat t.decoded.length) := by
  obtain ⟨k, n, hperform, hplain⟩ := s.core.perform_atOffset_jump ho hl
    (s.core.regs.pc + UInt16.ofNat s.decoded.length)
    (t.core.regs.pc + UInt16.ofNat t.decoded.length)
  have hpast : t.past t.decoded =
      s.core.jump (t.core.regs.pc + UInt16.ofNat t.decoded.length) := by
    rw [past, hcore]
    rfl
  rw [← hpast] at hplain
  exact runsLike_of_perform ports fuel host (fun _ _ _ _ => rfl) hs
    (Operation.atOffset_ne_ldRA i d ho) ht (Operation.ne_ldRA_of_namesAtHl ho) hperform hplain

/-! ### The bytes of the two forms -/

variable {op : UInt8}

theorem decoded_plain (hmode : t.core.mode = .z80)
    (hop : t.core.mem.get8 t.core.regs.pc = op) (hnext : Tables.next? .z80 .base op = none) :
    t.decoded = found .base op 0 (Tables.z80 op (t.core.mem.get8 (t.core.regs.pc + 1))
      (t.core.mem.get8 (t.core.regs.pc + 2))) := by
  simp only [decoded, dispatch, Window.ofMemory, hmode, hop, hnext, Tables.lookup]

theorem decoded_indexed (hmode : s.core.mode = .z80)
    (hlead : s.core.mem.get8 s.core.regs.pc = i.lead)
    (hop : s.core.mem.get8 (s.core.regs.pc + 1) = op)
    (hnext : Tables.next? .z80 i.table op = none) :
    s.decoded = found i.table op 1 (Tables.indexed i op (s.core.mem.get8 (s.core.regs.pc + 2))
      (s.core.mem.get8 (s.core.regs.pc + 3))) := by
  have hprefix : Tables.next? .z80 .base i.lead = some i.table := by cases i <;> rfl
  simp only [decoded, dispatch, Window.ofMemory, hmode, hlead, hprefix, Tables.behind, hop, hnext]
  cases i <;> rfl

theorem decoded_indexedBits (hmode : s.core.mode = .z80)
    (hlead : s.core.mem.get8 s.core.regs.pc = i.lead)
    (hcb : s.core.mem.get8 (s.core.regs.pc + 1) = 0xCB)
    (hop : s.core.mem.get8 (s.core.regs.pc + 3) = op) :
    s.decoded = found i.bitTable op 3
      (Tables.indexedBits i (s.core.mem.get8 (s.core.regs.pc + 2)) op) := by
  have hprefix : Tables.next? .z80 .base i.lead = some i.table := by cases i <;> rfl
  have hbits : Tables.next? .z80 i.table 0xCB = some i.bitTable := by cases i <;> rfl
  simp only [decoded, dispatch, Window.ofMemory, hmode, hlead, hprefix, Tables.behind, hcb, hbits,
    hop]
  cases i <;> rfl

theorem decoded_bits (hmode : t.core.mode = .z80)
    (hcb : t.core.mem.get8 t.core.regs.pc = 0xCB)
    (hop : t.core.mem.get8 (t.core.regs.pc + 1) = op) :
    t.decoded = found .cb op 1 (Tables.bits op) := by
  have hprefix : Tables.next? .z80 .base 0xCB = some .cb := rfl
  have hnext : Tables.next? .z80 .cb op = none := rfl
  simp only [decoded, dispatch, Window.ofMemory, hmode, hcb, hprefix, Tables.behind, hop, hnext,
    Tables.lookup]

/-! ### The two forms of an instruction -/

def byteAt (cpu : Cpu) (k : Nat) : UInt8 := cpu.core.mem.get8 (cpu.core.regs.pc + UInt16.ofNat k)

theorem byteAt_zero (cpu : Cpu) : cpu.byteAt 0 = cpu.core.mem.get8 cpu.core.regs.pc :=
  congrArg cpu.core.mem.get8 (UInt16.add_zero _)

theorem runsLike_register_form (hs : s.core.mode = .z80) (ht : t.core.mode = .z80)
    (hlead : s.byteAt 0 = i.lead) (hop : s.byteAt 1 = op) (hop' : t.byteAt 0 = op)
    (hrow : Tables.isIndexed i op = true) (hplain : namesMemory op = false)
    (himm : ∀ k < immediates op, t.byteAt (1 + k) = s.byteAt (2 + k))
    (hcore : t.core = (s.core.exchange i).jump t.core.regs.pc) :
    s.RunsLike (·.exchange i) 4 t ports fuel host
      (if op = 0xE9 then s.core.regs.index i
        else s.core.regs.pc + UInt16.ofNat (2 + immediates op))
      (if op = 0xE9 then s.core.regs.index i
        else t.core.regs.pc + UInt16.ofNat (1 + immediates op)) := by
  obtain ⟨hnext, hnext'⟩ := Tables.next?_eq_none_of_isIndexed hrow
  have hsame : Tables.z80 op (t.core.mem.get8 (t.core.regs.pc + 1))
      (t.core.mem.get8 (t.core.regs.pc + 2)) =
      Tables.z80 op (s.core.mem.get8 (s.core.regs.pc + 2))
        (s.core.mem.get8 (s.core.regs.pc + 3)) :=
    Tables.z80_congr hrow (himm 0) (himm 1)
  obtain ⟨o, hz80, hindexed, hnames, htransfer⟩ := Tables.exists_register_row hrow hplain
    (s.core.mem.get8 (s.core.regs.pc + 2)) (s.core.mem.get8 (s.core.regs.pc + 3))
  have hd := decoded_indexed hs (s.byteAt_zero ▸ hlead) hop hnext'
  have hd' := decoded_plain ht (t.byteAt_zero ▸ hop') hnext
  rw [hindexed] at hd
  rw [hsame, hz80] at hd'
  have hlength : s.decoded.length = 2 + immediates op := congrArg (·.length) hd
  have hlength' : t.decoded.length = 1 + immediates op := congrArg (·.length) hd'
  have hruns := runsLike_onIndex ports fuel host (congrArg (·.instruction) hd)
    (congrArg (·.instruction) hd') hnames hcore
  simpa only [htransfer, beq_iff_eq, hlength, hlength'] using hruns

theorem runsLike_memory_form (hs : s.core.mode = .z80) (ht : t.core.mode = .z80)
    (hlead : s.byteAt 0 = i.lead) (hop : s.byteAt 1 = op) (hop' : t.byteAt 0 = op)
    (hrow : Tables.isIndexed i op = true) (hmemory : namesMemory op = true)
    (himm : ∀ k < immediates op, t.byteAt (1 + k) = s.byteAt (3 + k))
    (hl : s.core.regs.main.hl = s.core.regs.index i + Word.signExtend (s.byteAt 2))
    (hcore : t.core = s.core.jump t.core.regs.pc) :
    s.RunsLike id (if op = 0x36 then 9 else 12) t ports fuel host
      (s.core.regs.pc + UInt16.ofNat (3 + immediates op))
      (t.core.regs.pc + UInt16.ofNat (1 + immediates op)) := by
  obtain ⟨hnext, hnext'⟩ := Tables.next?_eq_none_of_isIndexed hrow
  -- No opcode on memory has two immediate bytes; the second byte may be any.
  have hone : ¬ 1 < immediates op := by
    have hall := forall_of_all_allBytes
      (p := fun op => !(namesMemory op && decide (1 < immediates op))) (by decide +kernel) op
    simpa [hmemory] using hall
  have hsame : Tables.z80 op (t.core.mem.get8 (t.core.regs.pc + 1))
      (t.core.mem.get8 (t.core.regs.pc + 2)) =
      Tables.z80 op (s.core.mem.get8 (s.core.regs.pc + 3)) 0 :=
    Tables.z80_congr hrow (himm 0) (fun h => absurd h hone)
  obtain ⟨o, hz80, hindexed, hnames, hstates⟩ := Tables.exists_memory_row hrow hmemory
    (s.core.mem.get8 (s.core.regs.pc + 2)) (s.core.mem.get8 (s.core.regs.pc + 3)) 0
  have hd := decoded_indexed hs (s.byteAt_zero ▸ hlead) hop hnext'
  have hd' := decoded_plain ht (t.byteAt_zero ▸ hop') hnext
  rw [hindexed] at hd
  rw [hsame, hz80] at hd'
  have hlength : s.decoded.length = 3 + immediates op := by
    rw [hd]
    show 1 + 1 + (immediates op + 1) = 3 + immediates op
    omega
  have hlength' : t.decoded.length = 1 + immediates op := congrArg (·.length) hd'
  have hruns := runsLike_atOffset ports fuel host (congrArg (·.instruction) hd)
    (congrArg (·.instruction) hd') hnames hl hcore
  rw [hstates, hlength, hlength'] at hruns
  exact hruns

theorem runsLike_bit_form (hs : s.core.mode = .z80) (ht : t.core.mode = .z80)
    (hlead : s.byteAt 0 = i.lead) (hcb : s.byteAt 1 = 0xCB) (hop : s.byteAt 3 = op)
    (hcb' : t.byteAt 0 = 0xCB) (hop' : t.byteAt 1 = op) (hmemory : op &&& 0x07 = 0x06)
    (hl : s.core.regs.main.hl = s.core.regs.index i + Word.signExtend (s.byteAt 2))
    (hcore : t.core = s.core.jump t.core.regs.pc) :
    s.RunsLike id 8 t ports fuel host (s.core.regs.pc + 4) (t.core.regs.pc + 2) := by
  obtain ⟨o, hbits, hindexed, hnames, hstates⟩ := Tables.exists_bit_row hmemory i
    (s.core.mem.get8 (s.core.regs.pc + 2))
  have hd := decoded_indexedBits hs (s.byteAt_zero ▸ hlead) hcb hop
  have hd' := decoded_bits ht (t.byteAt_zero ▸ hcb') hop'
  rw [hindexed] at hd
  rw [hbits] at hd'
  have hlength : s.decoded.length = 4 := congrArg (·.length) hd
  have hlength' : t.decoded.length = 2 := congrArg (·.length) hd'
  have hruns := runsLike_atOffset ports fuel host (congrArg (·.instruction) hd)
    (congrArg (·.instruction) hd') hnames hl hcore
  rw [hstates, hlength, hlength'] at hruns
  exact hruns

/-- An instruction with an index register does what its plain form does. Without a byte of
memory the two processors have HL and the register exchanged, before and after; with one
they have the same registers, and HL holds the address of the displaced byte. Both pass
over their own bytes, or jump to the same target, and the longer form takes 4, 8, 9 or 12
states more. -/
theorem index_forms_follow_plain_forms (i : Index) (s t : Cpu) (ports : Ports σ) (fuel : Nat)
    (host : σ) (hmode : s.core.mode = .z80) (hlead : s.byteAt 0 = i.lead) :
    let pc := s.core.regs.pc
    let pc' := t.core.regs.pc
    (∀ op, s.byteAt 1 = op → t.byteAt 0 = op →
      Tables.hasEntry .z80 i.table op = true → namesMemory op = false →
      (∀ k < immediates op, t.byteAt (1 + k) = s.byteAt (2 + k)) →
      t.core = (s.core.exchange i).jump pc' →
      s.RunsLike (·.exchange i) 4 t ports fuel host
        (if op = 0xE9 then s.core.regs.index i else pc + UInt16.ofNat (2 + immediates op))
        (if op = 0xE9 then s.core.regs.index i else pc' + UInt16.ofNat (1 + immediates op))) ∧
    (∀ op, s.byteAt 1 = op → t.byteAt 0 = op →
      Tables.hasEntry .z80 i.table op = true → namesMemory op = true →
      (∀ k < immediates op, t.byteAt (1 + k) = s.byteAt (3 + k)) →
      t.core = s.core.jump pc' →
      s.core.regs.main.hl = s.core.regs.index i + Word.signExtend (s.byteAt 2) →
      s.RunsLike id (if op = 0x36 then 9 else 12) t ports fuel host
        (pc + UInt16.ofNat (3 + immediates op)) (pc' + UInt16.ofNat (1 + immediates op))) ∧
    (∀ op, s.byteAt 1 = 0xCB → s.byteAt 3 = op → t.byteAt 0 = 0xCB → t.byteAt 1 = op →
      op &&& 0x07 = 0x06 →
      t.core = s.core.jump pc' →
      s.core.regs.main.hl = s.core.regs.index i + Word.signExtend (s.byteAt 2) →
      s.RunsLike id 8 t ports fuel host (pc + 4) (pc' + 2)) := by
  intro pc pc'
  refine ⟨?_, ?_, ?_⟩
  · intro op hop hop' hrow hplain himm hcore
    have hmode' : t.core.mode = .z80 := (congrArg Core.mode hcore).trans hmode
    rw [Tables.hasEntry_table] at hrow
    exact runsLike_register_form ports fuel host hmode hmode' hlead hop hop' hrow hplain himm hcore
  · intro op hop hop' hrow hmemory himm hcore hl
    have hmode' : t.core.mode = .z80 := (congrArg Core.mode hcore).trans hmode
    rw [Tables.hasEntry_table] at hrow
    exact runsLike_memory_form ports fuel host hmode hmode' hlead hop hop' hrow hmemory himm hl
      hcore
  · intro op hcb hop hcb' hop' hmemory hcore hl
    have hmode' : t.core.mode = .z80 := (congrArg Core.mode hcore).trans hmode
    exact runsLike_bit_form ports fuel host hmode hmode' hlead hcb hop hcb' hop' hmemory hl hcore

/-- An increment of IX next to one of HL, and a byte stored through each of them. -/
theorem increment_and_store_follow_plain_forms :
    let inc := ((Memory.blank.put8 0 0xDD).put8 1 0x23).put8 16 0x23
    let store := (((((Memory.blank.put8 0 0xDD).put8 1 0x36).put8 2 0xFF).put8 3 7).put8 16
      0x36).put8 17 7
    let regs : Registers := { Registers.zero with ix := 0x8000, main := Bank.zero.setHl 0x7FFF }
    let core := fun mem : Memory => (⟨regs, mem, .z80⟩ : Core)
    let cpu := fun core : Core => (⟨core, 0, .base, 0, none⟩ : Cpu)
    (cpu (core inc)).RunsLike (·.exchange .ix) 4 (cpu (((core inc).exchange .ix).jump 16))
      .unattached 0 () 2 17 ∧
    (cpu (core store)).RunsLike id 9 (cpu ((core store).jump 16)) .unattached 0 () 4 18 := by
  intro inc store regs core cpu
  obtain ⟨hregister, -⟩ := index_forms_follow_plain_forms .ix (cpu (core inc))
    (cpu (((core inc).exchange .ix).jump 16)) .unattached 0 () rfl
    (by simp [byteAt, core, cpu, inc, regs, Registers.zero, Index.lead])
  obtain ⟨-, hmemory, -⟩ := index_forms_follow_plain_forms .ix (cpu (core store))
    (cpu ((core store).jump 16)) .unattached 0 () rfl
    (by simp [byteAt, core, cpu, store, regs, Registers.zero, Index.lead])
  constructor
  · refine hregister 0x23 ?_ ?_ (by decide) (by decide) ?_ rfl
    · simp [byteAt, core, cpu, inc, regs, Registers.zero]
    · simp [byteAt, core, cpu, inc, Core.exchange, Core.jump]
    · exact fun k hk => absurd hk (Nat.not_lt_zero k)
  · refine hmemory 0x36 ?_ ?_ (by decide) (by decide) ?_ rfl ?_
    · simp [byteAt, core, cpu, store, regs, Registers.zero]
    · simp [byteAt, core, cpu, store, Core.jump]
    · intro k hk
      have hzero : k = 0 := Nat.lt_one_iff.mp hk
      simp [hzero, byteAt, core, cpu, store, regs, Registers.zero, Core.jump]
    · have hd : (cpu (core store)).byteAt 2 = 0xFF := by
        simp [byteAt, core, cpu, store, regs, Registers.zero]
      rw [hd]
      show (Bank.zero.setHl 0x7FFF).hl = 0x8000 + Word.signExtend 0xFF
      decide

/-- The refresh register sets the two forms apart: it counts the time of each. -/
theorem increments_do_not_leave_refresh_equal :
    let mem := ((Memory.blank.put8 0 0xDD).put8 1 0x23).put8 16 0x23
    let regs : Registers := { Registers.zero with ix := 0x1234, main := Bank.zero.setHl 0x5678 }
    let s : Cpu := ⟨⟨regs, mem, .z80⟩, 0, .base, 0, none⟩
    let t : Cpu := ⟨(s.core.exchange .ix).jump 16, 0, .base, 0, none⟩
    ∃ u v, s.step .unattached 0 () = some u ∧ t.step .unattached 0 () = some v ∧
      { u.cpu.core.regs.exchange .ix with pc := v.cpu.core.regs.pc } ≠ v.cpu.core.regs := by
  intro mem regs s t
  have hop : t.core.mem.get8 t.core.regs.pc = 0x23 := Memory.get8_put8_same _ _ _
  have hi : s.decoded.instruction = some (.operation (.incPair (.pointer (.index .ix)))) := by
    simp only [decoded, Window.ofMemory, s, regs, mem, Memory.get8_put8]
    rfl
  have hi' : t.decoded.instruction = some (.operation (.incPair (.pointer .hl))) :=
    congrArg (·.instruction) (decoded_plain rfl hop rfl)
  refine ⟨_, _, s.step_of_operation _ _ _ hi, t.step_of_operation _ _ _ hi', fun heq => ?_⟩
  have hr : (0 &&& 0x80 ||| UInt8.ofNat ((UInt8.toNat 0 + (0 + 10) / 4) % 128)) =
      0 &&& 0x80 ||| UInt8.ofNat ((UInt8.toNat 0 + (0 + 6) / 4) % 128) := congrArg Registers.r heq
  exact absurd hr (by decide)

end Cpu

end Cpm
