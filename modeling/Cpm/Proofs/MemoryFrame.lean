import Cpm.Proofs.BlockCopy
import Cpm.Proofs.Decoding
import Cpm.Proofs.MemoryBlocks
import Cpm.Proofs.OperandChanges
import Cpm.Proofs.QuietSteps

/-!
# Where an instruction writes

The addresses that an instruction writes to are told by its operands and the registers before
it. Every other byte of memory stays, for each instruction of each table: a load into a register,
a comparison, a test of a bit, a call that is not taken or a byte without an instruction changes
no memory at all.
-/

namespace Cpm

set_option maxRecDepth 2000

/-- The two places below the top of the stack, where the next word is pushed. -/
def Registers.belowStack (r : Registers) : List UInt16 := [r.sp - 1, r.sp - 2]

namespace Operation

def stores (c : Core) : Operation → List UInt16
  | .ldViaA v => [c.regs.via v]
  | .ldMemA addr => [addr]
  | .ldMemPointer addr _ | .ldMemPair addr _ => [addr, addr + 1]
  | .ldTo dst _ => ((Operand.mem dst).address? c).toList
  | .ldImm x _ | .inc x | .dec x | .shift _ x | .res _ x | .set _ x => (x.address? c).toList
  | .rrd | .rld => [c.regs.main.hl]
  | .push _ | .call _ | .rst _ => c.regs.belowStack
  | .callIf cond _ => if cond.holds c.regs.main.f then c.regs.belowStack else []
  | .exSp _ => [c.regs.sp, c.regs.sp + 1]
  | .ldi _ => [c.regs.main.de]
  | .ldir dir => (List.range (Core.rounds c.regs.main.bc)).map (dir.walk c.regs.main.de)
  | _ => []

def writesMemory : Operation → Bool
  | .ldViaA _ | .ldMemA _ | .ldMemPointer _ _ | .ldMemPair _ _ | .ldTo _ _ => true
  | .ldImm (.mem _) _ | .inc (.mem _) | .dec (.mem _) => true
  | .shift _ (.mem _) | .res _ (.mem _) | .set _ (.mem _) => true
  | .rrd | .rld | .push _ | .call _ | .callIf _ _ | .rst _ | .exSp _ => true
  | .ldi _ | .ldir _ => true
  | _ => false

theorem stores_eq_nil {o : Operation} (h : o.writesMemory = false) (c : Core) :
    o.stores c = [] := by
  cases o
  case ldImm x _ | inc x | dec x | shift _ x | res _ x | set _ x =>
    cases x with
    | reg r => rfl
    | mem p => cases h
  all_goals first | rfl | cases h

/-- The program counter has no part in where an operation writes. -/
theorem stores_jump (o : Operation) (c : Core) (pc : UInt16) :
    o.stores (c.jump pc) = o.stores c := by
  have haddress : ∀ x : Operand, x.address? (c.jump pc) = x.address? c := by
    rintro (_ | _ | ⟨_ | _, _⟩) <;> rfl
  cases o
  case ldTo | ldImm | inc | dec | shift | res | set => exact congrArg Option.toList (haddress _)
  case ldViaA v => cases v <;> rfl
  all_goals rfl

end Operation

namespace Instruction

/-- The addresses that the instruction writes to. What an output puts out leaves memory alone. -/
def stores (c : Core) : Instruction → List UInt16
  | .operation o => o.stores c
  | _ => []

def writesMemory : Instruction → Bool
  | .operation o => o.writesMemory
  | _ => false

theorem stores_jump (i : Instruction) (c : Core) (pc : UInt16) :
    i.stores (c.jump pc) = i.stores c := by
  cases i with
  | operation o => exact o.stores_jump c pc
  | output o | halt => rfl

theorem stores_eq_nil {i : Instruction} (h : i.writesMemory = false) (c : Core) :
    i.stores c = [] := by
  cases i with
  | operation o => exact Operation.stores_eq_nil h c
  | output o | halt => rfl

end Instruction

namespace Core

variable (c : Core) {a : UInt16}

theorem get8_push16_other (w : UInt16) (h : a ∉ c.regs.belowStack) :
    (c.push16 w).mem.get8 a = c.mem.get8 a := by
  obtain ⟨hhigh, hlow⟩ : a ≠ c.regs.sp - 1 ∧ a ≠ c.regs.sp - 2 := by
    simpa [Registers.belowStack] using h
  exact (Memory.get8_put8_other _ _ hlow).trans (Memory.get8_put8_other _ _ hhigh)

theorem get8_setOperand_other (x : Operand) (v : UInt8) (h : a ∉ (x.address? c).toList) :
    (c.setOperand x v).mem.get8 a = c.mem.get8 a := by
  refine ((changed_setOperand c x v).mem a).trans (if_neg fun he => h ?_)
  rw [he]
  exact List.mem_singleton_self a

theorem compares_mem (dir : Direction) (n k : Nat) :
    (compares dir n ⟨k, c⟩).core.mem = c.mem := by
  induction n generalizing c k with
  | zero => rfl
  | succ n ih =>
    rw [compares_succ]
    split
    · rfl
    · exact ih (compare dir c) (k + 1)

/-- An operation keeps every byte of memory but those it writes to. -/
theorem get8_perform {o : Operation} (h : a ∉ o.stores c) :
    (c.perform o).core.mem.get8 a = c.mem.get8 a := by
  cases o
  case ldViaA | ldMemA | ldi | rrd | rld =>
    exact Memory.get8_put8_other _ _ (List.ne_of_not_mem_cons h)
  case ldMemPointer | ldMemPair | exSp => exact Memory.get8_put16_other _ _ h
  case ldTo dst src => exact c.get8_setOperand_other (.mem dst) _ h
  case ldImm | inc | dec | shift | res | set => exact c.get8_setOperand_other _ _ h
  case push | call | rst => exact c.get8_push16_other _ h
  case callIf cond target =>
    have h : a ∉ if cond.holds c.regs.main.f then c.regs.belowStack else [] := h
    simp only [perform, branch]
    split at h
    · next hcond =>
      rw [if_pos hcond]
      exact c.get8_push16_other _ h
    · next hcond => rw [if_neg hcond]
  case ldir dir =>
    obtain ⟨-, -, hcopied⟩ := c.ldir_copied dir
    exact hcopied.kept a fun i hi he =>
      h (List.mem_map.mpr ⟨i, List.mem_range.mpr hi, he.symm⟩)
  case cpir dir => exact congrArg (·.get8 a) (c.compares_mem dir _ 0)
  case jpIf | jrIf | retIf =>
    simp only [perform, branch]
    split <;> rfl
  case djnz =>
    simp only [perform]
    split <;> rfl
  all_goals rfl

end Core

/-- An instruction that makes no trap keeps every byte of memory but those it writes to. -/
theorem Instruction.get8_untrapped (c : Core) {i : Instruction} {a : UInt16}
    (h : a ∉ i.stores c) : (i.untrapped c).mem.get8 a = c.mem.get8 a := by
  cases i with
  | operation o => exact c.get8_perform h
  | output o => cases o <;> rfl
  | halt => rfl

/-! ### The rows of the tables -/

namespace Tables

/-- The opcodes that can write to memory: stores, what counts, shifts or sets bits in memory, what
pushes, and the exchange with the stack. -/
def writesMemory (t : Table) (op : UInt8) : Bool :=
  let storesByte := op ≠ 0x76 && op &&& 0xF8 = 0x70
  match t with
  | .base =>
    op ∈ [0x02, 0x12, 0x22, 0x32, 0x34, 0x35, 0x36, 0xCD, 0xE3] || storesByte ||
      op &&& 0xCF = 0xC5 || op &&& 0xC7 = 0xC4 || op &&& 0xC7 = 0xC7
  | .dd | .fd => op ∈ [0x22, 0x34, 0x35, 0x36, 0xE3, 0xE5] || storesByte
  | .cb | .ddcb | .fdcb => op &&& 0x07 = 0x06 && op &&& 0xC0 ≠ 0x40
  | .ed => op ∈ [0x43, 0x53, 0x63, 0x73, 0x67, 0x6F, 0xA0, 0xA8, 0xB0, 0xB8]

def entryWrites (e : Option Decode.Entry) : Bool := e.any (·.instruction.writesMemory)

theorem entryWrites_z80 (op x y : UInt8) : entryWrites (z80 op x y) = writesMemory .base op := by
  rw [z80_eq_base]
  have hrows : allBytes.map (fun op x y => entryWrites (Decode.base .hl op x y)) =
      allBytes.map fun op _ _ => writesMemory .base op := by
    rfl
  exact rows_eq hrows op x y

theorem entryWrites_i8080 (op x y : UInt8) :
    entryWrites (i8080 op x y) = writesMemory .base op := by
  rw [i8080_eq_base]
  cases h : Decode.isZ80Only op with
  | true =>
    have hrows := forall_of_all_allBytes
      (p := fun b => !Decode.isZ80Only b || !writesMemory .base b) (by decide +kernel) op
    have hrow : writesMemory .base op = false := by simpa [h] using hrows
    exact hrow.symm
  | false =>
    rw [← z80_eq_base]
    exact entryWrites_z80 op x y

theorem entryWrites_indexed (i : Index) (op x y : UInt8) :
    entryWrites (indexed i op x y) = writesMemory .dd op := by
  have hrows : allBytes.map (fun op x y => entryWrites (indexed i op x y)) =
      allBytes.map fun op _ _ => writesMemory .dd op := by
    rfl
  exact rows_eq hrows op x y

theorem entryWrites_bits (op : UInt8) : entryWrites (bits op) = writesMemory .cb op := by
  have hrows : allBytes.map (fun op => entryWrites (bits op)) = allBytes.map (writesMemory .cb) := by
    rfl
  exact congrFun (eq_of_map_allBytes hrows) op

theorem entryWrites_indexedBits (i : Index) (d op : UInt8) :
    entryWrites (indexedBits i d op) = writesMemory .cb op := by
  unfold indexedBits
  split
  · next hlow => simp [entryWrites, writesMemory, hlow]
  · next hlow =>
    -- A row on memory writes to it wherever it lies.
    rw [← entryWrites_bits, bits, not_not.mp hlow]
    unfold Decode.bitOperation
    split <;> rfl

theorem entryWrites_extended (op x y : UInt8) :
    entryWrites (extended op x y) = writesMemory .ed op := by
  have hrows : allBytes.map (fun op x y => entryWrites (extended op x y)) =
      allBytes.map fun op _ _ => writesMemory .ed op := by
    rfl
  exact rows_eq hrows op x y

theorem entryWrites_lookup (mode : Mode) (t : Table) (d op x y : UInt8) :
    entryWrites (lookup mode t d op x y) = writesMemory t op := by
  cases t with
  | base =>
    cases mode with
    | i8080 => exact entryWrites_i8080 op x y
    | z80 => exact entryWrites_z80 op x y
  | cb => exact entryWrites_bits op
  | dd => exact entryWrites_indexed .ix op x y
  | ddcb => exact entryWrites_indexedBits .ix d op
  | ed => exact entryWrites_extended op x y
  | fd => exact entryWrites_indexed .iy op x y
  | fdcb => exact entryWrites_indexedBits .iy d op

end Tables

theorem dispatch_writesMemory (mode : Mode) (w : Window) :
    (dispatch mode w).instruction.any (·.writesMemory) =
      Tables.writesMemory (dispatch mode w).table (dispatch mode w).opcode := by
  obtain ⟨t, d, op, x, y, n, h⟩ := dispatch_eq_found mode w
  have hrow := Tables.entryWrites_lookup mode t d op x y
  rw [h]
  cases he : Tables.lookup mode t d op x y with
  | none => rwa [he] at hrow
  | some e => rwa [he] at hrow

namespace Cpu

variable {σ : Type}

/-- In a step that makes no trap, in either mode, a byte of memory that differs afterwards is one
that the instruction writes to, told from the registers as they were. An opcode that is not
among those that write leaves the memory as it was. -/
theorem memory_changes_only_where_stored (cpu : Cpu) (ports : Ports σ) (fuel : Nat) (host : σ)
    (s : Step σ) (hquiet : cpu.Quiet ports fuel host) (h : cpu.step ports fuel host = some s) :
    let d := cpu.decoded
    let before := cpu.core.mem
    let after := s.cpu.core.mem
    (∀ a, after.get8 a ≠ before.get8 a →
      ∃ i, d.instruction = some i ∧ a ∈ i.stores cpu.core) ∧
      (Tables.writesMemory d.table d.opcode = false → after = before) := by
  intro d before after
  have hafter : after = (d.instruction.elim (cpu.past d) (·.untrapped (cpu.past d))).mem :=
    congrArg (·.mem) (hquiet.core_eq h)
  have hstored : ∀ a, after.get8 a ≠ before.get8 a →
      ∃ i, d.instruction = some i ∧ a ∈ i.stores cpu.core := by
    intro a hne
    rw [hafter] at hne
    cases hi : d.instruction with
    | none =>
      rw [hi] at hne
      exact absurd rfl hne
    | some i =>
      rw [hi] at hne
      refine ⟨i, rfl, ?_⟩
      by_contra hnot
      rw [← i.stores_jump cpu.core (cpu.core.regs.pc + UInt16.ofNat d.length)] at hnot
      exact hne (i.get8_untrapped (cpu.past d) hnot)
  refine ⟨hstored, fun hrow => Memory.ext_get8 fun a => ?_⟩
  by_contra hne
  obtain ⟨i, hi, hmem⟩ := hstored a hne
  have hwrites : i.writesMemory = false := by
    have hany := (dispatch_writesMemory _ _).trans hrow
    rwa [show (dispatch _ _).instruction = some i from hi] at hany
  rw [Instruction.stores_eq_nil hwrites] at hmem
  exact absurd hmem List.not_mem_nil

/-- A store below an index register of zero reaches the last byte of memory alone, and a call that
is not taken leaves the stack as it was. -/
theorem store_runs_round_and_untaken_call_stores_nothing :
    let mem := ((((Memory.blank.put8 0x100 0xDD).put8 0x101 0x36).put8 0x102 0xFF).put8 0x103
      0x55).put8 0x200 0xCC
    let store : Cpu := ⟨⟨{ Registers.zero with pc := 0x100 }, mem, .z80⟩, 0, .base, 0, none⟩
    let call : Cpu := ⟨⟨{ Registers.zero with pc := 0x200 }, mem, .i8080⟩, 0, .base, 0, none⟩
    (store.Quiet .unattached 0 () ∧ ∃ s, store.step .unattached 0 () = some s ∧
      s.cpu.core.mem.get8 0xFFFF = 0x55 ∧
      ∀ a, a ≠ 0xFFFF → s.cpu.core.mem.get8 a = mem.get8 a) ∧
    (call.Quiet .unattached 0 () ∧ ∃ s, call.step .unattached 0 () = some s ∧
      s.cpu.core.mem = mem) := by
  intro mem store call
  have hstore : store.decoded.instruction =
      some (.operation (.ldImm (.mem (.offset .ix 0xFF)) 0x55)) := by
    simp only [decoded, Window.ofMemory, store, mem, Memory.get8_put8]
    rfl
  have hcall : ∃ target, call.decoded.instruction = some (.operation (.callIf .z target)) := by
    simp only [decoded, Window.ofMemory, call, mem, Memory.get8_put8]
    exact ⟨_, rfl⟩
  clear_value mem
  obtain ⟨target, hcall⟩ := hcall
  constructor
  · have hquiet := quiet_of_operation hstore Ports.unattached 0 ()
    have hs := store.step_of_operation .unattached 0 () hstore
    refine ⟨hquiet, _, hs, Memory.get8_put8_same _ _ _, fun a ha => ?_⟩
    by_contra hne
    obtain ⟨hwhere, -⟩ :=
      memory_changes_only_where_stored store .unattached 0 () _ hquiet hs
    obtain ⟨i, hi, hmem⟩ := hwhere a hne
    rw [hstore] at hi
    cases hi
    exact ha (List.mem_singleton.mp hmem)
  · have hquiet := quiet_of_operation hcall Ports.unattached 0 ()
    have hs := call.step_of_operation .unattached 0 () hcall
    refine ⟨hquiet, _, hs, Memory.ext_get8 fun a => ?_⟩
    by_contra hne
    obtain ⟨hwhere, -⟩ :=
      memory_changes_only_where_stored call .unattached 0 () _ hquiet hs
    obtain ⟨i, hi, hmem⟩ := hwhere a hne
    rw [hcall] at hi
    cases hi
    have hnone : Instruction.stores call.core (.operation (.callIf .z target)) = [] :=
      if_neg (show ¬ Condition.z.holds Flags.none = true by decide)
    rw [hnone] at hmem
    exact absurd hmem List.not_mem_nil

end Cpu

end Cpm
