import Cpm.Proofs.Decoding

/-!
# Rows of the opcode tables

Facts about single rows of the tables that hold whatever the bytes behind the opcode
are: whether there is a row for an opcode, which row halts, which load the refresh
register, and which write to a port.
-/

namespace Cpm

namespace Tables

open Decode (Entry entry outputEntry)

/-! ### Whether a table has a row for an opcode does not hang on the operands -/

theorem isSome_bind_some {α β : Type} (a : Option α) (f : α → β) :
    (a.bind fun x => some (f x)).isSome = a.isSome := by
  cases a <;> rfl

theorem isSome_load (p : Pointer) (op d : UInt8) :
    (load p op d).isSome = (load p op 0).isSome := by
  simp only [load, operand]
  cases Decode.byteReg? p (op >>> 3 &&& 0x07) <;> cases Decode.byteReg? p (op &&& 0x07) <;>
    cases p <;> simp only [entry, isSome_bind_some]

theorem isSome_common (op x y : UInt8) : (common op x y).isSome = (common op 0 0).isSome := by
  simp only [common, apply_ite Option.isSome, isSome_load .hl op x]
  rfl

theorem isSome_z80 (op x y : UInt8) : (z80 op x y).isSome = (z80 op 0 0).isSome := by
  simp only [z80, apply_ite Option.isSome, isSome_common op x y]
  rfl

theorem isSome_i8080 (op x y : UInt8) : (i8080 op x y).isSome = (i8080 op 0 0).isSome := by
  rw [i8080_eq_common, i8080_eq_common, isSome_common op x y]

theorem isSome_extended (op x y : UInt8) :
    (extended op x y).isSome = (extended op 0 0).isSome := by
  simp only [extended, apply_ite Option.isSome]
  rfl

theorem isSome_indexed (i : Index) (op x y : UInt8) :
    (indexed i op x y).isSome = (indexed i op 0 0).isSome := by
  simp only [indexed, apply_ite Option.isSome, isSome_load (.index i) op x]
  rfl

theorem isSome_indexedBits (i : Index) (d op : UInt8) :
    (indexedBits i d op).isSome = (indexedBits i 0 op).isSome := by
  simp only [indexedBits, apply_ite Option.isSome]
  rfl

theorem isSome_lookup (mode : Mode) (t : Table) (d op x y : UInt8) :
    (lookup mode t d op x y).isSome = hasEntry mode t op := by
  cases t with
  | base =>
    cases mode with
    | i8080 => exact isSome_i8080 op x y
    | z80 => exact isSome_z80 op x y
  | cb => rfl
  | dd => exact isSome_indexed .ix op x y
  | ddcb => exact isSome_indexedBits .ix d op
  | ed => exact isSome_extended op x y
  | fd => exact isSome_indexed .iy op x y
  | fdcb => exact isSome_indexedBits .iy d op

/-! ### The rows for a load between registers or with memory -/

/-- What holds of no row and of the rows of the three loads holds of the row that an opcode
`01dddsss` has, whichever it is. -/
theorem load_induction {P : Option Entry → Prop} (none : P none)
    (ld : ∀ r s, P (entry 0 (.ld r s))) (ldFrom : ∀ n r q, P (entry n (.ldFrom r q)))
    (ldTo : ∀ n q r, P (entry n (.ldTo q r))) (p : Pointer) (op d : UInt8) : P (load p op d) := by
  -- The other side of a byte of memory may be no plain register.
  have hbind : ∀ (a : Option Reg8) (f : Reg8 → Option Entry), (∀ r, P (f r)) → P (a.bind f) := by
    intro a f hf
    cases a with
    | none => exact none
    | some r => exact hf r
  simp only [load]
  split
  case h_1 r s _ _ => exact ld r s
  case h_2 place _ => exact hbind _ _ fun r => ldFrom _ r place
  case h_3 _ place _ _ => exact hbind _ _ fun r => ldTo _ place r

/-! ### The halt instruction stands in the base table alone -/

def isHalt : Option Entry → Bool
  | some ⟨_, .halt⟩ => true
  | _ => false

theorem isHalt_entry (n : Nat) (o : Operation) : isHalt (entry n o) = false := rfl

theorem isHalt_outputEntry (n : Nat) (o : Output) : isHalt (outputEntry n o) = false := rfl

theorem isHalt_none : isHalt none = false := rfl

theorem isHalt_load (p : Pointer) (op d : UInt8) : isHalt (load p op d) = false := by
  refine load_induction (P := fun e => isHalt e = false) ?none ?ld ?ldFrom ?ldTo p op d
  case none => exact isHalt_none
  case ld => exact fun r t => isHalt_entry 0 (.ld r t)
  case ldFrom => exact fun n r q => isHalt_entry n (.ldFrom r q)
  case ldTo => exact fun n q r => isHalt_entry n (.ldTo q r)

theorem isHalt_common (op x y : UInt8) : isHalt (common op x y) = decide (op = 0x76) := by
  simp only [common, apply_ite isHalt, isHalt_load, loadImmediate, stepPair, arithmetic, stepByte,
    onOperand, isHalt_entry, isHalt_outputEntry, isHalt_none, ite_self]
  by_cases h : op = 0x76
  · rw [h]; rfl
  · simp [h]

theorem isHalt_z80 (op x y : UInt8) : isHalt (z80 op x y) = decide (op = 0x76) := by
  simp only [z80, apply_ite isHalt, isHalt_common, isHalt_entry]
  by_cases h : op = 0x76
  · rw [h]; rfl
  · simp [h]

theorem isHalt_i8080 (op x y : UInt8) : isHalt (i8080 op x y) = decide (op = 0x76) := by
  rw [i8080_eq_common, isHalt_common]

theorem isHalt_indexed (i : Index) (op x y : UInt8) : isHalt (indexed i op x y) = false := by
  simp only [indexed, apply_ite isHalt, isHalt_load, loadImmediate, stepPair, arithmetic, stepByte,
    onOperand, isHalt_entry, isHalt_none, ite_self]

theorem isHalt_extended (op x y : UInt8) : isHalt (extended op x y) = false := by
  simp only [extended, apply_ite isHalt, isHalt_entry, isHalt_outputEntry, isHalt_none, ite_self]

theorem isHalt_indexedBits (i : Index) (d op : UInt8) : isHalt (indexedBits i d op) = false := by
  simp only [indexedBits, apply_ite isHalt, isHalt_entry, isHalt_none, ite_self]

theorem isHalt_lookup (mode : Mode) (t : Table) (d op x y : UInt8) :
    isHalt (lookup mode t d op x y) = decide (t = .base ∧ op = 0x76) := by
  cases t with
  | base =>
    cases mode with
    | i8080 => simp only [lookup, isHalt_i8080, true_and]
    | z80 => simp only [lookup, isHalt_z80, true_and]
  | cb => rfl
  | dd => simp [lookup, isHalt_indexed]
  | ddcb => simp [lookup, isHalt_indexedBits]
  | ed => simp [lookup, isHalt_extended]
  | fd => simp [lookup, isHalt_indexed]
  | fdcb => simp [lookup, isHalt_indexedBits]

/-! ### The rows that write to a port or load the refresh register -/

/-- An opcode whose instruction writes to a port: the base table has one, the extended table
has twelve. -/
def writesPort (t : Table) (op : UInt8) : Bool :=
  match t with
  | .base => op = 0xD3
  | .ed =>
    op ∈ [0x41, 0x49, 0x51, 0x59, 0x61, 0x69, 0x71, 0x79] || op ∈ [0xA3, 0xAB, 0xB3, 0xBB]
  | _ => false

/-- The number of bytes before the opcode, by the table they lead to. -/
def leading : Table → Nat
  | .base => 0
  | .ddcb | .fdcb => 3
  | _ => 1

/-- What a row does beyond working on the core alone. -/
inductive Effect where
  | loadsRefresh
  /-- It writes to a port, and has so many bytes behind the opcode. -/
  | writesPort (operands : Nat)
  | none
  deriving DecidableEq

def effect : Option Entry → Effect
  | some ⟨_, .operation .ldRA⟩ => .loadsRefresh
  | some ⟨n, .output _⟩ => .writesPort n
  | _ => .none

theorem effect_eq_loadsRefresh_iff {e : Option Entry} :
    effect e = .loadsRefresh ↔ ∃ n, e = entry n .ldRA := by
  constructor
  · intro h
    unfold effect at h
    split at h
    · exact ⟨_, rfl⟩
    · cases h
    · cases h
  · rintro ⟨n, rfl⟩
    rfl

theorem effect_eq_writesPort_iff {e : Option Entry} {n : Nat} :
    effect e = .writesPort n ↔ ∃ o, e = outputEntry n o := by
  constructor
  · intro h
    unfold effect at h
    split at h
    · cases h
    · cases h
      exact ⟨_, rfl⟩
    · cases h
  · rintro ⟨o, rfl⟩
    rfl

theorem effect_load (p : Pointer) (op d : UInt8) : effect (load p op d) = .none := by
  refine load_induction (P := fun e => effect e = .none) ?none ?ld ?ldFrom ?ldTo p op d
  case none => rfl
  case ld => exact fun _ _ => rfl
  case ldFrom => exact fun _ _ _ => rfl
  case ldTo => exact fun _ _ _ => rfl

theorem effect_stepByte (p : Pointer) (op d : UInt8) : effect (stepByte p op d) = .none := by
  unfold stepByte onOperand
  split <;> rfl

theorem effect_stepPair (p : Pointer) (op : UInt8) : effect (stepPair p op) = .none := by
  unfold stepPair
  split <;> rfl

theorem effect_common (op x y : UInt8) :
    effect (common op x y) = if op = 0xD3 then .writesPort 1 else .none := by
  by_cases h : op = 0xD3
  · subst h
    rfl
  · simp only [common, apply_ite effect, loadImmediate, arithmetic, onOperand, effect_stepByte,
      effect_stepPair, effect_load, h, if_false]
    simp only [effect, entry, ite_self]

theorem effect_z80 (op x y : UInt8) :
    effect (z80 op x y) = if op = 0xD3 then .writesPort 1 else .none := by
  by_cases h : op = 0xD3
  · subst h
    rfl
  · simp only [z80, apply_ite effect, effect_common, h, if_false]
    simp only [effect, entry, ite_self]

theorem effect_i8080 (op x y : UInt8) :
    effect (i8080 op x y) = if op = 0xD3 then .writesPort 1 else .none := by
  cases h : Decode.isZ80Only op with
  | true =>
    rw [i8080_eq_none h, if_neg]
    · rfl
    · rintro rfl
      exact absurd h (by decide)
  | false => rw [i8080_eq_common, effect_common]

theorem effect_indexed (i : Index) (op x y : UInt8) : effect (indexed i op x y) = .none := by
  simp only [indexed, apply_ite effect, loadImmediate, arithmetic, onOperand, effect_stepByte,
    effect_stepPair, effect_load]
  simp only [effect, entry, ite_self]

theorem effect_bitOperation (op : UInt8) (x : Operand) :
    effect (entry 0 (Decode.bitOperation op x)) = .none := by
  unfold Decode.bitOperation
  split <;> rfl

theorem effect_indexedBits (i : Index) (d op : UInt8) :
    effect (indexedBits i d op) = .none := by
  unfold indexedBits
  split
  · rfl
  · exact effect_bitOperation _ _

theorem effect_extended (op x y : UInt8) :
    effect (extended op x y) =
      if op = 0x4F then .loadsRefresh else if writesPort .ed op then .writesPort 0 else .none := by
  by_cases hr : op = 0x4F
  · subst hr
    rfl
  · rw [if_neg hr]
    cases h : writesPort .ed op with
    | true =>
      simp only [writesPort, List.mem_cons, List.not_mem_nil, or_false, Bool.or_eq_true,
        decide_eq_true_eq] at h
      obtain (rfl | rfl | rfl | rfl | rfl | rfl | rfl | rfl) | (rfl | rfl | rfl | rfl) := h <;> rfl
    | false =>
      have hrows := forall_of_all_allBytes (p := fun b => writesPort .ed b ||
        !(b = 0xA3 || b = 0xAB || b = 0xB3 || b = 0xBB || b &&& 0xC7 = 0x41)) (by decide +kernel) op
      simp only [h, Bool.false_or, Bool.not_eq_true', Bool.or_eq_false_iff] at hrows
      obtain ⟨⟨⟨⟨ha3, hab⟩, hb3⟩, hbb⟩, hc⟩ := hrows
      have hreturn : effect (entry 0 (if op = 0x4D then .reti else .retn)) = .none := by
        split <;> rfl
      simp only [extended, apply_ite effect, hreturn, ha3, hab, hb3, hbb, hr,
        decide_eq_false_iff_not.mp hc, Bool.or_self, Bool.false_eq_true, if_false]
      simp only [effect, entry, ite_self]

/-- What the rows do, by their table and opcode. An instruction that writes to a port is two
bytes long, and one opcode of the extended table loads the refresh register. -/
theorem effect_lookup (mode : Mode) (t : Table) (d op x y : UInt8) :
    effect (lookup mode t d op x y) =
      if t = .ed ∧ op = 0x4F then .loadsRefresh
      else if writesPort t op then .writesPort (1 - leading t) else .none := by
  cases t with
  | base =>
    cases mode with
    | i8080 => simp [lookup, effect_i8080, writesPort, leading]
    | z80 => simp [lookup, effect_z80, writesPort, leading]
  | cb => simp [lookup, bits, effect_bitOperation, writesPort]
  | dd => simp [lookup, effect_indexed, writesPort]
  | ddcb => simp [lookup, effect_indexedBits, writesPort]
  | ed => simp only [lookup, effect_extended, true_and, leading]
  | fd => simp [lookup, effect_indexed, writesPort]
  | fdcb => simp [lookup, effect_indexedBits, writesPort]

end Tables

/-- What is found after prefix bytes is a row of the table they lead to. -/
theorem dispatch_eq_found (mode : Mode) (w : Window) :
    ∃ t d op x y n, dispatch mode w = Decode.found t op n (Tables.lookup mode t d op x y) := by
  unfold dispatch
  split
  · exact ⟨_, _, _, _, _, _, rfl⟩
  · unfold Tables.behind
    split
    · exact ⟨_, _, _, _, _, _, rfl⟩
    · exact ⟨_, _, _, _, _, _, rfl⟩

theorem dispatch_instruction_eq_none_iff (mode : Mode) (w : Window) :
    (dispatch mode w).instruction = none ↔
      Tables.hasEntry mode (dispatch mode w).table (dispatch mode w).opcode = false := by
  obtain ⟨t, d, op, x, y, n, h⟩ := dispatch_eq_found mode w
  rw [h, ← Tables.isSome_lookup mode _ d _ x y]
  cases he : Tables.lookup mode t d op x y <;> simp [Decode.found, he]

theorem dispatch_instruction_eq_halt_iff (mode : Mode) (w : Window) :
    (dispatch mode w).instruction = some .halt ↔
      (dispatch mode w).table = .base ∧ (dispatch mode w).opcode = 0x76 := by
  obtain ⟨t, d, op, x, y, n, h⟩ := dispatch_eq_found mode w
  have hrow := Tables.isHalt_lookup mode t d op x y
  rw [h]
  cases he : Tables.lookup mode t d op x y with
  | none =>
    rw [he, Tables.isHalt_none] at hrow
    simpa [Decode.found] using hrow
  | some e =>
    obtain ⟨k, i⟩ := e
    cases i <;> simpa [Decode.found, he, Tables.isHalt] using hrow

end Cpm
