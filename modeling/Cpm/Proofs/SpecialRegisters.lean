import Cpm.Proofs.BlockCopy
import Cpm.Proofs.InvalidOpcodes
import Cpm.Proofs.OperandChanges
import Cpm.Proofs.QuietSteps

/-!
# Registers with instructions of their own

The shadow bank, the index registers, the interrupt register, the top bit of the refresh register
and the mode are changed by few instructions, and every other leaves them alone. Each instruction
names the byte registers it replaces. In the tables of an index register these are the halves of
that one and never H or L, except where one of them is loaded from memory beside it.
-/

namespace Cpm

set_option maxRecDepth 2000

/-! ### The byte registers that an instruction replaces -/

/-- The byte registers that a pointer is made of. -/
def Pointer.halves : Pointer → List ByteReg
  | .hl => [.main .h, .main .l]
  | .index i => [.high i, .low i]

def Pair.halves : Pair → List ByteReg
  | .bc => [.main .b, .main .c]
  | .de => [.main .d, .main .e]
  | .pointer p => p.halves
  | .sp => []

/-- The same of a pair that is pushed or popped, without the flags. -/
def StackPair.halves : StackPair → List ByteReg
  | .bc => [.main .b, .main .c]
  | .de => [.main .d, .main .e]
  | .pointer p => p.halves
  | .af => [.main .a]

def Operand.registers : Operand → List ByteReg
  | .reg r => [r]
  | .mem _ => []

def Operation.targets : Operation → List ByteReg
  | .ld dst _ => [dst]
  | .ldFrom dst _ => [.main dst]
  | .ldImm x _ | .inc x | .dec x | .shift _ x | .res _ x | .set _ x => x.registers
  | .ldPair p _ | .ldPairMem p _ | .incPair p | .decPair p => p.halves
  | .ldPointerMem p _ | .exSp p | .addPair p _ => p.halves
  | .pop p => p.halves
  | .adcHl _ | .sbcHl _ => Pointer.hl.halves
  | .ldAVia _ | .ldAMem _ | .ldAI | .ldAR | .exAf => [.main .a]
  | .alu _ _ | .aluImm _ _ | .acc _ | .neg | .rrd | .rld => [.main .a]
  | .djnz _ => [.main .b]
  | .exDeHl => Pair.de.halves ++ Pointer.hl.halves
  | .exx | .ldi _ | .ldir _ => Pair.bc.halves ++ Pair.de.halves ++ Pointer.hl.halves
  | .cpi _ | .cpir _ => Pair.bc.halves ++ Pointer.hl.halves
  | _ => []

/-- The byte registers that the instruction can replace. A block output counts B down and moves
HL. -/
def Instruction.targets : Instruction → List ByteReg
  | .operation o => o.targets
  | .output (.outi _) | .output (.otir _) => .main .b :: Pointer.hl.halves
  | _ => []

namespace Registers

variable (r : Registers) {x : ByteReg}

/-- A byte register is kept if the index registers are and it is among the main ones that are. -/
theorem byte_other {r r' : Registers} {replaced : List ByteReg} (hix : r'.ix = r.ix)
    (hiy : r'.iy = r.iy) (hmain : ∀ y, .main y ∉ replaced → r'.main.get y = r.main.get y)
    (h : x ∉ replaced) : r'.byte x = r.byte x := by
  have hindex : ∀ i, r'.index i = r.index i := by
    rintro (_ | _)
    · exact hix
    · exact hiy
  cases x with
  | main y => exact hmain y h
  | high i => exact congrArg Word.high (hindex i)
  | low i => exact congrArg Word.low (hindex i)

theorem byte_setFlags (f : Flags) : (r.setFlags f).byte x = r.byte x :=
  byte_other rfl rfl (fun y _ => by cases y <;> rfl) List.not_mem_nil

theorem byte_setA_other (v : UInt8) (h : x ∉ [.main .a]) : (r.setA v).byte x = r.byte x :=
  byte_other rfl rfl (fun y hy => by cases y <;> first | exact absurd (by decide) hy | rfl) h

theorem byte_setResult_other (res : ByteResult) (h : x ∉ [.main .a]) :
    (r.setResult res).byte x = r.byte x :=
  ((r.setA res.value).byte_setFlags res.flags).trans (r.byte_setA_other res.value h)

theorem byte_exchangeAf_other (h : x ∉ [.main .a]) : r.exchangeAf.byte x = r.byte x :=
  ((r.setA r.shadow.a).byte_setFlags r.shadow.f).trans (r.byte_setA_other r.shadow.a h)

theorem byte_exchangePairs_other (h : x ∉ Pair.bc.halves ++ Pair.de.halves ++ Pointer.hl.halves) :
    r.exchangePairs.byte x = r.byte x :=
  byte_other rfl rfl (fun y hy => by cases y <;> first | exact absurd (by decide) hy | rfl) h

theorem byte_exchangeDeHl_other (h : x ∉ Pair.de.halves ++ Pointer.hl.halves) :
    r.exchangeDeHl.byte x = r.byte x :=
  byte_other rfl rfl (fun y hy => by cases y <;> first | exact absurd (by decide) hy | rfl) h

theorem byte_setPointer_other (p : Pointer) (w : UInt16) (h : x ∉ p.halves) :
    (r.setPointer p w).byte x = r.byte x := by
  rcases p with _ | (_ | _) <;> rcases x with (_ | _ | _ | _ | _ | _ | _) | (_ | _) | (_ | _) <;>
    first | exact absurd (by decide) h | rfl

theorem byte_setPair_other (p : Pair) (w : UInt16) (h : x ∉ p.halves) :
    (r.setPair p w).byte x = r.byte x := by
  cases p with
  | pointer p => exact r.byte_setPointer_other p w h
  | bc | de | sp =>
    exact byte_other rfl rfl
      (fun y hy => by cases y <;> first | exact absurd (by decide) hy | rfl) h

theorem byte_setStackPair_other (p : StackPair) (w : UInt16) (h : x ∉ p.halves) :
    (r.setStackPair p w).byte x = r.byte x := by
  cases p with
  | pointer p => exact r.byte_setPointer_other p w h
  | bc => exact r.byte_setPair_other .bc w h
  | de => exact r.byte_setPair_other .de w h
  | af => exact ((r.setA (Word.high w)).byte_setFlags ⟨Word.low w⟩).trans (r.byte_setA_other _ h)

theorem byte_setWordResult_other (res : WordResult) (h : x ∉ Pointer.hl.halves) :
    (r.setWordResult res).byte x = r.byte x :=
  ((r.setPointer .hl res.value).byte_setFlags res.flags).trans
    (r.byte_setPointer_other .hl res.value h)

theorem byte_accumulate_other (op : AluOp) (v : UInt8) (mode : Mode) (h : x ∉ [.main .a]) :
    (r.accumulate op v mode).byte x = r.byte x := by
  cases op with
  | cp => exact r.byte_setFlags _
  | _ => exact r.byte_setResult_other _ h

theorem byte_accumulator_other (op : AccOp) (h : x ∉ [.main .a]) :
    (r.accumulator op).byte x = r.byte x := by
  cases op with
  | scf | ccf => exact r.byte_setFlags _
  | _ => exact r.byte_setResult_other _ h

end Registers

namespace Core

variable (c : Core) {x : ByteReg}

theorem byte_setOperand_other (y : Operand) (v : UInt8) (h : x ∉ y.registers) :
    (c.setOperand y v).regs.byte x = c.regs.byte x := by
  refine ((changed_setOperand c y v).byte x).trans (if_neg ?_)
  rintro rfl
  exact h (List.mem_singleton_self x)

theorem byte_setOperandResult_other (y : Operand) (res : ByteResult) (h : x ∉ y.registers) :
    (c.setOperandResult y res).regs.byte x = c.regs.byte x :=
  (Registers.byte_setFlags _ _).trans (c.byte_setOperand_other y res.value h)

theorem byte_transfer_other (dir : Direction)
    (h : x ∉ Pair.bc.halves ++ Pair.de.halves ++ Pointer.hl.halves) :
    (transfer dir c).regs.byte x = c.regs.byte x :=
  Registers.byte_other rfl rfl
    (fun y hy => by cases y <;> first | exact absurd (by decide) hy | rfl) h

theorem byte_transfers_other (dir : Direction) (n : Nat)
    (h : x ∉ Pair.bc.halves ++ Pair.de.halves ++ Pointer.hl.halves) :
    (transfers dir n c).regs.byte x = c.regs.byte x := by
  induction n generalizing c with
  | zero => rfl
  | succ n ih => exact (ih (transfer dir c)).trans (c.byte_transfer_other dir h)

theorem byte_compare_other (dir : Direction) (h : x ∉ Pair.bc.halves ++ Pointer.hl.halves) :
    (compare dir c).regs.byte x = c.regs.byte x :=
  Registers.byte_other rfl rfl
    (fun y hy => by cases y <;> first | exact absurd (by decide) hy | rfl) h

theorem byte_compares_other (dir : Direction) (n k : Nat)
    (h : x ∉ Pair.bc.halves ++ Pointer.hl.halves) :
    (compares dir n ⟨k, c⟩).core.regs.byte x = c.regs.byte x := by
  induction n generalizing c k with
  | zero => rfl
  | succ n ih =>
    rw [compares_succ]
    split
    · exact c.byte_compare_other dir h
    · exact (ih (compare dir c) (k + 1)).trans (c.byte_compare_other dir h)

/-- An operation keeps every byte register but those it replaces. -/
theorem byte_perform {o : Operation} (h : x ∉ o.targets) :
    (c.perform o).core.regs.byte x = c.regs.byte x := by
  cases o
  case ld | ldFrom =>
    exact (Registers.byte_setByte _ _ _ _).trans (if_neg (Ne.symm (List.ne_of_not_mem_cons h)))
  case ldImm | res | set => exact c.byte_setOperand_other _ _ h
  case inc | dec | shift => exact c.byte_setOperandResult_other _ _ h
  case ldPair | ldPairMem | incPair | decPair => exact Registers.byte_setPair_other _ _ _ h
  case ldPointerMem | exSp => exact Registers.byte_setPointer_other _ _ _ h
  case addPair =>
    exact (Registers.byte_setFlags _ _).trans (Registers.byte_setPointer_other _ _ _ h)
  case pop p => exact Registers.byte_setStackPair_other c.drop16.regs p _ h
  case ldAVia | ldAMem => exact Registers.byte_setA_other _ _ h
  case ldAI | ldAR | neg | rrd | rld => exact Registers.byte_setResult_other _ _ h
  case alu | aluImm => exact Registers.byte_accumulate_other _ _ _ _ h
  case acc => exact Registers.byte_accumulator_other _ _ h
  case bit => exact Registers.byte_setFlags _ _
  case exAf => exact c.regs.byte_exchangeAf_other h
  case exx => exact c.regs.byte_exchangePairs_other h
  case exDeHl => exact c.regs.byte_exchangeDeHl_other h
  case adcHl | sbcHl => exact Registers.byte_setWordResult_other _ _ h
  case ldi dir => exact (Registers.byte_setFlags _ _).trans (c.byte_transfer_other dir h)
  case ldir dir => exact (Registers.byte_setFlags _ _).trans (c.byte_transfers_other dir _ h)
  case cpi dir => exact c.byte_compare_other dir h
  case cpir dir => exact c.byte_compares_other dir _ 0 h
  case djnz d =>
    have h : x ∉ [.main .b] := h
    simp only [perform]
    split <;> exact Registers.byte_other rfl rfl
      (fun y hy => by cases y <;> first | exact absurd (by decide) hy | rfl) h
  case jpIf | jrIf | callIf | retIf =>
    simp only [perform, branch]
    split <;> exact Registers.byte_other rfl rfl (fun _ _ => rfl) h
  all_goals exact Registers.byte_other rfl rfl (fun _ _ => rfl) h

end Core

theorem Bank.get_counted_other (k : Bank) (dir : Direction) (n : Nat) {y : Reg8}
    (h : .main y ∉ .main .b :: Pointer.hl.halves) : (k.counted dir n).get y = k.get y := by
  cases n <;> cases y <;> first | exact absurd (by decide) h | rfl

/-- An instruction that makes no trap keeps every byte register but those it replaces. -/
theorem Instruction.byte_untrapped (c : Core) {x : ByteReg} {i : Instruction}
    (h : x ∉ i.targets) : (i.untrapped c).regs.byte x = c.regs.byte x := by
  cases i with
  | operation o => exact c.byte_perform h
  | output o =>
    cases o with
    | outA port | outC src => exact Registers.byte_other rfl rfl (fun _ _ => rfl) h
    | outi dir | otir dir =>
      exact Registers.byte_other rfl rfl (fun _ hy => Bank.get_counted_other _ dir _ hy) h
  | halt => rfl

/-! ### What is out of reach of the byte registers -/

namespace Registers

variable (r : Registers)

def aside : Bank × UInt8 := (r.shadow, r.i)

theorem setByte_aside (x : ByteReg) (v : UInt8) : (r.setByte x v).aside = r.aside := by
  rcases x with _ | (_ | _) | (_ | _) <;> rfl

theorem setPointer_aside (p : Pointer) (w : UInt16) : (r.setPointer p w).aside = r.aside := by
  rcases p with _ | (_ | _) <;> rfl

theorem setPair_aside (p : Pair) (w : UInt16) : (r.setPair p w).aside = r.aside := by
  cases p with
  | pointer p => exact r.setPointer_aside p w
  | _ => rfl

theorem setStackPair_aside (p : StackPair) (w : UInt16) :
    (r.setStackPair p w).aside = r.aside := by
  cases p with
  | pointer p => exact r.setPointer_aside p w
  | _ => rfl

end Registers

namespace Operation

/-- The operation loads the interrupt register or exchanges registers with the shadow bank. -/
def reachesAside : Operation → Bool
  | .ldIA | .exAf | .exx => true
  | _ => false

end Operation

namespace Core

variable (c : Core)

theorem setOperand_aside (x : Operand) (v : UInt8) :
    (c.setOperand x v).regs.aside = c.regs.aside := by
  cases x with
  | reg r => exact Registers.setByte_aside _ _ _
  | mem p => rfl

theorem compares_aside (dir : Direction) (n k : Nat) :
    (compares dir n ⟨k, c⟩).core.regs.aside = c.regs.aside ∧
      (compares dir n ⟨k, c⟩).core.mode = c.mode := by
  induction n generalizing c k with
  | zero => exact ⟨rfl, rfl⟩
  | succ n ih =>
    rw [compares_succ]
    split
    · exact ⟨rfl, rfl⟩
    · exact ih (compare dir c) (k + 1)

theorem perform_aside {o : Operation} (h : o.reachesAside = false) :
    (c.perform o).core.regs.aside = c.regs.aside := by
  cases o
  case ldIA | exAf | exx => cases h
  case ld | ldFrom => exact Registers.setByte_aside _ _ _
  case ldPair | ldPairMem | incPair | decPair => exact Registers.setPair_aside _ _ _
  case ldPointerMem | exSp => exact Registers.setPointer_aside _ _ _
  case addPair => exact Registers.setPointer_aside c.regs _ _
  case pop p => exact Registers.setStackPair_aside c.drop16.regs p _
  case ldImm | inc | dec | shift | res | set => exact c.setOperand_aside _ _
  case alu op _ | aluImm op _ => cases op <;> rfl
  case acc op => cases op <;> rfl
  case ldir dir =>
    obtain ⟨hregs, -, -⟩ := c.ldir_copied dir
    rw [hregs]
    rfl
  case cpir dir => exact (c.compares_aside dir _ 0).1
  case jpIf | jrIf | callIf | retIf =>
    simp only [perform, branch]
    split <;> rfl
  case djnz =>
    simp only [perform]
    split <;> rfl
  all_goals rfl

/-- No operation changes the mode. -/
theorem perform_mode (o : Operation) : (c.perform o).core.mode = c.mode := by
  cases o
  case ldImm x _ | inc x | dec x | shift _ x | res _ x | set _ x => cases x <;> rfl
  case ldir dir => exact (c.ldir_copied dir).2.1
  case cpir dir => exact (c.compares_aside dir _ 0).2
  case jpIf | jrIf | callIf | retIf =>
    simp only [perform, branch]
    split <;> rfl
  case djnz =>
    simp only [perform]
    split <;> rfl
  all_goals rfl

end Core

namespace Instruction

variable (c : Core) {i : Instruction}

/-- Three instructions reach the shadow bank or the interrupt register. -/
theorem aside_cases (i : Instruction) :
    (i.untrapped c).regs.aside = c.regs.aside ∨
      i = .operation .ldIA ∨ i = .operation .exAf ∨ i = .operation .exx := by
  cases i with
  | operation o =>
    cases ho : o.reachesAside with
    | false => exact .inl (c.perform_aside ho)
    | true =>
      right
      cases o
      case ldIA => exact .inl rfl
      case exAf => exact .inr (.inl rfl)
      case exx => exact .inr (.inr rfl)
      all_goals cases ho
  | output o | halt => exact .inl rfl

theorem untrapped_i (h : i ≠ .operation .ldIA) : (i.untrapped c).regs.i = c.regs.i := by
  obtain hkept | rfl | rfl | rfl := i.aside_cases c
  · exact congrArg Prod.snd hkept
  · exact absurd rfl h
  · rfl
  · rfl

theorem untrapped_shadow_af (h : i ≠ .operation .exAf) :
    (i.untrapped c).regs.shadow.af = c.regs.shadow.af := by
  obtain hkept | rfl | rfl | rfl := i.aside_cases c
  · exact congrArg (·.1.af) hkept
  · rfl
  · exact absurd rfl h
  · rfl

theorem untrapped_shadow_pairs (h : i ≠ .operation .exx) :
    (i.untrapped c).regs.shadow.bc = c.regs.shadow.bc ∧
      (i.untrapped c).regs.shadow.de = c.regs.shadow.de ∧
      (i.untrapped c).regs.shadow.hl = c.regs.shadow.hl := by
  obtain hkept | rfl | rfl | rfl := i.aside_cases c
  · have hshadow : (i.untrapped c).regs.shadow = c.regs.shadow := congrArg Prod.fst hkept
    exact ⟨congrArg Bank.bc hshadow, congrArg Bank.de hshadow, congrArg Bank.hl hshadow⟩
  · exact ⟨rfl, rfl, rfl⟩
  · exact ⟨rfl, rfl, rfl⟩
  · exact absurd rfl h

theorem untrapped_r (h : i ≠ .operation .ldRA) : (i.untrapped c).regs.r = c.regs.r := by
  cases i with
  | operation o => exact c.perform_r fun ho => h (congrArg _ ho)
  | output o | halt => rfl

end Instruction

theorem Mode.exists_of_foldl_selected_ne {m : Mode} {bytes : List UInt8}
    (h : bytes.foldl selected m ≠ m) : ∃ v ∈ bytes, v = 0xFF ∨ v = 0xFE := by
  induction bytes generalizing m with
  | nil => exact absurd rfl h
  | cons v rest ih =>
    by_cases hv : v = 0xFF ∨ v = 0xFE
    · exact ⟨v, List.mem_cons_self, hv⟩
    · obtain ⟨hff, hfe⟩ := not_or.mp hv
      have hkeep : m.selected v = m := by rw [selected, if_neg hff, if_neg hfe]
      rw [List.foldl_cons, hkeep] at h
      obtain ⟨u, hu, hvalue⟩ := ih h
      exact ⟨u, List.mem_cons_of_mem v hu, hvalue⟩

/-- Only an output to the mode port changes the mode. -/
theorem Instruction.exists_output_of_mode_ne {c : Core} {i : Instruction}
    (h : (i.untrapped c).mode ≠ c.mode) :
    ∃ o, i = .output o ∧ o.port c = Port.mode ∧ ∃ v ∈ o.bytes c, v = 0xFF ∨ v = 0xFE := by
  cases i with
  | operation o => exact absurd (c.perform_mode o) h
  | output o =>
    have hmode : Port.modeAfter (o.port c) c.mode ((o.bytes c).take (o.bytes c).length) ≠ c.mode :=
      h
    rw [List.take_length, Port.modeAfter] at hmode
    split at hmode
    · next hport => exact ⟨o, rfl, hport, Mode.exists_of_foldl_selected_ne hmode⟩
    · exact absurd rfl hmode
  | halt => exact absurd rfl h

/-! ### What the tables of an index register replace -/

def Table.index? : Table → Option Index
  | .dd | .ddcb => some .ix
  | .fd | .fdcb => some .iy
  | _ => none

namespace Instruction

/-- The instruction loads the register from memory at a displacement from the index register. -/
def loadsBeside (j : Index) (r : Reg8) : Instruction → Bool
  | .operation (.ldFrom dst (.offset i _)) => dst == r && i == j
  | _ => false

/-- Of the index registers the instruction replaces none but the one given. Where one is given,
it replaces H or L only by loading them from memory beside it. -/
def suits (x : Option Index) (i : Instruction) : Bool :=
  i.targets.all fun
    | .high j | .low j => x == some j
    | .main r => !r.inHl || x.all (i.loadsBeside · r)

variable {i : Instruction} {x : Option Index} {j : Index}

theorem not_mem_targets_of_suits (h : i.suits x = true) (hx : x ≠ some j) :
    .high j ∉ i.targets ∧ .low j ∉ i.targets := by
  constructor <;>
  · intro hmem
    have hhalf := List.all_eq_true.mp h _ hmem
    exact hx (eq_of_beq hhalf)

theorem loads_of_suits {r : Reg8} (h : i.suits (some j) = true) (hr : r.inHl = true)
    (hmem : .main r ∈ i.targets) : ∃ d, i = .operation (.ldFrom r (.offset j d)) := by
  have hloads : i.loadsBeside j r = true := by
    simpa [hr] using List.all_eq_true.mp h _ hmem
  unfold loadsBeside at hloads
  split at hloads
  · simp only [Bool.and_eq_true, beq_iff_eq] at hloads
    obtain ⟨rfl, rfl⟩ := hloads
    exact ⟨_, rfl⟩
  · cases hloads

end Instruction

namespace Tables

def entrySuits (x : Option Index) (e : Option Decode.Entry) : Bool := e.all (·.instruction.suits x)

theorem entrySuits_z80 (op x y : UInt8) : entrySuits none (z80 op x y) = true := by
  rw [z80_eq_base]
  have hrows : allBytes.map (fun op x y => entrySuits none (Decode.base .hl op x y)) =
      allBytes.map fun _ _ _ => true := by
    rfl
  exact rows_eq hrows op x y

theorem entrySuits_i8080 (op x y : UInt8) : entrySuits none (i8080 op x y) = true := by
  rw [i8080_eq_base]
  split
  · rfl
  · rw [← z80_eq_base]
    exact entrySuits_z80 op x y

theorem entrySuits_indexed (i : Index) (op x y : UInt8) :
    entrySuits (some i) (indexed i op x y) = true := by
  have hrows : allBytes.map (fun op x y => entrySuits (some i) (indexed i op x y)) =
      allBytes.map fun _ _ _ => true := by
    cases i <;> rfl
  exact rows_eq hrows op x y

theorem entrySuits_bits (op : UInt8) : entrySuits none (bits op) = true := by
  have hrows : allBytes.map (fun op => entrySuits none (bits op)) = allBytes.map fun _ => true := by
    rfl
  exact congrFun (eq_of_map_allBytes hrows) op

theorem entrySuits_indexedBits (i : Index) (d op : UInt8) :
    entrySuits (some i) (indexedBits i d op) = true := by
  unfold indexedBits
  split
  · rfl
  · unfold Decode.bitOperation
    split <;> rfl

theorem entrySuits_extended (op x y : UInt8) : entrySuits none (extended op x y) = true := by
  have hrows : allBytes.map (fun op x y => entrySuits none (extended op x y)) =
      allBytes.map fun _ _ _ => true := by
    rfl
  exact rows_eq hrows op x y

theorem entrySuits_lookup (mode : Mode) (t : Table) (d op x y : UInt8) :
    entrySuits t.index? (lookup mode t d op x y) = true := by
  cases t with
  | base =>
    cases mode with
    | i8080 => exact entrySuits_i8080 op x y
    | z80 => exact entrySuits_z80 op x y
  | cb => exact entrySuits_bits op
  | dd => exact entrySuits_indexed .ix op x y
  | ddcb => exact entrySuits_indexedBits .ix d op
  | ed => exact entrySuits_extended op x y
  | fd => exact entrySuits_indexed .iy op x y
  | fdcb => exact entrySuits_indexedBits .iy d op

end Tables

theorem dispatch_suits {mode : Mode} {w : Window} {i : Instruction}
    (h : (dispatch mode w).instruction = some i) :
    i.suits (dispatch mode w).table.index? = true := by
  obtain ⟨t, d, op, x, y, n, hfound⟩ := dispatch_eq_found mode w
  have hrow := Tables.entrySuits_lookup mode t d op x y
  rw [hfound] at h ⊢
  cases he : Tables.lookup mode t d op x y with
  | none =>
    rw [he] at h
    cases h
  | some e =>
    rw [he] at h hrow
    cases h
    exact hrow

theorem Index.lead_injective {i j : Index} (h : i.lead = j.lead) : i = j := by
  cases i <;> cases j <;> first | rfl | exact absurd h (by decide)

@[simp] theorem Index.index?_table (i : Index) : i.table.index? = some i := by
  cases i <;> rfl

@[simp] theorem Index.index?_bitTable (i : Index) : i.bitTable.index? = some i := by
  cases i <;> rfl

/-- The tables of an index register are those behind the byte that leads to it. -/
theorem dispatch_index?_eq_some_iff {mode : Mode} {w : Window} {j : Index} :
    (dispatch mode w).table.index? = some j ↔ mode = .z80 ∧ w.b0 = j.lead := by
  cases ht : Tables.next? mode .base w.b0 with
  | none =>
    rw [dispatch_of_no_lead ht, Decode.table_found]
    constructor
    · intro h
      cases h
    · rintro ⟨rfl, hlead⟩
      rw [hlead, Tables.next?_lead] at ht
      cases ht
  | some t =>
    cases mode with
    | i8080 => cases ht
    | z80 =>
      obtain ⟨hcb, rfl⟩ | ⟨hed, rfl⟩ | ⟨i, hlead, rfl⟩ := Tables.next?_z80_eq_some ht
      · rw [dispatch_of_lead ht rfl, Decode.table_found, hcb]
        cases j <;> decide
      · rw [dispatch_of_lead ht rfl, Decode.table_found, hed]
        cases j <;> decide
      · have htable : (dispatch .z80 w).table.index? = some i := by
          have hnext := Tables.next?_table i w.b1
          by_cases h : w.b1 = 0xCB
          · rw [if_pos h] at hnext
            rw [dispatch_of_leads ht hnext, Decode.table_found, Index.index?_bitTable]
          · rw [if_neg h] at hnext
            rw [dispatch_of_lead ht hnext, Decode.table_found, Index.index?_table]
        rw [htable, hlead]
        constructor
        · rintro ⟨rfl⟩
          exact ⟨rfl, rfl⟩
        · rintro ⟨-, h⟩
          rw [Index.lead_injective h]

theorem Registers.index_eq_of_halves {r r' : Registers} {i : Index}
    (hhigh : r'.byte (.high i) = r.byte (.high i)) (hlow : r'.byte (.low i) = r.byte (.low i)) :
    r'.index i = r.index i := by
  rw [← Word.ofBytes_high_low (r'.index i), ← Word.ofBytes_high_low (r.index i)]
  exact congrArg₂ Word.ofBytes hhigh hlow

/-- Advancing the refresh register keeps its top bit. -/
theorem Registers.top_refresh (r : Registers) (waiting : Fin 4) (states : Nat) :
    (r.refresh waiting states).r &&& 0x80 = r.r &&& 0x80 := by
  refine Cpu.top_eq_of_div_eq ?_
  have := r.toNat_refresh waiting states
  omega

namespace Cpu

variable {σ : Type}

def LedBy (cpu : Cpu) (i : Index) : Prop :=
  cpu.core.mode = .z80 ∧ cpu.core.mem.get8 cpu.core.regs.pc = i.lead

/-- What differs in `c` from before the next instruction is told by that instruction. -/
structure Explains (cpu : Cpu) (c : Core) : Prop where
  interrupt : c.regs.i ≠ cpu.core.regs.i → cpu.decoded.instruction = some (.operation .ldIA)
  refreshTop : c.regs.r &&& 0x80 ≠ cpu.core.regs.r &&& 0x80 →
    cpu.decoded.instruction = some (.operation .ldRA)
  shadowAf : c.regs.shadow.af ≠ cpu.core.regs.shadow.af →
    cpu.decoded.instruction = some (.operation .exAf)
  shadowPairs : c.regs.shadow.bc ≠ cpu.core.regs.shadow.bc ∨
      c.regs.shadow.de ≠ cpu.core.regs.shadow.de ∨ c.regs.shadow.hl ≠ cpu.core.regs.shadow.hl →
    cpu.decoded.instruction = some (.operation .exx)
  index : ∀ i, c.regs.index i ≠ cpu.core.regs.index i → cpu.LedBy i
  mode : c.mode ≠ cpu.core.mode → ∃ o, cpu.decoded.instruction = some (.output o) ∧
    o.port cpu.core = 0xFE ∧ ∃ v ∈ o.bytes cpu.core, v = 0xFF ∨ v = 0xFE
  /-- Behind a byte that leads to an index register, H and L stand for its halves. -/
  besides : ∀ i, cpu.LedBy i → ∀ r ∈ [Reg8.h, .l],
    c.regs.main.get r ≠ cpu.core.regs.main.get r →
    ∃ d, cpu.decoded.instruction = some (.operation (.ldFrom r (.offset i d)))

theorem explains_past (cpu : Cpu) : cpu.Explains (cpu.past cpu.decoded) where
  interrupt h := absurd rfl h
  refreshTop h := absurd rfl h
  shadowAf h := absurd rfl h
  shadowPairs h := by simp [past, Core.jump] at h
  index i h := absurd (by cases i <;> rfl) h
  mode h := absurd rfl h
  besides _ _ _ _ h := absurd rfl h

theorem explains_untrapped {cpu : Cpu} {i : Instruction} (hi : cpu.decoded.instruction = some i) :
    cpu.Explains (i.untrapped (cpu.past cpu.decoded)) := by
  have hsuits := dispatch_suits hi
  have hled : ∀ j, cpu.decoded.table.index? = some j ↔ cpu.LedBy j := fun _ =>
    dispatch_index?_eq_some_iff
  have hof : ∀ {o : Operation}, ¬ cpu.decoded.instruction = some (.operation o) →
      i ≠ .operation o := by
    rintro o hne rfl
    exact hne hi
  refine ⟨fun h => ?_, fun h => ?_, fun h => ?_, fun h => ?_, fun j h => ?_, fun h => ?_,
    fun j hj r hr h => ?_⟩
  · by_contra hne
    exact h (i.untrapped_i _ (hof hne))
  · by_contra hne
    exact h (congrArg (· &&& 0x80) (i.untrapped_r _ (hof hne)))
  · by_contra hne
    exact h (i.untrapped_shadow_af _ (hof hne))
  · by_contra hne
    obtain ⟨hbc, hde, hhl⟩ := i.untrapped_shadow_pairs (cpu.past cpu.decoded) (hof hne)
    obtain h | h | h := h
    · exact h hbc
    · exact h hde
    · exact h hhl
  · by_contra hne
    obtain ⟨hhigh, hlow⟩ := Instruction.not_mem_targets_of_suits hsuits fun ht => hne ((hled j).mp ht)
    have hindex : (cpu.past cpu.decoded).regs.index j = cpu.core.regs.index j := by
      cases j <;> rfl
    exact h ((Registers.index_eq_of_halves (i.byte_untrapped _ hhigh)
      (i.byte_untrapped _ hlow)).trans hindex)
  · obtain ⟨o, rfl, hport, hbytes⟩ := Instruction.exists_output_of_mode_ne h
    refine ⟨o, hi, ?_⟩
    cases o <;> exact ⟨hport, hbytes⟩
  · have hhl : r.inHl = true := by
      obtain rfl | rfl : r = .h ∨ r = .l := by simpa using hr
      · rfl
      · rfl
    by_cases hmem : .main r ∈ i.targets
    · have hbeside := hsuits
      rw [show (dispatch _ _).table.index? = some j from (hled j).mpr hj] at hbeside
      obtain ⟨d, rfl⟩ := Instruction.loads_of_suits hbeside hhl hmem
      exact ⟨d, hi⟩
    · exact absurd (i.byte_untrapped (cpu.past cpu.decoded) hmem) h

/-- Counting the states of the instruction changes none of it. -/
theorem Explains.refresh {cpu : Cpu} {c : Core} (h : cpu.Explains c) (waiting : Fin 4)
    (states : Nat) : cpu.Explains (c.onRegs (·.refresh waiting states)) where
  interrupt := h.interrupt
  refreshTop hne := h.refreshTop fun he => hne ((c.regs.top_refresh waiting states).trans he)
  shadowAf := h.shadowAf
  shadowPairs := h.shadowPairs
  index i hne := h.index i fun he => hne (Eq.trans (by cases i <;> rfl) he)
  mode := h.mode
  besides := h.besides

/-- A step that makes no trap explains every change of the registers with instructions of their
own. -/
theorem Quiet.explains {cpu : Cpu} {ports : Ports σ} {fuel : Nat} {host : σ} {s : Step σ}
    (hquiet : cpu.Quiet ports fuel host) (h : cpu.step ports fuel host = some s) :
    cpu.Explains s.cpu.core := by
  rw [hquiet.core_eq h]
  refine Explains.refresh ?_ _ _
  cases hi : cpu.decoded.instruction with
  | none => exact cpu.explains_past
  | some i => exact explains_untrapped hi

end Cpu

end Cpm
