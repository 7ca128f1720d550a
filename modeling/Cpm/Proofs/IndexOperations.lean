import Cpm.Proofs.ControlFlow

/-!
# Operations with an index register in the place of HL

An operation on HL, or on one of its halves, becomes one on an index register when
HL is replaced. The replaced operation does to the exchanged registers what the plain
one does, and takes four states more. An operation on the byte at HL becomes one on
the byte at a displacement; where both name the same byte it does exactly the same,
and only takes longer.
-/

namespace Cpm

/-! ### HL and the index register exchanged -/

namespace Registers

def exchange (r : Registers) (i : Index) : Registers :=
  { r.setIndex i r.main.hl with main := r.main.setHl (r.index i) }

end Registers

def Core.exchange (c : Core) (i : Index) : Core := { c with regs := c.regs.exchange i }

def Reg8.inHl : Reg8 → Bool
  | .h | .l => true
  | _ => false

def ByteReg.onIndex (i : Index) : ByteReg → ByteReg
  | .main .h => .high i
  | .main .l => .low i
  | r => r

def Operand.onIndex (i : Index) : Operand → Operand
  | .reg r => .reg (r.onIndex i)
  | x => x

def Pointer.onIndex (i : Index) : Pointer → Pointer
  | .hl => .index i
  | p => p

def Pair.onIndex (i : Index) : Pair → Pair
  | .pointer p => .pointer (p.onIndex i)
  | p => p

def StackPair.onIndex (i : Index) : StackPair → StackPair
  | .pointer p => .pointer (p.onIndex i)
  | p => p

def Pair.isPlain : Pair → Bool
  | .pointer (.index _) => false
  | _ => true

namespace Operation

/-- The operation names HL or a half of it, and neither an index register nor a byte
of memory next to it. -/
def namesHl : Operation → Bool
  | .ld (.main dst) (.main src) => dst.inHl || src.inHl
  | .ldImm (.reg (.main r)) _ => r.inHl
  | .alu _ (.reg (.main r)) | .inc (.reg (.main r)) | .dec (.reg (.main r)) => r.inHl
  | .ldPair (.pointer .hl) _ | .incPair (.pointer .hl) | .decPair (.pointer .hl) => true
  | .push (.pointer .hl) | .pop (.pointer .hl) => true
  | .ldMemPointer _ .hl | .ldPointerMem .hl _ | .ldSp .hl | .exSp .hl | .jpPointer .hl => true
  | .addPair .hl src => src.isPlain
  | _ => false

def onIndex (i : Index) : Operation → Operation
  | .ld dst src => .ld (dst.onIndex i) (src.onIndex i)
  | .ldImm x n => .ldImm (x.onIndex i) n
  | .alu op x => .alu op (x.onIndex i)
  | .inc x => .inc (x.onIndex i)
  | .dec x => .dec (x.onIndex i)
  | .ldPair p nn => .ldPair (p.onIndex i) nn
  | .incPair p => .incPair (p.onIndex i)
  | .decPair p => .decPair (p.onIndex i)
  | .push p => .push (p.onIndex i)
  | .pop p => .pop (p.onIndex i)
  | .ldMemPointer nn p => .ldMemPointer nn (p.onIndex i)
  | .ldPointerMem p nn => .ldPointerMem (p.onIndex i) nn
  | .ldSp p => .ldSp (p.onIndex i)
  | .exSp p => .exSp (p.onIndex i)
  | .jpPointer p => .jpPointer (p.onIndex i)
  | .addPair dst src => .addPair (dst.onIndex i) (src.onIndex i)
  | o => o

/-- The replaced operation is of the same kind. -/
theorem isTransfer_onIndex (i : Index) (o : Operation) :
    (o.onIndex i).isTransfer = o.isTransfer := by
  cases o <;> rfl

theorem onIndex_ne_ldRA (i : Index) {o : Operation} (h : o.namesHl = true) :
    o.onIndex i ≠ .ldRA := by
  cases o
  case ldRA => exact absurd h Bool.noConfusion
  all_goals exact Operation.noConfusion

end Operation

namespace Registers

variable (r : Registers) (i : Index)

theorem byte_exchange (x : Reg8) :
    (r.exchange i).byte (.main x) = r.byte (ByteReg.onIndex i (.main x)) := by
  cases i <;> cases x <;> rfl

theorem setByte_exchange (x : Reg8) (v : UInt8) :
    (r.exchange i).setByte (.main x) v =
      (r.setByte (ByteReg.onIndex i (.main x)) v).exchange i := by
  cases i <;> cases x <;>
    simp [exchange, setByte, ByteReg.onIndex, setIndex, index, Bank.put, Bank.setHl, Bank.hl]

theorem pair_exchange {p : Pair} (h : p.isPlain = true) :
    (r.exchange i).pair p = r.pair (p.onIndex i) := by
  rcases p with _ | _ | (_ | _) | _
  case pointer.index => exact absurd h Bool.noConfusion
  case pointer.hl => exact Bank.hl_setHl _ _
  all_goals cases i <;> rfl

theorem setHl_exchange (w : UInt16) :
    (r.exchange i).setPointer .hl w = (r.setPointer (.index i) w).exchange i := by
  cases i <;> rfl

theorem hl_exchange : (r.exchange i).main.hl = r.index i := Bank.hl_setHl _ _

theorem setFlags_exchange (f : Flags) :
    (r.exchange i).setFlags f = (r.setFlags f).exchange i := by
  cases i <;> rfl

theorem accumulate_exchange (op : AluOp) (v : UInt8) (mode : Mode) :
    (r.exchange i).accumulate op v mode = (r.accumulate op v mode).exchange i := by
  cases i <;> cases op <;> rfl

end Registers

namespace Core

variable (c : Core) (i : Index)

/-- The replaced operation does to the exchanged registers what the plain one does. -/
theorem perform_exchange {o : Operation} (h : o.namesHl = true) :
    ((c.exchange i).perform o).core = (c.perform (o.onIndex i)).core.exchange i := by
  cases o
  case ld dst src =>
    rcases dst with dst | _ | _ <;> rcases src with src | _ | _
    case main.main =>
      simp only [perform, onRegs, exchange, Operation.onIndex, Registers.byte_exchange,
        Registers.setByte_exchange]
    all_goals exact absurd h Bool.noConfusion
  case ldImm x n =>
    rcases x with (r | _ | _) | _
    case reg.main =>
      simp only [perform, setOperand, onRegs, exchange, Operation.onIndex,
        Operand.onIndex, Registers.setByte_exchange]
    all_goals exact absurd h Bool.noConfusion
  case alu op x =>
    rcases x with (r | _ | _) | _
    case reg.main =>
      simp only [perform, operand, onRegs, exchange, Operation.onIndex, Operand.onIndex,
        Registers.byte_exchange,
        Registers.accumulate_exchange]
    all_goals exact absurd h Bool.noConfusion
  case inc x | dec x =>
    rcases x with (r | _ | _) | _
    case reg.main =>
      have hf : (c.regs.exchange i).main.f = c.regs.main.f := by cases i <;> rfl
      simp only [perform, setOperandResult, setOperand, operand, onRegs, exchange, hf,
        Operation.onIndex, Operand.onIndex, Registers.byte_exchange, Registers.setByte_exchange,
        Registers.setFlags_exchange]
    all_goals exact absurd h Bool.noConfusion
  case ldPair p nn =>
    rcases p with _ | _ | (_ | _) | _
    case pointer.hl => simp only [perform, onRegs, exchange, Registers.setPair,
      Operation.onIndex, Pair.onIndex, Pointer.onIndex, Registers.setHl_exchange]
    all_goals exact absurd h Bool.noConfusion
  case incPair p | decPair p =>
    rcases p with _ | _ | (_ | _) | _
    case pointer.hl => simp only [perform, onRegs, exchange, Registers.setPair, Registers.pair,
      Registers.pointer, Operation.onIndex, Pair.onIndex, Pointer.onIndex,
      Registers.setHl_exchange, Registers.hl_exchange]
    all_goals exact absurd h Bool.noConfusion
  case push p =>
    rcases p with _ | _ | (_ | _) | _
    case pointer.hl =>
      simp only [perform, push16, exchange, Registers.stackPair, Registers.pointer,
        Operation.onIndex, StackPair.onIndex, Pointer.onIndex, Registers.hl_exchange]
      cases i <;> rfl
    all_goals exact absurd h Bool.noConfusion
  case pop p =>
    rcases p with _ | _ | (_ | _) | _
    case pointer.hl => cases i <;> rfl
    all_goals exact absurd h Bool.noConfusion
  case ldMemPointer nn p =>
    cases p with
    | hl => simp only [perform, exchange, Registers.pointer, Operation.onIndex,
        Pointer.onIndex, Registers.hl_exchange]
    | index j => exact absurd h Bool.noConfusion
  case ldPointerMem p nn =>
    cases p with
    | hl => cases i <;> rfl
    | index j => exact absurd h Bool.noConfusion
  case ldSp p =>
    cases p with
    | hl =>
      simp only [perform, onRegs, exchange, Registers.pointer, Operation.onIndex,
        Pointer.onIndex, Registers.hl_exchange]
      cases i <;> rfl
    | index j => exact absurd h Bool.noConfusion
  case exSp p =>
    cases p with
    | hl =>
      have hsp : (c.regs.exchange i).sp = c.regs.sp := by cases i <;> rfl
      simp only [perform, exchangeTop, exchange, Registers.pointer, Operation.onIndex,
        Pointer.onIndex, hsp, Registers.hl_exchange, Registers.setHl_exchange]
    | index j => exact absurd h Bool.noConfusion
  case jpPointer p =>
    cases p with
    | hl =>
      simp only [perform, jump, exchange, Registers.pointer, Operation.onIndex,
        Pointer.onIndex, Registers.hl_exchange]
      cases i <;> rfl
    | index j => exact absurd h Bool.noConfusion
  case addPair dst src =>
    cases dst with
    | hl =>
      have hf : (c.regs.exchange i).main.f = c.regs.main.f := by cases i <;> rfl
      simp only [perform, onRegs, exchange, Registers.addPointer, Registers.pointer,
        Operation.onIndex, Pointer.onIndex, hf, Registers.hl_exchange,
        Registers.pair_exchange c.regs i h, Registers.setHl_exchange, Registers.setFlags_exchange]
    | index j => exact absurd h Bool.noConfusion
  all_goals exact absurd h Bool.noConfusion

/-- It takes four states more. -/
theorem perform_onIndex_states {o : Operation} (h : o.namesHl = true) :
    (c.perform (o.onIndex i)).states = ((c.exchange i).perform o).states + 4 := by
  have hhalf : ∀ r : Reg8, r.inHl = true → (ByteReg.onIndex i (.main r)).isHalf = true := by
    intro r hr
    cases r <;> first | rfl | exact absurd hr Bool.noConfusion
  cases o
  case ld dst src =>
    rcases dst with dst | _ | _ <;> rcases src with src | _ | _
    case main.main =>
      have hor : ((ByteReg.onIndex i (.main dst)).isHalf ||
          (ByteReg.onIndex i (.main src)).isHalf) = true := by
        have hin : (dst.inHl || src.inHl) = true := h
        rw [Bool.or_eq_true] at hin ⊢
        exact hin.imp (hhalf dst) (hhalf src)
      simp only [perform, Operation.onIndex, hor]
      rfl
    all_goals exact absurd h Bool.noConfusion
  case ldImm x n | inc x | dec x =>
    rcases x with (r | _ | _) | _
    case reg.main =>
      have hr := hhalf r h
      simp only [perform, Operation.onIndex, Operand.onIndex, Operand.states, ByteReg.states, hr]
      rfl
    all_goals exact absurd h Bool.noConfusion
  case alu op x =>
    rcases x with (r | _ | _) | _
    case reg.main =>
      have hr := hhalf r h
      simp only [perform, Operation.onIndex, Operand.onIndex, Operand.states, ByteReg.states, hr]
      rfl
    all_goals exact absurd h Bool.noConfusion
  case ldPair p nn | incPair p | decPair p | push p | pop p =>
    rcases p with _ | _ | (_ | _) | _
    case pointer.hl => rfl
    all_goals exact absurd h Bool.noConfusion
  case ldMemPointer nn p | ldPointerMem p nn | ldSp p | exSp p | jpPointer p | addPair p src =>
    cases p with
    | hl => rfl
    | index j => exact absurd h Bool.noConfusion
  all_goals exact absurd h Bool.noConfusion

/-- Both forms end in the same place with HL and the index register exchanged, apart
from the program counter: the jump goes to the same target, and the others leave the
program counter where it was. -/
theorem perform_onIndex_jump {o : Operation} (h : o.namesHl = true) (pc pc' : UInt16) :
    ∃ (k : Core) (n : Nat),
      (c.jump pc).perform (o.onIndex i) =
        ⟨n + 4, k.jump (if o.isTransfer then c.regs.index i else pc)⟩ ∧
      ((c.exchange i).jump pc').perform o =
        ⟨n, (k.exchange i).jump (if o.isTransfer then c.regs.index i else pc')⟩ := by
  cases ht : o.isTransfer with
  | false =>
    refine ⟨(c.perform (o.onIndex i)).core, ((c.exchange i).perform o).states, ?_, ?_⟩
    · rw [perform_jump c pc ((o.isTransfer_onIndex i).trans ht), perform_onIndex_states c i h]
      rfl
    · rw [perform_jump (c.exchange i) pc' ht, perform_exchange c i h]
      rfl
  | true =>
    -- The jump through the pointer is the only transfer that names HL.
    cases o
    case jpPointer p =>
      cases p with
      | hl =>
        refine ⟨c, 4, ?_, ?_⟩
        · cases i <;> rfl
        · have hhl : ((c.exchange i).jump pc').regs.main.hl = c.regs.index i :=
            c.regs.hl_exchange i
          simp only [perform, Registers.pointer, hhl]
          rfl
      | index j => exact absurd h Bool.noConfusion
    all_goals first | exact absurd ht Bool.noConfusion | exact absurd h Bool.noConfusion

end Core

/-! ### The byte at HL and the byte at a displacement -/

def Place.atOffset (i : Index) (d : UInt8) : Place → Place
  | .atHl => .offset i d
  | p => p

def Operand.atOffset (i : Index) (d : UInt8) : Operand → Operand
  | .mem p => .mem (p.atOffset i d)
  | x => x

namespace Operation

def namesAtHl : Operation → Bool
  | .ldFrom _ .atHl | .ldTo .atHl _ | .ldImm (.mem .atHl) _ | .alu _ (.mem .atHl) => true
  | .inc (.mem .atHl) | .dec (.mem .atHl) | .shift _ (.mem .atHl) => true
  | .bit _ (.mem .atHl) | .res _ (.mem .atHl) | .set _ (.mem .atHl) => true
  | _ => false

/-- The operation with the byte at HL replaced by the byte at a displacement. -/
def atOffset (i : Index) (d : UInt8) : Operation → Operation
  | .ldFrom dst src => .ldFrom dst (src.atOffset i d)
  | .ldTo dst src => .ldTo (dst.atOffset i d) src
  | .ldImm x n => .ldImm (x.atOffset i d) n
  | .alu op x => .alu op (x.atOffset i d)
  | .inc x => .inc (x.atOffset i d)
  | .dec x => .dec (x.atOffset i d)
  | .shift s x => .shift s (x.atOffset i d)
  | .bit n x => .bit n (x.atOffset i d)
  | .res n x => .res n (x.atOffset i d)
  | .set n x => .set n (x.atOffset i d)
  | o => o

theorem isTransfer_of_namesAtHl {o : Operation} (h : o.namesAtHl = true) :
    o.isTransfer = false := by
  cases o <;> first | rfl | exact absurd h Bool.noConfusion

theorem ne_ldRA_of_namesAtHl {o : Operation} (h : o.namesAtHl = true) : o ≠ .ldRA := by
  intro hne
  rw [hne] at h
  exact Bool.noConfusion h

theorem isTransfer_atOffset (i : Index) (d : UInt8) (o : Operation) :
    (o.atOffset i d).isTransfer = o.isTransfer := by
  cases o <;> rfl

theorem atOffset_ne_ldRA (i : Index) (d : UInt8) {o : Operation} (h : o.namesAtHl = true) :
    o.atOffset i d ≠ .ldRA := by
  cases o
  case ldRA => exact absurd h Bool.noConfusion
  all_goals exact Operation.noConfusion

/-- The states that the byte at a displacement takes more than the byte at HL. -/
def offsetStates : Operation → Nat
  | .ldImm _ _ => 9
  | .shift _ _ | .bit _ _ | .res _ _ | .set _ _ => 8
  | _ => 12

end Operation

namespace Core

variable (c : Core) {i : Index} {d : UInt8}

/-- Where both name the same byte, the operations do the same. -/
theorem perform_atOffset {o : Operation} (h : o.namesAtHl = true)
    (hl : c.regs.main.hl = c.regs.index i + Word.signExtend d) :
    c.perform (o.atOffset i d) =
      ⟨(c.perform o).states + o.offsetStates, (c.perform o).core⟩ := by
  have hplace : c.regs.address (.offset i d) = c.regs.address .atHl := hl.symm
  have hread : c.operand (.mem (.offset i d)) = c.operand (.mem .atHl) := by
    simp only [operand, hplace]
  have hwrite : c.setOperand (.mem (.offset i d)) = c.setOperand (.mem .atHl) := by
    funext v
    simp only [setOperand, hplace]
  cases o
  case ldFrom dst src | ldTo src dst =>
    cases src with
    | atHl => simp only [Operation.atOffset, Place.atOffset, perform, hplace]; rfl
    | offset j e => exact absurd h Bool.noConfusion
  case ldImm x n | alu op x | inc x | dec x | shift s x | bit n x | res n x | set n x =>
    rcases x with _ | (_ | _)
    case mem.atHl =>
      simp only [Operation.atOffset, Operand.atOffset, Place.atOffset, perform, setOperandResult,
        hread, hwrite]
      rfl
    all_goals exact absurd h Bool.noConfusion
  all_goals exact absurd h Bool.noConfusion

theorem perform_atOffset_jump {o : Operation} (h : o.namesAtHl = true)
    (hl : c.regs.main.hl = c.regs.index i + Word.signExtend d) (pc pc' : UInt16) :
    ∃ (k : Core) (n : Nat),
      (c.jump pc).perform (o.atOffset i d) = ⟨n + o.offsetStates, k.jump pc⟩ ∧
      (c.jump pc').perform o = ⟨n, k.jump pc'⟩ := by
  have ht := Operation.isTransfer_of_namesAtHl h
  refine ⟨(c.perform o).core, (c.perform o).states, ?_, perform_jump c pc' ht⟩
  rw [perform_jump c pc ((o.isTransfer_atOffset i d).trans ht), perform_atOffset c h hl]

end Core

end Cpm
