import Cpm.Proofs.ControlFlow
import Cpm.Proofs.MemoryBlocks
import Cpm.Proofs.Step

/-!
# The stack is a list of words

A stack lies in memory from the stack pointer up, two bytes a word, low byte first. It may
start at any address and run round the bottom of memory, between words or within one, and
it may fill the whole memory. Seen as a list, pushing adds a word in front and popping takes
the first one off. The history of a stack says which words were pushed and not yet popped;
one operation keeps the stack in step with its history, so any number does.
-/

namespace Cpm

namespace Operation

/-- The word that an operation pushes, if it pushes one: a pair, or the address of the
following instruction. -/
def pushed? (c : Core) : Operation → Option UInt16
  | .push p => some (c.regs.stackPair p)
  | .call _ | .rst _ => some c.regs.pc
  | .callIf cond _ => if cond.holds c.regs.main.f then some c.regs.pc else none
  | _ => none

def pops (c : Core) : Operation → Bool
  | .pop _ | .ret | .retn | .reti => true
  | .retIf cond => cond.holds c.regs.main.f
  | _ => false

/-- Where the word that an operation popped is found: in the pair it names, or in the
program counter. -/
def received (after : Core) : Operation → UInt16
  | .pop p => after.regs.stackPair p
  | _ => after.regs.pc

end Operation

namespace Registers

variable (r : Registers) (p : StackPair) (w : UInt16)

@[simp] theorem stackPair_setStackPair : (r.setStackPair p w).stackPair p = w := by
  rcases p with _ | _ | (_ | (_ | _)) | _
  · exact Bank.bc_setBc _ _
  · exact Bank.de_setDe _ _
  · exact Bank.hl_setHl _ _
  · rfl
  · rfl
  · exact Bank.af_setAf _ _

@[simp] theorem setStackPair_sp : (r.setStackPair p w).sp = r.sp := by
  rcases p with _ | _ | (_ | (_ | _)) | _ <;> rfl

end Registers

namespace Core

variable {c : Core} {o : Operation} {w : UInt16}

/-- Every operation that pushes a word does so in one way, and may jump afterwards. -/
theorem perform_of_pushed (h : o.pushed? c = some w) :
    ∃ pc, (c.perform o).core = (c.push16 w).jump pc := by
  cases o
  case push p =>
    cases h
    exact ⟨c.regs.pc, rfl⟩
  case call target =>
    cases h
    exact ⟨target, rfl⟩
  case callIf cond target =>
    simp only [Operation.pushed?] at h
    split at h
    · next hcond =>
      cases h
      exact ⟨target, by simp only [perform, branch, hcond, if_true, call16]⟩
    · cases h
  case rst target =>
    cases h
    exact ⟨target.toUInt16, rfl⟩
  all_goals cases h

/-- Every operation that pops a word takes the one on top of the stack. -/
theorem perform_of_pops (h : o.pops c = true) :
    (c.perform o).core.regs.sp = c.regs.sp + 2 ∧ (c.perform o).core.mem = c.mem ∧
      o.received (c.perform o).core = c.top16 := by
  cases o
  case pop p =>
    exact ⟨Registers.setStackPair_sp _ _ _, rfl, Registers.stackPair_setStackPair _ _ _⟩
  case ret | retn | reti => exact ⟨rfl, rfl, rfl⟩
  case retIf cond =>
    simp only [Operation.pops] at h
    simp only [perform, branch, h, if_true]
    exact ⟨rfl, rfl, rfl⟩
  all_goals cases h

/-- The address belongs to the topmost `depth` words of the stack. -/
def InStack (c : Core) (depth : Nat) (x : UInt16) : Prop := (x - c.regs.sp).toNat < 2 * depth

/-- The words lie on the stack, topmost first, each with its low byte first. -/
def HoldsWords (c : Core) (words : List UInt16) : Prop :=
  ∀ k w, words[k]? = some w →
    c.mem.get8 (c.regs.sp + UInt16.ofNat (2 * k)) = Word.low w ∧
      c.mem.get8 (c.regs.sp + UInt16.ofNat (2 * k + 1)) = Word.high w

/-- What lies above the stack pointer after a push, by the distance from it. -/
theorem get8_push16 (w : UInt16) {i : Nat} (h : i < 0x10000) :
    (c.push16 w).mem.get8 (c.regs.sp - 2 + UInt16.ofNat i) =
      if i = 0 then Word.low w else if i = 1 then Word.high w
      else c.mem.get8 (c.regs.sp - 2 + UInt16.ofNat i) := by
  have hdistance := Memory.toNat_add_ofNat_sub (c.regs.sp - 2) h
  have hlow : c.regs.sp - 2 + UInt16.ofNat i = c.regs.sp - 2 ↔ i = 0 := by
    constructor
    · intro he
      rw [he, UInt16.sub_self] at hdistance
      exact hdistance.symm
    · rintro rfl
      exact UInt16.add_zero _
  have hhigh : c.regs.sp - 2 + UInt16.ofNat i = c.regs.sp - 1 ↔ i = 1 := by
    constructor
    · intro he
      have hone : c.regs.sp - 1 - (c.regs.sp - 2) = 1 := by grind
      rw [he, hone] at hdistance
      exact hdistance.symm
    · rintro rfl
      show c.regs.sp - 2 + 1 = c.regs.sp - 1
      grind
  simp only [push16, Memory.get8_put8, hlow, hhigh]

/-- A pushed word lies in front of those that were on the stack. -/
theorem HoldsWords.push {words : List UInt16} (h : c.HoldsWords words)
    (hfits : words.length < 0x8000) (w : UInt16) : (c.push16 w).HoldsWords (w :: words) := by
  intro k v hk
  cases k with
  | zero =>
    cases hk
    exact ⟨get8_push16 w (by decide), get8_push16 w (by decide)⟩
  | succ k =>
    rw [List.getElem?_cons_succ] at hk
    have hlt : k < words.length := (List.getElem?_eq_some_iff.mp hk).1
    have hshift : ∀ i, c.regs.sp - 2 + UInt16.ofNat (i + 2) = c.regs.sp + UInt16.ofNat i := by
      intro i
      rw [UInt16.ofNat_add]
      show c.regs.sp - 2 + (UInt16.ofNat i + 2) = _
      grind
    have hold : ∀ i, i + 2 < 0x10000 →
        (c.push16 w).mem.get8 ((c.push16 w).regs.sp + UInt16.ofNat (i + 2)) =
          c.mem.get8 (c.regs.sp + UInt16.ofNat i) := by
      intro i hi
      show (c.push16 w).mem.get8 (c.regs.sp - 2 + UInt16.ofNat (i + 2)) = _
      rw [get8_push16 w hi, if_neg (by omega), if_neg (by omega), hshift]
    have hnext : 2 * (k + 1) + 1 = 2 * k + 1 + 2 := by omega
    rw [hnext, Nat.mul_succ, hold _ (by omega), hold _ (by omega)]
    exact h k v hk

/-- Without its first word the rest lies two bytes further up. -/
theorem HoldsWords.pop {words : List UInt16} {after : Core} (h : c.HoldsWords (w :: words))
    (hsp : after.regs.sp = c.regs.sp + 2) (hmem : after.mem = c.mem) :
    after.HoldsWords words := by
  intro k v hk
  have hshift : ∀ i, c.regs.sp + 2 + UInt16.ofNat i = c.regs.sp + UInt16.ofNat (i + 2) := by
    intro i
    rw [UInt16.ofNat_add]
    show _ = c.regs.sp + (UInt16.ofNat i + 2)
    grind
  rw [hsp, hmem, hshift, hshift]
  exact h (k + 1) v hk

theorem HoldsWords.top16 {words : List UInt16} (h : c.HoldsWords (w :: words)) :
    c.top16 = w := by
  obtain ⟨hlow, hhigh⟩ := h 0 w rfl
  have hzero : c.regs.sp + UInt16.ofNat (2 * 0) = c.regs.sp := UInt16.add_zero _
  have hone : c.regs.sp + UInt16.ofNat (2 * 0 + 1) = c.regs.sp + 1 := rfl
  rw [hzero] at hlow
  rw [hone] at hhigh
  rw [Core.top16, Memory.get16, hlow, hhigh, Word.ofBytes_high_low]

end Core

/-- The history of a stack that was empty at `start`: the words on it, and how many there
were at most. In between anything may happen that leaves the stack pointer where it is and
writes to `spare` addresses alone, none of them on the stack. -/
inductive StackRun (spare : UInt16 → Prop) (start : Core) : Nat → List UInt16 → Core → Prop
  | start : StackRun spare start 0 [] start
  | push {n : Nat} {words : List UInt16} {c : Core} {o : Operation} {w : UInt16} :
    StackRun spare start n words c → o.pushed? c = some w → words.length < 0x8000 →
      StackRun spare start (max n (words.length + 1)) (w :: words) (c.perform o).core
  | pop {n : Nat} {words : List UInt16} {c : Core} {o : Operation} {w : UInt16} :
    StackRun spare start n (w :: words) c → o.pops c = true →
      StackRun spare start n words (c.perform o).core
  | other {n : Nat} {words : List UInt16} {c after : Core} :
    StackRun spare start n words c → after.regs.sp = c.regs.sp →
      (∀ x, after.mem.get8 x ≠ c.mem.get8 x → spare x ∧ ¬ c.InStack words.length x) →
      StackRun spare start n words after

namespace StackRun

/-- The stack is where its history says, and the memory it never reached is as it was. -/
structure Agrees (spare : UInt16 → Prop) (start : Core) (n : Nat) (words : List UInt16)
    (c : Core) : Prop where
  depth_le : words.length ≤ n
  fits : n ≤ 0x8000
  sp : c.regs.sp = start.regs.sp - UInt16.ofNat (2 * words.length)
  holds : c.HoldsWords words
  outside : ∀ x, ¬ spare x → 2 * n ≤ (start.regs.sp - 1 - x).toNat →
    c.mem.get8 x = start.mem.get8 x

variable {spare : UInt16 → Prop} {start c after : Core} {n : Nat} {words : List UInt16}
  {o : Operation} {w : UInt16}

namespace Agrees

theorem push (h : Agrees spare start n words c) (hlt : words.length < 0x8000) (w pc : UInt16) :
    Agrees spare start (max n (words.length + 1)) (w :: words) ((c.push16 w).jump pc) where
  depth_le := Nat.le_max_right _ _
  fits := Nat.max_le.mpr ⟨h.fits, hlt⟩
  sp := by
    show c.regs.sp - 2 = start.regs.sp - UInt16.ofNat (2 * words.length + 2)
    rw [h.sp, UInt16.ofNat_add]
    show _ = start.regs.sp - (UInt16.ofNat (2 * words.length) + 2)
    grind
  holds := h.holds.push hlt w
  outside x hx hdistance := by
    have hnot : ∀ d, d < 2 * (words.length + 1) →
        x ≠ start.regs.sp - 1 - UInt16.ofNat d := by
      rintro d hd rfl
      have hback : start.regs.sp - 1 - (start.regs.sp - 1 - UInt16.ofNat d) = UInt16.ofNat d := by
        grind
      rw [hback, UInt16.toNat_ofNat'] at hdistance
      omega
    have hhigh : c.regs.sp - 1 = start.regs.sp - 1 - UInt16.ofNat (2 * words.length) := by
      rw [h.sp]
      grind
    have hlow : c.regs.sp - 2 = start.regs.sp - 1 - UInt16.ofNat (2 * words.length + 1) := by
      rw [h.sp, UInt16.ofNat_add]
      show _ = start.regs.sp - 1 - (UInt16.ofNat (2 * words.length) + 1)
      grind
    show ((c.mem.put8 (c.regs.sp - 1) (Word.high w)).put8 (c.regs.sp - 2) (Word.low w)).get8 x = _
    rw [hhigh, hlow, Memory.get8_put8_other _ _ (hnot _ (by omega)),
      Memory.get8_put8_other _ _ (hnot _ (by omega))]
    exact h.outside x hx (by omega)

theorem pop (h : Agrees spare start n (w :: words) c) (hsp : after.regs.sp = c.regs.sp + 2)
    (hmem : after.mem = c.mem) : Agrees spare start n words after where
  depth_le := Nat.le_of_succ_le h.depth_le
  fits := h.fits
  sp := by
    have hold : c.regs.sp = start.regs.sp - UInt16.ofNat (2 * words.length + 2) := h.sp
    rw [hsp, hold, UInt16.ofNat_add]
    show start.regs.sp - (UInt16.ofNat (2 * words.length) + 2) + 2 = _
    grind
  holds := h.holds.pop hsp hmem
  outside x hx hdistance := by
    rw [hmem]
    exact h.outside x hx hdistance

/-- What happens beside the stack leaves it alone. -/
theorem other (h : Agrees spare start n words c) (hsp : after.regs.sp = c.regs.sp)
    (hmem : ∀ x, after.mem.get8 x ≠ c.mem.get8 x → spare x ∧ ¬ c.InStack words.length x) :
    Agrees spare start n words after where
  depth_le := h.depth_le
  fits := h.fits
  sp := hsp.trans h.sp
  holds k v hk := by
    have hlt : k < words.length := (List.getElem?_eq_some_iff.mp hk).1
    have hlength := Nat.le_trans h.depth_le h.fits
    have hsame : ∀ i, i < 2 * words.length →
        after.mem.get8 (c.regs.sp + UInt16.ofNat i) = c.mem.get8 (c.regs.sp + UInt16.ofNat i) := by
      intro i hi
      refine Decidable.byContradiction fun hne => (hmem _ hne).2 ?_
      rw [Core.InStack, Memory.toNat_add_ofNat_sub _ (by omega)]
      exact hi
    rw [hsp, hsame _ (by omega), hsame _ (by omega)]
    exact h.holds k v hk
  outside x hx hdistance := by
    have hsame : after.mem.get8 x = c.mem.get8 x :=
      Decidable.byContradiction fun hne => hx (hmem x hne).1
    rw [hsame]
    exact h.outside x hx hdistance

end Agrees

/-- One operation keeps the stack in step with its history, so any number does. -/
theorem agrees (h : StackRun spare start n words c) : Agrees spare start n words c := by
  induction h with
  | start =>
    exact ⟨Nat.le_refl 0, Nat.zero_le _, (UInt16.sub_zero _).symm,
      fun _ _ hk => absurd hk (by simp), fun _ _ _ => rfl⟩
  | push _ ho hlt ih =>
    obtain ⟨pc, hcore⟩ := Core.perform_of_pushed ho
    rw [hcore]
    exact ih.push hlt _ pc
  | pop _ ho ih =>
    obtain ⟨hsp, hmem, -⟩ := Core.perform_of_pops ho
    exact ih.pop hsp hmem
  | other _ hsp hmem ih => exact ih.other hsp hmem

section

variable {σ : Type} {cpu : Cpu} {ports : Ports σ} {fuel : Nat} {host : σ} {s : Step σ}

/-- Passing over the bytes of an instruction and counting its time do not touch the stack, so
a step does to it what its operation does. -/
theorem step (h : StackRun spare start n words cpu.core)
    (hi : cpu.decoded.instruction = some (.operation o))
    (hs : cpu.step ports fuel host = some s) :
    StackRun spare start n words (cpu.past cpu.decoded) ∧
      ∀ m rest, StackRun spare start m rest ((cpu.past cpu.decoded).perform o).core →
        StackRun spare start m rest s.cpu.core := by
  rw [cpu.step_of_operation ports fuel host hi] at hs
  cases hs
  exact ⟨h.other rfl fun _ hx => absurd rfl hx,
    fun _ _ hp => hp.other rfl fun _ hx => absurd rfl hx⟩

end

/-- The stack refines a list. However many words were pushed and popped, the stack pointer
tells how many are left, and they lie above it, the last one pushed first. A pop delivers
that word, and AF comes back with every bit of the flags. Memory that the deepest push did
not reach is as it was. The steps of a processor that push or pop go on with the history. -/
theorem stack_refines_list (h : StackRun spare start n words c) :
    words.length ≤ n ∧ n ≤ 0x8000 ∧
    c.regs.sp = start.regs.sp - UInt16.ofNat (2 * words.length) ∧
    (words = [] → c.regs.sp = start.regs.sp) ∧
    (∀ k w, words[k]? = some w →
      c.mem.get8 (c.regs.sp + UInt16.ofNat (2 * k)) = Word.low w ∧
        c.mem.get8 (c.regs.sp + UInt16.ofNat (2 * k + 1)) = Word.high w) ∧
    (∀ x, ¬ spare x → 2 * n ≤ (start.regs.sp - 1 - x).toNat →
      c.mem.get8 x = start.mem.get8 x) ∧
    (∀ (o : Operation) (w : UInt16) (rest : List UInt16), words = w :: rest →
      o.pops c = true → o.received (c.perform o).core = w) ∧
    (∀ (pushed : Bank) (rest : List UInt16), words = pushed.af :: rest →
      (c.perform (.pop .af)).core.regs.main.a = pushed.a ∧
        (c.perform (.pop .af)).core.regs.main.f = pushed.f) ∧
    ∀ {σ : Type} (cpu : Cpu) (ports : Ports σ) (fuel : Nat) (host : σ) (s : Step σ)
      (o : Operation), cpu.core = c → cpu.decoded.instruction = some (.operation o) →
      cpu.step ports fuel host = some s →
      (∀ w, o.pushed? (cpu.past cpu.decoded) = some w → words.length < 0x8000 →
        StackRun spare start (max n (words.length + 1)) (w :: words) s.cpu.core) ∧
      ∀ w rest, words = w :: rest → o.pops (cpu.past cpu.decoded) = true →
        StackRun spare start n rest s.cpu.core := by
  have hagrees := h.agrees
  have hpopped : ∀ (o : Operation) (w : UInt16) (rest : List UInt16), words = w :: rest →
      o.pops c = true → o.received (c.perform o).core = w := by
    intro o w rest hwords ho
    obtain ⟨-, -, hreceived⟩ := Core.perform_of_pops ho
    rw [hreceived]
    exact (hwords ▸ hagrees.holds).top16
  refine ⟨hagrees.depth_le, hagrees.fits, hagrees.sp, ?_, hagrees.holds, hagrees.outside, hpopped,
    fun pushed rest hwords => ?_, ?_⟩
  · rintro rfl
    rw [hagrees.sp]
    exact UInt16.sub_zero _
  · have haf : (c.perform (.pop .af)).core.regs.main.af = pushed.af :=
      hpopped (.pop .af) _ _ hwords rfl
    have hhigh := congrArg Word.high haf
    have hlow := congrArg Word.low haf
    simp only [Bank.af, Word.high_ofBytes, Word.low_ofBytes] at hhigh hlow
    refine ⟨hhigh, ?_⟩
    cases hf : (c.perform (.pop .af)).core.regs.main.f
    cases hp : pushed.f
    simp only [hf, hp] at hlow
    rw [hlow]
  · rintro σ cpu ports fuel host s o rfl hi hs
    obtain ⟨hpast, hafter⟩ := h.step hi hs
    refine ⟨fun w ho hlt => hafter _ _ (hpast.push ho hlt), ?_⟩
    rintro w rest rfl ho
    exact hafter _ _ (hpast.pop ho)

/-- AF and a return address pushed across the bottom of memory, and the return made: the
pointer is back, the flags lie at the top of memory and the accumulator at the bottom, and
popping AF brings all eight flag bits back. -/
theorem stack_across_bottom_refines_list :
    let pushed : Bank := { Bank.zero with a := 0x12, f := ⟨0xFF⟩ }
    let start : Core :=
      ⟨{ Registers.zero with main := pushed, sp := 1, pc := 0x0200 }, .blank, .z80⟩
    ∃ c, StackRun (fun _ => False) start 2 [pushed.af] c ∧ c.regs.sp = 0xFFFF ∧
      c.mem.get8 0xFFFF = 0xFF ∧ c.mem.get8 0x0000 = 0x12 ∧ c.mem.get8 0x0001 = 0x00 ∧
      (c.perform (.pop .af)).core.regs.main.f = ⟨0xFF⟩ := by
  intro pushed start
  have hpush : StackRun (fun _ => False) start 1 [pushed.af] _ :=
    StackRun.start.push (o := .push .af) rfl (by decide)
  have hcall : StackRun (fun _ => False) start 2 [0x0200, pushed.af] _ :=
    hpush.push (o := .call 0x1234) rfl (by decide)
  have hret : StackRun (fun _ => False) start 2 [pushed.af] _ := hcall.pop (o := .ret) rfl
  obtain ⟨-, -, hsp, -, hwords, houtside, -, haf, -⟩ := stack_refines_list hret
  have hpointer : start.regs.sp - UInt16.ofNat (2 * [pushed.af].length) = 0xFFFF := by decide
  have hlow : (0xFFFF : UInt16) + UInt16.ofNat (2 * 0) = 0xFFFF := by decide
  have hhigh : (0xFFFF : UInt16) + UInt16.ofNat (2 * 0 + 1) = 0x0000 := by decide
  obtain ⟨hf, ha⟩ := hwords 0 pushed.af rfl
  rw [hsp, hpointer] at hf ha
  rw [hlow, Bank.af, Word.low_ofBytes] at hf
  rw [hhigh, Bank.af, Word.high_ofBytes] at ha
  exact ⟨_, hret, hsp.trans hpointer, hf, ha, houtside 1 id (by decide), (haf pushed [] rfl).2⟩

end StackRun

end Cpm
