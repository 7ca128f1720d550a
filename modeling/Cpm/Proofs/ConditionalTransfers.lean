import Cpm.Proofs.AccumulatorArithmetic
import Cpm.Proofs.AssemblyText
import Cpm.Proofs.Disassembly
import Cpm.Proofs.RefreshLaw

/-!
# Conditional transfers of control

A jump, a call or a return with a condition is the one without, or nothing at all. What each
of them does is told from the bytes in memory that encode it, and the address it reaches from
the text that is disassembled there. A return at the target of a call comes back behind it.
-/

namespace Cpm

namespace Condition

/-- The condition on the same flag that holds where this one does not. -/
def opposite : Condition → Condition
  | .nz => .z
  | .z => .nz
  | .nc => .c
  | .c => .nc
  | .po => .pe
  | .pe => .po
  | .p => .m
  | .m => .p

theorem holds_opposite (cond : Condition) (f : Flags) :
    cond.opposite.holds f = !cond.holds f := by
  cases cond <;> simp [opposite, holds]

def isShort : Condition → Bool
  | .nz | .z | .nc | .c => true
  | .po | .pe | .p | .m => false

end Condition

/-! ### The bytes of a transfer -/

namespace Operation

/-- The transfers that a mode has in its base table. The address of a restart is a field of its
opcode; relative jumps are those of the Z80 alone. -/
def runsIn (o : Operation) (mode : Mode) : Bool :=
  match o with
  | .jp _ | .jpIf _ _ | .call _ | .callIf _ _ | .ret | .retIf _ => true
  | .rst target => target &&& 0x38 = target
  | .jr _ | .djnz _ => mode = .z80
  | .jrIf cond _ => mode = .z80 && cond.isShort
  | _ => false

end Operation

namespace Cpu

variable {σ : Type} {cpu : Cpu} {o : Operation}

/-- The program counter is at the bytes of a transfer that the mode has. -/
structure AtTransfer (cpu : Cpu) (o : Operation) : Prop where
  known : o.runsIn cpu.core.mode = true
  bytes : cpu.core.mem.getList cpu.core.regs.pc o.encode.length = o.encode

section Decoding

variable {op : UInt8}

theorem decoded_of_single (hbytes : cpu.core.mem.getList cpu.core.regs.pc 1 = [op])
    (hshared : Decode.isZ80Only op = false)
    (hrow : ∀ x y, Tables.common op x y = Decode.entry 0 o) :
    cpu.decoded = ⟨.base, op, 1, some (.operation o)⟩ := by
  obtain ⟨hop, -⟩ := List.cons.inj hbytes
  exact cpu.decoded_of_common hop hshared (hrow _ _)

theorem decoded_of_word {make : UInt16 → Operation} {target : UInt16}
    (hbytes : cpu.core.mem.getList cpu.core.regs.pc 3 = op :: Word.bytes target)
    (hshared : Decode.isZ80Only op = false)
    (hrow : ∀ x y, Tables.common op x y = Decode.entry 2 (make (Word.ofBytes y x))) :
    cpu.decoded = ⟨.base, op, 3, some (.operation (make target))⟩ := by
  have hnext : cpu.core.regs.pc + 1 + 1 = cpu.core.regs.pc + 2 := by grind
  obtain ⟨hop, hrest⟩ := List.cons.inj hbytes
  obtain ⟨hlow, hrest⟩ := List.cons.inj hrest
  obtain ⟨hhigh, -⟩ := List.cons.inj hrest
  rw [hnext] at hhigh
  have hd := cpu.decoded_of_common hop hshared (hrow _ _)
  rw [hlow, hhigh, Word.ofBytes_high_low] at hd
  exact hd

theorem decoded_of_relative {make : UInt8 → Operation} {d : UInt8}
    (hmode : cpu.core.mode = .z80)
    (hbytes : cpu.core.mem.getList cpu.core.regs.pc 2 = [op, d])
    (hnext : Tables.next? .z80 .base op = none)
    (hrow : ∀ x y, Tables.z80 op x y = Decode.entry 1 (make x)) :
    cpu.decoded = ⟨.base, op, 2, some (.operation (make d))⟩ := by
  obtain ⟨hop, hrest⟩ := List.cons.inj hbytes
  obtain ⟨hd, -⟩ := List.cons.inj hrest
  rw [decoded_plain hmode hop hnext, hrow, hd]
  rfl

end Decoding

def restarts : List UInt8 := [0x00, 0x08, 0x10, 0x18, 0x20, 0x28, 0x30, 0x38]

/-- The bytes of a transfer lead back to it. -/
theorem AtTransfer.decoded_eq (h : cpu.AtTransfer o) :
    ∃ opcode, cpu.decoded = ⟨.base, opcode, o.encode.length, some (.operation o)⟩ := by
  obtain ⟨hknown, hbytes⟩ := h
  cases o
  case jp target => exact ⟨_, decoded_of_word hbytes rfl fun _ _ => rfl⟩
  case jpIf cond target =>
    exact ⟨_, decoded_of_word hbytes (by cases cond <;> rfl) fun _ _ => by cases cond <;> rfl⟩
  case call target => exact ⟨_, decoded_of_word hbytes rfl fun _ _ => rfl⟩
  case callIf cond target =>
    exact ⟨_, decoded_of_word hbytes (by cases cond <;> rfl) fun _ _ => by cases cond <;> rfl⟩
  case ret => exact ⟨_, decoded_of_single hbytes rfl fun _ _ => rfl⟩
  case retIf cond =>
    exact ⟨_, decoded_of_single hbytes (by cases cond <;> rfl) fun _ _ => by cases cond <;> rfl⟩
  case rst target =>
    have hmem := forall_of_all_allBytes
      (p := fun b => !decide (b &&& 0x38 = b) || decide (b ∈ restarts)) (by decide +kernel) target
    have hmem : target ∈ restarts := by simpa [of_decide_eq_true hknown] using hmem
    have hrow : ∀ b ∈ restarts, Decode.isZ80Only (0xC7 ||| b) = false := by
      decide +kernel
    refine ⟨_, decoded_of_single hbytes (hrow target hmem) fun x y => ?_⟩
    simp only [restarts, List.mem_cons, List.not_mem_nil, or_false] at hmem
    rcases hmem with rfl | rfl | rfl | rfl | rfl | rfl | rfl | rfl <;> rfl
  case jr d =>
    exact ⟨_, decoded_of_relative (of_decide_eq_true hknown) hbytes rfl fun _ _ => rfl⟩
  case djnz d =>
    exact ⟨_, decoded_of_relative (of_decide_eq_true hknown) hbytes rfl fun _ _ => rfl⟩
  case jrIf cond d =>
    obtain ⟨hmode, hshort⟩ := Bool.and_eq_true_iff.mp hknown
    have hmode : cpu.core.mode = .z80 := of_decide_eq_true hmode
    cases cond
    case nz | z | nc | c => exact ⟨_, decoded_of_relative hmode hbytes rfl fun _ _ => rfl⟩
    all_goals cases hshort
  all_goals cases hknown

def behind (cpu : Cpu) (o : Operation) : UInt16 :=
  cpu.core.regs.pc + UInt16.ofNat o.encode.length

theorem AtTransfer.step_eq (h : cpu.AtTransfer o) (ports : Ports σ) (fuel : Nat) (host : σ) :
    cpu.step ports fuel host = some (cpu.retire .base
      ⟨((cpu.core.jump (cpu.behind o)).perform o).states, none,
        ((cpu.core.jump (cpu.behind o)).perform o).core, host, []⟩) := by
  obtain ⟨opcode, hd⟩ := h.decoded_eq
  have hpast : cpu.past cpu.decoded = cpu.core.jump (cpu.behind o) := by
    rw [past, hd]
    rfl
  rw [cpu.step_of_operation ports fuel host (by rw [hd]), hpast, hd]

/-- A step takes the given time and goes on, without a word to the host. It leaves the given core,
but for the refresh register, which counts the time. -/
structure Leaves (cpu : Cpu) (s : Step σ) (host : σ) (time : Nat) (c : Core) : Prop where
  host : s.host = host
  halt : s.cpu.halt = none
  states : s.cpu.states = time
  core : s.cpu.core = { c with regs := { c.regs with
    r := (cpu.core.regs.refresh cpu.waiting time).r } }

/-- The step of a transfer is what the operation makes of the core, with the program counter
behind the bytes. -/
theorem AtTransfer.leaves (h : cpu.AtTransfer o) {time : Nat} {c : Core}
    (hperform : (cpu.core.jump (cpu.behind o)).perform o = ⟨time, c⟩)
    (hr : c.regs.r = cpu.core.regs.r) (ports : Ports σ) (fuel : Nat) (host : σ) :
    ∃ s, cpu.step ports fuel host = some s ∧ cpu.Leaves s host time c := by
  have hs := h.step_eq ports fuel host
  have hpos := Core.perform_states_pos (cpu.core.jump (cpu.behind o)) o
  rw [hperform] at hs hpos
  refine ⟨_, hs, rfl, ?_, rfl, ?_⟩
  · simp [retire, Outcome.reason, Nat.pos_iff_ne_zero.mp hpos]
  · rw [← Registers.refresh_r_congr hr]
    rfl

end Cpu

/-! ### What the transfers do -/

inductive Transfer where
  | jp (target : UInt16)
  | call (target : UInt16)
  | ret
  | jr (d : UInt8)

namespace Transfer

def plain : Transfer → Operation
  | .jp target => .jp target
  | .call target => .call target
  | .ret => .ret
  | .jr d => .jr d

def onlyIf (cond : Condition) : Transfer → Operation
  | .jp target => .jpIf cond target
  | .call target => .callIf cond target
  | .ret => .retIf cond
  | .jr d => .jrIf cond d

def plainStates : Transfer → Nat
  | .jp _ => 10
  | .call _ => 17
  | .ret => 10
  | .jr _ => 12

def takenStates : Transfer → Nat
  | .jp _ => 10
  | .call _ => 17
  | .ret => 11
  | .jr _ => 12

def passedStates : Transfer → Nat
  | .jp _ => 10
  | .call _ => 10
  | .ret => 5
  | .jr _ => 7

/-- What a transfer makes of a core, with `next` the address behind it. Only the program counter
and, for a call or a return, the stack are touched. -/
def after (t : Transfer) (next : UInt16) (c : Core) : Core :=
  let sp := c.regs.sp
  match t with
  | .jp target => { c with regs := { c.regs with pc := target } }
  | .call target => { c with
      regs := { c.regs with pc := target, sp := sp - 2 }
      mem := (c.mem.put8 (sp - 1) (Word.high next)).put8 (sp - 2) (Word.low next) }
  | .ret => { c with regs := { c.regs with pc := c.mem.get16 sp, sp := sp + 2 } }
  | .jr d => { c with regs := { c.regs with pc := next + UInt16.ofInt (signed d) } }

variable (t : Transfer) (next : UInt16) (c : Core)

theorem after_r : (t.after next c).regs.r = c.regs.r := by
  cases t <;> rfl

theorem perform_plain : (c.jump next).perform t.plain = ⟨t.plainStates, t.after next c⟩ := by
  cases t with
  | jp target | call target | ret => rfl
  | jr d =>
    rw [after, ← signExtend_eq]
    rfl

theorem perform_onlyIf (cond : Condition) :
    (c.jump next).perform (t.onlyIf cond) =
      if cond.holds c.regs.main.f then ⟨t.takenStates, t.after next c⟩
      else ⟨t.passedStates, c.jump next⟩ := by
  cases t with
  | jp target | call target | ret => rfl
  | jr d =>
    rw [after, ← signExtend_eq]
    rfl

end Transfer

/-- What the jump that counts B down makes of a core. The flags are kept, and the jump is made
unless the count is zero. -/
def Core.afterCount (c : Core) (next : UInt16) (d : UInt8) : Core :=
  let b := c.regs.main.b - 1
  { c with regs := { c.regs with
      main := { c.regs.main with b := b }
      pc := if b = 0 then next else next + UInt16.ofInt (signed d) } }

theorem Core.perform_djnz (c : Core) (next : UInt16) (d : UInt8) :
    (c.jump next).perform (.djnz d) =
      ⟨if c.regs.main.b - 1 = 0 then 8 else 13, c.afterCount next d⟩ := by
  have hb : (c.jump next).regs.main.b = c.regs.main.b := rfl
  rw [afterCount, ← signExtend_eq]
  by_cases hzero : c.regs.main.b - 1 = 0
  · simp only [perform, hb, hzero, if_true]
    rfl
  · simp only [perform, hb, hzero, if_false]
    rfl

/-- The address in which a line of assembly text ends, read from its digits. -/
def AssemblyLine.target? (text : String) : Option UInt16 :=
  match (AssemblyLine.ofText text.toList).arguments.getLast? with
  | some (.word target) => some target
  | _ => none

namespace Operation

/-- The transfers whose text names the address they reach. -/
def namesTarget : Operation → Bool
  | .jp _ | .jpIf _ _ | .call _ | .callIf _ _ | .jr _ | .jrIf _ _ | .djnz _ => true
  | _ => false

theorem target?_line {o : Operation} (h : o.namesTarget = true) (next : UInt16) (c : Core)
    (htaken : o.taken c = true) :
    AssemblyLine.target? (o.line next).text = some ((c.jump next).perform o).core.regs.pc := by
  rw [AssemblyLine.target?, AssemblyLine.ofText_text (o.readable_line next)]
  cases o
  case jp target | call target | jr d => rfl
  case jpIf cond target | callIf cond target | jrIf cond d =>
    rw [← Core.taken_jump c next] at htaken
    simp only [taken] at htaken
    simp only [Core.perform, Core.branch, htaken]
    rfl
  case djnz d =>
    have hb : c.regs.main.b - 1 ≠ 0 := bne_iff_ne.mp htaken
    have hb : (c.jump next).regs.main.b - 1 ≠ 0 := hb
    simp only [Core.perform, if_neg hb]
    rfl
  all_goals cases h

end Operation

namespace Cpu

variable {σ : Type} {cpu : Cpu} {o : Operation} {t : Transfer}

/-- The text at a transfer is that of the transfer. -/
theorem AtTransfer.listing_text (h : cpu.AtTransfer o) :
    cpu.listing.text = (o.line (cpu.behind o)).text := by
  obtain ⟨opcode, hd⟩ := h.decoded_eq
  rw [decoded, dispatch_eq_decode] at hd
  simp only [listing, disassemble, hd]
  rfl

/-- The form without a condition. -/
theorem step_of_plain (h : cpu.AtTransfer t.plain) (ports : Ports σ) (fuel : Nat) (host : σ) :
    ∃ s, cpu.step ports fuel host = some s ∧
      cpu.Leaves s host t.plainStates (t.after (cpu.behind t.plain) cpu.core) :=
  h.leaves (t.perform_plain _ _) (t.after_r _ _) ports fuel host

/-- The two forms of a transfer are of one length. -/
theorem behind_plain (t : Transfer) (cond : Condition) :
    cpu.behind t.plain = cpu.behind (t.onlyIf cond) := by
  cases t <;> rfl

/-- The form with a condition. -/
theorem step_of_onlyIf {cond : Condition} (h : cpu.AtTransfer (t.onlyIf cond)) (ports : Ports σ)
    (fuel : Nat) (host : σ) :
    ∃ s, cpu.step ports fuel host = some s ∧
      if cond.holds cpu.core.regs.main.f
      then cpu.Leaves s host t.takenStates (t.after (cpu.behind t.plain) cpu.core)
      else cpu.Leaves s host t.passedStates (cpu.core.jump (cpu.behind (t.onlyIf cond))) := by
  have hperform := t.perform_onlyIf (cpu.behind (t.onlyIf cond)) cpu.core cond
  split
  · next hholds =>
    rw [if_pos hholds] at hperform
    rw [behind_plain t cond]
    exact h.leaves hperform (t.after_r _ _) ports fuel host
  · next hfails =>
    rw [if_neg hfails] at hperform
    exact h.leaves hperform rfl ports fuel host

/-- The jump that counts B down. -/
theorem step_of_djnz {d : UInt8} (h : cpu.AtTransfer (.djnz d)) (ports : Ports σ) (fuel : Nat)
    (host : σ) :
    ∃ s, cpu.step ports fuel host = some s ∧
      cpu.Leaves s host (if cpu.core.regs.main.b - 1 = 0 then 8 else 13)
        (cpu.core.afterCount (cpu.behind (.djnz d)) d) :=
  h.leaves (Core.perform_djnz _ _ _) rfl ports fuel host

/-- A transfer that is taken reaches the address that its text names. -/
theorem AtTransfer.reaches_target (h : cpu.AtTransfer o) (hnames : o.namesTarget = true)
    (htaken : o.taken cpu.core = true) {ports : Ports σ} {fuel : Nat} {host : σ} {s : Step σ}
    (hs : cpu.step ports fuel host = some s) :
    AssemblyLine.target? cpu.listing.text = some s.cpu.core.regs.pc := by
  have hstep := h.step_eq ports fuel host
  rw [hs] at hstep
  cases hstep
  rw [h.listing_text]
  exact Operation.target?_line hnames (cpu.behind o) cpu.core htaken

/-- A call that is taken jumps with the address behind it pushed. -/
theorem AtTransfer.calls (h : cpu.AtTransfer o) (hcall : o.isCall = true)
    (htaken : o.taken cpu.core = true) {ports : Ports σ} {fuel : Nat} {host : σ} {s : Step σ}
    (hs : cpu.step ports fuel host = some s) :
    s.cpu.core.regs.sp = cpu.core.regs.sp - 2 ∧ s.cpu.core.top16 = cpu.behind o ∧
      ∀ a, a ≠ cpu.core.regs.sp - 1 → a ≠ cpu.core.regs.sp - 2 →
        s.cpu.core.mem.get8 a = cpu.core.mem.get8 a := by
  have hstep := h.step_eq ports fuel host
  rw [hs] at hstep
  rw [← Core.taken_jump _ (cpu.behind o)] at htaken
  obtain ⟨target, hcore⟩ := Core.perform_call _ hcall htaken
  rw [hcore] at hstep
  cases hstep
  refine ⟨rfl, Core.top16_push16 _ _, fun a hhigh hlow => ?_⟩
  exact (Memory.get8_put8_other _ _ hlow).trans (Memory.get8_put8_other _ _ hhigh)

/-- A return at the target of a call comes back behind the call, with the stack as before. -/
theorem AtTransfer.returns (h : cpu.AtTransfer o) (hcall : o.isCall = true)
    (htaken : o.taken cpu.core = true) {ports : Ports σ} {fuel : Nat} {host : σ} {s : Step σ}
    (hs : cpu.step ports fuel host = some s)
    (hret : cpu.core.mem.get8 s.cpu.core.regs.pc = 0xC9)
    (hhigh : s.cpu.core.regs.pc ≠ cpu.core.regs.sp - 1)
    (hlow : s.cpu.core.regs.pc ≠ cpu.core.regs.sp - 2) (fuel' : Nat) :
    ∃ s', s.cpu.step ports fuel' s.host = some s' ∧
      s'.cpu.core.regs.pc = cpu.behind o ∧ s'.cpu.core.regs.sp = cpu.core.regs.sp := by
  obtain ⟨hsp, htop, hframe⟩ := h.calls hcall htaken hs
  rw [← hframe _ hhigh hlow] at hret
  have hback : s.cpu.core.regs.sp + 2 = cpu.core.regs.sp := by
    rw [hsp]
    grind
  exact ⟨_, s.cpu.step_of_ret hret ports fuel' s.host, htop, hback⟩

/-- A transfer with a condition does what the one without does, or nothing but pass over its
bytes. Of two opposite conditions exactly one holds. The jump that counts keeps the flags and is
made unless the count is zero. A transfer that is taken reaches the address its text names, and a
return at the target of a call comes back behind the call, unless the pushed word lies there. -/
theorem conditional_transfer_is_plain_one_or_nothing (cpu : Cpu) (ports : Ports σ) (fuel : Nat)
    (host : σ) :
    let c := cpu.core
    (∀ (cond : Condition) (f : Flags), cond.opposite.holds f = !cond.holds f) ∧
    (∀ t : Transfer, cpu.AtTransfer t.plain →
      ∃ s, cpu.step ports fuel host = some s ∧
        cpu.Leaves s host t.plainStates (t.after (cpu.behind t.plain) c)) ∧
    (∀ (t : Transfer) (cond : Condition), cpu.AtTransfer (t.onlyIf cond) →
      ∃ s, cpu.step ports fuel host = some s ∧
        if cond.holds c.regs.main.f
        then cpu.Leaves s host t.takenStates (t.after (cpu.behind t.plain) c)
        else cpu.Leaves s host t.passedStates (c.jump (cpu.behind (t.onlyIf cond)))) ∧
    (∀ d : UInt8, cpu.AtTransfer (.djnz d) →
      ∃ s, cpu.step ports fuel host = some s ∧
        cpu.Leaves s host (if c.regs.main.b - 1 = 0 then 8 else 13)
          (c.afterCount (cpu.behind (.djnz d)) d)) ∧
    ∀ o : Operation, cpu.AtTransfer o → o.taken c = true →
      ∃ s, cpu.step ports fuel host = some s ∧
        (o.namesTarget = true →
          AssemblyLine.target? cpu.listing.text = some s.cpu.core.regs.pc) ∧
        (o.isCall = true → c.mem.get8 s.cpu.core.regs.pc = 0xC9 →
          s.cpu.core.regs.pc ≠ c.regs.sp - 1 → s.cpu.core.regs.pc ≠ c.regs.sp - 2 →
          ∃ s', s.cpu.step ports fuel s.host = some s' ∧
            s'.cpu.core.regs.pc = cpu.behind o ∧ s'.cpu.core.regs.sp = c.regs.sp) := by
  intro c
  refine ⟨Condition.holds_opposite, fun t h => ?_, fun t cond h => ?_, fun d h => ?_,
    fun o h htaken => ?_⟩
  · exact step_of_plain h ports fuel host
  · exact step_of_onlyIf h ports fuel host
  · exact step_of_djnz h ports fuel host
  · have hs := h.step_eq ports fuel host
    refine ⟨_, hs, fun hnames => ?_, fun hcall hret hhigh hlow => ?_⟩
    · exact h.reaches_target hnames htaken hs
    · exact h.returns hcall htaken hs hret hhigh hlow fuel

/-- A call whose bytes run round the top of memory and whose pushed word replaces its own target:
the return still comes back behind it. -/
theorem call_over_its_own_bytes_returns :
    let mem := (((Memory.blank.put8 0xFFFE 0xC4).put8 0xFFFF 0).put8 0 1).put8 0x0100 0xC9
    let cpu : Cpu := ⟨⟨{ Registers.zero with pc := 0xFFFE, sp := 1 }, mem, .i8080⟩, 0, .base, 0,
      none⟩
    cpu.AtTransfer (.callIf .nz 0x0100) ∧
      ∃ s s', cpu.step .unattached 0 () = some s ∧ s.cpu.states = 17 ∧
        s.cpu.core.regs.pc = 0x0100 ∧ AssemblyLine.target? cpu.listing.text = some 0x0100 ∧
        s.cpu.step .unattached 0 () = some s' ∧ s'.cpu.core.regs.pc = 1 ∧
        s'.cpu.core.regs.sp = 1 := by
  intro mem cpu
  have hat : cpu.AtTransfer (.callIf .nz 0x0100) := by
    refine ⟨rfl, ?_⟩
    show [mem.get8 0xFFFE, mem.get8 (0xFFFE + 1), mem.get8 (0xFFFE + 1 + 1)] = [0xC4, 0, 1]
    simp [mem]
  have hret : mem.get8 0x0100 = 0xC9 := Memory.get8_put8_same _ _ _
  clear_value mem
  obtain ⟨-, -, honlyIf, -, htaken⟩ :=
    conditional_transfer_is_plain_one_or_nothing cpu .unattached 0 ()
  obtain ⟨s, hs, hleaves⟩ := honlyIf (.call 0x0100) .nz hat
  have hholds : Condition.nz.holds cpu.core.regs.main.f = true :=
    show Condition.nz.holds Bank.zero.f = true by decide
  rw [if_pos hholds] at hleaves
  have hpc : s.cpu.core.regs.pc = 0x0100 := congrArg (·.regs.pc) hleaves.core
  obtain ⟨s₁, hs₁, htarget, hreturn⟩ := htaken (.callIf .nz 0x0100) hat hholds
  obtain rfl : s = s₁ := Option.some.inj (hs.symm.trans hs₁)
  rw [hpc] at htarget hreturn
  obtain ⟨s', hs', hback, hsp⟩ := hreturn rfl hret (show (0x0100 : UInt16) ≠ 1 - 1 by decide)
    (show (0x0100 : UInt16) ≠ 1 - 2 by decide)
  have hbehind : cpu.behind (.callIf .nz 0x0100) = 1 :=
    show (0xFFFE : UInt16) + 3 = 1 by decide
  exact ⟨hat, s, s', hs, hleaves.states, hpc, htarget rfl, hs', hback.trans hbehind, hsp⟩

end Cpu

end Cpm
