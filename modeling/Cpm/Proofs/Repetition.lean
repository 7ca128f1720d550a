import Cpm.Proofs.BlockForms
import Cpm.Proofs.BlockSearch

/-!
# Repeating a block instruction

A repeating form does what its single form does, over and over, until the block is at its end.
It makes its rounds in another way: the transfer sets the flags after the last round only, the
output passes on what was written. Here the rounds of the single form are made one after
another, each by executing it in the state that the one before it left.
-/

namespace Cpm

namespace Flags

variable (f : Flags)

/-- What a round of the transfer does to the flags hides what an earlier round did. -/
theorem keep_set_keep (on more : Bool) :
    ((((f.keep [.sign, .zero, .carry]).set .parityOverflow more).keep
      [.sign, .zero, .carry]).set .parityOverflow on) =
      (f.keep [.sign, .zero, .carry]).set .parityOverflow on := by
  have h : ∀ v : UInt8, ((((keep ⟨v⟩ [.sign, .zero, .carry]).set .parityOverflow more).keep
      [.sign, .zero, .carry]).set .parityOverflow on) =
      (keep ⟨v⟩ [.sign, .zero, .carry]).set .parityOverflow on :=
    eq_of_all_allBytes (by cases on <;> cases more <;> decide +kernel)
  exact h f.bits

end Flags

namespace Core

variable (c : Core) (dir : Direction)

/-- Flags that were set after a round do not show after the next. -/
theorem withTransferFlags_transfer :
    (c.withTransferFlags.transfer dir).withTransferFlags =
      (c.transfer dir).withTransferFlags := by
  -- Both sides set the flags of the moved core, which tell of its counter.
  have hflags := c.regs.main.f.keep_set_keep ((c.transfer dir).regs.main.bc != 0)
    (c.regs.main.bc != 0)
  exact congrArg (fun f => (c.transfer dir).onRegs (·.setFlags f)) hflags

/-- A comparison sets the zero flag where the byte equals the accumulator. -/
theorem zero_compare : (c.compare dir).regs.main.f.zero = c.matchesHl := by
  have hflags := c.regs.main.f.ofSearch c.regs.main.a (c.mem.get8 c.regs.main.hl)
    (c.regs.main.bc - 1)
  refine hflags.zero.trans ?_
  rw [matchesHl, Bool.eq_iff_iff, decide_eq_true_eq, beq_iff_eq]
  exact eq_comm

end Core

namespace Outcome

variable {σ : Type}

@[simp] theorem log_ofWritten (w : Written σ) (states : Nat) :
    (ofWritten w states).log = w.log := by
  unfold ofWritten
  split <;> rfl

def start (c : Core) (host : σ) : Outcome σ := ⟨0, none, c, host, []⟩

/-- What comes of executing an instruction once more, in the state that is left. -/
def again (once : Core → σ → Outcome σ) (o : Outcome σ) : Outcome σ :=
  let next := once o.core o.host
  { next with log := o.log ++ next.log }

/-- The outcome of `n` rounds as that of one repeating instruction. -/
def asRepeated (o : Outcome σ) (n : Nat) : Outcome σ :=
  { o with states := if o.halt = none then repeatStates n else 0 }

end Outcome

namespace Block

variable {σ : Type}

/-- What the single form of a block instruction does. -/
def once (kind : Block) (ports : Ports σ) (at_ : UInt16) (dir : Direction) (c : Core) (host : σ) :
    Outcome σ :=
  match kind with
  | .transfer => ⟨16, none, (c.transfer dir).withTransferFlags, host, []⟩
  | .compare => ⟨16, none, c.compare dir, host, []⟩
  | .output => .ofWritten (c.outputRound ports host at_ dir) 16

/-- The block is at its end: the counter is zero, or a comparison has found its byte, or a write
has stopped the processor. -/
def IsOver (kind : Block) (o : Outcome σ) : Prop :=
  match kind with
  | .transfer => o.core.regs.main.bc = 0
  | .compare => o.core.regs.main.f.zero = true ∨ o.core.regs.main.bc = 0
  | .output => o.halt ≠ none ∨ o.core.regs.main.b = 0

variable (kind : Block) (ports : Ports σ) (at_ : UInt16) (dir : Direction)

theorem execute_single (c : Core) (fuel : Nat) (host : σ) (x y : UInt8) :
    c.execute ports fuel host at_ (dispatch .z80 ⟨0xED, kind.opcode false dir, x, y⟩) =
      some (kind.once ports at_ dir c host) := by
  rw [dispatch_eq]
  cases kind <;> rfl

theorem states_once (c : Core) (host : σ) :
    (kind.once ports at_ dir c host).states =
      if (kind.once ports at_ dir c host).halt = none then 16 else 0 := by
  cases kind with
  | transfer | compare => rfl
  | output =>
    simp only [once, Outcome.ofWritten]
    split <;> rfl

/-- The rounds of the single form that start from a core, with their number and the last. -/
def Iterates (c : Core) (host : σ) (n : Nat) (last : Outcome σ) : Prop :=
  Loop (Outcome.again (kind.once ports at_ dir)) kind.IsOver n (.start c host) last

variable {kind ports at_ dir} {c : Core} {host : σ}

/-- An instruction that ends as the rounds of its single form do. -/
theorem eq_some_iff_of_iterates {e : Option (Outcome σ)} {fuel n : Nat} {last : Outcome σ}
    (hkind : kind ≠ .output) (h : kind.Iterates ports at_ dir c host n last)
    (he : e = some (last.asRepeated n)) (r : Outcome σ) :
    e = some r ↔ ∃ n last, (kind = .output → n ≤ fuel) ∧
      kind.Iterates ports at_ dir c host n last ∧ r = last.asRepeated n := by
  constructor
  · intro hr
    exact ⟨n, last, fun ho => absurd ho hkind, h, Option.some.inj (hr.symm.trans he)⟩
  · rintro ⟨m, last', -, h', rfl⟩
    obtain ⟨rfl, rfl⟩ := h.unique h'
    exact he

/-- The rounds of the single form, told from those of another loop. -/
theorem iterates_iff {α : Type} {round : α → α} {final : α → Prop} {f : α → Outcome σ} {n : Nat}
    {a : α} {last : Outcome σ}
    (first : f (round a) = (Outcome.start c host).again (kind.once ports at_ dir))
    (next : ∀ a, f (round a) = (f a).again (kind.once ports at_ dir))
    (ends : ∀ a, final (round a) ↔ kind.IsOver (f (round a))) :
    kind.Iterates ports at_ dir c host n last ↔ ∃ b, Loop round final n a b ∧ last = f b :=
  Loop.map_iff next ends first

/-- Transfers with the flags set after each are transfers with the flags set after the last. -/
theorem transfer_iterates (c : Core) (host : σ) :
    let n := Core.rounds c.regs.main.bc
    Block.transfer.Iterates ports at_ dir c host n
      ⟨16, none, (Core.transfers dir n c).withTransferFlags, host, []⟩ := by
  refine (iterates_iff (f := fun a => ⟨16, none, a.withTransferFlags, host, []⟩) rfl (fun a => ?_)
    fun a => Iff.rfl).mpr ⟨_, Core.transfers_loop dir c, rfl⟩
  simp only [Outcome.again, once, Core.withTransferFlags_transfer, List.append_nil]

/-- The comparison ends with the zero flag set where it finds its byte. -/
theorem compare_iterates (c : Core) (host : σ) :
    let s := Core.compares dir (Core.rounds c.regs.main.bc) ⟨0, c⟩
    Block.compare.Iterates ports at_ dir c host s.count ⟨16, none, s.core, host, []⟩ := by
  obtain ⟨-, found, hloop⟩ := Core.compares_loop dir c
  refine (iterates_iff (f := fun t => ⟨16, none, t.core, host, []⟩) rfl (fun t => rfl)
    fun t => ?_).mpr ⟨_, hloop, rfl⟩
  simp only [Core.Comparison.IsLast, Core.Comparison.next, IsOver, Core.zero_compare]

/-- One more round of the single form of an output is one more round of the repeating form. -/
theorem again_ofWritten (w : Written σ) :
    (Outcome.ofWritten w 16).again (Block.output.once ports at_ dir) =
      .ofWritten (w.next ports at_ dir) 16 := by
  simp only [Outcome.again, once, Outcome.core_ofWritten, Outcome.host_ofWritten,
    Outcome.log_ofWritten]
  simp only [Written.next]
  generalize w.core.outputRound ports w.host at_ dir = r
  obtain ⟨running, core, host, log⟩ := r
  cases running <;> rfl

/-- They end together. -/
theorem isOver_ofWritten (w : Written σ) :
    Block.output.IsOver (Outcome.ofWritten w 16) ↔ w.IsLast := by
  simp only [IsOver, Written.IsLast, Outcome.core_ofWritten]
  unfold Outcome.ofWritten
  cases w.running <;> simp

/-- The rounds of an output are those of its single form. -/
theorem output_iterates_iff {n : Nat} {last : Outcome σ} :
    Block.output.Iterates ports at_ dir c host n last ↔
      ∃ w, Loop (Written.next ports at_ dir) Written.IsLast n ⟨true, c, host, []⟩ w ∧
        last = .ofWritten w 16 :=
  iterates_iff (f := fun w => .ofWritten w 16) (again_ofWritten ⟨true, c, host, []⟩).symm
    (fun w => (again_ofWritten w).symm) fun _ => (isOver_ofWritten _).symm

theorem asRepeated_ofWritten (w : Written σ) (n : Nat) :
    (Outcome.ofWritten w 16).asRepeated n = .ofWritten w (repeatStates n) := by
  unfold Outcome.ofWritten
  split <;> rfl

/-- The repeating form ends as the rounds of the single form do. -/
theorem execute_repeating_eq_some_iff (c : Core) (host : σ) (fuel : Nat) (x y : UInt8)
    (r : Outcome σ) :
    c.execute ports fuel host at_ (dispatch .z80 ⟨0xED, kind.opcode true dir, x, y⟩) = some r ↔
      ∃ n last, (kind = .output → n ≤ fuel) ∧ kind.Iterates ports at_ dir c host n last ∧
        r = last.asRepeated n := by
  rw [dispatch_eq]
  cases kind with
  | transfer => exact eq_some_iff_of_iterates (by decide) (transfer_iterates c host) rfl r
  | compare => exact eq_some_iff_of_iterates (by decide) (compare_iterates c host) rfl r
  | output =>
    show (Core.outputRounds ports at_ dir fuel 0 c host []).map
      (fun b => Outcome.ofWritten b.written (repeatStates b.count)) = some r ↔ _
    simp only [Option.map_eq_some_iff, Core.outputRounds_eq_some_iff, output_iterates_iff,
      Nat.zero_add, forall_const]
    constructor
    · rintro ⟨⟨n, w⟩, ⟨_, hn, rfl, hloop⟩, rfl⟩
      exact ⟨n, _, hn, ⟨w, hloop, rfl⟩, (asRepeated_ofWritten w n).symm⟩
    · rintro ⟨n, _, hn, ⟨w, hloop, rfl⟩, rfl⟩
      exact ⟨⟨n, w⟩, ⟨n, hn, rfl, hloop⟩, (asRepeated_ofWritten w n).symm⟩

/-- A repeating block instruction is the iteration of its single form. Every execution of the
single form takes 16 states, or none where a write has stopped the processor. They are made
one after another, at least once, until the block is at its end, which transfers and comparisons
come to from every state. The repeating form ends exactly if they do and there is fuel for so
many rounds, and it leaves what the last of them leaves: registers, flags, memory and mode, the
reason to stop, the state of the ports and the calls that were made to them, in order. Only its
time is its own. -/
theorem repeating_form_iterates_single_form (kind : Block) (dir : Direction) (x y : UInt8)
    (ports : Ports σ) (at_ : UInt16) :
    let single := dispatch .z80 ⟨0xED, kind.opcode false dir, x, y⟩
    let repeating := dispatch .z80 ⟨0xED, kind.opcode true dir, x, y⟩
    let once := kind.once ports.recorded at_ dir
    (∀ (fuel : Nat) (c : Core) host,
      c.execute ports.recorded fuel host at_ single = some (once c host) ∧
        (once c host).states = if (once c host).halt = none then 16 else 0) ∧
    ∀ (c : Core) (host : σ),
      let start : Outcome (σ × List PortCall) := .start c (host, [])
      (kind ≠ .output → ∃ n last, Loop (·.again once) kind.IsOver n start last) ∧
      ∀ fuel r, c.execute ports.recorded fuel (host, []) at_ repeating = some r ↔
        ∃ n last, (kind = .output → n ≤ fuel) ∧ Loop (·.again once) kind.IsOver n start last ∧
          r = { last with states := if last.halt = none then 16 + 8 * n else 0 } := by
  intro single repeating once
  refine ⟨fun fuel c host => ⟨kind.execute_single _ _ _ c fuel host x y,
    kind.states_once _ _ _ c host⟩, fun c host => ⟨fun hkind => ?_, fun fuel r =>
    execute_repeating_eq_some_iff c (host, []) fuel x y r⟩⟩
  cases kind with
  | transfer => exact ⟨_, _, transfer_iterates c (host, [])⟩
  | compare => exact ⟨_, _, compare_iterates c (host, [])⟩
  | output => exact absurd rfl hkind

/-- With nothing attached the first of two writes to the trap port stops the processor, and the
repeating form stops where the single form does. -/
theorem stopped_repetition_takes_no_time :
    let regs := { Registers.zero with main := { Bank.zero with b := 2, c := 0xFF } }
    let c : Core := ⟨regs, .blank, .z80⟩
    ∃ r, c.execute Ports.unattached.recorded 1 ((), []) 0 (dispatch .z80 ⟨0xED, 0xB3, 0, 0⟩) =
        some r ∧
      r.halt = some .trap ∧ r.states = 0 ∧ r.core.regs.main.b = 1 ∧ r.host.2.length = 1 := by
  intro regs c
  obtain ⟨-, h⟩ := repeating_form_iterates_single_form .output .up 0 0 .unattached 0
  have hover : Block.output.IsOver ((Outcome.start c ((), [])).again
      (Block.output.once Ports.unattached.recorded 0 .up)) := .inl (Option.some_ne_none _)
  have hb : (2 : UInt8) - 1 = 1 := by decide
  exact ⟨_, ((h c ()).2 1 _).mpr ⟨1, _, fun _ => Nat.le_refl 1, .last hover, rfl⟩, rfl, rfl, hb,
    rfl⟩

end Block

end Cpm
