import Cpm.Core.Output

/-!
# The loops of the block instructions

A repeating instruction makes one round after another until a round ends in a final
state. The rounds of each of them are stated here as such a loop, apart from the way
they are computed: the transfer and the comparison know at the start how many rounds
they can make, the output makes rounds as long as it has fuel.
-/

namespace Cpm

/-- Rounds made one after another up to the first that ends in a final state, with their
number. -/
inductive Loop {α : Type} (round : α → α) (final : α → Prop) : Nat → α → α → Prop
  | last {a : α} (h : final (round a)) : Loop round final 1 a (round a)
  | next {n : Nat} {a b : α} (h : ¬ final (round a)) (rest : Loop round final n (round a) b) :
    Loop round final (n + 1) a b

namespace Loop

variable {α : Type} {round : α → α} {final : α → Prop} {n : Nat} {a b : α}

/-- A loop either ends with its first round or goes on from there. -/
theorem iff_first : Loop round final n a b ↔
    (final (round a) ∧ n = 1 ∧ b = round a) ∨
      (¬ final (round a) ∧ ∃ m, n = m + 1 ∧ Loop round final m (round a) b) := by
  constructor
  · intro h
    cases h with
    | last h => exact .inl ⟨h, rfl, rfl⟩
    | next h rest => exact .inr ⟨h, _, rfl, rest⟩
  · rintro (⟨h, rfl, rfl⟩ | ⟨h, m, rfl, rest⟩)
    · exact .last h
    · exact .next h rest

theorem ends_final (h : Loop round final n a b) : final b := by
  induction h with
  | last h => exact h
  | next _ _ ih => exact ih

theorem pos (h : Loop round final n a b) : 0 < n := by
  cases h <;> omega

/-- A loop comes to one end only, after one number of rounds. -/
theorem unique {m : Nat} {c : α} (h : Loop round final n a b) (h' : Loop round final m a c) :
    n = m ∧ b = c := by
  induction h generalizing m c with
  | last hfinal =>
    cases h' with
    | last => exact ⟨rfl, rfl⟩
    | next hgo => exact absurd hfinal hgo
  | next hgo _ ih =>
    cases h' with
    | last hfinal => exact absurd hfinal hgo
    | next _ rest =>
      obtain ⟨rfl, rfl⟩ := ih rest
      exact ⟨rfl, rfl⟩

/-- What holds after a number of rounds, from what holds before each of them. -/
theorem holds_after {P Q : Nat → α → Prop} (enter : ∀ i a, P i a → Q (i + 1) (round a))
    (goes : ∀ i a, Q i a → ¬ final a → P i a) (h : Loop round final n a b) {k : Nat}
    (start : P k a) : Q (k + n) b := by
  induction h generalizing k with
  | last => exact enter k _ start
  | @next n a b hgo _ ih =>
    have := ih (goes (k + 1) _ (enter k _ start) hgo)
    rwa [Nat.add_assoc, Nat.add_comm 1 n] at this

/-- A loop seen through a function of its states. The states before the first round need not
correspond, as long as those after it do. -/
theorem map_iff {β : Type} {round' : β → β} {final' : β → Prop} {f : α → β}
    (next : ∀ a, f (round a) = round' (f a)) (ends : ∀ a, final (round a) ↔ final' (f (round a)))
    {b last : β} (first : f (round a) = round' b) :
    Loop round' final' n b last ↔ ∃ c, Loop round final n a c ∧ last = f c := by
  constructor
  · intro h
    induction h generalizing a with
    | last hfinal =>
      rw [← first] at hfinal
      exact ⟨round a, .last ((ends a).mpr hfinal), first.symm⟩
    | next hgo _ ih =>
      rw [← first] at hgo
      obtain ⟨c, hloop, hc⟩ := ih ((next (round a)).trans (congrArg round' first))
      exact ⟨c, .next (fun hfinal => hgo ((ends a).mp hfinal)) hloop, hc⟩
  · rintro ⟨c, h, rfl⟩
    induction h generalizing b with
    | @last a hfinal =>
      have hfinal := (ends a).mp hfinal
      rw [first] at hfinal ⊢
      exact .last hfinal
    | @next _ a _ hgo _ ih =>
      refine .next (fun hfinal => hgo ((ends a).mpr ?_))
        (ih ((next (round a)).trans (congrArg round' first)))
      rw [first]
      exact hfinal

/-- A loop whose rounds count down a number comes to its end within that many rounds. The
number counts down only while an invariant holds, and only where the loop goes on. -/
theorem exists_le (left : α → Nat) {P : α → Prop} (pos : ∀ a, P a → 0 < left a)
    (goes : ∀ a, P a → ¬ final (round a) → P (round a) ∧ left (round a) < left a) (start : P a) :
    ∃ n b, n ≤ left a ∧ Loop round final n a b := by
  induction hk : left a using Nat.strongRecOn generalizing a with
  | ind k ih =>
    subst hk
    by_cases h : final (round a)
    · exact ⟨1, round a, pos a start, .last h⟩
    · obtain ⟨hP, hlt⟩ := goes a start h
      obtain ⟨n, b, hn, hrest⟩ := ih _ hlt hP rfl
      exact ⟨n + 1, b, by omega, .next h hrest⟩

end Loop

namespace Core

/-- The number of rounds that a byte counter stands for: zero stands for a full pass. -/
def roundsOfByte (counter : UInt8) : Nat := if counter = 0 then 0x100 else counter.toNat

theorem rounds_pos (counter : UInt16) : 0 < rounds counter := by
  unfold rounds
  split
  · decide
  · next h => exact Nat.pos_of_ne_zero fun h0 => h (UInt16.toNat_inj.mp h0)

theorem rounds_le (counter : UInt16) : rounds counter ≤ 0x10000 := by
  unfold rounds
  split
  · exact Nat.le_refl _
  · exact Nat.le_of_lt counter.toNat_lt

/-- Counting down takes one round from those to be made, unless it was the last. -/
theorem rounds_sub_one {counter : UInt16} (h : counter - 1 ≠ 0) :
    rounds counter = rounds (counter - 1) + 1 := by
  have hlt : counter.toNat < 2 ^ 16 := counter.toNat_lt
  have hne : (counter - 1).toNat ≠ 0 := fun h0 => h (UInt16.toNat_inj.mp h0)
  have hone : UInt16.toNat 1 = 1 := rfl
  simp only [UInt16.toNat_sub, hone] at hne
  unfold rounds
  rw [if_neg h, UInt16.toNat_sub, hone]
  split
  · next h0 => rw [h0]; rfl
  · next h0 =>
    have : counter.toNat ≠ 0 := fun hz => h0 (UInt16.toNat_inj.mp hz)
    omega

theorem rounds_of_sub_one_eq_zero {counter : UInt16} (h : counter - 1 = 0) :
    rounds counter = 1 := by
  have h1 : counter = 1 := by grind
  rw [h1]
  rfl

/-- All rounds together count a word down to zero. -/
theorem sub_rounds (counter : UInt16) : counter - UInt16.ofNat (rounds counter) = 0 := by
  unfold rounds
  split
  · next h => rw [h]; rfl
  · rw [UInt16.ofNat_toNat]
    exact UInt16.sub_self counter

/-- Where counting down has come to zero within the rounds to be made, all were made. -/
theorem eq_rounds {counter : UInt16} {n : Nat} (pos : 0 < n) (le : n ≤ rounds counter)
    (h : counter - UInt16.ofNat n = 0) : n = rounds counter := by
  have hc : counter = UInt16.ofNat n := by grind
  have hmod : counter.toNat = n % 0x10000 := by rw [hc, UInt16.toNat_ofNat']
  unfold rounds at *
  split at le
  · next h0 =>
    rw [if_pos h0]
    rw [h0] at hmod
    have : UInt16.toNat 0 = 0 := rfl
    omega
  · next h0 =>
    rw [if_neg h0]
    have := counter.toNat_lt
    omega

theorem roundsOfByte_pos (counter : UInt8) : 0 < roundsOfByte counter := by
  unfold roundsOfByte
  split
  · decide
  · next h => exact Nat.pos_of_ne_zero fun h0 => h (UInt8.toNat_inj.mp h0)

theorem roundsOfByte_le (counter : UInt8) : roundsOfByte counter ≤ 0x100 := by
  unfold roundsOfByte
  split
  · exact Nat.le_refl _
  · exact Nat.le_of_lt counter.toNat_lt

theorem roundsOfByte_sub_one {counter : UInt8} (h : counter - 1 ≠ 0) :
    roundsOfByte counter = roundsOfByte (counter - 1) + 1 := by
  have hlt : counter.toNat < 2 ^ 8 := counter.toNat_lt
  have hne : (counter - 1).toNat ≠ 0 := fun h0 => h (UInt8.toNat_inj.mp h0)
  have hone : UInt8.toNat 1 = 1 := rfl
  simp only [UInt8.toNat_sub, hone] at hne
  unfold roundsOfByte
  rw [if_neg h, UInt8.toNat_sub, hone]
  split
  · next h0 => rw [h0]; rfl
  · next h0 =>
    have : counter.toNat ≠ 0 := fun hz => h0 (UInt8.toNat_inj.mp hz)
    omega

/-- The same of a byte. -/
theorem eq_roundsOfByte {counter : UInt8} {n : Nat} (pos : 0 < n) (le : n ≤ roundsOfByte counter)
    (h : counter - UInt8.ofNat n = 0) : n = roundsOfByte counter := by
  have hc : counter = UInt8.ofNat n := by grind
  have hmod : counter.toNat = n % 256 := by rw [hc, UInt8.toNat_ofNat']
  unfold roundsOfByte at *
  split at le
  · next h0 =>
    rw [if_pos h0]
    rw [h0] at hmod
    have : UInt8.toNat 0 = 0 := rfl
    omega
  · next h0 =>
    rw [if_neg h0]
    have := counter.toNat_lt
    omega

/-- All rounds together count a byte down to zero. -/
theorem sub_roundsOfByte (counter : UInt8) : counter - UInt8.ofNat (roundsOfByte counter) = 0 := by
  unfold roundsOfByte
  split
  · next h => rw [h]; rfl
  · rw [UInt8.ofNat_toNat]
    exact UInt8.sub_self counter

/-! ### Transfer -/

theorem transfer_bc (dir : Direction) (c : Core) :
    (transfer dir c).regs.main.bc = c.regs.main.bc - 1 :=
  Bank.bc_setBc _ _

/-- The repeating transfer goes on until BC is zero. -/
theorem transfers_loop (dir : Direction) (c : Core) :
    Loop (transfer dir) (fun c => c.regs.main.bc = 0) (rounds c.regs.main.bc) c
      (transfers dir (rounds c.regs.main.bc) c) := by
  induction hn : rounds c.regs.main.bc generalizing c with
  | zero => exact absurd hn (Nat.ne_of_gt (rounds_pos _))
  | succ n ih =>
    by_cases h : c.regs.main.bc - 1 = 0
    · have h1 : n = 0 := by
        have := rounds_of_sub_one_eq_zero h
        omega
      subst h1
      exact .last ((transfer_bc dir c).trans h)
    · have hrest := rounds_sub_one h
      refine .next ?_ (ih (transfer dir c) ?_)
      · rw [transfer_bc]
        exact h
      · rw [transfer_bc]
        omega

/-! ### Comparison -/

structure Comparison where
  core : Core
  found : Bool

namespace Comparison

def next (dir : Direction) (s : Comparison) : Comparison := ⟨s.core.compare dir, s.core.matchesHl⟩

def IsLast (s : Comparison) : Prop := s.found = true ∨ s.core.regs.main.bc = 0

end Comparison

theorem compare_bc (dir : Direction) (c : Core) :
    (compare dir c).regs.main.bc = c.regs.main.bc - 1 :=
  Bank.bc_setBc (c.regs.main.setHl (c.regs.main.hl + dir.stride)) (c.regs.main.bc - 1)

theorem compares_loop_from (dir : Direction) (n : Nat) (s : Rounds) (found : Bool)
    (hn : rounds s.core.regs.main.bc = n) :
    ∃ made found', made ≤ n ∧ (compares dir n s).count = s.count + made ∧
      Loop (Comparison.next dir) Comparison.IsLast made ⟨s.core, found⟩
        ⟨(compares dir n s).core, found'⟩ := by
  induction n generalizing s found with
  | zero => exact absurd hn (Nat.ne_of_gt (rounds_pos _))
  | succ n ih =>
    rw [compares_succ]
    split
    · next h =>
      refine ⟨1, s.core.matchesHl, by omega, rfl, .last ?_⟩
      simpa only [Comparison.IsLast, Comparison.next, Bool.or_eq_true, decide_eq_true_eq] using h
    · next h =>
      have hgo : ¬ Comparison.IsLast (Comparison.next dir ⟨s.core, found⟩) := by
        simpa only [Comparison.IsLast, Comparison.next, Bool.or_eq_true, decide_eq_true_eq] using h
      have hbc : s.core.regs.main.bc - 1 ≠ 0 := fun h0 => hgo (.inr ((compare_bc dir _).trans h0))
      have hrest := rounds_sub_one hbc
      obtain ⟨made, found', hle, hcount, hloop⟩ :=
        ih ⟨s.count + 1, compare dir s.core⟩ s.core.matchesHl (by rw [compare_bc]; omega)
      exact ⟨made + 1, found', by omega, by rw [hcount]; dsimp only; omega, .next hgo hloop⟩

/-- The repeating comparison goes on until a byte is equal or BC is zero. -/
theorem compares_loop (dir : Direction) (c : Core) :
    let s := compares dir (rounds c.regs.main.bc) ⟨0, c⟩
    s.count ≤ rounds c.regs.main.bc ∧
      ∃ found, Loop (Comparison.next dir) Comparison.IsLast s.count ⟨c, false⟩ ⟨s.core, found⟩ := by
  intro s
  obtain ⟨made, found, hle, hcount, hloop⟩ := compares_loop_from dir _ ⟨0, c⟩ false rfl
  have hmade : s.count = made := hcount.trans (Nat.zero_add made)
  rw [hmade]
  exact ⟨hle, found, hloop⟩

/-! ### Output -/

end Core

namespace Written

variable {σ : Type}

def next (ports : Ports σ) (at_ : UInt16) (dir : Direction) (w : Written σ) : Written σ :=
  let r := w.core.outputRound ports w.host at_ dir
  { r with log := w.log ++ r.log }

def IsLast (w : Written σ) : Prop := w.running = false ∨ w.core.regs.main.b = 0

end Written

namespace Core

variable {σ : Type} {ports : Ports σ} {at_ : UInt16} {dir : Direction}

/-- The repeating output goes on until the processor stops or B is zero. It comes to an end
exactly if there is fuel for all its rounds. -/
theorem outputRounds_eq_some_iff {fuel count : Nat} {c : Core} {host : σ}
    {log : List Log.Record} {b : Burst σ} :
    outputRounds ports at_ dir fuel count c host log = some b ↔
      ∃ n, n ≤ fuel ∧ b.count = count + n ∧
        Loop (Written.next ports at_ dir) Written.IsLast n ⟨true, c, host, log⟩ b.written := by
  induction fuel generalizing count c host log with
  | zero =>
    constructor
    · intro h
      cases h
    · rintro ⟨n, hn, -, h⟩
      exact absurd h.pos (by omega)
  | succ fuel ih =>
    let w := Written.next ports at_ dir ⟨true, c, host, log⟩
    have hiff : (!w.running || decide (w.core.regs.main.b = 0)) = true ↔ w.IsLast := by
      simp only [Bool.or_eq_true, Bool.not_eq_true', decide_eq_true_eq, Written.IsLast]
    have hround : outputRounds ports at_ dir (fuel + 1) count c host log =
        if !w.running || decide (w.core.regs.main.b = 0) then some ⟨count + 1, w⟩
        else outputRounds ports at_ dir fuel (count + 1) w.core w.host w.log := rfl
    rw [hround]
    simp only [Loop.iff_first (a := (⟨true, c, host, log⟩ : Written σ))]
    split
    · next h =>
      have hlast : w.IsLast := hiff.mp h
      constructor
      · intro hb
        cases hb
        exact ⟨1, by omega, rfl, .inl ⟨hlast, rfl, rfl⟩⟩
      · rintro ⟨n, -, hcount, ⟨-, rfl, hw⟩ | ⟨hgo, -⟩⟩
        · obtain ⟨made, written⟩ := b
          simp only at hcount hw
          rw [hcount, hw]
        · exact absurd hlast hgo
    · next h =>
      have hgo : ¬ w.IsLast := fun hl => h (hiff.mpr hl)
      have hrunning : (⟨true, w.core, w.host, w.log⟩ : Written σ) = w := by
        cases hr : w.running with
        | true => rw [← hr]
        | false => exact absurd (.inl hr) hgo
      rw [ih, hrunning]
      constructor
      · rintro ⟨n, hn, hcount, hloop⟩
        exact ⟨n + 1, by omega, by omega, .inr ⟨hgo, n, rfl, hloop⟩⟩
      · rintro ⟨n, hn, hcount, ⟨hl, -⟩ | ⟨-, m, rfl, hloop⟩⟩
        · exact absurd hl hgo
        · exact ⟨m, by omega, by omega, hloop⟩

end Core

/-- Every round of a repeating output counts B down, unless it is the last. What a handler
answers to a trap can change both. -/
def Ports.CountsDown {σ : Type} (ports : Ports σ) : Prop :=
  ∀ (at_ : UInt16) (dir : Direction) (w : Written σ),
    (Written.next ports at_ dir w).IsLast ∨
      (Written.next ports at_ dir w).core.regs.main.b = w.core.regs.main.b - 1

/-- A repeating output makes no more rounds than B stands for at its start, as long as they
keep what makes each of them count B down. -/
theorem Written.exists_loop {σ : Type} {ports : Ports σ} {at_ : UInt16} {dir : Direction}
    {P : Written σ → Prop}
    (counts : ∀ w, P w → (next ports at_ dir w).IsLast ∨
      (P (next ports at_ dir w) ∧
        (next ports at_ dir w).core.regs.main.b = w.core.regs.main.b - 1))
    {w : Written σ} (start : P w) :
    ∃ n last, n ≤ Core.roundsOfByte w.core.regs.main.b ∧
      Loop (next ports at_ dir) IsLast n w last := by
  refine Loop.exists_le (fun w => Core.roundsOfByte w.core.regs.main.b)
    (fun _ _ => Core.roundsOfByte_pos _) (fun w hw hgo => ?_) start
  obtain ⟨hkept, hb⟩ := (counts w hw).resolve_left hgo
  have hne : w.core.regs.main.b - 1 ≠ 0 := fun h0 => hgo (.inr (hb.trans h0))
  rw [hb, Core.roundsOfByte_sub_one hne]
  exact ⟨hkept, Nat.lt_succ_self _⟩

theorem Ports.CountsDown.loop {σ : Type} {ports : Ports σ} (h : ports.CountsDown) (at_ : UInt16)
    (dir : Direction) (w : Written σ) :
    ∃ n last, n ≤ Core.roundsOfByte w.core.regs.main.b ∧
      Loop (Written.next ports at_ dir) Written.IsLast n w last :=
  Written.exists_loop (P := fun _ => True) (fun w _ => (h at_ dir w).imp id (⟨trivial, ·⟩)) trivial

end Cpm
