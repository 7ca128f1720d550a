import Cpm.Proofs.CheckedOperations
import Cpm.Proofs.Termination

/-!
# Where a step can fault

One number of a step has no bound: the rounds of a repeating output, as a port handler can
raise B between them. While their time can be counted no check of a step finds a fault, in any
state and with any handler, and the step is the one without checks. So it is for every handler
that lets B count down. A handler that holds B up for long enough makes the time of the
instruction overflow.
-/

namespace Cpm.Checked

/-! ### The rounds of an output -/

variable {σ : Type} {ports : Ports σ} {at_ : UInt16} {dir : Direction}

theorem outputRounds_succ (fuel : Nat) (count : UInt32) (c : Core) (host : σ)
    (log : List Log.Record) :
    outputRounds ports at_ dir (fuel + 1) count c host log =
      let w := Written.next ports at_ dir ⟨true, c, host, log⟩
      if !w.running then .ok (some ⟨count, w⟩)
      else plus32 count 1 >>= fun count =>
        if w.core.regs.main.b = 0 then .ok (some ⟨count, w⟩)
        else outputRounds ports at_ dir fuel count w.core w.host w.log := by
  rfl

theorem core_outputRounds_succ (fuel count : Nat) (c : Core) (host : σ)
    (log : List Log.Record) :
    Core.outputRounds ports at_ dir (fuel + 1) count c host log =
      let w := Written.next ports at_ dir ⟨true, c, host, log⟩
      if !w.running || decide (w.core.regs.main.b = 0) then some ⟨count + 1, w⟩
      else Core.outputRounds ports at_ dir fuel (count + 1) w.core w.host w.log := by
  rfl

/-- The rounds that were made: those that were counted, and one that stopped. -/
def Burst.made (b : Burst σ) : Core.Burst σ :=
  ⟨if b.written.running then b.count.toNat else b.count.toNat + 1, b.written⟩

/-- The rounds are those without checks, while the fuel for them can be counted. -/
theorem outputRounds_eq {fuel : Nat} {count : UInt32} {c : Core} {host : σ}
    {log : List Log.Record} (h : count.toNat + fuel < 0x100000000) :
    ∃ r, outputRounds ports at_ dir fuel count c host log = .ok r ∧
      Core.outputRounds ports at_ dir fuel count.toNat c host log = r.map Burst.made ∧
      ∀ b, r = some b → b.count.toNat ≤ count.toNat + fuel := by
  induction fuel generalizing count c host log with
  | zero => exact ⟨none, rfl, rfl, fun _ hb => by cases hb⟩
  | succ fuel ih =>
    have hone : UInt32.toNat 1 = 1 := rfl
    obtain ⟨next, hnext, hnextNat⟩ := @plus32_eq_ok count 1 (by omega)
    rw [hone] at hnextNat
    rw [outputRounds_succ, core_outputRounds_succ, hnext]
    generalize Written.next ports at_ dir ⟨true, c, host, log⟩ = w
    simp only [ok_bind]
    cases hr : w.running with
    | false =>
      refine ⟨some ⟨count, w⟩, rfl, ?_, ?_⟩
      · simp [Burst.made, hr]
      · rintro b hb
        cases hb
        exact Nat.le_add_right _ _
    | true =>
      -- A round that goes on is counted before B is looked at.
      by_cases hb : w.core.regs.main.b = 0
      · refine ⟨some ⟨next, w⟩, ?_, ?_, ?_⟩
        · simp [hb]
        · simp [Burst.made, hr, hb, hnextNat]
        · rintro b hb
          cases hb
          show next.toNat ≤ _
          omega
      · obtain ⟨r, hrest, hmade, hle⟩ := @ih next w.core w.host w.log (by omega)
        simp only [hb, if_false, decide_false, Bool.not_true, Bool.or_self, Bool.false_eq_true,
          ← hnextNat]
        exact ⟨r, hrest, hmade, fun b hb => Nat.le_trans (hle b hb) (by omega)⟩

theorem outputRounds_mono {fuel more : Nat} {count : UInt32} {c : Core} {host : σ}
    {log : List Log.Record} {b : Burst σ} (hle : fuel ≤ more)
    (h : outputRounds ports at_ dir fuel count c host log = .ok (some b)) :
    outputRounds ports at_ dir more count c host log = .ok (some b) := by
  induction fuel generalizing more count c host log with
  | zero => cases h
  | succ fuel ih =>
    obtain ⟨more, rfl⟩ := Nat.exists_eq_add_of_le' (Nat.le_trans (Nat.le_add_left 1 fuel) hle)
    rw [outputRounds_succ] at h ⊢
    generalize Written.next ports at_ dir ⟨true, c, host, log⟩ = w at h ⊢
    simp only at h ⊢
    split
    · next hr => rwa [if_pos hr] at h
    · next hr =>
      rw [if_neg hr] at h
      obtain ⟨next, hcount, hnext⟩ := exists_of_bind_eq_ok h
      rw [hcount, ok_bind]
      split at hnext
      · next hb => rwa [if_pos hb]
      · next hb =>
        rw [if_neg hb]
        exact ih (Nat.le_of_succ_le_succ hle) hnext

/-- One round more is counted as long as it fits. -/
theorem plus32_one {n : Nat} (h : n < 0x100000000) :
    plus32 (UInt32.ofNat n) 1 =
      if n + 1 < 0x100000000 then .ok (UInt32.ofNat (n + 1)) else .error .overflow := by
  have hn : (UInt32.ofNat n).toNat = n := UInt32.toNat_ofNat_of_lt' h
  have hsum : UInt32.ofNat n + 1 = UInt32.ofNat (n + 1) := (UInt32.ofNat_add n 1).symm
  unfold plus32
  rw [hn, hsum]
  rfl

/-- The rounds of an output that ends by itself are counted up to the last, if their number
fits. -/
theorem outputRounds_of_loop {n fuel : Nat} (counted : Nat) {start last : Written σ}
    (h : Loop (Written.next ports at_ dir) Written.IsLast n start last)
    (hfuel : n ≤ fuel) (hstart : start.running = true) (hlast : last.running = true)
    (hcounted : counted < 0x100000000) :
    outputRounds ports at_ dir fuel (UInt32.ofNat counted) start.core start.host start.log =
      if counted + n < 0x100000000 then .ok (some ⟨UInt32.ofNat (counted + n), last⟩)
      else .error .overflow := by
  induction h generalizing fuel counted with
  | @last start h =>
    obtain ⟨fuel, rfl⟩ := Nat.exists_eq_add_of_le' hfuel
    obtain ⟨running, core, host, log⟩ := start
    cases hstart
    rw [outputRounds_succ, plus32_one hcounted]
    generalize Written.next ports at_ dir ⟨true, core, host, log⟩ = w at h hlast
    have hb : w.core.regs.main.b = 0 := h.resolve_left (by simp [hlast])
    simp only [hlast, hb, if_true, if_false, Bool.not_true, Bool.false_eq_true]
    by_cases hfits : counted + 1 < 0x100000000
    · simp only [if_pos hfits, ok_bind]
    · simp only [if_neg hfits, error_bind]
  | @next n start last hgo rest ih =>
    obtain ⟨fuel, rfl⟩ := Nat.exists_eq_add_of_le' (Nat.le_trans (Nat.le_add_left 1 n) hfuel)
    obtain ⟨running, core, host, log⟩ := start
    cases hstart
    rw [outputRounds_succ, plus32_one hcounted]
    generalize Written.next ports at_ dir ⟨true, core, host, log⟩ = w at hgo rest ih
    have hr : w.running = true := Bool.not_eq_false _ ▸ fun hr => hgo (.inl hr)
    have hb : ¬ w.core.regs.main.b = 0 := fun hb => hgo (.inr hb)
    by_cases hfits : counted + 1 < 0x100000000
    · have hrest := ih _ (Nat.le_of_succ_le_succ hfuel) hr hlast hfits
      simp only [hr, hb, hfits, ok_bind, if_true, if_false, Bool.not_true, Bool.false_eq_true]
      rw [hrest, Nat.add_assoc, Nat.add_comm 1 n]
    · have hover : ¬ counted + (n + 1) < 0x100000000 := by omega
      simp only [hr, if_neg hfits, if_neg hover, error_bind, if_false, Bool.not_true,
        Bool.false_eq_true]

/-! ### Output and execution -/

/-- The most rounds of a repeating output whose time fits in thirty-two bits. -/
def longestOutput : Nat := (0x100000000 - 17) / 8

theorem longestOutput_lt : longestOutput < 0x20000000 := by decide

theorem repeatStates_longestOutput : repeatStates longestOutput = 0x100000000 - 8 := by decide

theorem repeatStates_lt_iff {n : Nat} : repeatStates n < 0x100000000 ↔ n ≤ longestOutput := by
  unfold repeatStates longestOutput
  omega

namespace Outcome

theorem ofOutcome_ofWritten (w : Written σ) (n : Nat) :
    ofOutcome (.ofWritten w n) = ofWritten w (UInt32.ofNat n) := by
  unfold Cpm.Outcome.ofWritten ofWritten
  split <;> rfl

end Outcome

/-- The time of a repeating output is counted if its rounds are no more than that. -/
theorem burstOutcome_eq {b : Burst σ} (h : b.count.toNat ≤ longestOutput) :
    burstOutcome (some b) =
      .ok (some (.ofOutcome (.ofWritten b.written (repeatStates b.made.count)))) := by
  rw [Outcome.ofOutcome_ofWritten]
  cases hr : b.written.running with
  | false => simp [burstOutcome, Outcome.ofWritten, hr]
  | true =>
    have hcost := repeatCost_eq b.count
    rw [if_pos (repeatStates_lt_iff.mpr h)] at hcost
    simp [burstOutcome, Burst.made, hr, hcost]

theorem output_eq {fuel : Nat} (hfuel : fuel ≤ longestOutput) (c : Core) (host : σ) (o : Output) :
    output c ports fuel host at_ o = .ok ((c.output ports fuel host at_ o).map .ofOutcome) := by
  cases o with
  | outA _ | outC _ | outi _ => rfl
  | otir dir =>
    have hlongest := longestOutput_lt
    have hzero : UInt32.toNat 0 = 0 := rfl
    obtain ⟨r, hrounds, hmade, hle⟩ := @outputRounds_eq σ ports at_ dir fuel 0 c host [] (by omega)
    rw [hzero] at hmade hle
    rw [output, hrounds, ok_bind, Core.output, hmade]
    cases r with
    | none => rfl
    | some b =>
      rw [burstOutcome_eq (by have := hle b rfl; omega)]
      rfl

/-- A repeating output that ends by itself faults exactly if it makes more rounds than its time
can count. -/
theorem output_of_loop {n fuel : Nat} {c : Core} {host : σ} {last : Written σ}
    (h : Loop (Written.next ports at_ dir) Written.IsLast n ⟨true, c, host, []⟩ last)
    (hfuel : n ≤ fuel) (hr : last.running = true) :
    output c ports fuel host at_ (.otir dir) =
      if n ≤ longestOutput then .ok (some (.ofWritten last (UInt32.ofNat (repeatStates n))))
      else .error .overflow := by
  have hlongest := longestOutput_lt
  have hrounds : outputRounds ports at_ dir fuel 0 c host [] = _ :=
    outputRounds_of_loop 0 h hfuel rfl hr (by decide)
  rw [Nat.zero_add] at hrounds
  rw [output, hrounds]
  by_cases hcount : n < 0x100000000
  · have hn : (UInt32.ofNat n).toNat = n := UInt32.toNat_ofNat_of_lt' hcount
    have hcost := repeatCost_eq (UInt32.ofNat n)
    simp only [hn, repeatStates_lt_iff] at hcost
    rw [if_pos hcount, ok_bind, burstOutcome, if_pos hr, hcost]
    split <;> rfl
  · rw [if_neg hcount, if_neg (by omega)]
    rfl

/-- Fuel that was enough can be more. -/
theorem output_mono {fuel more : Nat} (hle : fuel ≤ more) {c : Core} {host : σ} {o : Output}
    {r : Outcome σ} (h : output c ports fuel host at_ o = .ok (some r)) :
    output c ports more host at_ o = .ok (some r) := by
  cases o with
  | outA _ | outC _ | outi _ => exact h
  | otir dir =>
    obtain ⟨b, hrounds, hb⟩ := exists_of_bind_eq_ok h
    cases b with
    | none => cases hb
    | some b =>
      rw [output, outputRounds_mono hle hrounds]
      exact hb

theorem execute_eq {fuel : Nat} (hfuel : fuel ≤ longestOutput) (c : Core) (host : σ) (d : Decoded) :
    execute c ports fuel host at_ d =
      .ok ((c.execute ports fuel host at_ d).map .ofOutcome) := by
  cases hi : d.instruction with
  | none => simp only [execute, hi]
  | some i =>
    cases i with
    | operation o =>
      simp only [execute, Core.execute, hi, perform_eq, ok_bind, pure_eq_ok]
      rfl
    | output o => simp only [execute, Core.execute, hi, output_eq hfuel]
    | halt => simp only [execute, hi]

theorem execute_mono {fuel more : Nat} (hle : fuel ≤ more) {c : Core} {host : σ} {d : Decoded}
    {r : Outcome σ} (h : execute c ports fuel host at_ d = .ok (some r)) :
    execute c ports more host at_ d = .ok (some r) := by
  cases hi : d.instruction with
  | none =>
    simp only [execute, Core.execute, hi] at h ⊢
    exact h
  | some i =>
    cases i with
    | operation o =>
      simp only [execute, hi] at h ⊢
      exact h
    | halt =>
      simp only [execute, Core.execute, hi] at h ⊢
      exact h
    | output o =>
      simp only [execute, hi] at h ⊢
      exact output_mono hle h

/-- Within that many rounds no instruction takes longer than such an output. -/
theorem states_execute_le {fuel : Nat} (hfuel : fuel ≤ longestOutput) {c : Core} {host : σ}
    {d : Decoded} {o : Cpm.Outcome σ} (h : c.execute ports fuel host at_ d = some o) :
    o.states ≤ repeatStates longestOutput := by
  have hwritten : ∀ (w : Written σ) (n : Nat), n ≤ repeatStates longestOutput →
      (Cpm.Outcome.ofWritten w n).states ≤ repeatStates longestOutput := by
    intro w n hn
    rw [Cpm.Outcome.states_ofWritten]
    split
    · exact hn
    · exact Nat.zero_le _
  unfold Core.execute at h
  split at h
  · next op _ =>
    cases h
    exact Nat.le_trans (c.perform_states_le op) (by decide)
  · next op _ =>
    cases op with
    | outA _ | outC _ | outi _ =>
      cases h
      exact hwritten _ _ (by decide)
    | otir dir =>
      obtain ⟨b, hb, rfl⟩ := Option.map_eq_some_iff.mp h
      obtain ⟨n, hn, hcount, -⟩ := Core.outputRounds_eq_some_iff.mp hb
      refine hwritten _ _ ?_
      unfold repeatStates
      omega
  · cases h
    exact Nat.zero_le _
  · cases h
    exact Nat.zero_le _

/-! ### The refresh register -/

theorem refresh_eq (r : Registers) (waiting : Fin 4) {states : Nat}
    (h : waiting.val + states < 0x100000000) :
    refresh r (UInt32.ofNat waiting.val) (UInt32.ofNat states) =
      .ok (r.refresh waiting states, UInt32.ofNat (leftOver waiting states).val) := by
  have hr := r.r.toNat_lt
  have hfour : UInt32.toNat 4 = 4 := rfl
  have hw : (UInt32.ofNat waiting.val).toNat = waiting.val := by
    rw [UInt32.toNat_ofNat']
    omega
  have hs : (UInt32.ofNat states).toNat = states := by
    rw [UInt32.toNat_ofNat']
    omega
  obtain ⟨sum, hsum, hsumNat⟩ := @plus32_eq_ok (UInt32.ofNat waiting.val) (UInt32.ofNat states)
    (by omega)
  rw [hw, hs] at hsumNat
  have hquotient : (sum / 4).toNat = (waiting.val + states) / 4 := by
    rw [UInt32.toNat_div, hsumNat, hfour]
  obtain ⟨low, hlow, hlowNat⟩ := @plus32_eq_ok r.r.toUInt32 (sum / 4)
    (by rw [UInt8.toNat_toUInt32, hquotient]; omega)
  rw [UInt8.toNat_toUInt32, hquotient] at hlowNat
  have hbyte : (low &&& 0x7F).toUInt8 =
      UInt8.ofNat ((r.r.toNat + (waiting.val + states) / 4) % 128) := by
    apply UInt8.toNat_inj.mp
    rw [UInt32.toNat_toUInt8, UInt8.toNat_ofNat', ← hlowNat]
    exact congrArg (· % 256) ((UInt32.toNat_and low 0x7F).trans
      (Nat.and_two_pow_sub_one_eq_mod low.toNat 7))
  have hleft : sum % 4 = UInt32.ofNat (leftOver waiting states).val := by
    apply UInt32.toNat_inj.mp
    rw [UInt32.toNat_mod, hsumNat, hfour, UInt32.toNat_ofNat']
    simp only [leftOver]
    omega
  simp only [refresh, hsum, hlow, ok_bind, pure_eq_ok, hbyte, hleft]
  rfl

/-! ### Steps -/

theorem Outcome.reason_ofOutcome {o : Cpm.Outcome σ} (h : o.states < 0x100000000) :
    (ofOutcome o).reason = o.reason := by
  have hzero : (UInt32.ofNat o.states = 0) = (o.states = 0) := by
    rw [← UInt32.toNat_inj, UInt32.toNat_ofNat', Nat.mod_eq_of_lt h]
    rfl
  simp only [reason, ofOutcome, Cpm.Outcome.reason, hzero]

namespace Cpu

theorem waiting_ofCpu (cpu : Cpm.Cpu) : (ofCpu cpu).waiting.toNat = cpu.waiting.val := by
  have := cpu.waiting.isLt
  rw [ofCpu, UInt32.toNat_ofNat']
  omega

/-- Every processor with less than four states left over is one of these. -/
theorem exists_ofCpu {cpu : Cpu} (h : cpu.waiting.toNat < 4) : ∃ plain, cpu = ofCpu plain :=
  ⟨⟨cpu.core, ⟨cpu.waiting.toNat, h⟩, cpu.table, cpu.states.toNat, cpu.halt⟩,
    by simp only [ofCpu, UInt32.ofNat_toNat]⟩

theorem retire_ofCpu (cpu : Cpm.Cpu) (t : Table) {o : Cpm.Outcome σ}
    (h : cpu.waiting.val + o.states < 0x100000000) :
    (ofCpu cpu).retire t (some (.ofOutcome o)) = .ok (some (.ofStep (cpu.retire t o))) := by
  have hrefresh := refresh_eq o.core.regs cpu.waiting h
  have hreason := Outcome.reason_ofOutcome (o := o) (by omega)
  simp only [Outcome.ofOutcome] at hreason
  simp only [retire, ofCpu, Outcome.ofOutcome, hrefresh, hreason, ok_bind,
    pure_eq_ok]
  rfl

/-- A step after decoding. -/
theorem step_eq (cpu : Cpu) (ports : Ports σ) (fuel : Nat) (host : σ) :
    let pc := cpu.core.regs.pc
    let d := Cpm.dispatch cpu.core.mode (.ofMemory cpu.core.mem pc)
    cpu.step ports fuel host =
      execute (cpu.core.jump (pc + UInt16.ofNat d.length)) ports fuel host pc d >>=
        cpu.retire d.table := by
  rw [step, dispatch_eq, ok_bind]

theorem step_ofCpu_eq (cpu : Cpm.Cpu) (ports : Ports σ) (fuel : Nat) (host : σ) :
    (ofCpu cpu).step ports fuel host =
      execute (cpu.past cpu.decoded) ports fuel host cpu.core.regs.pc cpu.decoded >>=
        (ofCpu cpu).retire cpu.decoded.table :=
  (ofCpu cpu).step_eq ports fuel host

/-- While no repeating output makes more rounds than its time can count, no check of a step
finds a fault, and the step does what it does without the checks. -/
theorem step_ofCpu (cpu : Cpm.Cpu) (ports : Ports σ) {fuel : Nat} (hfuel : fuel ≤ longestOutput)
    (host : σ) :
    (ofCpu cpu).step ports fuel host = .ok ((cpu.step ports fuel host).map .ofStep) := by
  rw [step_ofCpu_eq, execute_eq hfuel, Cpm.Cpu.step]
  cases ho : (cpu.past cpu.decoded).execute ports fuel host cpu.core.regs.pc cpu.decoded with
  | none => rfl
  | some o =>
    have hstates := states_execute_le hfuel ho
    have hlongest := repeatStates_longestOutput
    have hwaiting := cpu.waiting.isLt
    exact retire_ofCpu cpu cpu.decoded.table (by omega)

/-- No check of a step finds a fault, and less than four states are left over again. -/
theorem step_never_faults {cpu : Cpu} (hw : cpu.waiting.toNat < 4) (ports : Ports σ) {fuel : Nat}
    (hfuel : fuel ≤ longestOutput) (host : σ) :
    ∃ r, cpu.step ports fuel host = .ok r ∧ ∀ s, r = some s → s.cpu.waiting.toNat < 4 := by
  obtain ⟨plain, rfl⟩ := exists_ofCpu hw
  refine ⟨_, step_ofCpu plain ports hfuel host, fun s hs => ?_⟩
  obtain ⟨s, -, rfl⟩ := Option.map_eq_some_iff.mp hs
  exact (waiting_ofCpu s.cpu).symm ▸ s.cpu.waiting.isLt

/-! ### Beyond the bound -/

theorem step_mono {cpu : Cpu} {fuel more : Nat} (hle : fuel ≤ more) {host : σ} {s : Step σ}
    (h : cpu.step ports fuel host = .ok (some s)) : cpu.step ports more host = .ok (some s) := by
  rw [step_eq] at h ⊢
  obtain ⟨o, ho, hretire⟩ := exists_of_bind_eq_ok h
  cases o with
  | none => cases hretire
  | some o =>
    rw [execute_mono hle ho]
    exact hretire

/-- Where every round of a repeating output counts B down, unless it is the last, no check of a
step finds a fault, however many rounds are allowed. -/
theorem step_of_countsDown (hports : ports.CountsDown) (cpu : Cpm.Cpu) (fuel : Nat) (host : σ) :
    (ofCpu cpu).step ports fuel host = .ok ((cpu.step ports fuel host).map .ofStep) := by
  obtain hle | hle := Nat.le_total fuel longestOutput
  · exact step_ofCpu cpu ports hle host
  · have hlongest : 0x100 ≤ longestOutput := by decide
    obtain ⟨s, hs, -⟩ := Cpm.Cpu.exists_step_of_countsDown hports cpu host
    have hstep := step_ofCpu cpu ports (Nat.le_refl _) host
    rw [hs _ hlongest] at hstep
    rw [hs _ (Nat.le_trans hlongest hle)]
    exact step_mono hle hstep

/-- No check finds a fault in a step of the machine. -/
theorem step_of_bios {κ : Type} [Console κ] (cpu : Cpm.Cpu) (fuel : Nat) (b : Bios κ) :
    (ofCpu cpu).step Bios.ports fuel b = .ok ((cpu.step Bios.ports fuel b).map .ofStep) :=
  step_of_countsDown Bios.ports_countsDown cpu fuel b

/-- A repeating output that makes more rounds than its time can count, and is not stopped, ends
in a fault. -/
theorem step_faults_of_loop {cpu : Cpm.Cpu} {dir : Direction} {n fuel : Nat} {host : σ}
    {last : Written σ} (hi : cpu.decoded.instruction = some (.output (.otir dir)))
    (h : Loop (Written.next ports cpu.core.regs.pc dir) Written.IsLast n
      ⟨true, cpu.past cpu.decoded, host, []⟩ last)
    (hfuel : n ≤ fuel) (hr : last.running = true) (hlong : longestOutput < n) :
    (ofCpu cpu).step ports fuel host = .error .overflow := by
  have hexecute : execute (cpu.past cpu.decoded) ports fuel host cpu.core.regs.pc cpu.decoded =
      .error .overflow := by
    simp only [execute, hi]
    rw [output_of_loop h hfuel hr, if_neg (by omega)]
  rw [step_ofCpu_eq, hexecute]
  rfl

end Cpu

/-! ### A handler that holds B -/

/-- A handler that leaves one in B for as many traps as its state says, and then zero. -/
def holding : Ports Nat where
  trap c left := ⟨.continue,
    c.onRegs fun r => { r with main := { r.main with b := if left = 0 then 0 else 1 } },
    left - 1, []⟩
  write _ _ left := (left, [])

theorem next_holding (at_ : UInt16) (dir : Direction) {w : Written Nat}
    (hc : w.core.regs.main.c = Port.trap) :
    let next := Written.next holding at_ dir w
    next.running = true ∧ next.core.regs.main.c = Port.trap ∧ next.host = w.host - 1 ∧
      next.core.regs.main.b = if w.host = 0 then 0 else 1 := by
  simp only [Written.next, Core.outputRound, Core.writePort, hc, if_true, holding]
  exact ⟨rfl, hc, trivial, rfl⟩

/-- Against that handler a repeating output makes one round more than it holds B. -/
theorem holding_loop (at_ : UInt16) (dir : Direction) (left : Nat) {w : Written Nat}
    (hc : w.core.regs.main.c = Port.trap) (hleft : w.host = left) :
    ∃ last, Loop (Written.next holding at_ dir) Written.IsLast (left + 1) w last ∧
      last.running = true := by
  induction left generalizing w with
  | zero =>
    obtain ⟨hrunning, -, -, hb⟩ := next_holding at_ dir hc
    rw [if_pos hleft] at hb
    exact ⟨_, .last (.inr hb), hrunning⟩
  | succ left ih =>
    obtain ⟨hrunning, hnextC, hhost, hb⟩ := next_holding at_ dir hc
    rw [hleft, if_neg (Nat.succ_ne_zero left)] at hb
    obtain ⟨last, hloop, hlast⟩ := ih hnextC (by rw [hhost, hleft, Nat.add_sub_cancel])
    refine ⟨last, .next ?_ hloop, hlast⟩
    rintro (h | h)
    · exact absurd (h.symm.trans hrunning) Bool.noConfusion
    · exact absurd (h.symm.trans hb) (by decide)

/-- The time of a repeating output overflows against a handler that holds B for long enough. -/
theorem held_output_faults :
    let mem := (Memory.blank.put8 0 0xED).put8 1 0xB3
    let regs : Registers := { Registers.zero with main := { Bank.zero with c := 0xFF } }
    let cpu : Cpm.Cpu := ⟨⟨regs, mem, .z80⟩, 0, .base, 0, none⟩
    (Cpu.ofCpu cpu).step holding (longestOutput + 1) longestOutput = .error .overflow := by
  intro mem regs cpu
  have hd : cpu.decoded = ⟨.ed, 0xB3, 2, some (.output (.otir .up))⟩ := by
    simp only [Cpm.Cpu.decoded, Window.ofMemory, cpu, regs, mem, Memory.get8_put8]
    rfl
  let start : Written Nat := ⟨true, cpu.past cpu.decoded, longestOutput, []⟩
  have hc : start.core.regs.main.c = Port.trap := rfl
  obtain ⟨last, hloop, hlast⟩ := holding_loop cpu.core.regs.pc .up longestOutput hc rfl
  exact Cpu.step_faults_of_loop (by rw [hd]) hloop (Nat.le_refl _) hlast (Nat.lt_succ_self _)

end Cpm.Checked
