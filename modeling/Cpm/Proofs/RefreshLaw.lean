import Cpm.Proofs.Refresh
import Cpm.Proofs.Rows

/-!
# The refresh register over many steps

From its value at the start, the refresh register counts the clock states of all steps
together: one count for every four, with none lost between steps. Only one instruction and
the port handler can write it; after that instruction the count goes on from what was loaded.
-/

namespace Cpm

def PortCall.keepsRefresh : PortCall → Prop
  | .trap seen _ left => left.regs.r = seen.regs.r
  | .write _ _ => True

theorem dispatch_instruction_eq_ldRA_iff (mode : Mode) (w : Window) :
    (dispatch mode w).instruction = some (.operation .ldRA) ↔
      (dispatch mode w).table = .ed ∧ (dispatch mode w).opcode = 0x4F := by
  obtain ⟨t, d, op, x, y, n, h⟩ := dispatch_eq_found mode w
  have hrow := Tables.effect_lookup mode t d op x y
  have hfound : (dispatch mode w).instruction = some (.operation .ldRA) ↔
      Tables.effect (Tables.lookup mode t d op x y) = .loadsRefresh := by
    rw [h, Tables.effect_eq_loadsRefresh_iff]
    cases Tables.lookup mode t d op x y with
    | none => simp [Decode.found, Decode.entry]
    | some e =>
      obtain ⟨k, i⟩ := e
      simp [Decode.found, Decode.entry]
  have hplace : (dispatch mode w).table = t ∧ (dispatch mode w).opcode = op := by
    rw [h]
    cases Tables.lookup mode t d op x y <;> exact ⟨rfl, rfl⟩
  rw [hfound, hrow, hplace.1, hplace.2]
  by_cases hload : t = .ed ∧ op = 0x4F
  · simp [hload]
  · rw [if_neg hload]
    split <;> simp [hload]

namespace Cpu

variable {σ : Type} {ports : Ports σ} {fuel : Nat} {cpu : Cpu} {host : σ} {s : Step σ}

/-- The next step leaves the refresh register to the clock: it does not load it, and no call
to the handler changes it. -/
structure LeavesRefresh (cpu : Cpu) (ports : Ports σ) (fuel : Nat) (host : σ) : Prop where
  instruction : ¬ (cpu.decoded.table = .ed ∧ cpu.decoded.opcode = 0x4F)
  calls : ∀ call ∈ cpu.portCalls ports fuel host, call.keepsRefresh

/-- One step advances the refresh register by its time. -/
theorem advances_of_leavesRefresh (hleaves : cpu.LeavesRefresh ports fuel host)
    (h : cpu.step ports fuel host = some s) : cpu.Advances s := by
  have hperform : ∀ o, cpu.decoded.instruction = some (.operation o) →
      ((cpu.past cpu.decoded).perform o).core.regs.r = cpu.core.regs.r := by
    intro o hi
    refine (cpu.past cpu.decoded).perform_r ?_
    rintro rfl
    exact hleaves.instruction ((dispatch_instruction_eq_ldRA_iff _ _).mp hi)
  obtain ⟨r, hr, rfl⟩ := step_keeps (P := (·.regs.r = cpu.core.regs.r))
    (fun _ _ _ hkeeps hseen => hkeeps.trans hseen) (fun _ _ hc => hc) (fun _ _ hc => hc)
    hperform hleaves.calls rfl h
  exact advances_retire hr

theorem step_waiting (h : cpu.step ports fuel host = some s) :
    s.cpu.waiting = leftOver cpu.waiting s.cpu.states := by
  obtain ⟨o, -, rfl⟩ := Option.map_eq_some_iff.mp h
  rfl

/-- Steps one after another that leave the refresh register to the clock, with their time
in all. -/
inductive Elapses (ports : Ports σ) (fuel : Nat) : Nat → Cpu → σ → Cpu → σ → Prop
  | done (cpu : Cpu) (host : σ) : Elapses ports fuel 0 cpu host cpu host
  | step {cpu last : Cpu} {host lastHost : σ} {s : Step σ} {time : Nat}
      (leaves : cpu.LeavesRefresh ports fuel host) (h : cpu.step ports fuel host = some s)
      (rest : Elapses ports fuel time s.cpu s.host last lastHost) :
      Elapses ports fuel (s.cpu.states + time) cpu host last lastHost

/-- The register and the states left over are what a start from `r` with `waiting` states
left over comes to after `time` states: the top bit is that of `r`, and the low seven bits
count one for every four states. -/
structure Counted (last : Cpu) (r : UInt8) (waiting : Fin 4) (time : Nat) : Prop where
  top : last.core.regs.r &&& 0x80 = r &&& 0x80
  low : last.core.regs.r.toNat % 128 = (r.toNat % 128 + (waiting.val + time) / 4) % 128
  leftOver : last.waiting.val = (waiting.val + time) % 4

theorem top_eq_of_div_eq {u v : UInt8} (h : u.toNat / 128 = v.toNat / 128) :
    u &&& 0x80 = v &&& 0x80 := by
  have htop : ∀ w : UInt8, w &&& 0x80 = UInt8.ofNat (w.toNat / 128 * 128) :=
    eq_of_all_allBytes (by decide +kernel)
  rw [htop, htop, h]

/-- An advanced register is counted. -/
theorem counted_of_refresh (regs : Registers) {last : Cpu} {waiting : Fin 4} {time : Nat}
    (hr : last.core.regs.r = (regs.refresh waiting time).r)
    (hw : last.waiting = Cpm.leftOver waiting time) : last.Counted regs.r waiting time := by
  have hbyte : regs.r.toNat < 256 := regs.r.toNat_lt
  have hsum := regs.toNat_refresh waiting time
  rw [← hr] at hsum
  refine ⟨top_eq_of_div_eq ?_, ?_, congrArg Fin.val hw⟩
  · omega
  · omega

/-- A run of steps advances the refresh register by the time of the whole run. -/
theorem Elapses.refresh {time : Nat} {last : Cpu} {lastHost : σ}
    (h : Elapses ports fuel time cpu host last lastHost) :
    last.core.regs.r = (cpu.core.regs.refresh cpu.waiting time).r ∧
      last.waiting = Cpm.leftOver cpu.waiting time := by
  induction h with
  | done cpu host =>
    refine ⟨?_, Fin.ext ?_⟩
    · apply UInt8.toNat_inj.mp
      rw [Registers.toNat_refresh]
      have := cpu.core.regs.r.toNat_lt
      omega
    · have := cpu.waiting.isLt
      simp only [Cpm.leftOver]
      omega
  | @step cpu last host lastHost s time leaves hs rest ih =>
    have hfirst : s.cpu.core.regs.r = (cpu.core.regs.refresh cpu.waiting s.cpu.states).r :=
      advances_of_leavesRefresh leaves hs
    obtain ⟨hr, hw⟩ := ih
    rw [step_waiting hs] at hr hw
    rw [Registers.refresh_r_congr hfirst, Registers.refresh_refresh] at hr
    rw [leftOver_leftOver] at hw
    exact ⟨hr, hw⟩

/-- In a run of steps that leave it to the clock, the refresh register counts the time of
the whole run. A step that loads it from the accumulator starts the count again from there,
with its own nine states counted and the states left over before it not lost. -/
theorem refresh_counts_elapsed_time (ports : Ports σ) (fuel : Nat) (cpu : Cpu) (host : σ) :
    (∀ (time : Nat) (last : Cpu) (lastHost : σ),
      Elapses ports fuel time cpu host last lastHost →
        last.Counted cpu.core.regs.r cpu.waiting time) ∧
    (cpu.decoded.table = .ed ∧ cpu.decoded.opcode = 0x4F →
      ∃ s, cpu.step ports fuel host = some s ∧ s.cpu.states = 9 ∧
        ∀ (time : Nat) (last : Cpu) (lastHost : σ),
          Elapses ports fuel time s.cpu s.host last lastHost →
            last.Counted cpu.core.regs.main.a cpu.waiting (s.cpu.states + time)) := by
  constructor
  · intro time last lastHost h
    exact counted_of_refresh cpu.core.regs h.refresh.1 h.refresh.2
  · intro hload
    have hi := (dispatch_instruction_eq_ldRA_iff _ _).mpr hload
    refine ⟨_, cpu.step_of_operation ports fuel host hi, rfl, ?_⟩
    intro time last lastHost h
    obtain ⟨hr, hw⟩ := h.refresh
    let loaded : Registers := { cpu.core.regs with r := cpu.core.regs.main.a }
    have hboth := loaded.refresh_refresh cpu.waiting 9 time
    refine counted_of_refresh loaded (hr.trans ?_) (hw.trans ?_)
    · exact (Registers.refresh_r_congr (q := loaded.refresh cpu.waiting 9) rfl _ _).trans
        (congrArg Registers.r hboth)
    · exact leftOver_leftOver cpu.waiting 9 time

/-- The count goes round in the low seven bits, and starts again where the register is
loaded in between. -/
theorem loaded_refresh_goes_on_counting :
    let mem := ((Memory.blank.put8 0 0xED).put8 1 0x4F).put8 2 0x03
    let regs : Registers := { Registers.zero with main := { Bank.zero with a := 0x7F }, r := 0xFF }
    let cpu : Cpu := ⟨⟨regs, mem, .z80⟩, 3, .base, 0, none⟩
    let behind : Cpu := ⟨⟨{ regs with pc := 2 }, mem, .z80⟩, 3, .base, 0, none⟩
    (∃ last, Elapses .unattached 0 6 behind () last () ∧ last.core.regs.r &&& 0x80 = 0x80 ∧
      last.core.regs.r.toNat % 128 = 1 ∧ last.waiting.val = 1) ∧
    (cpu.decoded.table = .ed ∧ cpu.decoded.opcode = 0x4F) ∧
    ∃ s last, cpu.step .unattached 0 () = some s ∧ Elapses .unattached 0 6 s.cpu () last () ∧
      last.core.regs.r &&& 0x80 = 0 ∧ last.core.regs.r.toNat % 128 = 3 ∧
      last.waiting.val = 2 := by
  intro mem regs cpu behind
  have hload : cpu.decoded = ⟨.ed, 0x4F, 2, some (.operation .ldRA)⟩ := by
    simp only [decoded, Window.ofMemory, cpu, regs, mem, Registers.zero, Memory.get8_put8]
    rfl
  have htable : cpu.decoded.table = .ed ∧ cpu.decoded.opcode = 0x4F := by
    rw [hload]
    exact ⟨rfl, rfl⟩
  -- The step on the byte behind the load takes six states, from wherever it is reached.
  have hnext : ∀ c : Cpu, c.core.mem = mem → c.core.regs.pc = 2 → c.core.mode = .z80 →
      ∃ last, Elapses .unattached 0 6 c () last () := by
    intro c hmem hpc hmode
    have hd : c.decoded = ⟨.base, 0x03, 1, some (.operation (.incPair .bc))⟩ := by
      simp only [decoded, Window.ofMemory, hmem, hpc, hmode, mem, Memory.get8_put8]
      rfl
    have hi : c.decoded.instruction = some (.operation (.incPair .bc)) := by rw [hd]
    refine ⟨_, .step ⟨by rw [hd]; decide, ?_⟩ (c.step_of_operation _ _ _ hi) (.done _ _)⟩
    rw [portCalls_eq_nil (by simp [hi])]
    exact fun _ hmem => absurd hmem List.not_mem_nil
  refine ⟨?_, htable, ?_⟩
  · obtain ⟨last, h⟩ := hnext behind rfl rfl rfl
    obtain ⟨htop, hlow, hleft⟩ :=
      (refresh_counts_elapsed_time .unattached 0 behind ()).1 6 last () h
    have hr : behind.core.regs.r = 0xFF := rfl
    have hw : behind.waiting = 3 := rfl
    rw [hr] at htop hlow
    rw [hw] at hlow hleft
    exact ⟨last, h, htop.trans (by decide), hlow.trans (by decide), hleft.trans (by decide)⟩
  · obtain ⟨s, hs, htime, hlaw⟩ := (refresh_counts_elapsed_time .unattached 0 cpu ()).2 htable
    have hstep := cpu.step_of_operation .unattached 0 () (congrArg Decoded.instruction hload)
    have hcore : s.cpu.core.mem = mem ∧ s.cpu.core.regs.pc = 2 ∧ s.cpu.core.mode = .z80 := by
      rw [hs, hload] at hstep
      cases hstep
      exact ⟨rfl, rfl, rfl⟩
    obtain ⟨last, h⟩ := hnext s.cpu hcore.1 hcore.2.1 hcore.2.2
    obtain ⟨htop, hlow, hleft⟩ := hlaw 6 last () h
    have ha : cpu.core.regs.main.a = 0x7F := rfl
    have hw : cpu.waiting = 3 := rfl
    rw [ha] at htop hlow
    rw [hw, htime] at hlow hleft
    exact ⟨s, last, hs, h, htop.trans (by decide), hlow.trans (by decide),
      hleft.trans (by decide)⟩

end Cpu

end Cpm
