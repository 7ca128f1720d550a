import Cpm.Proofs.FlagReadings
import Cpm.Proofs.Loops
import Cpm.Proofs.Rows
import Cpm.Proofs.Stopping
import Cpm.Sequencer

/-!
# What an instruction writes to the ports

Four kinds of instruction write to a port. Each byte goes one of three ways: a write to the
trap port calls the handler with the program counter behind the instruction, one to the mode
port selects the mode and calls nobody, and any other passes the byte out. With a handler that
leaves the core alone the bytes of a repeating output are those the loop starts from, in order,
up to the last or up to the first trap that is answered by a halt.
-/

namespace Cpm

/-! ### The output instructions -/

namespace Tables

theorem leading_of_next? {mode : Mode} {op : UInt8} {t : Table}
    (h : next? mode .base op = some t) : leading t = 1 := by
  obtain ⟨-, rfl | rfl | rfl | rfl⟩ | ⟨hbase, -⟩ | ⟨hbase, -⟩ := next?_eq_some h
  · rfl
  · rfl
  · rfl
  · rfl
  · cases hbase
  · cases hbase

theorem leading_of_next?_next? {mode : Mode} {op op' : UInt8} {t u : Table}
    (h : next? mode .base op = some t) (h' : next? mode t op' = some u) : leading u = 3 := by
  obtain ⟨rfl, -⟩ | ⟨-, rfl⟩ | ⟨-, rfl⟩ := next?_eq_some h'
  · exact absurd (leading_of_next? h) (by decide)
  · rfl
  · rfl

/-- The rows that write to a port. -/
theorem effect_lookup_eq_writesPort_iff {mode : Mode} {t : Table} {d op x y : UInt8} {n : Nat} :
    effect (lookup mode t d op x y) = .writesPort n ↔
      writesPort t op = true ∧ n = 1 - leading t := by
  rw [effect_lookup]
  constructor
  · intro h
    split at h
    · cases h
    · split at h
      · next hw => exact ⟨hw, (Effect.writesPort.inj h).symm⟩
      · cases h
  · rintro ⟨hw, rfl⟩
    rw [if_neg, if_pos hw]
    rintro ⟨rfl, rfl⟩
    exact absurd hw (by decide)

end Tables

/-- What is found is a row of a table, behind the bytes that lead to the table. -/
theorem dispatch_eq_found_leading (mode : Mode) (w : Window) :
    ∃ t d op x y,
      dispatch mode w = Decode.found t op (Tables.leading t) (Tables.lookup mode t d op x y) := by
  unfold dispatch
  split
  · exact ⟨.base, 0, w.b0, w.b1, w.b2, rfl⟩
  · next t ht =>
    unfold Tables.behind
    split
    · exact ⟨t, 0, w.b1, w.b2, w.b3, by rw [Tables.leading_of_next? ht]⟩
    · next u hu => exact ⟨u, w.b2, w.b3, 0, 0, by rw [Tables.leading_of_next?_next? ht hu]⟩

/-- Which instructions write to a port, by their opcode. They are two bytes long. -/
theorem dispatch_output (mode : Mode) (w : Window) :
    ((∃ o, (dispatch mode w).instruction = some (.output o)) ↔
      Tables.writesPort (dispatch mode w).table (dispatch mode w).opcode = true) ∧
    ∀ o, (dispatch mode w).instruction = some (.output o) → (dispatch mode w).length = 2 := by
  obtain ⟨t, d, op, x, y, h⟩ := dispatch_eq_found_leading mode w
  have hrow := @Tables.effect_lookup_eq_writesPort_iff mode t d op x y
  rw [h]
  generalize Tables.lookup mode t d op x y = e at hrow
  have hfound : ∀ o, (Decode.found t op (Tables.leading t) e).instruction = some (.output o) ↔
      ∃ n, e = Decode.outputEntry n o := by
    intro o
    cases e with
    | none => simp [Decode.found, Decode.outputEntry]
    | some e =>
      obtain ⟨k, i⟩ := e
      simp [Decode.found, Decode.outputEntry]
  have hplace : (Decode.found t op (Tables.leading t) e).table = t ∧
      (Decode.found t op (Tables.leading t) e).opcode = op := by
    cases e <;> exact ⟨rfl, rfl⟩
  rw [hplace.1, hplace.2]
  refine ⟨⟨?_, fun hw => ?_⟩, fun o ho => ?_⟩
  · rintro ⟨o, ho⟩
    obtain ⟨n, rfl⟩ := (hfound o).mp ho
    exact (hrow.mp rfl).1
  · obtain ⟨o, ho⟩ := Tables.effect_eq_writesPort_iff.mp (hrow.mpr ⟨hw, rfl⟩)
    exact ⟨o, (hfound o).mpr ⟨_, ho⟩⟩
  · obtain ⟨n, rfl⟩ := (hfound o).mp ho
    obtain ⟨hw, rfl⟩ := hrow.mp rfl
    have hlead : Tables.leading t ≤ 1 := by
      cases t
      case ddcb | fdcb => exact absurd hw Bool.noConfusion
      all_goals decide
    simp only [Decode.found, Decode.outputEntry]
    omega

/-! ### What is written, and what it asks of the handler -/

def Ports.LeavesCore {σ : Type} (ports : Ports σ) : Prop := ∀ c h, (ports.trap c h).core = c

def Mode.selected (m : Mode) (v : UInt8) : Mode :=
  if v = 0xFF then .i8080 else if v = 0xFE then .z80 else m

theorem Mode.getD_ofPortValue? (m : Mode) (v : UInt8) : (ofPortValue? v).getD m = m.selected v := by
  unfold ofPortValue? selected
  split
  · rfl
  · split <;> rfl

def Port.modeAfter (port : UInt8) (m : Mode) (bytes : List UInt8) : Mode :=
  if port = Port.mode then bytes.foldl Mode.selected m else m

theorem Port.modeAfter_append (port : UInt8) (m : Mode) (bytes more : List UInt8) :
    modeAfter port m (bytes ++ more) = modeAfter port (modeAfter port m bytes) more := by
  unfold modeAfter
  split
  · exact List.foldl_append
  · rfl

/-- What writing bytes to a port asks of the handler: one trap for each byte, with the given
program counter and a core that is left as it was; nothing; or to take every byte in turn. -/
def Asks (pc : UInt16) (port : UInt8) (bytes : List UInt8) (calls : List PortCall) : Prop :=
  if port = Port.trap then
    calls.length = bytes.length ∧
      ∀ call ∈ calls, ∃ seen action, call = .trap seen action seen ∧ seen.regs.pc = pc
  else calls = if port = Port.mode then [] else bytes.map (.write port)

namespace Asks

variable {pc : UInt16} {port : UInt8} {bytes more : List UInt8} {calls others : List PortCall}

theorem nil : Asks pc port [] [] := by
  unfold Asks
  split
  · exact ⟨rfl, fun _ h => absurd h List.not_mem_nil⟩
  · split <;> rfl

theorem append (h : Asks pc port bytes calls) (h' : Asks pc port more others) :
    Asks pc port (bytes ++ more) (calls ++ others) := by
  unfold Asks at *
  split at h
  · next ht =>
    rw [if_pos ht] at h' ⊢
    refine ⟨by rw [List.length_append, List.length_append, h.1, h'.1], fun call hmem => ?_⟩
    exact (List.mem_append.mp hmem).elim (h.2 call) (h'.2 call)
  · next ht =>
    rw [if_neg ht] at h' ⊢
    rw [h, h']
    split
    · rfl
    · exact List.map_append.symm

end Asks

namespace PortCall

/-- The last of the calls asked to stop, and none before it. -/
def StopsLast (calls : List PortCall) : Prop :=
  ∃ earlier last, calls = earlier ++ [last] ∧ last.stops ∧ ∀ call ∈ earlier, ¬ call.stops

end PortCall

namespace Core

variable {σ : Type} {ports : Ports σ}

/-- One byte written to a port, by a trap only if the handler leaves the core alone: the mode is
the only part of the core that can change, and the processor goes on unless the call that was
made asked to stop. -/
theorem writePort_asks {port : UInt8} (hleaves : port = Port.trap → ports.LeavesCore) (c : Core)
    (h : σ × List PortCall) (at_ : UInt16) (value : UInt8) :
    let w := c.writePort ports.recorded h at_ port value
    w.core = { c with mode := Port.modeAfter port c.mode [value] } ∧
      ∃ calls, w.host.2 = h.2 ++ calls ∧ Asks c.regs.pc port [value] calls ∧
        calls.length ≤ 1 ∧ (w.running = false ↔ ∃ call ∈ calls, call.stops) := by
  intro w
  by_cases ht : port = Port.trap
  · have hmode : port ≠ Port.mode := by
      rw [ht]
      decide
    have hw : w = ⟨(ports.trap c h.1).action = .continue, (ports.trap c h.1).core,
        ((ports.trap c h.1).host, h.2 ++ [.trap c (ports.trap c h.1).action
          (ports.trap c h.1).core]), (ports.trap c h.1).log⟩ := if_pos ht
    rw [hw]
    refine ⟨?_, [.trap c (ports.trap c h.1).action (ports.trap c h.1).core], rfl, ?_, Nat.le_refl 1,
      ?_⟩
    · rw [hleaves ht, Port.modeAfter, if_neg hmode]
    · rw [Asks, if_pos ht, hleaves ht]
      refine ⟨rfl, fun call hmem => ?_⟩
      exact ⟨c, _, List.mem_singleton.mp hmem, rfl⟩
    · simp only [List.mem_singleton, exists_eq_left, PortCall.stops]
      cases (ports.trap c h.1).action <;> decide
  · by_cases hm : port = Port.mode
    · have hw : w = ⟨true, (c.selectMode at_ value).1, h, [(c.selectMode at_ value).2]⟩ := by
        simp only [w, writePort, if_neg ht, if_pos hm]
      rw [hw]
      refine ⟨?_, [], (List.append_nil _).symm, ?_, Nat.zero_le 1, ?_⟩
      · rw [selectMode_core, Mode.getD_ofPortValue?, Port.modeAfter, if_pos hm]
        rfl
      · rw [Asks, if_neg ht, if_pos hm]
      · simp
    · have hw : w = ⟨true, c, ((ports.write port value h.1).1, h.2 ++ [.write port value]),
          (ports.write port value h.1).2⟩ := by
        simp only [w, writePort, if_neg ht, if_neg hm, Ports.recorded]
      rw [hw]
      refine ⟨?_, [.write port value], rfl, ?_, Nat.le_refl 1, ?_⟩
      · rw [Port.modeAfter, if_neg hm]
      · rw [Asks, if_neg ht, if_neg hm]
        rfl
      · simp [PortCall.stops]

end Core

/-! ### The bytes of an output instruction, and the core after them -/

namespace Core

/-- The bytes at HL and behind it, in a direction. -/
def blockBytes (c : Core) (dir : Direction) (n : Nat) : List UInt8 :=
  (List.range n).map fun i => c.mem.get8 (c.regs.main.hl + UInt16.ofNat i * dir.stride)

theorem length_blockBytes (c : Core) (dir : Direction) (n : Nat) :
    (c.blockBytes dir n).length = n := by
  simp [blockBytes]

theorem blockBytes_succ (c : Core) (dir : Direction) (n : Nat) :
    c.blockBytes dir (n + 1) = c.blockBytes dir n ++
      [c.mem.get8 (c.regs.main.hl + UInt16.ofNat n * dir.stride)] := by
  simp [blockBytes, List.range_succ]

theorem take_blockBytes (c : Core) (dir : Direction) {j n : Nat} (h : j ≤ n) :
    (c.blockBytes dir n).take j = c.blockBytes dir j := by
  simp [blockBytes, ← List.map_take, List.take_range, Nat.min_eq_left h]

end Core

/-- The bank after rounds of block output: B counted down, HL moved, and from the first
round on the flags of B. -/
def Bank.counted (k : Bank) (dir : Direction) : Nat → Bank
  | 0 => k
  | n + 1 =>
    let b := k.b - UInt8.ofNat (n + 1)
    { k.setHl (k.hl + UInt16.ofNat (n + 1) * dir.stride) with
      b := b
      f := (Flags.ofSignZero b).set .subtract true |>.set .carry k.f.carry }

namespace Bank

variable (k : Bank) (dir : Direction) (n : Nat)

theorem b_counted : (k.counted dir n).b = k.b - UInt8.ofNat n := by
  cases n with
  | zero => simp [counted]
  | succ n => rfl

theorem c_counted : (k.counted dir n).c = k.c := by
  cases n <;> rfl

theorem hl_counted : (k.counted dir n).hl = k.hl + UInt16.ofNat n * dir.stride := by
  cases n with
  | zero => simp [counted]
  | succ n => exact hl_setHl k _

/-- The carry stays as it was. -/
theorem carry_counted : (k.counted dir n).f.carry = k.f.carry := by
  cases n with
  | zero => rfl
  | succ n => exact Flags.carry_set _ _

/-- One more round: B is counted down, HL moves, and the flags are those of B. -/
theorem counted_succ :
    let one := { k.counted dir n with b := (k.counted dir n).b - 1 }.setHl
      ((k.counted dir n).hl + dir.stride)
    { one with f := (Flags.ofSignZero one.b).set .subtract true |>.set .carry one.f.carry } =
      k.counted dir (n + 1) := by
  intro one
  have hb : one.b = k.b - UInt8.ofNat (n + 1) := by
    show (k.counted dir n).b - 1 = _
    rw [b_counted, UInt8.ofNat_add]
    have : (UInt8.ofNat 1) = 1 := rfl
    grind
  have hhl : (k.counted dir n).hl + dir.stride = k.hl + UInt16.ofNat (n + 1) * dir.stride := by
    rw [hl_counted, UInt16.ofNat_add]
    have : (UInt16.ofNat 1) = 1 := rfl
    grind
  have hcarry : one.f.carry = k.f.carry := carry_counted k dir n
  have hh : one.h = Word.high (k.hl + UInt16.ofNat (n + 1) * dir.stride) := congrArg Word.high hhl
  have hl : one.l = Word.low (k.hl + UInt16.ofNat (n + 1) * dir.stride) := congrArg Word.low hhl
  have hrest : one.a = k.a ∧ one.c = k.c ∧ one.d = k.d ∧ one.e = k.e := by
    cases n <;> exact ⟨rfl, rfl, rfl, rfl⟩
  rw [hcarry, hb, hh, hl, hrest.1, hrest.2.1, hrest.2.2.1, hrest.2.2.2]
  rfl

end Bank

namespace Output

def port (c : Core) : Output → UInt8
  | .outA n => n
  | .outC _ | .outi _ | .otir _ => c.regs.main.c

/-- The bytes that an instruction writes, if nothing stops it. -/
def bytes (c : Core) : Output → List UInt8
  | .outA _ => [c.regs.main.a]
  | .outC src => [(src.map c.regs.main.get).getD 0]
  | .outi dir => c.blockBytes dir 1
  | .otir dir => c.blockBytes dir (Core.roundsOfByte c.regs.main.b)

/-- The core after the first `n` bytes were written. -/
def after (o : Output) (c : Core) (n : Nat) : Core where
  regs := { c.regs with main := match o with
    | .outA _ | .outC _ => c.regs.main
    | .outi dir | .otir dir => c.regs.main.counted dir n }
  mem := c.mem
  mode := Port.modeAfter (o.port c) c.mode ((o.bytes c).take n)

def states (n : Nat) : Output → Nat
  | .outA _ => 11
  | .outC _ => 12
  | .outi _ => 16
  | .otir _ => repeatStates n

/-- The outcome of an instruction of which `n` bytes were written: all of them, or those up
to the first trap that asked to stop. -/
structure Performed {σ : Type} (o : Output) (c : Core) (n : Nat) (r : Outcome (σ × List PortCall)) :
    Prop where
  pos : 0 < n
  le : n ≤ (o.bytes c).length
  asks : Asks c.regs.pc (o.port c) ((o.bytes c).take n) r.host.2
  core : r.core = o.after c n
  ends : (n = (o.bytes c).length ∧ (∀ call ∈ r.host.2, ¬ call.stops) ∧ r.halt = none ∧
      r.states = o.states n) ∨
    (PortCall.StopsLast r.host.2 ∧ r.halt = some .trap ∧ r.states = 0)

end Output

/-! ### Rounds of block output -/

namespace Core

variable {σ : Type} {ports : Ports σ}

def afterRounds (c : Core) (dir : Direction) (n : Nat) : Core where
  regs := { c.regs with main := c.regs.main.counted dir n }
  mem := c.mem
  mode := Port.modeAfter c.regs.main.c c.mode (c.blockBytes dir n)

/-- The state after rounds of block output that started from `c`. -/
structure InRound (c : Core) (dir : Direction) (n : Nat) (w : Written (σ × List PortCall)) :
    Prop where
  core : w.core = c.afterRounds dir n
  asks : Asks c.regs.pc c.regs.main.c (c.blockBytes dir n) w.host.2
  running : (w.running = true ∧ ∀ call ∈ w.host.2, ¬ call.stops) ∨
    (w.running = false ∧ PortCall.StopsLast w.host.2)

/-- Before the first round. -/
theorem inRound_zero (c : Core) (dir : Direction) (host : σ) :
    c.InRound dir 0 ⟨true, c, (host, []), []⟩ where
  core := by simp [afterRounds, Bank.counted, blockBytes, Port.modeAfter]
  asks := Asks.nil
  running := .inl ⟨rfl, fun _ h => absurd h List.not_mem_nil⟩

/-- Calls that went on, with at most one more behind them. -/
theorem running_append (before : List PortCall) {calls : List PortCall} {running : Bool}
    (hbefore : ∀ call ∈ before, ¬ call.stops) (hlen : calls.length ≤ 1)
    (hstops : running = false ↔ ∃ call ∈ calls, call.stops) :
    (running = true ∧ ∀ call ∈ before ++ calls, ¬ call.stops) ∨
      (running = false ∧ PortCall.StopsLast (before ++ calls)) := by
  cases hr : running with
  | true =>
    refine .inl ⟨rfl, fun call hmem hs => ?_⟩
    obtain hmem | hmem := List.mem_append.mp hmem
    · exact hbefore call hmem hs
    · exact absurd (hr.symm.trans (hstops.mpr ⟨call, hmem, hs⟩)) Bool.noConfusion
  | false =>
    obtain ⟨call, hmem, hs⟩ := hstops.mp hr
    obtain ⟨one, rfl⟩ := List.length_eq_one_iff.mp
      (Nat.le_antisymm hlen (List.length_pos_of_mem hmem))
    rw [List.mem_singleton.mp hmem] at hs
    exact .inr ⟨rfl, before, one, rfl, hs, hbefore⟩

/-- One more round, which traps only to a handler that leaves the core alone. -/
theorem InRound.next {c : Core} (hleaves : c.regs.main.c = Port.trap → ports.LeavesCore)
    (at_ : UInt16) {dir : Direction} {n : Nat} {w : Written (σ × List PortCall)}
    (h : c.InRound dir n w) (hgo : w.running = true) :
    c.InRound dir (n + 1) (Written.next ports.recorded at_ dir w) := by
  obtain ⟨running, core, host, log⟩ := w
  obtain ⟨hcore, hasks, hrunning⟩ := h
  simp only at hcore hasks hrunning hgo
  subst hcore hgo
  have hbefore : ∀ call ∈ host.2, ¬ call.stops := by simpa using hrunning
  let x := c.afterRounds dir n
  let stepped := x.onRegs fun r =>
    { r with main := { r.main with b := r.main.b - 1 }.setHl (r.main.hl + dir.stride) }
  have hport : x.regs.main.c = c.regs.main.c := Bank.c_counted _ _ _
  obtain ⟨hcore, calls, hhost, hcalls, hlen, hstops⟩ := writePort_asks (hport ▸ hleaves) stepped
    host at_ (x.mem.get8 x.regs.main.hl)
  have hvalue : x.mem.get8 x.regs.main.hl =
      c.mem.get8 (c.regs.main.hl + UInt16.ofNat n * dir.stride) :=
    congrArg c.mem.get8 (Bank.hl_counted _ _ _)
  have hmode : stepped.mode = Port.modeAfter c.regs.main.c c.mode (c.blockBytes dir n) := rfl
  rw [hmode, hport, hvalue, ← Port.modeAfter_append, ← blockBytes_succ] at hcore
  rw [hport, hvalue] at hcalls
  have hall : (Written.next ports.recorded at_ dir ⟨true, x, host, log⟩).host.2 = host.2 ++ calls :=
    hhost
  refine ⟨?_, ?_, ?_⟩
  · have hround : (Written.next ports.recorded at_ dir ⟨true, x, host, log⟩).core =
        (stepped.writePort ports.recorded host at_ x.regs.main.c
          (x.mem.get8 x.regs.main.hl)).core.onRegs fun r =>
            r.setFlags (Flags.ofSignZero r.main.b |>.set .subtract true
              |>.set .carry r.main.f.carry) := rfl
    rw [hround, hport, hvalue, hcore]
    have hsucc := c.regs.main.counted_succ dir n
    simp only [afterRounds, ← hsucc]
    rfl
  · rw [hall, blockBytes_succ]
    exact hasks.append hcalls
  · rw [hall]
    exact running_append host.2 hbefore hlen hstops

/-- A round that traps only to a handler that leaves the core alone counts B down and keeps C. -/
theorem next_b_c {w : Written (σ × List PortCall)}
    (hleaves : w.core.regs.main.c = Port.trap → ports.LeavesCore) (at_ : UInt16)
    (dir : Direction) :
    (Written.next ports.recorded at_ dir w).core.regs.main.b = w.core.regs.main.b - 1 ∧
      (Written.next ports.recorded at_ dir w).core.regs.main.c = w.core.regs.main.c := by
  let stepped := w.core.onRegs fun r =>
    { r with main := { r.main with b := r.main.b - 1 }.setHl (r.main.hl + dir.stride) }
  obtain ⟨hcore, -⟩ := writePort_asks hleaves stepped w.host at_
    (w.core.mem.get8 w.core.regs.main.hl)
  exact ⟨congrArg (·.regs.main.b) hcore, congrArg (·.regs.main.c) hcore⟩

/-- The repeating output makes its rounds up to the last, or up to one that stops. -/
theorem exists_loop_inRound {c : Core} (hleaves : c.regs.main.c = Port.trap → ports.LeavesCore)
    (host : σ) (at_ : UInt16) (dir : Direction) :
    ∃ n w, 0 < n ∧ n ≤ roundsOfByte c.regs.main.b ∧
      Loop (Written.next ports.recorded at_ dir) Written.IsLast n ⟨true, c, (host, []), []⟩ w ∧
      c.InRound dir n w ∧ (w.running = true → n = roundsOfByte c.regs.main.b) := by
  -- Port C stays what it was, so a round that traps leaves the count to itself.
  let samePort (w : Written (σ × List PortCall)) : Prop :=
    w.core.regs.main.c = c.regs.main.c
  have hround : ∀ w, samePort w → (Written.next ports.recorded at_ dir w).IsLast ∨
      (samePort (Written.next ports.recorded at_ dir w) ∧
        (Written.next ports.recorded at_ dir w).core.regs.main.b = w.core.regs.main.b - 1) := by
    intro w hw
    obtain ⟨hb, hc⟩ := next_b_c (hw ▸ hleaves) at_ dir
    exact .inr ⟨hc.trans hw, hb⟩
  have hstart : samePort ⟨true, c, (host, []), []⟩ := rfl
  obtain ⟨n, w, hn, hloop⟩ := Written.exists_loop hround hstart
  have hend : c.InRound dir (0 + n) w :=
    hloop.holds_after (P := fun i w => c.InRound dir i w ∧ w.running = true)
      (fun i w h => h.1.next hleaves at_ h.2)
      (fun i w h hgo => ⟨h, Bool.not_eq_false _ ▸ fun hr => hgo (.inl hr)⟩)
      ⟨inRound_zero c dir host, rfl⟩
  rw [Nat.zero_add] at hend
  refine ⟨n, w, hloop.pos, hn, hloop, hend, fun hr => eq_roundsOfByte hloop.pos hn ?_⟩
  obtain hstop | hb := hloop.ends_final
  · exact absurd (hstop.symm.trans hr) Bool.noConfusion
  · rw [hend.core] at hb
    exact (Bank.b_counted _ _ _).symm.trans hb

/-- How the outcome of writes to a port tells whether they were all made. -/
theorem performed_ofWritten {o : Output} {c : Core} {n : Nat} {w : Written (σ × List PortCall)}
    (pos : 0 < n) (le : n ≤ (o.bytes c).length)
    (asks : Asks c.regs.pc (o.port c) ((o.bytes c).take n) w.host.2)
    (core : w.core = o.after c n)
    (running : (w.running = true ∧ ∀ call ∈ w.host.2, ¬ call.stops) ∨
      (w.running = false ∧ PortCall.StopsLast w.host.2))
    (all : w.running = true → n = (o.bytes c).length) :
    o.Performed c n (.ofWritten w (o.states n)) := by
  refine ⟨pos, le, by rw [Outcome.host_ofWritten]; exact asks,
    by rw [Outcome.core_ofWritten]; exact core, ?_⟩
  rw [Outcome.host_ofWritten]
  obtain ⟨hr, hgo⟩ | ⟨hr, hstop⟩ := running
  · rw [Outcome.ofWritten, if_pos hr]
    exact .inl ⟨all hr, hgo, rfl, rfl⟩
  · rw [Outcome.ofWritten, if_neg (by rw [hr]; exact Bool.false_ne_true)]
    exact .inr ⟨hstop, rfl, rfl⟩

/-- An output of one byte. -/
theorem performed_writePort {o : Output} {c : Core}
    (hleaves : o.port c = Port.trap → ports.LeavesCore) {host : σ} {at_ : UInt16} {value : UInt8}
    (hbytes : o.bytes c = [value])
    (hmain : (o.after c 1).regs = c.regs) :
    o.Performed c 1 (.ofWritten (c.writePort ports.recorded (host, []) at_ (o.port c) value)
      (o.states 1)) := by
  obtain ⟨hcore, calls, hhost, hasks, hlen, hstops⟩ :=
    writePort_asks hleaves c (host, []) at_ value
  rw [List.nil_append] at hhost
  have hrunning := running_append [] (fun _ h => absurd h List.not_mem_nil) hlen hstops
  refine performed_ofWritten (by decide) (by simp [hbytes]) ?_ ?_ ?_ (by simp [hbytes])
  · rw [hhost, hbytes]
    exact hasks
  · rw [hcore, ← hmain]
    simp only [Output.after, hbytes]
    rfl
  · rw [hhost]
    exact hrunning

/-- The rounds of a block output that can make up to `m` of them. -/
theorem performed_of_inRound {o : Output} {c : Core} {dir : Direction} {m n : Nat}
    {w : Written (σ × List PortCall)} (hport : o.port c = c.regs.main.c)
    (hbytes : o.bytes c = c.blockBytes dir m)
    (hregs : (o.after c n).regs = (c.afterRounds dir n).regs) (pos : 0 < n) (le : n ≤ m)
    (h : c.InRound dir n w) (all : w.running = true → n = m) :
    o.Performed c n (.ofWritten w (o.states n)) := by
  have hlen : (o.bytes c).length = m := by rw [hbytes, length_blockBytes]
  have htake : (o.bytes c).take n = c.blockBytes dir n := by rw [hbytes, take_blockBytes c dir le]
  refine performed_ofWritten pos (hlen ▸ le) ?_ ?_ h.running (hlen ▸ all)
  · rw [hport, htake]
    exact h.asks
  · have hmode : (o.after c n).mode = (c.afterRounds dir n).mode := by
      simp only [Output.after, afterRounds, htake, hport]
    rw [h.core]
    show c.afterRounds dir n = ⟨(o.after c n).regs, c.mem, (o.after c n).mode⟩
    rw [hregs, hmode]
    rfl

/-- An output instruction that comes to its end has performed its writes. -/
theorem performed_of_output {o : Output} {c : Core}
    (hleaves : o.port c = Port.trap → ports.LeavesCore) {host : σ} {at_ : UInt16} {fuel : Nat}
    {r : Outcome (σ × List PortCall)}
    (h : c.output ports.recorded fuel (host, []) at_ o = some r) : ∃ n, o.Performed c n r := by
  cases o with
  | outA port =>
    cases h
    exact ⟨1, performed_writePort (o := .outA port) hleaves rfl rfl⟩
  | outC src =>
    cases h
    refine ⟨1, performed_writePort (o := .outC src) hleaves ?_ rfl⟩
    cases src <;> rfl
  | outi dir =>
    cases h
    have hround := (inRound_zero c dir host).next hleaves at_ rfl
    exact ⟨1, performed_of_inRound (o := .outi dir) rfl rfl rfl Nat.one_pos (Nat.le_refl 1)
      hround fun _ => rfl⟩
  | otir dir =>
    obtain ⟨⟨count, last⟩, hb, rfl⟩ := Option.map_eq_some_iff.mp h
    obtain ⟨k, -, hcount, hloop⟩ := outputRounds_eq_some_iff.mp hb
    obtain ⟨n, w, hpos, hle, hrounds, hround, hall⟩ := exists_loop_inRound hleaves host at_ dir
    obtain ⟨rfl, rfl⟩ := hloop.unique hrounds
    rw [Nat.zero_add] at hcount
    subst hcount
    exact ⟨_, performed_of_inRound (o := .otir dir) rfl rfl rfl hpos hle hround hall⟩

/-- With fuel for 256 rounds every output instruction comes to its end. -/
theorem output_performed (hleaves : ports.LeavesCore) (c : Core) (host : σ) (at_ : UInt16)
    {fuel : Nat} (hfuel : 0x100 ≤ fuel) (o : Output) :
    ∃ r n, c.output ports.recorded fuel (host, []) at_ o = some r ∧ o.Performed c n r := by
  have hends : ∃ r, c.output ports.recorded fuel (host, []) at_ o = some r := by
    cases o with
    | outA port => exact ⟨_, rfl⟩
    | outC src => exact ⟨_, rfl⟩
    | outi dir => exact ⟨_, rfl⟩
    | otir dir =>
      obtain ⟨n, w, -, hle, hrounds, -⟩ := exists_loop_inRound (fun _ => hleaves) host at_ dir
      have hn : n ≤ fuel := Nat.le_trans hle (Nat.le_trans (roundsOfByte_le _) hfuel)
      have hb : outputRounds ports.recorded at_ dir fuel 0 c (host, []) [] = some ⟨n, w⟩ :=
        outputRounds_eq_some_iff.mpr ⟨n, hn, (Nat.zero_add n).symm, hrounds⟩
      exact ⟨_, by rw [output, hb]; rfl⟩
  obtain ⟨r, hr⟩ := hends
  obtain ⟨n, hn⟩ := performed_of_output (fun _ => hleaves) hr
  exact ⟨r, n, hr, hn⟩

end Core

/-! ### One step -/

namespace Output

theorem states_pos (o : Output) (n : Nat) : 0 < o.states n := by
  cases o with
  | otir dir => exact Nat.lt_of_lt_of_le (by decide) (Nat.le_add_right 16 (8 * n))
  | _ => exact Nat.succ_pos _

/-- The reason to stop is the one that the writes gave. -/
theorem Performed.reason {σ : Type} {o : Output} {c : Core} {n : Nat}
    {r : Outcome (σ × List PortCall)} (h : o.Performed c n r) : r.reason = r.halt := by
  obtain ⟨-, -, hhalt, hstates⟩ | ⟨-, hhalt, -⟩ := h.ends
  · simp [Outcome.reason, hhalt, hstates, Nat.ne_of_gt (o.states_pos n)]
  · simp [Outcome.reason, hhalt]

end Output

/-- The flags after the last round of a repeating output: zero and subtract set, carry as it
was, and no other. -/
structure Flags.OfLastRound (before after : Flags) : Prop where
  zero : after.zero = true
  subtract : after.subtract = true
  sign : after.sign = false
  halfCarry : after.halfCarry = false
  parityOverflow : after.parityOverflow = false
  carry : after.carry = before.carry

theorem Flags.ofLastRound (f : Flags) :
    f.OfLastRound (((Flags.ofSignZero 0).set .subtract true).set .carry f.carry) where
  zero := by cases f.carry <;> rfl
  subtract := by cases f.carry <;> rfl
  sign := by cases f.carry <;> rfl
  halfCarry := by cases f.carry <;> rfl
  parityOverflow := by cases f.carry <;> rfl
  carry := carry_set _ _

theorem Bank.f_counted {k : Bank} {dir : Direction} {n : Nat} (hn : 0 < n)
    (hb : (k.counted dir n).b = 0) : k.f.OfLastRound (k.counted dir n).f := by
  cases n with
  | zero => exact absurd hn (Nat.lt_irrefl 0)
  | succ n =>
    have hf : (k.counted dir (n + 1)).f =
        ((Flags.ofSignZero 0).set .subtract true).set .carry k.f.carry := by
      rw [← hb]
      rfl
    rw [hf]
    exact k.f.ofLastRound

namespace Cpu

variable {σ : Type}

/-- An instruction that does not write to a port calls no handler. -/
theorem portCalls_of_writesPort_eq_false {cpu : Cpu}
    (h : Tables.writesPort cpu.decoded.table cpu.decoded.opcode = false) (ports : Ports σ)
    (fuel : Nat) (host : σ) : cpu.portCalls ports fuel host = [] := by
  refine portCalls_eq_nil fun o ho => ?_
  have hwrites := (dispatch_output _ _).1.mp ⟨o, ho⟩
  exact absurd (h.symm.trans hwrites) Bool.noConfusion

/-- What one step asks of a handler that leaves the core alone. Only output instructions call
it. They write their bytes in order, each to where the port leads: a trap with the program
counter behind the instruction, the mode, or the handler. All bytes are written, or those up
to the first trap that is answered by a halt; then the step takes no time. A repeating output
has as many bytes as B counts, and it leaves B and HL moved by the bytes that were written. -/
theorem step_keeps_port_contract (cpu : Cpu) (ports : Ports σ) (fuel : Nat) (host : σ)
    (hleaves : ports.LeavesCore) (hfuel : 0x100 ≤ fuel) :
    let d := cpu.decoded
    let calls := cpu.portCalls ports fuel host
    let pc := cpu.core.regs.pc + 2
    let c := cpu.core.jump pc
    (Tables.writesPort d.table d.opcode = false → calls = []) ∧
    (Tables.writesPort d.table d.opcode = true → ∃ o, d.instruction = some (.output o)) ∧
    ∀ o, d.instruction = some (.output o) →
      ∃ s n, cpu.step ports fuel host = some s ∧ 0 < n ∧ n ≤ (o.bytes c).length ∧
        Asks pc (o.port c) ((o.bytes c).take n) calls ∧
        s.cpu.core = (o.after c n).onRegs (·.refresh cpu.waiting s.cpu.states) ∧
        ((n = (o.bytes c).length ∧ (∀ call ∈ calls, ¬ call.stops) ∧ s.cpu.halt = none ∧
            s.cpu.states = o.states n) ∨
          (PortCall.StopsLast calls ∧ s.cpu.halt = some .trap ∧ s.cpu.states = 0)) ∧
        ∀ dir, o = .otir dir →
          let before := cpu.core.regs.main
          let after := s.cpu.core.regs.main
          after.b = before.b - UInt8.ofNat n ∧
          after.hl = before.hl + UInt16.ofNat n * dir.stride ∧
          (s.cpu.halt = none → n = Core.roundsOfByte before.b ∧ after.b = 0 ∧
            before.f.OfLastRound after.f ∧ s.cpu.states = 16 + 8 * n) := by
  intro d calls pc c
  refine ⟨fun h => portCalls_of_writesPort_eq_false h ports fuel host,
    fun h => (dispatch_output _ _).1.mpr h, fun o ho => ?_⟩
  have hpast : cpu.past cpu.decoded = c := by
    have hlength : cpu.decoded.length = 2 := (dispatch_output _ _).2 o ho
    rw [past, hlength]
    rfl
  obtain ⟨r, n, hr, hperformed⟩ := c.output_performed hleaves host cpu.core.regs.pc hfuel o
  have hrecorded : cpu.step ports.recorded fuel (host, []) = some (cpu.retire d.table r) := by
    rw [cpu.step_of_output _ _ _ ho, hpast, hr]
    rfl
  have hstep : cpu.step ports fuel host = some ((cpu.retire d.table r).mapHost Prod.fst) := by
    rw [← step_recorded cpu ports fuel (host, []), hrecorded]
    rfl
  have hcalls : calls = r.host.2 := by
    simp only [calls, portCalls, hrecorded]
    rfl
  have hends := hperformed.ends
  rw [← hcalls, ← hperformed.reason] at hends
  refine ⟨_, n, hstep, hperformed.pos, hperformed.le, hcalls ▸ hperformed.asks, ?_, hends, ?_⟩
  · exact congrArg (fun x : Core => x.onRegs (·.refresh cpu.waiting r.states)) hperformed.core
  · rintro dir rfl
    have hmain : r.core.regs.main = cpu.core.regs.main.counted dir n := by
      rw [hperformed.core]
      rfl
    simp only [Step.mapHost, retire, Core.onRegs, Registers.refresh, hmain]
    refine ⟨Bank.b_counted _ _ _, Bank.hl_counted _ _ _, fun hnone => ?_⟩
    obtain ⟨hall, -, -, hstates⟩ | ⟨-, htrap, -⟩ := hends
    · have hn : n = Core.roundsOfByte cpu.core.regs.main.b :=
        hall.trans (Core.length_blockBytes _ _ _)
      have hb : (cpu.core.regs.main.counted dir n).b = 0 := by
        rw [Bank.b_counted, hn]
        exact Core.sub_roundsOfByte _
      exact ⟨hn, hb, Bank.f_counted hperformed.pos hb, hstates⟩
    · exact absurd (htrap.symm.trans hnone) (by simp)

/-- The second trap of a repeating output is answered by a halt: two of three writes are
made, by an instruction whose second byte lies at the start of memory. -/
theorem second_trap_stops_output :
    let ports : Ports Nat :=
      ⟨fun c h => ⟨if h = 1 then .halt else .continue, c, h + 1, []⟩, fun _ _ h => (h, [])⟩
    let mem := (Memory.blank.put8 0xFFFF 0xED).put8 0 0xB3
    let regs : Registers := { Registers.zero with
      main := { Bank.zero with b := 3, c := 0xFF, h := 0x20 }, pc := 0xFFFF }
    let cpu : Cpu := ⟨⟨regs, mem, .z80⟩, 0, .base, 0, none⟩
    ports.LeavesCore ∧ cpu.decoded.instruction = some (.output (.otir .up)) ∧
      ∃ s, cpu.step ports 0x100 0 = some s ∧ (cpu.portCalls ports 0x100 0).length = 2 ∧
        (∀ call ∈ cpu.portCalls ports 0x100 0, ∃ seen action,
          call = .trap seen action seen ∧ seen.regs.pc = 1) ∧
        s.cpu.core.regs.main.b = 1 ∧ s.cpu.core.regs.main.hl = 0x2002 ∧
        s.cpu.halt = some .trap ∧ s.cpu.states = 0 := by
  intro ports mem regs cpu
  have hleaves : ports.LeavesCore := fun _ _ => rfl
  have hd : cpu.decoded = ⟨.ed, 0xB3, 2, some (.output (.otir .up))⟩ := by
    simp only [decoded, Window.ofMemory, cpu, regs, mem, Memory.get8_put8]
    rfl
  have hi : cpu.decoded.instruction = some (.output (.otir .up)) := by rw [hd]
  -- The loop ends with its second round.
  let start : Written (Nat × List PortCall) := ⟨true, cpu.past cpu.decoded, (0, []), []⟩
  let next := Written.next ports.recorded cpu.core.regs.pc .up
  have hgo : ¬ (next start).IsLast := by
    rintro (h | h)
    · exact absurd h (by decide)
    · exact absurd ((show (3 : UInt8) - 1 = 2 by decide).symm.trans h) (by decide)
  have hlast : (next (next start)).running = false := rfl
  have hrounds : Core.outputRounds ports.recorded cpu.core.regs.pc .up 0x100 0
      (cpu.past cpu.decoded) (0, []) [] = some ⟨2, next (next start)⟩ :=
    Core.outputRounds_eq_some_iff.mpr ⟨2, by decide, rfl, .next hgo (.last (.inl hlast))⟩
  have hlength : (cpu.portCalls ports 0x100 0).length = 2 := by
    rw [portCalls, cpu.step_of_output _ _ _ hi, Core.output, hrounds]
    rfl
  obtain ⟨s, n, hs, -, hle, hasks, -, hends, hotir⟩ :=
    (step_keeps_port_contract cpu ports 0x100 0 hleaves (Nat.le_refl _)).2.2 _ hi
  obtain ⟨hn, htraps⟩ : (cpu.portCalls ports 0x100 0).length = _ ∧ _ := hasks
  rw [List.length_take, Nat.min_eq_left hle, hlength] at hn
  have hpc : cpu.core.regs.pc + 2 = 1 := by decide
  rw [hpc] at htraps
  obtain ⟨hb, hhl, hall⟩ := hotir .up rfl
  rw [← hn] at hb hhl hall hends
  have hstops : s.cpu.halt = some .trap ∧ s.cpu.states = 0 := by
    obtain ⟨-, -, hhalt, -⟩ | ⟨-, hstops⟩ := hends
    · exact absurd (hall hhalt).1 (by decide)
    · exact hstops
  exact ⟨hleaves, hi, s, hs, hlength, htraps, hb.trans (by decide), hhl.trans (by decide), hstops⟩

end Cpu

end Cpm
