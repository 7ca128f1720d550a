import Cpm.Proofs.Decoding
import Cpm.Proofs.EntrySteps
import Cpm.Proofs.SystemCalls

/-!
# The registers of the Z80 alone

The shadow bank, the index registers and the interrupt register came with the Z80. In the
mode of the 8080 no instruction names them. To see that they are neither read nor written,
what they hold is replaced: a step of the processor with other contents is the step of the
processor as it was, with these contents after it. The handlers are taken to treat them the
same way, as the system does.
-/

namespace Cpm

set_option maxRecDepth 2000

/-- The registers that only the Z80 has, the refresh register apart. -/
structure Extras where
  shadow : Bank
  ix : UInt16
  iy : UInt16
  i : UInt8
  deriving DecidableEq, Repr

namespace Registers

def extras (r : Registers) : Extras := ⟨r.shadow, r.ix, r.iy, r.i⟩

/-- The registers with other contents in those that only the Z80 has. -/
def withExtras (r : Registers) (x : Extras) : Registers :=
  { r with shadow := x.shadow, ix := x.ix, iy := x.iy, i := x.i }

end Registers

def Core.withExtras (c : Core) (x : Extras) : Core := c.onRegs (·.withExtras x)

def Cpu.withExtras (cpu : Cpu) (x : Extras) : Cpu := { cpu with core := cpu.core.withExtras x }

/-! ### What names them -/

def Pointer.isIndexFree : Pointer → Bool
  | .hl => true
  | .index _ => false

def Pair.isIndexFree : Pair → Bool
  | .pointer p => p.isIndexFree
  | _ => true

def StackPair.isIndexFree : StackPair → Bool
  | .pointer p => p.isIndexFree
  | _ => true

def Place.isIndexFree : Place → Bool
  | .atHl => true
  | .offset _ _ => false

def Operand.isIndexFree : Operand → Bool
  | .reg r => !r.isHalf
  | .mem p => p.isIndexFree

def Operation.sparesExtras : Operation → Bool
  | .ld dst src => !dst.isHalf && !src.isHalf
  | .ldFrom _ p | .ldTo p _ => p.isIndexFree
  | .ldImm x _ | .alu _ x | .inc x | .dec x | .shift _ x | .bit _ x | .res _ x | .set _ x =>
    x.isIndexFree
  | .ldPair p _ | .ldMemPair _ p | .ldPairMem p _ | .adcHl p | .sbcHl p | .incPair p
  | .decPair p => p.isIndexFree
  | .ldMemPointer _ p | .ldPointerMem p _ | .ldSp p | .exSp p | .jpPointer p => p.isIndexFree
  | .push p | .pop p => p.isIndexFree
  | .addPair dst src => dst.isIndexFree && src.isIndexFree
  | .ldIA | .ldAI | .exAf | .exx => false
  | _ => true

/-- Of the outputs only the one that the 8080 has is told to spare them. -/
def Instruction.sparesExtras : Instruction → Bool
  | .operation o => o.sparesExtras
  | .output (.outA _) | .halt => true
  | .output _ => false

namespace Tables

theorem i8080_sparesExtras (op x y : UInt8) :
    (i8080 op x y).all (·.instruction.sparesExtras) = true := by
  have hrows : allBytes.map (fun op x y => (i8080 op x y).all (·.instruction.sparesExtras)) =
      allBytes.map fun _ _ _ => true := by
    rfl
  exact rows_eq hrows op x y

end Tables

/-- The 8080 has no instruction that names a register of the Z80 alone. -/
theorem dispatch_i8080_sparesExtras {w : Window} {i : Instruction}
    (h : (dispatch .i8080 w).instruction = some i) : i.sparesExtras = true := by
  have hrow := Tables.i8080_sparesExtras w.b0 w.b1 w.b2
  have hd : dispatch .i8080 w = Decode.found .base w.b0 0 (Tables.i8080 w.b0 w.b1 w.b2) := rfl
  rw [hd] at h
  cases he : Tables.i8080 w.b0 w.b1 w.b2 with
  | none =>
    rw [he] at h
    cases h
  | some e =>
    rw [he] at h hrow
    cases h
    exact hrow

namespace Core

variable (c : Core) (x : Extras)

/-- An operation that does not name the registers neither reads nor writes them. -/
theorem perform_withExtras {o : Operation} (h : o.sparesExtras = true) :
    (c.withExtras x).perform o = ⟨(c.perform o).states, (c.perform o).core.withExtras x⟩ := by
  cases o
  case ldir dir =>
    have hb : (c.withExtras x).regs.main.bc = c.regs.main.bc := rfl
    simp only [perform, hb, transfers_comm c (f := (withExtras · x)) fun _ => rfl]
    rfl
  case cpir dir =>
    have hb : (c.withExtras x).regs.main.bc = c.regs.main.bc := rfl
    simp only [perform, hb,
      compares_comm c (f := (withExtras · x)) (fun _ => rfl) (fun _ => rfl) fun _ => rfl]
  case ld dst src => cases dst <;> cases src <;> first | rfl | cases h
  case ldFrom _ p | ldTo p _ => cases p <;> first | rfl | cases h
  case ldMemPointer _ p | ldPointerMem p _ | ldSp p | exSp p | jpPointer p =>
    cases p <;> first | rfl | cases h
  case ldPair p _ | ldMemPair _ p | ldPairMem p _ | adcHl p | sbcHl p | incPair p | decPair p
      | push p | pop p =>
    rcases p with _ | _ | (_ | _) | _ <;> first | rfl | cases h
  case addPair dst src =>
    rcases dst with _ | _ <;> rcases src with _ | _ | (_ | _) | _ <;> first | rfl | cases h
  case ldImm y _ | inc y | dec y | shift _ y | bit _ y | res _ y | set _ y =>
    rcases y with (_ | _ | _) | (_ | _) <;> first | rfl | cases h
  case alu op y =>
    rcases y with (_ | _ | _) | (_ | _) <;> first | (cases op <;> rfl) | cases h
  case aluImm op _ | acc op => cases op <;> rfl
  case jpIf cond _ | jrIf cond _ | callIf cond _ | retIf cond =>
    have hf : (c.withExtras x).regs.main.f = c.regs.main.f := rfl
    simp only [perform, branch, hf]
    split <;> rfl
  case djnz d =>
    have hb : (c.withExtras x).regs.main.b = c.regs.main.b := rfl
    simp only [perform, hb]
    split <;> rfl
  all_goals first | rfl | cases h

theorem selectMode_withExtras (at_ : UInt16) (value : UInt8) :
    (c.withExtras x).selectMode at_ value =
      ((c.selectMode at_ value).1.withExtras x, (c.selectMode at_ value).2) := by
  unfold selectMode
  split <;> rfl

end Core

/-! ### Handlers and steps -/

variable {σ : Type}

def PortCall.withExtras (x : Extras) : PortCall → PortCall
  | .trap seen action left => .trap (seen.withExtras x) action (left.withExtras x)
  | .write port value => .write port value

def TrapReply.withExtras (x : Extras) (g : σ → σ) (r : TrapReply σ) : TrapReply σ :=
  { r with core := r.core.withExtras x, host := g r.host }

/-- The handler ignores the registers: whatever they hold, its reply is the same, and they
hold it in the core that it leaves. -/
def Ports.IgnoresExtras (ports : Ports σ) : Prop :=
  ∀ c x h, ports.trap (c.withExtras x) h = (ports.trap c h).withExtras x id

/-- A change of the outer state goes along with the replacement through every call. -/
structure Ports.Follows (ports : Ports σ) (x : Extras) (g : σ → σ) : Prop where
  trap : ∀ c h, ports.trap (c.withExtras x) (g h) = (ports.trap c h).withExtras x g
  write : ∀ port value h, ports.write port value (g h) =
    (g (ports.write port value h).1, (ports.write port value h).2)

namespace Ports.IgnoresExtras

variable {ports : Ports σ} (h : ports.IgnoresExtras) (x : Extras)

include h

theorem follows : ports.Follows x id := ⟨fun c => h c x, fun _ _ _ => rfl⟩

/-- In a list of the calls the cores are replaced. -/
theorem recorded_follows :
    ports.recorded.Follows x (Prod.map id (List.map (PortCall.withExtras x))) := by
  refine ⟨fun c t => ?_, fun port value t => ?_⟩
  · simp only [Ports.recorded, TrapReply.withExtras, Prod.map, id_eq, h c x t.1, List.map_append,
      List.map_cons, List.map_nil, PortCall.withExtras]
  · simp only [Ports.recorded, Prod.map, id_eq, List.map_append, List.map_cons, List.map_nil,
      PortCall.withExtras]

end Ports.IgnoresExtras

def Written.withExtras (x : Extras) (g : σ → σ) (w : Written σ) : Written σ :=
  { w with core := w.core.withExtras x, host := g w.host }

def Outcome.withExtras (x : Extras) (g : σ → σ) (o : Outcome σ) : Outcome σ :=
  { o with core := o.core.withExtras x, host := g o.host }

def Step.withExtras (x : Extras) (g : σ → σ) (s : Step σ) : Step σ :=
  { s with cpu := s.cpu.withExtras x, host := g s.host }

theorem Outcome.ofWritten_withExtras (x : Extras) (g : σ → σ) (w : Written σ) (states : Nat) :
    ofWritten (w.withExtras x g) states = (ofWritten w states).withExtras x g := by
  unfold ofWritten Written.withExtras
  split <;> rfl

variable {ports : Ports σ} {x : Extras} {g : σ → σ}

theorem Core.writePort_withExtras (h : ports.Follows x g) (c : Core) (host : σ) (at_ : UInt16)
    (port value : UInt8) :
    (c.withExtras x).writePort ports (g host) at_ port value =
      (c.writePort ports host at_ port value).withExtras x g := by
  unfold writePort
  split
  · rw [h.trap]
    rfl
  · split
    · rw [selectMode_withExtras]
      rfl
    · rw [h.write]
      rfl

theorem Core.execute_withExtras (h : ports.Follows x g) (c : Core) (fuel : Nat) (host : σ)
    (at_ : UInt16) {d : Decoded} (hd : ∀ i, d.instruction = some i → i.sparesExtras = true) :
    (c.withExtras x).execute ports fuel (g host) at_ d =
      (c.execute ports fuel host at_ d).map (Outcome.withExtras x g) := by
  unfold execute
  split
  · next o hi =>
    rw [perform_withExtras c x (hd _ hi)]
    rfl
  · next o hi =>
    cases o with
    | outA port =>
      have ha : (c.withExtras x).regs.main.a = c.regs.main.a := rfl
      simp only [output, ha, writePort_withExtras h, Outcome.ofWritten_withExtras, Option.map_some]
    | outC src | outi dir | otir dir => exact absurd (hd _ hi) Bool.noConfusion
  · rfl
  · rfl

namespace Cpu

variable (cpu : Cpu) (fuel : Nat) (host : σ)

theorem decoded_sparesExtras (hmode : cpu.core.mode = .i8080) (i : Instruction)
    (hi : cpu.decoded.instruction = some i) : i.sparesExtras = true := by
  rw [decoded, hmode] at hi
  exact dispatch_i8080_sparesExtras hi

/-- In the mode of the 8080 a step goes on as it would with other contents. -/
theorem step_withExtras (hmode : cpu.core.mode = .i8080) (h : ports.Follows x g) :
    (cpu.withExtras x).step ports fuel (g host) =
      (cpu.step ports fuel host).map (Step.withExtras x g) := by
  have hexecute := Core.execute_withExtras h (cpu.past cpu.decoded) fuel host cpu.core.regs.pc
    (cpu.decoded_sparesExtras hmode)
  have hstep : (cpu.withExtras x).step ports fuel (g host) =
      (((cpu.past cpu.decoded).withExtras x).execute ports fuel (g host) cpu.core.regs.pc
        cpu.decoded).map ((cpu.withExtras x).retire cpu.decoded.table) := rfl
  rw [hstep, hexecute, step, Option.map_map, Option.map_map]
  rfl

theorem portCalls_withExtras (hmode : cpu.core.mode = .i8080) (h : ports.IgnoresExtras) :
    (cpu.withExtras x).portCalls ports fuel host =
      (cpu.portCalls ports fuel host).map (PortCall.withExtras x) := by
  have hstep : (cpu.withExtras x).step ports.recorded fuel (host, []) =
      (cpu.step ports.recorded fuel (host, [])).map (Step.withExtras x _) :=
    cpu.step_withExtras fuel (host, []) hmode (h.recorded_follows x)
  rw [portCalls, portCalls, hstep]
  cases cpu.step ports.recorded fuel (host, []) <;> rfl

/-- What the registers hold is left alone. -/
theorem step_extras (hmode : cpu.core.mode = .i8080) (h : ports.IgnoresExtras) {s : Step σ}
    (hs : cpu.step ports fuel host = some s) : s.cpu.core.regs.extras = cpu.core.regs.extras := by
  have hstep := cpu.step_withExtras fuel host hmode (h.follows cpu.core.regs.extras)
  have hself : cpu.withExtras cpu.core.regs.extras = cpu := rfl
  rw [hself, id_eq, hs, Option.map_some] at hstep
  injection hstep with hstep
  rw [hstep]
  rfl

end Cpu

/-! ### Runs -/

/-- What one step of a run shows: the state after it and the calls that it made. -/
structure Passage (σ : Type) where
  after : Step σ
  calls : List PortCall

def Passage.withExtras (x : Extras) (p : Passage σ) : Passage σ :=
  ⟨p.after.withExtras x id, p.calls.map (PortCall.withExtras x)⟩

namespace Cpu

/-- What the next `n` steps show, one after another, up to one that does not end. -/
def history (ports : Ports σ) (fuel : Nat) : Nat → Cpu → σ → List (Passage σ)
  | 0, _, _ => []
  | n + 1, cpu, host =>
    match cpu.step ports fuel host with
    | none => []
    | some s => ⟨s, cpu.portCalls ports fuel host⟩ :: history ports fuel n s.cpu s.host

/-- The processor is in a mode before each of the next `n` steps. -/
def StaysIn (mode : Mode) (ports : Ports σ) (fuel : Nat) : Nat → Cpu → σ → Prop
  | 0, _, _ => True
  | n + 1, cpu, host => cpu.core.mode = mode ∧
    ∀ s, cpu.step ports fuel host = some s → s.cpu.StaysIn mode ports fuel n s.host

theorem exists_step_of_i8080 (cpu : Cpu) (ports : Ports σ) (fuel : Nat) (host : σ)
    (hmode : cpu.core.mode = .i8080) : ∃ s, cpu.step ports fuel host = some s :=
  cpu.exists_step ports fuel host fun _ hi =>
    absurd (cpu.decoded_sparesExtras hmode _ hi) Bool.noConfusion

variable {fuel n : Nat} {cpu : Cpu} {host : σ}

theorem history_withExtras (hmode : cpu.StaysIn .i8080 ports fuel n host)
    (h : ports.IgnoresExtras) (x : Extras) :
    (cpu.withExtras x).history ports fuel n host =
      (cpu.history ports fuel n host).map (Passage.withExtras x) := by
  induction n generalizing cpu host with
  | zero => rfl
  | succ n ih =>
    obtain ⟨hmode, hrest⟩ := hmode
    have hstep := cpu.step_withExtras fuel host hmode (h.follows x)
    have hcalls := cpu.portCalls_withExtras fuel host hmode h (x := x)
    simp only [id_eq] at hstep
    simp only [history, hstep, hcalls]
    cases hs : cpu.step ports fuel host with
    | none => rfl
    | some s => exact congrArg (_ :: ·) (ih (hrest s hs))

/-- Every step comes to an end, and none changes what the registers hold. -/
theorem history_keeps_extras (hmode : cpu.StaysIn .i8080 ports fuel n host)
    (h : ports.IgnoresExtras) :
    (cpu.history ports fuel n host).length = n ∧
      ∀ p ∈ cpu.history ports fuel n host, p.after.cpu.core.regs.extras = cpu.core.regs.extras := by
  induction n generalizing cpu host with
  | zero => exact ⟨rfl, fun _ hp => absurd hp List.not_mem_nil⟩
  | succ n ih =>
    obtain ⟨hmode, hrest⟩ := hmode
    obtain ⟨s, hs⟩ := cpu.exists_step_of_i8080 ports fuel host hmode
    have hkeep := cpu.step_extras fuel host hmode h hs
    obtain ⟨hlength, hall⟩ := ih (hrest s hs)
    simp only [history, hs, List.length_cons, hlength, List.mem_cons, true_and]
    rintro p (rfl | hp)
    · exact hkeep
    · exact (hall p hp).trans hkeep

end Cpu

/-! ### The system -/

namespace Bios

variable {κ : Type} [Console κ] (b : Bios κ) (c : Core)

theorem readLine_withExtras (console : κ) : readLine console (c.withExtras x) =
    ((readLine console c).1, (readLine console c).2.map (·.withExtras x)) := by
  have hmain : (c.withExtras x).regs.main = c.regs.main := rfl
  have hmem : (c.withExtras x).mem = c.mem := rfl
  simp only [readLine, hmain, hmem]
  split <;> rfl

theorem serveBdos_withExtras :
    b.serveBdos (c.withExtras x) = (b.serveBdos c).withExtras x id := by
  have hmain : (c.withExtras x).regs.main = c.regs.main := rfl
  have hmem : (c.withExtras x).mem = c.mem := rfl
  simp only [serveBdos, hmain, hmem, readLine_withExtras]
  split
  case h_2 =>
    obtain ⟨key, console⟩ := Console.read b.console
    cases key <;> rfl
  case h_4 =>
    split
    · obtain ⟨ready, console⟩ := Console.status b.console
      cases ready <;> rfl
    · rfl
    · rfl
  case h_6 =>
    obtain ⟨console, line⟩ := readLine b.console c
    cases line <;> rfl
  all_goals rfl

theorem serveFunction_withExtras (f : BiosFunction) :
    b.serveFunction f (c.withExtras x) = (b.serveFunction f c).withExtras x id := by
  cases f
  case boot =>
    have hmem : (c.withExtras x).mem = c.mem := rfl
    simp only [serveFunction, coldBoot, hmem]
    split
    · rfl
    · split <;> rfl
  case conin =>
    simp only [serveFunction]
    split <;> rfl
  case seldsk =>
    have hmain : (c.withExtras x).regs.main = c.regs.main := rfl
    simp only [serveFunction, selectDrive, hmain]
    split
    · split <;> rfl
    · rfl
  all_goals rfl

/-- The system ignores the registers that only the Z80 has. -/
theorem ports_ignoresExtras : (Bios.ports : Ports (Bios κ)).IgnoresExtras := by
  intro c x b
  have hpc : (c.withExtras x).regs.pc = c.regs.pc := rfl
  show trap _ b = (trap c b).withExtras x id
  simp only [trap, hpc]
  split
  · rw [callBdos, serveBdos_withExtras]
    rfl
  · split
    · rw [callFunction, serveFunction_withExtras]
      rfl
    · rfl

end Bios

/-- In the mode of the 8080 a run neither looks at the registers of the Z80 alone nor changes
them, behind every handler that ignores them, as the system does: with other contents each
step takes the same time, makes the same calls, stops for the same reason and leaves the same
memory and other registers. -/
theorem Cpu.i8080_runs_ignore_extras :
    (∀ (κ : Type) [Console κ], (Bios.ports : Ports (Bios κ)).IgnoresExtras) ∧
    ∀ (ports : Ports σ), ports.IgnoresExtras → ∀ (fuel n : Nat) (cpu : Cpu) (host : σ),
      cpu.StaysIn .i8080 ports fuel n host → ∀ x : Extras,
      let run := cpu.history ports fuel n host
      let other := (cpu.withExtras x).history ports fuel n host
      run.length = n ∧ other = run.map (Passage.withExtras x) ∧
      (∀ p ∈ run, p.after.cpu.core.regs.extras = cpu.core.regs.extras) ∧
      ∀ p ∈ other, p.after.cpu.core.regs.extras = x := by
  refine ⟨fun κ _ => Bios.ports_ignoresExtras, fun ports h fuel n cpu host hmode x => ?_⟩
  obtain ⟨hlength, hkeep⟩ := history_keeps_extras hmode h
  have hother := history_withExtras hmode h x
  refine ⟨hlength, hother, hkeep, fun p hp => ?_⟩
  rw [hother] at hp
  obtain ⟨q, -, rfl⟩ := List.mem_map.mp hp
  rfl

/-- A character is written and the return taken, whatever the index registers hold. -/
theorem Cpu.i8080_character_is_written :
    let mem := (Memory.blank.put8 0xFE0C 0xD3).put8 0xFE0D 0xFF
    let regs : Registers :=
      { Registers.zero with main := { Bank.zero with c := 0x41 }, pc := 0xFE0C }
    let cpu : Cpu := ⟨⟨regs, mem, .i8080⟩, 0, .base, 0, none⟩
    let b : Bios ScriptedConsole := .initial default
    let x : Extras := ⟨{ Bank.zero with a := 7 }, 0x1234, 0xFFFF, 0x80⟩
    (Bios.ports : Ports (Bios ScriptedConsole)).IgnoresExtras ∧
    cpu.StaysIn .i8080 Bios.ports 0 2 b ∧
    (cpu.history Bios.ports 0 2 b).length = 2 ∧
    (cpu.withExtras x).history Bios.ports 0 2 b =
      (cpu.history Bios.ports 0 2 b).map (Passage.withExtras x) ∧
    ∀ p ∈ (cpu.withExtras x).history Bios.ports 0 2 b, p.after.cpu.core.regs.ix = 0x1234 := by
  intro mem regs cpu b x
  have hop : cpu.core.mem.get8 cpu.core.regs.pc = 0xD3 := by
    simp only [cpu, regs, mem, Memory.get8_put8]
    rfl
  have hport : cpu.core.mem.get8 (cpu.core.regs.pc + 1) = Port.trap :=
    Memory.get8_put8_same _ _ _
  have hgoes : (Bios.trap (cpu.core.jump 0xFE0E) b).action = .continue := by
    rw [Bios.trap_eq_serve (s := .function .conout) rfl]
    rfl
  have hfirst := cpu.step_of_trap hop hport Bios.ports 0 b hgoes
  have hmode : cpu.StaysIn .i8080 Bios.ports 0 2 b := by
    refine ⟨rfl, fun s hs => ⟨?_, fun _ _ => trivial⟩⟩
    rw [hfirst] at hs
    cases hs
    show (Bios.trap (cpu.core.jump 0xFE0E) b).core.mode = .i8080
    rw [Bios.trap_eq_serve (s := .function .conout) rfl]
    rfl
  obtain ⟨hsystem, hruns⟩ := @i8080_runs_ignore_extras (Bios ScriptedConsole)
  obtain ⟨hlength, hother, -, hx⟩ := hruns Bios.ports (hsystem _) 0 2 cpu b hmode x
  exact ⟨hsystem _, hmode, hlength, hother, fun p hp => congrArg Extras.ix (hx p hp)⟩

end Cpm
