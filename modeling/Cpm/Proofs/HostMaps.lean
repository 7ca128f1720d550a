import Cpm.Cpu

/-!
# Handlers with images

Where the outer states of one port handler have images with another one, and the image of a
state always gets the same reply, the processor cannot tell the handlers apart: instructions,
turns and runs in front of an image are those in front of the state itself.
-/

namespace Cpm

variable {σ τ ω : Type}

/-- The turn that a run makes after `n` others; none where it stops before. -/
def Run.turnAt (r : Run σ ω) (ports : Ports σ) (observer : Observer ω) (fuel : Nat) :
    Nat → Option (Turn σ ω)
  | 0 => r.turn ports observer fuel
  | n + 1 =>
    match r.turn ports observer fuel with
    | none => none
    | some t =>
      match t.summary with
      | some _ => none
      | none => turnAt t.run ports observer fuel n

def TrapReply.mapHost (f : σ → τ) (r : TrapReply σ) : TrapReply τ :=
  ⟨r.action, r.core, f r.host, r.log⟩

def Written.mapHost (f : σ → τ) (w : Written σ) : Written τ := ⟨w.running, w.core, f w.host, w.log⟩

def Outcome.mapHost (f : σ → τ) (o : Outcome σ) : Outcome τ :=
  ⟨o.states, o.halt, o.core, f o.host, o.log⟩

def Step.mapHost (f : σ → τ) (s : Step σ) : Step τ := ⟨s.cpu, f s.host, s.log⟩

def Run.mapHost (f : σ → τ) (r : Run σ ω) : Run τ ω :=
  ⟨r.instructions, r.states, r.cpu, f r.host, r.observed⟩

def Turn.mapHost (f : σ → τ) (t : Turn σ ω) : Turn τ ω := ⟨t.run.mapHost f, t.log, t.summary⟩

def RunResult.mapHost (f : σ → τ) (r : RunResult σ ω) : RunResult τ ω :=
  ⟨r.summary, r.cpu, f r.host, r.observed, r.log⟩

def Core.Burst.mapHost (f : σ → τ) (b : Core.Burst σ) : Core.Burst τ :=
  ⟨b.count, b.written.mapHost f⟩

/-- A handler whose outer states have images with another one: the image of a state gets the
same reply, with the image of the state that is left. -/
structure Ports.MapsTo (ports : Ports σ) (images : Ports τ) (f : σ → τ) : Prop where
  trap : ∀ c h, images.trap c (f h) = (ports.trap c h).mapHost f
  write : ∀ port value h, images.write port value (f h) =
    (f (ports.write port value h).1, (ports.write port value h).2)

namespace Ports.MapsTo

variable {ports : Ports σ} {images : Ports τ} {f : σ → τ} (m : ports.MapsTo images f)
  (c : Core) (h : σ) (at_ : UInt16)

include m

theorem writePort (port value : UInt8) :
    c.writePort images (f h) at_ port value = (c.writePort ports h at_ port value).mapHost f := by
  unfold Core.writePort
  split
  · rw [m.trap]
    rfl
  · split
    · rfl
    · rw [m.write]
      rfl

theorem outputRound (dir : Direction) :
    c.outputRound images (f h) at_ dir = (c.outputRound ports h at_ dir).mapHost f := by
  simp only [Core.outputRound, m.writePort]
  rfl

theorem outputRounds (dir : Direction) (fuel n : Nat) (log : List Log.Record) :
    Core.outputRounds images at_ dir fuel n c (f h) log =
      (Core.outputRounds ports at_ dir fuel n c h log).map (Core.Burst.mapHost f) := by
  induction fuel generalizing n c h log with
  | zero => rfl
  | succ fuel ih =>
    simp only [Core.outputRounds, m.outputRound, Written.mapHost]
    split
    · rfl
    · exact ih _ _ _ _

theorem output (fuel : Nat) (o : Output) :
    c.output images fuel (f h) at_ o = (c.output ports fuel h at_ o).map (Outcome.mapHost f) := by
  have hw : ∀ (w : Written σ) (n : Nat),
      Outcome.ofWritten (w.mapHost f) n = (Outcome.ofWritten w n).mapHost f := by
    intro w n
    unfold Outcome.ofWritten Written.mapHost
    split <;> rfl
  cases o with
  | outA port => simp only [Core.output, Option.map_some, m.writePort, hw]
  | outC src => simp only [Core.output, Option.map_some, m.writePort, hw]
  | outi dir => simp only [Core.output, Option.map_some, m.outputRound, hw]
  | otir dir =>
    simp only [Core.output, m.outputRounds, Option.map_map]
    congr 1
    funext b
    exact hw _ _

theorem execute (fuel : Nat) (d : Decoded) :
    c.execute images fuel (f h) at_ d = (c.execute ports fuel h at_ d).map (Outcome.mapHost f) := by
  unfold Core.execute
  split
  · rfl
  · exact m.output c h at_ fuel _
  · rfl
  · rfl

/-- The image of a state goes through the same step. -/
theorem step (cpu : Cpu) (fuel : Nat) :
    cpu.step images fuel (f h) = (cpu.step ports fuel h).map (Step.mapHost f) := by
  simp only [Cpu.step, m.execute, Option.map_map]
  rfl

variable (r : Run σ ω) (observer : Observer ω) (fuel : Nat)

theorem turn :
    (r.mapHost f).turn images observer fuel =
      (r.turn ports observer fuel).map (Turn.mapHost f) := by
  simp only [Run.turn, Run.mapHost, m.step, Option.map_map]
  congr 1
  funext s
  show (if s.cpu.states = 0 then _ else _) = Turn.mapHost f (if s.cpu.states = 0 then _ else _)
  split <;> rfl

theorem turnAt (n : Nat) :
    (r.mapHost f).turnAt images observer fuel n =
      (r.turnAt ports observer fuel n).map (Turn.mapHost f) := by
  induction n generalizing r with
  | zero => exact m.turn r observer fuel
  | succ n ih =>
    simp only [Run.turnAt, m.turn]
    cases r.turn ports observer fuel with
    | none => rfl
    | some t =>
      cases hlast : t.summary with
      | some summary => simp only [Option.map_some, Turn.mapHost, hlast, Option.map_none]
      | none => simp only [Option.map_some, Turn.mapHost, hlast, ih]

/-- The image of a state goes through the same run. -/
theorem finish (limit : Nat) (log : Array Log.Record) :
    (r.mapHost f).finish images observer fuel limit log =
      (r.finish ports observer fuel limit log).map (RunResult.mapHost f) := by
  induction limit generalizing log r with
  | zero => rfl
  | succ limit ih =>
    simp only [Run.finish, m.turn]
    cases r.turn ports observer fuel with
    | none => rfl
    | some t =>
      cases hlast : t.summary with
      | some summary =>
        simp only [Option.map_some, Turn.mapHost, hlast]
        rfl
      | none => simp only [Option.map_some, Turn.mapHost, hlast, ih]

end Ports.MapsTo

end Cpm
