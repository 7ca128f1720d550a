import Cpm.Bios.Trap
import Cpm.Proofs.LineEditing
import Cpm.Proofs.Sectors

/-!
# System calls

Which service a trap asks for is read off the program counter: each service has an
entry, and the program counter stands two bytes behind it. A service returns its
results in few registers of the main bank, reading a sector and reading a line fill
memory, and no service but writing a sector touches the disks.
-/

namespace Cpm

namespace BiosFunction

theorem index_lt (f : BiosFunction) : f.index < 17 := by
  cases f <;> decide

theorem ofIndex?_eq_some_iff {n : Nat} {f : BiosFunction} : ofIndex? n = some f ↔ n = f.index := by
  constructor
  · intro h
    have hn : n < 17 := (List.getElem?_eq_some_iff.mp h).1
    have hall : ∀ n < 17, ∀ g ∈ ofIndex? n, n = g.index := by decide
    exact hall n hn f h
  · rintro rfl
    exact ofIndex?_index f

/-- A function is served exactly behind its own vector. -/
theorem ofTrapPc?_eq_some_iff {pc : UInt16} {f : BiosFunction} :
    ofTrapPc? pc = some f ↔ pc = f.vector + 2 := by
  constructor
  · intro h
    simp only [ofTrapPc?] at h
    split at h
    · next hmod =>
      have hdiv := ofIndex?_eq_some_iff.mp h
      have hf := f.index_lt
      have hoffset : pc - 2 - base = 3 * UInt16.ofNat f.index := by
        apply UInt16.toNat_inj.mp
        rw [UInt16.toNat_mul, UInt16.toNat_ofNat']
        have h3 : UInt16.toNat 3 = 3 := rfl
        rw [h3]
        omega
      rw [vector, ← hoffset]
      grind
    · cases h
  · rintro rfl
    exact ofTrapPc?_vector f

end BiosFunction

/-- What a trap can ask for: a function with a vector of its own, or the BDOS. -/
inductive Service where
  | function (f : BiosFunction)
  | bdos
  deriving DecidableEq, Repr

namespace Service

def entry : Service → UInt16
  | .function f => f.vector
  | .bdos => Layout.bdosEntry

/-- The service trapped from, by the program counter after the trap. -/
def ofTrapPc? (pc : UInt16) : Option Service :=
  if pc = Layout.bdosEntry + 2 then some .bdos else (BiosFunction.ofTrapPc? pc).map .function

/-- The service a trap asks for is the one whose entry it came from. -/
theorem ofTrapPc?_eq_some_iff {pc : UInt16} {s : Service} :
    ofTrapPc? pc = some s ↔ pc = s.entry + 2 := by
  have hapart : ∀ f : BiosFunction, f.vector + 2 ≠ Layout.bdosEntry + 2 := by
    intro f
    cases f <;> decide
  unfold ofTrapPc?
  cases s with
  | bdos => simp [entry]
  | function f =>
    have hother : pc = f.vector + 2 → pc ≠ Layout.bdosEntry + 2 := fun h => h ▸ hapart f
    simp only [entry]
    split <;> simp_all [BiosFunction.ofTrapPc?_eq_some_iff]

/-- The registers of the main bank that a service returns its results in: nothing else
of the bank differs after it. -/
def Results (s : Service) (before after : Bank) : Prop :=
  match s with
  | .function .const | .function .conin | .function .reader | .function .listst
  | .function .read | .function .write => ∃ a, after = { before with a := a }
  | .function .seldsk | .function .sectran => ∃ hl, after = before.setHl hl
  | .function _ => after = before
  | .bdos => ∃ w, after = { before.setHl w with a := Word.low w, b := Word.high w }

end Service

namespace Bios

variable {κ : Type} [Console κ]

namespace Typing

theorem length_key_le {t : Typing κ} {max : Nat} (h : t.typed.length ≤ max) (ch : UInt8) :
    (t.key max ch).typed.length ≤ max := by
  rw [key_eq, List.length_reverse]
  exact Line.length_key_le (by rwa [List.length_reverse]) ch

/-- A line never grows past the longest length. -/
theorem length_readKeys_le {max n : Nat} {t : Typing κ} (h : t.typed.length ≤ max) :
    (readKeys max n t).1.typed.length ≤ max := by
  induction n generalizing t with
  | zero => exact h
  | succ n ih =>
    unfold readKeys
    split
    · exact h
    · split
      · exact h
      · exact ih (length_key_le (by exact h) _)

end Typing

def typedLine (b : Bios κ) (c : Core) : List UInt8 :=
  let max := (c.mem.get8 c.regs.main.de).toNat
  (Typing.readKeys max (Console.remaining b.console + 1) ⟨b.console, []⟩).1.typed.reverse

theorem length_typedLine_le (b : Bios κ) (c : Core) : (b.typedLine c).length ≤ 255 := by
  have hmax : (c.mem.get8 c.regs.main.de).toNat < 2 ^ 8 := UInt8.toNat_lt _
  have hline : (b.typedLine c).length ≤ (c.mem.get8 c.regs.main.de).toNat := by
    rw [typedLine, List.length_reverse]
    exact Typing.length_readKeys_le (Nat.zero_le _)
  omega

/-- The memory that a BDOS call which goes on leaves: a line that is read is stored with
its length before it. -/
def bdosMemory (b : Bios κ) (c : Core) : Memory :=
  if c.regs.main.c = 10 then
    let line := b.typedLine c
    c.mem.putList (c.regs.main.de + 1) (UInt8.ofNat line.length :: line)
  else c.mem

/-- The line that was read is stored behind its length. -/
theorem readLine_some {b : Bios κ} {c left : Core} {console : κ} (hc : c.regs.main.c = 10)
    (h : readLine b.console c = (console, some left)) :
    left = { c with mem := b.bdosMemory c } := by
  have hnext : c.regs.main.de + 1 + 1 = c.regs.main.de + 2 := by grind
  simp only [readLine] at h
  split at h
  · cases h
  · cases h
    rw [bdosMemory, if_pos hc, Memory.putList_cons, hnext]
    rfl

/-- A BDOS call stops with the core as it was, or goes on and returns a word; of the
system it changes the console alone. -/
def IsBdosReply (b : Bios κ) (c : Core) (r : TrapReply (Bios κ)) : Prop :=
  (∃ console, r.host = { b with console := console }) ∧
    ((r.action = .halt ∧ r.core = c) ∨
      (r.action = .continue ∧ ∃ w, r.core = returning { c with mem := b.bdosMemory c } w))

theorem isBdosReply_halting (b : Bios κ) (c : Core) (console : κ) (log : List Log.Record) :
    b.IsBdosReply c (.halting c { b with console := console } log) :=
  ⟨⟨console, rfl⟩, .inl ⟨rfl, rfl⟩⟩

theorem isBdosReply_returning {b : Bios κ} {c : Core} (hc : c.regs.main.c ≠ 10) (console : κ)
    (w : UInt16) (log : List Log.Record) :
    b.IsBdosReply c (.continuing (returning c w) { b with console := console } log) := by
  refine ⟨⟨console, rfl⟩, .inr ⟨rfl, w, ?_⟩⟩
  rw [bdosMemory, if_neg hc]
  rfl

theorem serveBdos_isBdosReply (b : Bios κ) (c : Core) : b.IsBdosReply c (b.serveBdos c) := by
  fun_cases serveBdos b c
  case case1 | case3 | case11 => exact isBdosReply_halting b c _ _
  case case10 hc _ _ hline =>
    refine ⟨⟨_, rfl⟩, .inr ⟨rfl, 0, ?_⟩⟩
    rw [← readLine_some hc hline]
    rfl
  case case14 hc _ _ => exact isBdosReply_returning hc _ _ _
  all_goals
    have hc : c.regs.main.c ≠ 10 := by grind
    exact isBdosReply_returning hc _ _ _

def serve (b : Bios κ) (s : Service) (c : Core) : TrapReply (Bios κ) :=
  match s with
  | .function f => b.callFunction f c
  | .bdos => b.callBdos c

/-- A trap serves the service whose entry it came from; behind no entry it stops the
processor and changes nothing. -/
theorem trap_eq (c : Core) (b : Bios κ) :
    trap c b = match Service.ofTrapPc? c.regs.pc with
      | some s => b.serve s c
      | none => .halting c b [⟨.warn, .bios,
          "trap from " ++ Hex.word (c.regs.pc - 2) ++ " outside the BIOS vectors"⟩] := by
  by_cases hpc : c.regs.pc = Layout.bdosEntry + 2
  · simp only [trap, Service.ofTrapPc?, if_pos hpc]
    rfl
  · simp only [trap, Service.ofTrapPc?, if_neg hpc]
    cases BiosFunction.ofTrapPc? c.regs.pc <;> rfl

theorem trap_eq_serve {c : Core} {s : Service} (h : c.regs.pc = s.entry + 2) (b : Bios κ) :
    trap c b = b.serve s c := by
  rw [trap_eq, Service.ofTrapPc?_eq_some_iff.mpr h]

/-- The addresses that a service stores bytes at: a sector that is read goes to the
address set for it, a line to the buffer at DE, with its length before it. -/
def Writes (b : Bios κ) (s : Service) (c : Core) (x : UInt16) : Prop :=
  match s with
  | .function .read => (b.readSelected c.mem).ok = true ∧ (x - b.selection.dma).toNat < 128
  | .bdos => c.regs.main.c = 10 ∧ (x - (c.regs.main.de + 1)).toNat ≤ (b.typedLine c).length
  | _ => False

theorem get8_bdosMemory {b : Bios κ} {c : Core} {x : UInt16} (h : ¬ b.Writes .bdos c x) :
    (b.bdosMemory c).get8 x = c.mem.get8 x := by
  unfold bdosMemory
  split
  · next hc =>
    have hline := b.length_typedLine_le c
    have hx : (b.typedLine c).length < (x - (c.regs.main.de + 1)).toNat :=
      Nat.lt_of_not_le fun hle => h ⟨hc, hle⟩
    rw [Memory.get8_putList _ _ _ (by simp only [List.length_cons]; omega),
      List.getElem?_eq_none (by simp only [List.length_cons]; omega)]
    rfl
  · rfl

/-- What a service does to the core: it returns its results, if it goes on, and stores
bytes where it is asked to. -/
def Keeps (b : Bios κ) (s : Service) (c : Core) (r : TrapReply (Bios κ)) : Prop :=
  (∃ bank, r.core.regs = { c.regs with main := bank } ∧
    (r.action = .continue → s.Results c.regs.main bank)) ∧
  r.core.mode = c.mode ∧ ∀ x, ¬ b.Writes s c x → r.core.mem.get8 x = c.mem.get8 x

theorem serveBdos_keeps (b : Bios κ) (c : Core) : b.Keeps .bdos c (b.serveBdos c) := by
  unfold Keeps
  obtain ⟨-, ⟨hhalt, hcore⟩ | ⟨-, w, hcore⟩⟩ := b.serveBdos_isBdosReply c
  · rw [hcore]
    refine ⟨⟨c.regs.main, rfl, fun h => ?_⟩, rfl, fun _ _ => rfl⟩
    exact absurd (h.symm.trans hhalt) (by decide)
  · rw [hcore]
    exact ⟨⟨_, rfl, fun _ => ⟨w, rfl⟩⟩, rfl, fun x hx => get8_bdosMemory hx⟩

theorem serveFunction_keeps (b : Bios κ) (c : Core) {f : BiosFunction} (hf : f ≠ .boot) :
    b.Keeps (.function f) c (b.serveFunction f c) := by
  cases f
  case boot => exact absurd rfl hf
  case conin =>
    simp only [serveFunction]
    split
    · exact ⟨⟨_, rfl, fun _ => ⟨_, rfl⟩⟩, rfl, fun _ _ => rfl⟩
    · exact ⟨⟨_, rfl, fun _ => ⟨c.regs.main.a, rfl⟩⟩, rfl, fun _ _ => rfl⟩
  case seldsk =>
    simp only [serveFunction, selectDrive]
    split
    · split
      · exact ⟨⟨_, rfl, fun _ => ⟨_, rfl⟩⟩, rfl, fun _ _ => rfl⟩
      · exact ⟨⟨_, rfl, fun _ => ⟨_, rfl⟩⟩, rfl, fun _ _ => rfl⟩
    · exact ⟨⟨_, rfl, fun _ => ⟨_, rfl⟩⟩, rfl, fun _ _ => rfl⟩
  case read =>
    refine ⟨⟨_, rfl, fun _ => ⟨_, rfl⟩⟩, rfl, fun x hx => get8_readSelected fun hok => ?_⟩
    exact Nat.le_of_not_lt fun hlt => hx ⟨hok, hlt⟩
  case const | reader | listst | write | sectran =>
    exact ⟨⟨_, rfl, fun _ => ⟨_, rfl⟩⟩, rfl, fun _ _ => rfl⟩
  all_goals exact ⟨⟨_, rfl, fun _ => rfl⟩, rfl, fun _ _ => rfl⟩

/-- Every service but booting keeps what it is not there to change. -/
theorem serve_keeps (b : Bios κ) (c : Core) {s : Service} (hs : s ≠ .function .boot) :
    b.Keeps s c (b.serve s c) := by
  cases s with
  | bdos => exact b.serveBdos_keeps c
  | function f => exact b.serveFunction_keeps c fun hf => hs (congrArg Service.function hf)

/-- Only writing a sector changes the disks. -/
theorem serve_disks (b : Bios κ) (c : Core) {s : Service} (hs : s ≠ .function .write) :
    (b.serve s c).host.disks = b.disks := by
  cases s with
  | bdos =>
    obtain ⟨⟨console, hhost⟩, -⟩ := b.serveBdos_isBdosReply c
    show (b.serveBdos c).host.disks = b.disks
    rw [hhost]
  | function f =>
    show (b.serveFunction f c).host.disks = b.disks
    cases f
    case write => exact absurd rfl hs
    case boot =>
      simp only [serveFunction, coldBoot]
      split
      · rfl
      · split <;> rfl
    case conin =>
      simp only [serveFunction]
      split <;> rfl
    case seldsk =>
      simp only [serveFunction, selectDrive]
      split
      · split <;> rfl
      · rfl
    all_goals rfl

end Bios

end Cpm
