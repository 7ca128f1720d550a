import Cpm.Proofs.Booting
import Cpm.Proofs.ConsoleRequests
import Cpm.Proofs.HostMaps

/-!
# The system behind another console

The system asks its console for answers and never looks at the state of it. So where the
states of a console have images in another one, the images go through the same system
calls, and a run in front of them is the same run.
-/

namespace Cpm

variable {κ υ : Type}

namespace Bios

def mapConsole (g : κ → υ) (b : Bios κ) : Bios υ := ⟨g b.console, b.disks, b.boot, b.selection⟩

def Access.map {α β : Type} (f : α → β) (a : Access α) : Access β := ⟨a.ok, f a.result, a.log⟩

variable (g : κ → υ) (b : Bios κ) (c : Core)

theorem boot_mapConsole : (b.mapConsole g).boot = b.boot := rfl

theorem select_mapConsole (f : Selection → Selection) :
    (b.mapConsole g).select f = (b.select f).mapConsole g := rfl

theorem readSelected_mapConsole (m : Memory) :
    (b.mapConsole g).readSelected m = b.readSelected m := rfl

theorem writeSelected_mapConsole (m : Memory) :
    (b.mapConsole g).writeSelected m = (b.writeSelected m).map (mapConsole g) := by
  have hdisk : (b.mapConsole g).selectedDisk = b.selectedDisk := rfl
  have hselection : (b.mapConsole g).selection = b.selection := rfl
  simp only [writeSelected, hdisk, hselection]
  cases b.selectedDisk with
  | none => rfl
  | some disk =>
    dsimp only
    cases disk.writeSector b.selection.track b.selection.sector _ <;> rfl

theorem coldBoot_mapConsole :
    (b.mapConsole g).coldBoot c = (b.coldBoot c).mapHost (mapConsole g) := by
  simp only [coldBoot, select_mapConsole, boot_mapConsole, readSelected_mapConsole]
  split
  · rfl
  · rw [apply_ite (TrapReply.mapHost (mapConsole g))]
    rfl

theorem selectDrive_mapConsole :
    (b.mapConsole g).selectDrive c = (b.selectDrive c).mapHost (mapConsole g) := by
  have hdisks : (b.mapConsole g).disks = b.disks := rfl
  simp only [selectDrive, hdisks]
  split
  · split <;> rfl
  · rfl

end Bios

namespace Machine

def mapConsole (g : κ → υ) (a : Machine κ) : Machine υ := ⟨a.cpu, a.bios.mapConsole g⟩

def RunResult.mapConsole {τ : Type} (g : κ → υ) (r : RunResult κ τ) : RunResult υ τ :=
  ⟨r.summary, r.machine.mapConsole g, r.observed, r.log⟩

theorem start_mapConsole {τ : Type} (g : κ → υ) (a : Machine κ) (observed : τ) :
    (a.mapConsole g).start observed = (a.start observed).mapHost (Bios.mapConsole g) := by
  rw [start_eq, start_eq]
  rfl

end Machine

variable [Console κ] [Console υ] {g : κ → υ} (m : Console.Maps g)

namespace Console.Maps

include m

theorem writeAll (c : κ) (bytes : List UInt8) :
    Console.writeAll (g c) bytes = g (Console.writeAll c bytes) := by
  induction bytes generalizing c with
  | nil => rfl
  | cons b rest ih =>
    show Console.writeAll (Console.write (g c) b) rest = _
    rw [m.write, ih]
    rfl

open Bios

theorem key (t : Typing κ) (max : Nat) (ch : UInt8) :
    Typing.key ⟨g t.console, t.typed⟩ max ch =
      ⟨g (t.key max ch).console, (t.key max ch).typed⟩ := by
  obtain ⟨console, typed⟩ := t
  unfold Typing.key
  split
  · cases typed with
    | nil => rfl
    | cons b rest => exact congrArg (Typing.mk · rest) (m.writeAll console _)
  · unfold Typing.take
    dsimp only
    split
    · rw [m.write]
    · rfl

theorem readKeys (max n : Nat) (t : Typing κ) :
    Typing.readKeys max n ⟨g t.console, t.typed⟩ =
      (⟨g (Typing.readKeys max n t).1.console, (Typing.readKeys max n t).1.typed⟩,
        (Typing.readKeys max n t).2) := by
  induction n generalizing t with
  | zero => rfl
  | succ n ih =>
    simp only [Typing.readKeys, m.read]
    obtain ⟨key, console⟩ := Console.read t.console
    cases key with
    | none => rfl
    | some ch =>
      dsimp only
      split
      · rfl
      · rw [m.key ⟨console, t.typed⟩, ih]

theorem readLine (console : κ) (c : Core) :
    Bios.readLine (g console) c = (g (Bios.readLine console c).1, (Bios.readLine console c).2) := by
  have hkeys := fun max n => m.readKeys max n ⟨console, []⟩
  simp only [Bios.readLine, m.remaining, hkeys]
  split
  · rfl
  · rw [m.write]

variable (b : Bios κ) (c : Core)

theorem serveBdos : (b.mapConsole g).serveBdos c = (b.serveBdos c).mapHost (mapConsole g) := by
  have hconsole : (b.mapConsole g).console = g b.console := rfl
  simp only [Bios.serveBdos, hconsole, m.status, m.read, m.write, m.writeAll, m.readLine]
  split
  case h_2 =>
    obtain ⟨key, console⟩ := Console.read b.console
    cases key with
    | none => rfl
    | some ch =>
      dsimp only
      rw [m.write]
      rfl
  case h_4 =>
    split
    · obtain ⟨ready, console⟩ := Console.status b.console
      cases ready with
      | false => rfl
      | true =>
        dsimp only
        rw [m.read]
        rfl
    · rfl
    · rfl
  case h_6 =>
    obtain ⟨console, line⟩ := Bios.readLine b.console c
    cases line <;> rfl
  all_goals rfl

theorem serveFunction (f : BiosFunction) :
    (b.mapConsole g).serveFunction f c = (b.serveFunction f c).mapHost (mapConsole g) := by
  have hconsole : (b.mapConsole g).console = g b.console := rfl
  cases f
  case boot => exact coldBoot_mapConsole g b c
  case seldsk => exact selectDrive_mapConsole g b c
  case write =>
    simp only [Bios.serveFunction, writeSelected_mapConsole]
    rfl
  case const =>
    simp only [Bios.serveFunction, hconsole, m.status]
    rfl
  case conin =>
    simp only [Bios.serveFunction, hconsole, m.read]
    obtain ⟨key, console⟩ := Console.read b.console
    cases key <;> rfl
  case conout =>
    simp only [Bios.serveFunction, hconsole, m.write]
    rfl
  all_goals rfl

/-- The image of a console gets the image of what the console gets. -/
theorem ports : Bios.ports.MapsTo Bios.ports (mapConsole g) where
  trap c b := by
    show trap c (b.mapConsole g) = (trap c b).mapHost (mapConsole g)
    unfold trap
    dsimp only
    split
    · rw [callBdos, m.serveBdos]
      rfl
    · split
      · rw [callFunction, m.serveFunction]
        rfl
      · rfl
  write _ _ _ := rfl

variable {τ : Type} (a : Machine κ) (observer : Observer τ) (fuel : Nat) (observed : τ)

theorem turnAt (n : Nat) :
    ((a.mapConsole g).start observed).turnAt Bios.ports observer fuel n =
      ((a.start observed).turnAt Bios.ports observer fuel n).map (Turn.mapHost (mapConsole g)) := by
  rw [a.start_mapConsole g observed]
  exact m.ports.turnAt (a.start observed) observer fuel n

/-- A machine with the image of a console goes through the same run. -/
theorem run (limit : Nat) :
    (a.mapConsole g).run observer fuel limit observed =
      (a.run observer fuel limit observed).map (Machine.RunResult.mapConsole g) := by
  have hfinish := m.ports.finish (a.start observed) observer fuel limit #[]
  simp only [Machine.run, a.start_mapConsole g observed, hfinish, Option.map_map]
  rfl

end Console.Maps

end Cpm
