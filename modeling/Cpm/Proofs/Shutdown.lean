import Cpm.Machine
import Cpm.Proofs.HostWrites

/-!
# Shutting down

A shutdown serves the drives in order and ends with the first disk that cannot be written
back. The disks before it are then on their files; that one and all behind it keep what they
hold to themselves, even where their own files could be written.
-/

namespace Cpm

namespace Disk

variable {d : Disk} {fs : HostFiles}

/-- A flush has to write, and cannot. -/
def isStuck (fs : HostFiles) (d : Disk) : Bool :=
  d.unsaved?.any fun path => !(fs.write path d.image).isOk

def target? (fs : HostFiles) (d : Disk) : Option Location := d.unsaved?.bind fs.fileAt?

def saved (d : Disk) : Disk := { d with modified := d.modified && d.path.isNone }

def putIn (fs : HostFiles) (d : Disk) : HostFiles :=
  match d.target? fs with
  | some at_ => fs.put at_ d.image
  | none => fs

theorem isStuck_eq_true_iff :
    d.isStuck fs = true ↔ ∃ path, d.unsaved? = some path ∧ fs.fileAt? path = none := by
  unfold isStuck
  cases d.unsaved? <;> simp [HostFiles.isOk_write]

theorem saved_of_unsaved?_eq_none (h : d.unsaved? = none) : d.saved = d := by
  obtain ⟨image, hsize, path, modified⟩ := d
  cases path <;> cases modified <;> first | rfl | cases h

theorem flush_of_isStuck (h : d.isStuck fs = true) :
    ∃ path cause, d.unsaved? = some path ∧ d.flush fs = .error (.io path cause) := by
  obtain ⟨path, hunsaved, hfile⟩ := isStuck_eq_true_iff.mp h
  obtain ⟨cause, hwrite⟩ := HostFiles.write_of_fileAt?_eq_none hfile d.image
  exact ⟨path, cause, hunsaved, by rw [flush, flushBy_of_unsaved? _ _ hunsaved, hwrite]⟩

theorem flush_of_not_isStuck (h : d.isStuck fs = false) :
    ∃ log, d.flush fs = .ok (d.saved, putIn fs d, log) := by
  cases hunsaved : d.unsaved? with
  | none =>
    refine ⟨[], ?_⟩
    rw [flush, flushBy_of_unsaved?_eq_none _ _ hunsaved, saved_of_unsaved?_eq_none hunsaved, putIn,
      target?, hunsaved]
    rfl
  | some path =>
    cases hfile : fs.fileAt? path with
    | none =>
      rw [isStuck_eq_true_iff.mpr ⟨path, hunsaved, hfile⟩] at h
      cases h
    | some l =>
      have hsaved : d.saved = { d with modified := false } := by
        obtain ⟨hmodified, hpath⟩ := unsaved?_eq_some_iff.mp hunsaved
        simp [saved, hpath]
      have hput : putIn fs d = fs.put l d.image := by
        rw [putIn, target?, hunsaved, Option.bind_some, hfile]
      exact ⟨_, by rw [flush, flushBy_of_unsaved? _ _ hunsaved,
        HostFiles.write_of_fileAt? hfile, hsaved, hput]⟩

@[simp] theorem fileAt?_putIn (path : String) : (putIn fs d).fileAt? path = fs.fileAt? path := by
  unfold putIn
  split
  · exact HostFiles.fileAt?_put
  · rfl

@[simp] theorem isStuck_putIn : isStuck (putIn fs d) = isStuck fs := by
  funext e
  simp only [isStuck, HostFiles.isOk_write, fileAt?_putIn]

@[simp] theorem target?_putIn : target? (putIn fs d) = target? fs := by
  funext e
  simp only [target?, funext fileAt?_putIn]

theorem bytes?_putIn (at_ : Location) : (putIn fs d).bytes? at_ =
    if d.target? fs = some at_ then some d.image else fs.bytes? at_ := by
  unfold putIn
  cases d.target? fs with
  | none => rfl
  | some l =>
    rw [HostFiles.bytes?_put]
    by_cases h : at_ = l
    · rw [if_pos h, if_pos (congrArg some h.symm)]
    · rw [if_neg h, if_neg fun hl => h (Option.some.inj hl).symm]

theorem fileAt?_foldl_putIn (disks : List Disk) (fs : HostFiles) (path : String) :
    (disks.foldl putIn fs).fileAt? path = fs.fileAt? path := by
  induction disks generalizing fs with
  | nil => rfl
  | cons d rest ih => rw [List.foldl_cons, ih, fileAt?_putIn]

/-- Of several disks with one file the last to be written is on it. -/
theorem bytes?_foldl_putIn (disks : List Disk) (fs : HostFiles) (at_ : Location) :
    (disks.foldl putIn fs).bytes? at_ =
      ((disks.filter fun d => d.target? fs = some at_).getLast?.map image).or (fs.bytes? at_) := by
  induction disks generalizing fs with
  | nil => rfl
  | cons d rest ih =>
    rw [List.foldl_cons, ih, target?_putIn, bytes?_putIn]
    by_cases h : d.target? fs = some at_
    · rw [if_pos h, List.filter_cons_of_pos (by simpa using h), List.getLast?_cons]
      cases (rest.filter fun d => d.target? fs = some at_).getLast? <;> rfl
    · rw [if_neg h, List.filter_cons_of_neg (by simpa using h)]

end Disk

namespace Shutdown

variable (fs : HostFiles) (drives : List (Option Disk))

/-- The drives before the first whose disk is stuck. -/
def served : List (Option Disk) := drives.takeWhile fun d => !d.any (Disk.isStuck fs)

def unserved : List (Option Disk) := drives.dropWhile fun d => !d.any (Disk.isStuck fs)

/-- A shutdown flushes the disks in the drives that it serves, and leaves the others as they
are. The first of these gives the error. -/
structure Serves (s : Shutdown) : Prop where
  disks : s.disks = (served fs drives).map (Option.map Disk.saved) ++ unserved fs drives
  files : s.files = (served fs drives).reduceOption.foldl Disk.putIn fs
  failure : match unserved fs drives with
    | some d :: _ => ∃ path cause, d.unsaved? = some path ∧ s.failure = some (.io path cause)
    | _ => s.failure = none

theorem ofDisks_serves : Serves fs drives (ofDisks fs drives) := by
  induction drives generalizing fs with
  | nil => exact ⟨rfl, rfl, rfl⟩
  | cons drive rest ih =>
    cases drive with
    | none =>
      obtain ⟨hdisks, hfiles, hfailure⟩ := ih fs
      exact ⟨congrArg (none :: ·) hdisks, hfiles, hfailure⟩
    | some d =>
      cases hstuck : d.isStuck fs with
      | true =>
        obtain ⟨path, cause, hunsaved, hflush⟩ := Disk.flush_of_isStuck hstuck
        have hserved : served fs (some d :: rest) = [] := by simp [served, hstuck]
        have hunserved : unserved fs (some d :: rest) = some d :: rest := by
          simp [unserved, hstuck]
        have hdone : ofDisks fs (some d :: rest) =
            ⟨some d :: rest, fs, [], some (.io path cause)⟩ := by
          simp only [ofDisks, hflush]
        rw [hdone]
        exact ⟨by rw [hserved, hunserved]; rfl, by rw [hserved]; rfl,
          by rw [hunserved]; exact ⟨path, cause, hunsaved, rfl⟩⟩
      | false =>
        obtain ⟨log, hflush⟩ := Disk.flush_of_not_isStuck hstuck
        obtain ⟨hdisks, hfiles, hfailure⟩ := ih (Disk.putIn fs d)
        have hserved : served fs (some d :: rest) =
            some d :: served (Disk.putIn fs d) rest := by simp [served, hstuck]
        have hunserved : unserved fs (some d :: rest) = unserved (Disk.putIn fs d) rest := by
          simp [unserved, hstuck]
        have hdone : ofDisks fs (some d :: rest) = { ofDisks (Disk.putIn fs d) rest with
            disks := some d.saved :: (ofDisks (Disk.putIn fs d) rest).disks
            log := log ++ (ofDisks (Disk.putIn fs d) rest).log } := by
          simp only [ofDisks, hflush]
        rw [hdone]
        refine ⟨?_, ?_, ?_⟩
        · rw [hserved, hunserved, hdisks]
          rfl
        · rw [hserved, hfiles]
          rfl
        · rw [hunserved]
          exact hfailure

theorem served_append_unserved : served fs drives ++ unserved fs drives = drives :=
  List.takeWhile_append_dropWhile

theorem isStuck_of_mem_served {d : Disk} (h : some d ∈ served fs drives) :
    d.isStuck fs = false := by
  have hall : (served fs drives).all fun d => !d.any (Disk.isStuck fs) := List.all_takeWhile
  simpa using List.all_eq_true.mp hall _ h

/-- The first drive that is not served holds a disk that is stuck. -/
theorem unserved_cases : unserved fs drives = [] ∨
    ∃ d rest, unserved fs drives = some d :: rest ∧ d.isStuck fs = true := by
  have hhead := List.head?_dropWhile_not (fun d => !d.any (Disk.isStuck fs)) drives
  cases h : unserved fs drives with
  | nil => exact .inl rfl
  | cons drive rest =>
    rw [unserved] at h
    rw [h] at hhead
    cases drive with
    | none => cases hhead
    | some d => exact .inr ⟨d, rest, rfl, by simpa using hhead⟩

theorem mem_of_unserved {d : Disk} {rest : List (Option Disk)}
    (h : unserved fs drives = some d :: rest) : some d ∈ drives := by
  rw [← served_append_unserved fs drives, h]
  exact List.mem_append_right _ List.mem_cons_self

end Shutdown

namespace Machine

variable {κ : Type}

/-- A shutdown fails exactly if some disk cannot be written back. The drives before the first
such disk are served: their disks are on their files. From that disk on, all disks and their
files stay as they are. -/
theorem shutdown_serves_up_to_stuck_disk (m : Machine κ) (fs : HostFiles) :
    let drives := m.bios.disks.toList
    let served := Shutdown.served fs drives
    let unserved := Shutdown.unserved fs drives
    let s := m.shutdown fs
    (s.failure ≠ none ↔ ∃ d, some d ∈ drives ∧ d.isStuck fs = true) ∧
    (unserved = [] ∨ ∃ d rest path cause, unserved = some d :: rest ∧ d.isStuck fs = true ∧
      d.unsaved? = some path ∧ s.failure = some (.io path cause)) ∧
    s.disks = served.map (Option.map Disk.saved) ++ unserved ∧
    ∀ path at_, fs.fileAt? path = some at_ → s.files.read path =
      match (served.reduceOption.filter fun d => d.target? fs = some at_).getLast? with
      | some d => .ok d.image
      | none => fs.read path := by
  intro drives served unserved s
  obtain ⟨hdisks, hfiles, hfailure⟩ : Shutdown.Serves fs drives s :=
    Shutdown.ofDisks_serves fs drives
  have hread : ∀ path at_, fs.fileAt? path = some at_ → s.files.read path =
      match (served.reduceOption.filter fun d => d.target? fs = some at_).getLast? with
      | some d => .ok d.image
      | none => fs.read path := by
    intro path at_ hpath
    have hleft : s.files.fileAt? path = some at_ := by
      rw [hfiles, Disk.fileAt?_foldl_putIn, hpath]
    rw [HostFiles.read_of_fileAt? hleft, HostFiles.read_of_fileAt? hpath, hfiles,
      Disk.bytes?_foldl_putIn]
    cases (served.reduceOption.filter fun d => d.target? fs = some at_).getLast? <;> rfl
  obtain hnil | ⟨d, rest, hfirst, hstuck⟩ := Shutdown.unserved_cases fs drives
  · rw [hnil] at hfailure
    refine ⟨⟨fun h => absurd hfailure h, fun ⟨d, hd, hstuck⟩ => ?_⟩, .inl hnil, hdisks, hread⟩
    have hserved : served = drives := by
      rw [← Shutdown.served_append_unserved fs drives, hnil, List.append_nil]
    have hfree := Shutdown.isStuck_of_mem_served fs drives (hserved ▸ hd)
    exact absurd (hfree.symm.trans hstuck) Bool.noConfusion
  · rw [hfirst] at hfailure
    obtain ⟨path, cause, hunsaved, hfailure⟩ := hfailure
    refine ⟨⟨fun _ => ⟨d, Shutdown.mem_of_unserved fs drives hfirst, hstuck⟩, fun _ h => ?_⟩,
      .inr ⟨d, rest, path, cause, hfirst, hstuck, hunsaved, hfailure⟩, hdisks, hread⟩
    exact absurd (hfailure.symm.trans h) (Option.some_ne_none _)

/-- A disk with no stuck one before it is on its file. -/
theorem served_disk_is_on_file :
    let fs := HostFiles.empty ["work"]
    let b : Disk := { Disk.blank with path := some "b.dsk", modified := true }
    let m : Machine ScriptedConsole := ⟨.initial .z80, (Bios.initial default).putDisk 1 (some b)⟩
    fs.fileAt? "b.dsk" = some ["work", "b.dsk"] ∧
      (m.shutdown fs).files.read "b.dsk" = .ok b.image := by
  intro fs b m
  have hfile : fs.fileAt? "b.dsk" = some ["work", "b.dsk"] := rfl
  obtain ⟨-, -, -, hread⟩ := m.shutdown_serves_up_to_stuck_disk fs
  exact ⟨hfile, (hread _ _ hfile).trans rfl⟩

/-- The disk in drive B could be written back, but the file of the one in drive A has no
directory: the disk that was to be written back is on no file. -/
theorem disk_behind_stuck_disk_is_lost :
    let fs := HostFiles.empty ["work"]
    let a : Disk := { Disk.blank with path := some "no/such/a.dsk", modified := true }
    let b : Disk := { Disk.blank with path := some "b.dsk", modified := true }
    let m : Machine ScriptedConsole :=
      ⟨.initial .z80, ((Bios.initial default).putDisk 0 (some a)).putDisk 1 (some b)⟩
    a.isStuck fs = true ∧ b.unsaved? = some "b.dsk" ∧ b.isStuck fs = false ∧
      (m.shutdown fs).failure = some (.io "no/such/a.dsk" .notFound) ∧
      (m.shutdown fs).files.read "b.dsk" = .error .notFound :=
  ⟨rfl, rfl, rfl, rfl, rfl⟩

end Machine

end Cpm
