import Cpm.Disk

/-!
# Files after a write

What a path can be read as and written to depends on two things: the location of the file
that it means, if it means one, and the bytes that lie there. A write changes the bytes at
one location and nothing else, so that every path goes on meaning the same file. A flush of
a disk is such a write, or nothing.
-/

namespace Cpm

namespace HostFiles

variable {fs other : HostFiles} {path : String} {at_ : Location} {bytes : ByteArray}

/-- Whether a location is a directory. No file is looked for there. -/
def isDirectory (fs : HostFiles) (at_ : Location) : Bool :=
  at_.isEmpty || fs.directories.contains at_

def bytes? (fs : HostFiles) (at_ : Location) : Option ByteArray := fs.files.lookup at_

theorem entry?_of_isDirectory (h : fs.isDirectory at_ = true) :
    fs.entry? at_ = some .directory := if_pos h

theorem entry?_of_not_isDirectory (h : fs.isDirectory at_ = false) :
    fs.entry? at_ = (fs.bytes? at_).map .file := by
  unfold entry?
  rw [← isDirectory, h]
  rfl

/-- The location of the file that a path means, where it can mean one. -/
def fileAt? (fs : HostFiles) (path : String) : Option Location :=
  match fs.locate path with
  | .ok ⟨at_, false⟩ => if fs.isDirectory at_ then none else some at_
  | _ => none

theorem fileAt?_eq_some_iff :
    fs.fileAt? path = some at_ ↔
      fs.locate path = .ok ⟨at_, false⟩ ∧ fs.isDirectory at_ = false := by
  unfold fileAt?
  cases fs.locate path with
  | error e => simp
  | ok t =>
    obtain ⟨l, slash⟩ := t
    cases slash with
    | true => simp
    | false =>
      by_cases hl : fs.isDirectory l = true
      · simp only [if_pos hl]
        grind
      · simp only [if_neg hl]
        grind

theorem of_fileAt?_eq_none (h : fs.fileAt? path = none) {t : Target}
    (ht : fs.locate path = .ok t) : t.slash = true ∨ fs.isDirectory t.location = true := by
  obtain ⟨l, slash⟩ := t
  cases slash with
  | true => exact .inl rfl
  | false =>
    cases hdir : fs.isDirectory l with
    | true => exact .inr rfl
    | false =>
      rw [fileAt?_eq_some_iff.mpr ⟨ht, hdir⟩] at h
      cases h

/-! ### Reading and writing by location -/

theorem write_of_fileAt? (h : fs.fileAt? path = some at_) (bytes : ByteArray) :
    fs.write path bytes = .ok (fs.put at_ bytes) := by
  obtain ⟨hlocate, hdir⟩ := fileAt?_eq_some_iff.mp h
  simp only [write, hlocate, bind, Except.bind, entry?_of_not_isDirectory hdir]
  cases fs.bytes? at_ <;> rfl

theorem write_of_fileAt?_eq_none (h : fs.fileAt? path = none) (bytes : ByteArray) :
    ∃ cause, fs.write path bytes = .error cause := by
  cases hlocate : fs.locate path with
  | error e => exact ⟨e, by simp only [write, hlocate, bind, Except.bind]⟩
  | ok t =>
    refine ⟨.isDirectory, ?_⟩
    simp only [write, hlocate, bind, Except.bind]
    split
    · rfl
    · next hslash =>
      rw [entry?_of_isDirectory ((of_fileAt?_eq_none h hlocate).resolve_left hslash)]

/-- Exactly the paths that mean a file can be written to. -/
theorem isOk_write : (fs.write path bytes).isOk = (fs.fileAt? path).isSome := by
  cases h : fs.fileAt? path with
  | some l =>
    rw [write_of_fileAt? h]
    rfl
  | none =>
    obtain ⟨cause, hwrite⟩ := write_of_fileAt?_eq_none h bytes
    rw [hwrite]
    rfl

theorem read_of_fileAt? (h : fs.fileAt? path = some at_) :
    fs.read path = match fs.bytes? at_ with
      | some bytes => .ok bytes
      | none => .error .notFound := by
  obtain ⟨hlocate, hdir⟩ := fileAt?_eq_some_iff.mp h
  simp only [read, hlocate, bind, Except.bind, entry?_of_not_isDirectory hdir]
  cases fs.bytes? at_ <;> rfl

theorem read_of_fileAt?_eq_none (h : fs.fileAt? path = none) :
    ∃ cause, fs.read path = .error cause := by
  cases hlocate : fs.locate path with
  | error e => exact ⟨e, by simp only [read, hlocate, bind, Except.bind]⟩
  | ok t =>
    cases hdir : fs.isDirectory t.location with
    | true =>
      refine ⟨.isDirectory, ?_⟩
      simp only [read, hlocate, bind, Except.bind, entry?_of_isDirectory hdir]
    | false =>
      have hslash := (of_fileAt?_eq_none h hlocate).resolve_right (by simp [hdir])
      simp only [read, hlocate, bind, Except.bind, entry?_of_not_isDirectory hdir, hslash]
      cases fs.bytes? t.location with
      | none => exact ⟨.notFound, rfl⟩
      | some b => exact ⟨.notDirectory, rfl⟩

theorem read_eq_ok_iff : fs.read path = .ok bytes ↔
    ∃ at_, fs.fileAt? path = some at_ ∧ fs.bytes? at_ = some bytes := by
  cases h : fs.fileAt? path with
  | some l =>
    rw [read_of_fileAt? h]
    cases hb : fs.bytes? l <;> simp [hb]
  | none =>
    obtain ⟨cause, hread⟩ := read_of_fileAt?_eq_none h
    simp [hread]

theorem present_of_read (h : fs.read path = .ok bytes) : fs.present path = true := by
  obtain ⟨l, hfile, hb⟩ := read_eq_ok_iff.mp h
  obtain ⟨hlocate, hdir⟩ := fileAt?_eq_some_iff.mp hfile
  simp only [present, hlocate, entry?_of_not_isDirectory hdir, hb]
  rfl

/-! ### What a write leaves -/

theorem walk_of_isDirectory (hsame : fs.isDirectory = other.isDirectory) {from_ : Location}
    {names : List String} (h : fs.walk from_ names = .ok at_) :
    other.walk from_ names = .ok at_ := by
  induction names generalizing from_ with
  | nil => exact h
  | cons name rest ih =>
    cases rest with
    | nil => exact h
    | cons next rest =>
      simp only [walk] at h ⊢
      cases hdir : fs.isDirectory (follow from_ name) with
      | true =>
        rw [entry?_of_isDirectory hdir] at h
        rw [hsame] at hdir
        rw [entry?_of_isDirectory hdir]
        exact ih h
      | false =>
        rw [entry?_of_not_isDirectory hdir] at h
        cases hb : fs.bytes? (follow from_ name) <;> simp [hb] at h

theorem locate_of_isDirectory (hsame : fs.isDirectory = other.isDirectory)
    (hwork : fs.workingDirectory = other.workingDirectory) {t : Target}
    (h : fs.locate path = .ok t) : other.locate path = .ok t := by
  simp only [locate, ← hwork] at h ⊢
  split at h
  · cases h
  · next hempty =>
    simp only [if_neg hempty]
    cases hwalk : fs.walk (if path.toList.head? = some '/' then [] else fs.workingDirectory)
        (names path.toList) with
    | error e => simp only [hwalk] at h; cases h
    | ok l =>
      simp only [hwalk] at h
      simp only [walk_of_isDirectory hsame hwalk]
      exact h

/-- Every path goes on meaning the same file. -/
@[simp] theorem fileAt?_put : (fs.put at_ bytes).fileAt? path = fs.fileAt? path := by
  refine Option.ext fun l => ?_
  rw [fileAt?_eq_some_iff, fileAt?_eq_some_iff]
  have hsame : (fs.put at_ bytes).isDirectory = fs.isDirectory := rfl
  have hwork : (fs.put at_ bytes).workingDirectory = fs.workingDirectory := rfl
  rw [hsame]
  exact and_congr_left fun _ =>
    ⟨locate_of_isDirectory hsame hwork, locate_of_isDirectory hsame.symm hwork.symm⟩

theorem lookup_filter_ne {l : Location} (h : l ≠ at_) (files : List (Location × ByteArray)) :
    (files.filter fun f => f.1 != at_).lookup l = files.lookup l := by
  induction files with
  | nil => rfl
  | cons f rest ih =>
    obtain ⟨key, contents⟩ := f
    by_cases hkey : key = at_
    · subst hkey
      have hother : (l == key) = false := beq_false_of_ne h
      simpa [List.lookup_cons, hother] using ih
    · simp [hkey, List.lookup_cons, ih]

/-- The bytes at one location are replaced, those elsewhere stay. -/
theorem bytes?_put (l : Location) :
    (fs.put at_ bytes).bytes? l = if l = at_ then some bytes else fs.bytes? l := by
  by_cases h : l = at_
  · simp [bytes?, put, h]
  · have hother : (l == at_) = false := beq_false_of_ne h
    simp only [bytes?, put, List.lookup_cons, hother, lookup_filter_ne h, if_neg h]

/-- What was written is read back. -/
theorem read_put (h : fs.fileAt? path = some at_) : (fs.put at_ bytes).read path = .ok bytes :=
  read_eq_ok_iff.mpr ⟨at_, by rw [fileAt?_put, h], by rw [bytes?_put, if_pos rfl]⟩

end HostFiles

namespace Disk

variable {d : Disk} {path : String}

def unsaved? (d : Disk) : Option String := if d.modified then d.path else none

theorem unsaved?_eq_some_iff :
    d.unsaved? = some path ↔ d.modified = true ∧ d.path = some path := by
  unfold unsaved?
  split <;> simp_all

variable (write : HostFiles → String → ByteArray → Except IoError HostFiles) (fs : HostFiles)

theorem flushBy_of_unsaved?_eq_none (h : d.unsaved? = none) :
    d.flushBy write fs = .ok (d, fs, []) := by
  unfold flushBy
  split
  · next hpath hmodified =>
    rw [unsaved?_eq_some_iff.mpr ⟨hmodified, hpath⟩] at h
    cases h
  · rfl

theorem flushBy_of_unsaved? (h : d.unsaved? = some path) :
    d.flushBy write fs = match write fs path d.image with
      | .error cause => .error (.io path cause)
      | .ok left =>
        .ok ({ d with modified := false }, left, [⟨.debug, .disk, "flushed " ++ path⟩]) := by
  obtain ⟨image, hsize, own, modified⟩ := d
  obtain ⟨rfl, rfl⟩ : modified = true ∧ own = some path := unsaved?_eq_some_iff.mp h
  rfl

end Disk

end Cpm
