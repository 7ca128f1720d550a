import Cpm.Proofs.HostWrites

/-!
# Disks and their files

A disk that belongs to a file is worked with in memory and written back as a whole. Whatever
is done with any number of disks, one that does not count as modified is what its file holds,
as long as no file belongs to two disks and others leave the files alone. The host may refuse
every single write; a disk whose write was refused goes on being modified.
-/

namespace Cpm

/-- Writes a whole file, unless the host refuses to. Then nothing is written. -/
def HostFiles.writeUnless (refuses : String → Option IoError) (fs : HostFiles) (path : String)
    (bytes : ByteArray) : Except IoError HostFiles :=
  match refuses path with
  | some cause => .error cause
  | none => fs.write path bytes

theorem HostFiles.writeUnless_eq_ok {refuses : String → Option IoError} {fs left : HostFiles}
    {path : String} {bytes : ByteArray} (h : fs.writeUnless refuses path bytes = .ok left) :
    ∃ at_, fs.fileAt? path = some at_ ∧ left = fs.put at_ bytes := by
  unfold writeUnless at h
  cases hrefused : refuses path with
  | some cause => simp only [hrefused] at h; cases h
  | none =>
    simp only [hrefused] at h
    cases hfile : fs.fileAt? path with
    | none =>
      obtain ⟨cause, hwrite⟩ := write_of_fileAt?_eq_none hfile bytes
      rw [hwrite] at h
      cases h
    | some at_ =>
      rw [write_of_fileAt? hfile] at h
      cases h
      exact ⟨at_, rfl, rfl⟩

namespace Disk

variable {fs : HostFiles} {path : String} {bytes : ByteArray}

theorem padded_image (d : Disk) : padded d.image = d.image := by
  rw [padded, d.size_image, Nat.sub_self]
  exact ByteArray.append_empty

/-- A file that is there is opened as a disk, unless it holds more than one. -/
theorem openFile_of_read (h : fs.read path = .ok bytes) :
    openFile fs path = if hsize : bytes.size ≤ size then
      .ok (⟨padded bytes, size_padded hsize, some path, false⟩, [])
    else .error (.diskGeometry path bytes.size size) := by
  have hpresent := HostFiles.present_of_read h
  by_cases hsize : bytes.size ≤ size
  · simp only [openFile, if_pos hpresent, h, ofImage?, dif_pos hsize]
  · simp only [openFile, if_pos hpresent, h, ofImage?, dif_neg hsize]

/-- A file that holds less than a disk, or a disk, is opened as the disk it pads to. -/
theorem openFile_of_padded {d : Disk} (h : fs.read path = .ok bytes)
    (himage : padded bytes = d.image) :
    ∃ again, openFile fs path = .ok (again, []) ∧ again.image = d.image := by
  have hsize : bytes.size ≤ size := by
    have hpadded := congrArg ByteArray.size himage
    rw [padded, ByteArray.size_append, d.size_image] at hpadded
    omega
  exact ⟨_, (openFile_of_read h).trans (dif_pos hsize), himage⟩

/-- A disk that does not count as modified is what its file holds. -/
def OnFile (fs : HostFiles) (d : Disk) : Prop :=
  ∀ path, d.path = some path → d.modified = false →
    ∃ bytes, fs.read path = .ok bytes ∧ padded bytes = d.image

theorem onFile_of_modified {d : Disk} (h : d.modified = true) : d.OnFile fs := by
  intro path _ hclean
  rw [h] at hclean
  cases hclean

theorem openFile_onFile {d : Disk} {log : List Log.Record}
    (h : openFile fs path = .ok (d, log)) : d.OnFile fs := by
  cases hread : fs.read path with
  | ok bytes =>
    rw [openFile_of_read hread] at h
    split at h
    · cases h
      rintro _ ⟨⟩ -
      exact ⟨bytes, hread, rfl⟩
    · cases h
  | error cause =>
    simp only [openFile, hread] at h
    split at h
    · cases h
    · cases h
      exact onFile_of_modified rfl

theorem ofBytes_onFile {d : Disk} (h : ofBytes bytes = .ok d) : d.OnFile fs := by
  by_cases hsize : bytes.size ≤ size
  · simp only [ofBytes, ofImage?, dif_pos hsize] at h
    cases h
    rintro path ⟨⟩
  · simp only [ofBytes, ofImage?, dif_neg hsize] at h
    cases h

theorem modified_writeSector {d left : Disk} {track sector : UInt16} {data : Sector}
    (h : d.writeSector track sector data = some left) : left.modified = true := by
  unfold writeSector at h
  split at h
  · cases h
  · cases h
    rfl

end Disk

/-- The disks that a program works with, each under a number, and the files of the host. -/
structure Shelf where
  disks : Nat → Option Disk
  files : HostFiles

namespace Shelf

/-- What can be done with disks. A new disk takes the place of the one with its number. -/
inductive Request where
  | openFile (n : Nat) (path : String)
  | ofBytes (n : Nat) (bytes : ByteArray)
  | readSector (n : Nat) (track sector : UInt16)
  | writeSector (n : Nat) (track sector : UInt16) (data : Sector)
  /-- A flush, and the paths that the host refuses to write to meanwhile. -/
  | flush (n : Nat) (refuses : String → Option IoError)
  /-- Others change files of the host. -/
  | others (files : HostFiles)

def empty (files : HostFiles) : Shelf := ⟨fun _ => none, files⟩

def put (s : Shelf) (n : Nat) (d : Disk) : Shelf :=
  { s with disks := fun k => if k = n then some d else s.disks k }

/-- A request that fails changes nothing. -/
def step (s : Shelf) : Request → Shelf
  | .openFile n path =>
    match Disk.openFile s.files path with
    | .ok (d, _) => s.put n d
    | .error _ => s
  | .ofBytes n bytes =>
    match Disk.ofBytes bytes with
    | .ok d => s.put n d
    | .error _ => s
  | .readSector _ _ _ => s
  | .writeSector n track sector data =>
    match (s.disks n).bind (·.writeSector track sector data) with
    | some d => s.put n d
    | none => s
  | .flush n refuses =>
    match s.disks n with
    | some d =>
      match d.flushBy (HostFiles.writeUnless refuses) s.files with
      | .ok (d, files, _) => { s.put n d with files := files }
      | .error _ => s
    | none => s
  | .others files => { s with files := files }

def run (s : Shelf) (requests : List Request) : Shelf := requests.foldl step s

def path? (s : Shelf) (n : Nat) : Option String := (s.disks n).bind Disk.path

/-- No file belongs to two disks, under one path or several. -/
def Apart (s : Shelf) : Prop :=
  ∀ m n at_, (s.path? m).bind s.files.fileAt? = some at_ →
    (s.path? n).bind s.files.fileAt? = some at_ → m = n

/-- The files of the disks are left alone by others. -/
def Spares (s : Shelf) : Request → Prop
  | .others files => ∀ n path, s.path? n = some path →
      (files.read path).toOption = (s.files.read path).toOption
  | _ => True

/-- Through all requests no file belongs to two disks, and others leave their files alone. -/
def Orderly (s : Shelf) : List Request → Prop
  | [] => True
  | r :: rest => s.Spares r ∧ (s.step r).Apart ∧ (s.step r).Orderly rest

/-- No file belongs to two disks, and the disks that do not count as modified are on theirs. -/
structure Coherent (s : Shelf) : Prop where
  apart : s.Apart
  onFile : ∀ n d, s.disks n = some d → d.OnFile s.files

variable {s : Shelf}

theorem coherent_empty (files : HostFiles) : (empty files).Coherent := by
  refine ⟨fun m n at_ h => ?_, fun n d h => ?_⟩
  · cases h
  · cases h

theorem path?_of_disks {n : Nat} {d : Disk} (h : s.disks n = some d) : s.path? n = d.path := by
  rw [path?, h, Option.bind_some]

theorem disks_put (n k : Nat) (d : Disk) :
    (s.put n d).disks k = if k = n then some d else s.disks k := rfl

theorem Coherent.put (h : s.Coherent) {n : Nat} {d : Disk} (hd : d.OnFile s.files)
    (hapart : (s.put n d).Apart) : (s.put n d).Coherent := by
  refine ⟨hapart, fun k e he => ?_⟩
  rw [disks_put] at he
  split at he
  · cases he
    exact hd
  · exact h.onFile k e he

/-- A write to the file of one disk leaves the other disks on theirs. -/
theorem Coherent.write (h : s.Coherent) {n : Nat} {d : Disk} {path : String} {at_ : Location}
    (hn : s.disks n = some d) (hpath : d.path = some path)
    (hfile : s.files.fileAt? path = some at_) {k : Nat} {e : Disk} (hk : s.disks k = some e)
    (hne : k ≠ n) (bytes : ByteArray) : e.OnFile (s.files.put at_ bytes) := by
  intro other hother hclean
  obtain ⟨held, hread, himage⟩ := h.onFile k e hk other hother hclean
  obtain ⟨l, hl, hheld⟩ := HostFiles.read_eq_ok_iff.mp hread
  have hapart : l ≠ at_ := by
    rintro rfl
    refine hne (h.apart k n l ?_ ?_)
    · rw [path?_of_disks hk, hother, Option.bind_some, hl]
    · rw [path?_of_disks hn, hpath, Option.bind_some, hfile]
  refine ⟨held, HostFiles.read_eq_ok_iff.mpr ⟨l, ?_, ?_⟩, himage⟩
  · rw [HostFiles.fileAt?_put, hl]
  · rw [HostFiles.bytes?_put, if_neg hapart, hheld]

theorem put_self {n : Nat} {d : Disk} (h : s.disks n = some d) : s.put n d = s := by
  have hdisks : (s.put n d).disks = s.disks := by
    funext k
    rw [disks_put]
    split
    · next hk => rw [hk, h]
    · rfl
  exact congrArg (Shelf.mk · s.files) hdisks

/-- A flush changes nothing, or it writes the disk to its file. -/
theorem step_flush (s : Shelf) (n : Nat) (refuses : String → Option IoError) :
    s.step (.flush n refuses) = s ∨
      ∃ d path at_, s.disks n = some d ∧ d.path = some path ∧ s.files.fileAt? path = some at_ ∧
        s.step (.flush n refuses) =
          { s.put n { d with modified := false } with files := s.files.put at_ d.image } := by
  cases hd : s.disks n with
  | none => exact .inl (by simp only [Shelf.step, hd])
  | some d =>
    cases hunsaved : d.unsaved? with
    | none =>
      have hflush := Disk.flushBy_of_unsaved?_eq_none (HostFiles.writeUnless refuses) s.files
        hunsaved
      exact .inl (by simp only [Shelf.step, hd, hflush, put_self hd])
    | some path =>
      have hflush := Disk.flushBy_of_unsaved? (HostFiles.writeUnless refuses) s.files hunsaved
      cases hwrite : s.files.writeUnless refuses path d.image with
      | error cause =>
        rw [hwrite] at hflush
        exact .inl (by simp only [Shelf.step, hd, hflush])
      | ok left =>
        rw [hwrite] at hflush
        obtain ⟨at_, hfile, rfl⟩ := HostFiles.writeUnless_eq_ok hwrite
        exact .inr ⟨d, path, at_, rfl, (Disk.unsaved?_eq_some_iff.mp hunsaved).2, hfile,
          by simp only [Shelf.step, hd, hflush]⟩

theorem Coherent.flush (h : s.Coherent) {n : Nat} {refuses : String → Option IoError}
    (hapart : (s.step (.flush n refuses)).Apart) : (s.step (.flush n refuses)).Coherent := by
  obtain hsame | ⟨d, path, at_, hd, hpath, hfile, hstep⟩ := s.step_flush n refuses
  · rw [hsame]
    exact h
  · rw [hstep] at hapart ⊢
    refine ⟨hapart, fun k e he => ?_⟩
    have he : (if k = n then some { d with modified := false } else s.disks k) = some e := he
    split at he
    · -- The disk that was flushed.
      cases he
      intro other hother _
      rw [hpath] at hother
      cases hother
      exact ⟨d.image, HostFiles.read_put hfile, d.padded_image⟩
    · next hne => exact h.write hd hpath hfile he hne d.image

theorem Coherent.step (h : s.Coherent) {r : Request} (hspares : s.Spares r)
    (hapart : (s.step r).Apart) : (s.step r).Coherent := by
  cases r with
  | openFile n path =>
    simp only [Shelf.step] at hapart ⊢
    cases hopen : Disk.openFile s.files path with
    | error e => exact h
    | ok result =>
      simp only [hopen] at hapart
      exact h.put (Disk.openFile_onFile hopen) hapart
  | ofBytes n bytes =>
    simp only [Shelf.step] at hapart ⊢
    cases hnew : Disk.ofBytes bytes with
    | error e => exact h
    | ok d =>
      simp only [hnew] at hapart
      exact h.put (Disk.ofBytes_onFile hnew) hapart
  | readSector n track sector => exact h
  | writeSector n track sector data =>
    simp only [Shelf.step] at hapart ⊢
    cases hwrite : (s.disks n).bind (·.writeSector track sector data) with
    | none => exact h
    | some left =>
      simp only [hwrite] at hapart
      obtain ⟨d, -, hleft⟩ := Option.bind_eq_some_iff.mp hwrite
      exact h.put (Disk.onFile_of_modified (Disk.modified_writeSector hleft)) hapart
  | flush n refuses => exact h.flush hapart
  | others files =>
    refine ⟨hapart, fun n d hd path hpath hclean => ?_⟩
    obtain ⟨bytes, hread, himage⟩ := h.onFile n d hd path hpath hclean
    have hsame := hspares n path ((path?_of_disks (s := s) hd).trans hpath)
    rw [hread] at hsame
    cases hleft : files.read path with
    | ok left =>
      rw [hleft] at hsame
      cases hsame
      exact ⟨bytes, hleft, himage⟩
    | error cause =>
      rw [hleft] at hsame
      cases hsame

theorem Coherent.run (h : s.Coherent) {requests : List Request} (horder : s.Orderly requests) :
    (s.run requests).Coherent := by
  induction requests generalizing s with
  | nil => exact h
  | cons r rest ih =>
    obtain ⟨hspares, hapart, horder⟩ := horder
    exact ih (h.step hspares hapart) horder

/-- A flush that goes well leaves the disk on its file. -/
theorem Coherent.read_of_flush (h : s.Coherent) {n : Nat} {d left : Disk} {path : String}
    {refuses : String → Option IoError} {files : HostFiles} {log : List Log.Record}
    (hd : s.disks n = some d) (hpath : d.path = some path)
    (hflush : d.flushBy (HostFiles.writeUnless refuses) s.files = .ok (left, files, log)) :
    ∃ bytes, files.read path = .ok bytes ∧ Disk.padded bytes = d.image := by
  cases hunsaved : d.unsaved? with
  | none =>
    rw [Disk.flushBy_of_unsaved?_eq_none _ _ hunsaved] at hflush
    cases hflush
    refine h.onFile n d hd path hpath (Bool.eq_false_iff.mpr fun hmodified => ?_)
    rw [Disk.unsaved?_eq_some_iff.mpr ⟨hmodified, hpath⟩] at hunsaved
    cases hunsaved
  | some other =>
    rw [Disk.flushBy_of_unsaved? _ _ hunsaved] at hflush
    obtain ⟨-, hother⟩ := Disk.unsaved?_eq_some_iff.mp hunsaved
    rw [hpath] at hother
    cases hother
    cases hwrite : s.files.writeUnless refuses path d.image with
    | error cause => rw [hwrite] at hflush; cases hflush
    | ok written =>
      rw [hwrite] at hflush
      obtain ⟨at_, hfile, rfl⟩ := HostFiles.writeUnless_eq_ok hwrite
      cases hflush
      exact ⟨d.image, HostFiles.read_put hfile, d.padded_image⟩

/-- A flush that fails changes nothing, and a later one that the host lets through stores the
disk. -/
theorem step_of_flush_error {n : Nat} {d : Disk} {refuses : String → Option IoError}
    {e : MachineError} (hd : s.disks n = some d)
    (hflush : d.flushBy (HostFiles.writeUnless refuses) s.files = .error e) :
    s.step (.flush n refuses) = s ∧ d.modified = true ∧ ∃ path, d.path = some path ∧
      ∀ at_, s.files.fileAt? path = some at_ →
        (s.step (.flush n fun _ => none)).files.read path = .ok d.image := by
  refine ⟨by simp only [Shelf.step, hd, hflush], ?_⟩
  cases hunsaved : d.unsaved? with
  | none =>
    rw [Disk.flushBy_of_unsaved?_eq_none _ _ hunsaved] at hflush
    cases hflush
  | some path =>
    obtain ⟨hmodified, hpath⟩ := Disk.unsaved?_eq_some_iff.mp hunsaved
    refine ⟨hmodified, path, hpath, fun at_ hfile => ?_⟩
    have hwrite : s.files.writeUnless (fun _ => none) path d.image =
        .ok (s.files.put at_ d.image) := HostFiles.write_of_fileAt? hfile d.image
    have hretry := Disk.flushBy_of_unsaved? (HostFiles.writeUnless fun _ => none) s.files hunsaved
    rw [hwrite] at hretry
    simp only [Shelf.step, hd, hretry]
    exact HostFiles.read_put hfile

/-- Whatever was done with disks, as long as no file belongs to two of them and others leave
their files alone: every disk has its full size; a disk that does not count as modified is
what its file holds; a flush that fails changes nothing and can be made again; after one that
goes well the file is opened as the same disk. A file that is too large is not opened. -/
theorem disks_stay_coherent (files : HostFiles) (requests : List Request)
    (horder : (empty files).Orderly requests) :
    let s := (empty files).run requests
    (∀ n d, s.disks n = some d → d.image.size = 256256) ∧
    (∀ n d path, s.disks n = some d → d.path = some path → d.modified = false →
      s.files.present path = true ∧
        ∃ bytes, s.files.read path = .ok bytes ∧ Disk.padded bytes = d.image) ∧
    (∀ n d refuses e, s.disks n = some d →
      d.flushBy (HostFiles.writeUnless refuses) s.files = .error e →
      s.step (.flush n refuses) = s ∧ d.modified = true ∧ ∃ path, d.path = some path ∧
        ∀ at_, s.files.fileAt? path = some at_ →
          (s.step (.flush n fun _ => none)).files.read path = .ok d.image) ∧
    (∀ n d path refuses left files log, s.disks n = some d → d.path = some path →
      d.flushBy (HostFiles.writeUnless refuses) s.files = .ok (left, files, log) →
      ∃ again, Disk.openFile files path = .ok (again, []) ∧
        ∀ track sector, again.readSector track sector = d.readSector track sector) ∧
    ∀ path bytes, s.files.read path = .ok bytes → 256256 < bytes.size →
      Disk.openFile s.files path = .error (.diskGeometry path bytes.size 256256) := by
  intro s
  have h : s.Coherent := (coherent_empty files).run horder
  refine ⟨fun n d _ => d.size_image, ?_, fun n d refuses e hd => step_of_flush_error hd, ?_, ?_⟩
  · intro n d path hd hpath hclean
    obtain ⟨bytes, hread, himage⟩ := h.onFile n d hd path hpath hclean
    exact ⟨HostFiles.present_of_read hread, bytes, hread, himage⟩
  · intro n d path refuses left files log hd hpath hflush
    obtain ⟨bytes, hread, himage⟩ := h.read_of_flush hd hpath hflush
    obtain ⟨again, hopen, hsame⟩ := Disk.openFile_of_padded hread himage
    exact ⟨again, hopen, fun track sector => by simp only [Disk.readSector, hsame]⟩
  · intro path bytes hread hsize
    exact (Disk.openFile_of_read hread).trans (dif_neg (Nat.not_le_of_gt hsize))

/-! ### One disk -/

def Request.number : Request → Option Nat
  | .openFile n _ | .ofBytes n _ | .readSector n _ _ | .writeSector n _ _ _ | .flush n _ => some n
  | .others _ => none

/-- A request leaves the other disks alone. -/
theorem disks_step {r : Request} {k : Nat} (h : r.number ≠ some k) :
    (s.step r).disks k = s.disks k := by
  have hput : ∀ n d, Request.number r = some n → (s.put n d).disks k = s.disks k := by
    intro n d hn
    have hne : k ≠ n := by
      rintro rfl
      exact h hn
    rw [disks_put, if_neg hne]
  cases r with
  | openFile n path =>
    simp only [Shelf.step]
    split
    · exact hput n _ rfl
    · rfl
  | ofBytes n bytes =>
    simp only [Shelf.step]
    split
    · exact hput n _ rfl
    · rfl
  | readSector n track sector => rfl
  | writeSector n track sector data =>
    simp only [Shelf.step]
    split
    · exact hput n _ rfl
    · rfl
  | flush n refuses =>
    obtain hsame | ⟨d, path, at_, -, -, -, hstep⟩ := s.step_flush n refuses
    · rw [hsame]
    · rw [hstep]
      exact hput n _ rfl
  | others files => rfl

/-- What is done with one disk alone is orderly. -/
theorem orderly_of_one_disk {n : Nat} (halone : ∀ k, k ≠ n → s.disks k = none)
    {requests : List Request} (h : ∀ r ∈ requests, r.number = some n) : s.Orderly requests := by
  induction requests generalizing s with
  | nil => trivial
  | cons r rest ih =>
    have hnumber := h r List.mem_cons_self
    have hleft : ∀ k, k ≠ n → (s.step r).disks k = none := by
      intro k hk
      rw [disks_step (by rw [hnumber]; exact fun heq => hk (Option.some.inj heq).symm)]
      exact halone k hk
    have hnone : ∀ k at_,
        ((s.step r).path? k).bind (s.step r).files.fileAt? = some at_ → k = n := by
      intro k at_ hfile
      by_cases hk : k = n
      · exact hk
      · rw [path?, hleft k hk] at hfile
        cases hfile
    refine ⟨?_, fun m k at_ hm hk => (hnone m at_ hm).trans (hnone k at_ hk).symm,
      ih hleft fun q hq => h q (List.mem_cons_of_mem r hq)⟩
    cases r with
    | others files => cases hnumber
    | _ => trivial

/-- A disk is made, changed and written back, at the second attempt. -/
theorem new_disk_is_written_back :
    let files := HostFiles.empty ["work"]
    let data : Sector := ⟨⟨Array.replicate 128 0x42⟩, Array.size_replicate⟩
    let requests : List Request := [.openFile 0 "b.dsk", .writeSector 0 2 1 data,
      .flush 0 fun _ => some .notDirectory, .flush 0 fun _ => none]
    let s := (empty files).run requests
    (empty files).Orderly requests ∧ ∃ d, s.disks 0 = some d ∧ d.path = some "b.dsk" ∧
      d.modified = false ∧ s.files.present "b.dsk" = true ∧
      ∃ bytes, s.files.read "b.dsk" = .ok bytes ∧ Disk.padded bytes = d.image := by
  intro files data requests s
  have horder : (empty files).Orderly requests :=
    orderly_of_one_disk (n := 0) (fun _ _ => rfl) (by simp [requests, Request.number])
  obtain ⟨-, honFile, -⟩ := disks_stay_coherent files requests horder
  refine ⟨horder, _, rfl, rfl, rfl, honFile 0 _ "b.dsk" rfl rfl rfl⟩

end Shelf

end Cpm
