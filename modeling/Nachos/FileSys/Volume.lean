import Nachos.FileSys.Creation
import Nachos.FileSys.FileStore
import Nachos.Program.Simulation
import Nachos.Program.Table

/-!
# The file system is a file store

A volume is the disk, the two files the file system keeps open, and the files that are open on it,
each with its header in memory and its position. Whatever is called, in any order and with the
machine stopped and started again in between, the answers are those of a `FileStore`, as long as
nobody asks for a negative position or goes on using a file that is removed.
-/

namespace Nachos

open Program

/-! ## Open files -/

/-- An `OpenFile` of the file system on the disk. -/
structure DiskFile where
  hdr : FileHeader
  seekPosition : ℤ

namespace DiskFile

/-- `OpenFile::OpenFile`, with the header that was fetched. -/
def ofHeader (hdr : FileHeader) : DiskFile := ⟨hdr, 0⟩

/-- `OpenFile::Seek`. -/
def seek (f : DiskFile) (position : ℤ) : DiskFile := { f with seekPosition := position }

/-- `seekPosition += result`. -/
def advance (f : DiskFile) (result : ℤ) : DiskFile :=
  { f with seekPosition := wrap32 (f.seekPosition + result) }

/-- `OpenFile::Read`: the result, the bytes delivered and the file. -/
def read (f : DiskFile) (junk : ℕ → Byte) (numBytes : ℤ) : DiskM (ℤ × (ℕ → Byte) × DiskFile) := do
  let (result, data) ← readAt f.hdr junk numBytes f.seekPosition
  return (result, data, f.advance result)

/-- `OpenFile::Write`. -/
def write (f : DiskFile) (junk src : ℕ → Byte) (numBytes : ℤ) : DiskM (ℤ × DiskFile) := do
  let result ← writeAt f.hdr junk src numBytes f.seekPosition
  return (result, f.advance result)

/-- `OpenFile::Length`. -/
def length (f : DiskFile) : ℤ := f.hdr.fileLength

variable {f : DiskFile} {junk : ℕ → Byte} {numBytes r : ℤ} {d d' : Disk}

theorem read_of_ok {data : ℕ → Byte}
    (h : readAt f.hdr junk numBytes f.seekPosition d = .ok (r, data) d') :
    f.read junk numBytes d = .ok (r, data, f.advance r) d' := bind_of_ok h

theorem write_of_ok {src : ℕ → Byte}
    (h : writeAt f.hdr junk src numBytes f.seekPosition d = .ok r d') :
    f.write junk src numBytes d = .ok (r, f.advance r) d' := bind_of_ok h

end DiskFile

/-- `FileSystem::FileSystem(FALSE)`, up to the table of open files. -/
def FileSystem.mount (junk : ℕ → Garbage) : DiskM FileSystem := do
  let freeMapFile ← FileHeader.fetchFrom freeMapSector
  let directoryFile ← FileHeader.fetchFrom directorySector
  let fs : FileSystem := ⟨freeMapFile, directoryFile⟩
  let _ ← fs.create (junk 0) stdinName 0
  let _ ← fs.create (junk 1) stdoutName 0
  return fs

/-! ## Volumes -/

structure Volume where
  fs : FileSystem
  disk : Disk
  files : List DiskFile

namespace Volume

/-- Code that works on the disk, and what is made of its result. A fault stops the system. -/
def onDisk {α : Type} (v : Volume) (x : DiskM α) (f : α → Disk → FileReply × Volume) :
    Option (FileReply × Volume) :=
  match x v.disk with
  | .ok a d => some (f a d)
  | .error _ _ => none

/-- One call. -/
def exec (v : Volume) : FileCall → Option (FileReply × Volume)
  | .create junk name initialSize =>
    v.onDisk (v.fs.create junk name initialSize.toInt) fun r d ↦ (.flag r, ⟨v.fs, d, v.files⟩)
  | .openFile junk name =>
    v.onDisk (v.fs.openFile junk name) fun r d ↦
      (.flag r.isSome, ⟨v.fs, d, v.files ++ (r.map DiskFile.ofHeader).toList⟩)
  | .remove junk name =>
    v.onDisk (v.fs.remove junk name) fun r d ↦ (.flag r, ⟨v.fs, d, v.files⟩)
  | .seek i position =>
    v.files[i]?.map fun f ↦ (.done, ⟨v.fs, v.disk, v.files.set i (f.seek position.toInt)⟩)
  | .read i junk numBytes =>
    v.files[i]?.bind fun f ↦ v.onDisk (f.read junk numBytes.toInt) fun r d ↦
      (.data r.1 (bytesOf r.2.1 r.1.toNat), ⟨v.fs, d, v.files.set i r.2.2⟩)
  | .write i junk src numBytes =>
    v.files[i]?.bind fun f ↦ v.onDisk (f.write junk src numBytes.toInt) fun r d ↦
      (.number r.1, ⟨v.fs, d, v.files.set i r.2⟩)
  | .readAt i junk numBytes position =>
    v.files[i]?.bind fun f ↦
      v.onDisk (Nachos.readAt f.hdr junk numBytes.toInt position.toInt) fun r d ↦
        (.data r.1 (bytesOf r.2 r.1.toNat), ⟨v.fs, d, v.files⟩)
  | .writeAt i junk src numBytes position =>
    v.files[i]?.bind fun f ↦
      v.onDisk (Nachos.writeAt f.hdr junk src numBytes.toInt position.toInt) fun r d ↦
        (.number r, ⟨v.fs, d, v.files⟩)
  | .length i => v.files[i]?.map fun f ↦ (.number f.length, v)
  | .close i => some (.done, ⟨v.fs, v.disk, v.files.eraseIdx i⟩)
  | .reboot junk => v.onDisk (FileSystem.mount junk) fun fs d ↦ (.done, ⟨fs, d, []⟩)

theorem onDisk_of_ok {α : Type} {v : Volume} {x : DiskM α} {f : α → Disk → FileReply × Volume}
    {a : α} {d : Disk} (h : x v.disk = .ok a d) : v.onDisk x f = some (f a d) := by
  rw [onDisk, h]

end Volume

/-! ## The files on a disk -/

/-- The bytes of the file in entry `i`. -/
def contentsOf (d : Disk) (i : ℕ) : List Byte :=
  bytesOf ((fileHeader d i).flat d) (fileHeader d i).length

theorem Session.SameFile.contentsOf {d d' : Disk} {i : ℕ} (h : Session.SameFile d d' i) :
    contentsOf d' i = contentsOf d i := by
  rw [Nachos.contentsOf, Nachos.contentsOf, h.header]
  refine List.map_congr_left fun x hx ↦ ?_
  rw [← h.contents x (List.mem_range.mp hx), h.header]

/-- The disk keeps these files, and what they do not take is free. -/
structure Shows (fs : FileSystem) (d : Disk) (m : Files) : Prop where
  consistent : Consistent fs d
  nonneg : ∀ i, InUse d i → 0 ≤ (fileHeader d i).fileLength
  table : Tabulates (InUse d) (directoryOn d).entryKey (contentsOf d) m
  space : (freeMapOn d).clears + m.space = Files.capacity

section shows

variable {fs : FileSystem} {d d' : Disk} {m : Files}

/-- A file whose header and data sectors are as they were. -/
theorem Consistent.sameFile (c : Consistent fs d) {i : ℕ} (hi : InUse d i) (huse : InUse d' i)
    (hheader : fileHeader d' i = fileHeader d i)
    (hdata : ∀ t, (fileHeader d i).Owns t → d' t = d t) : Session.SameFile d d' i := by
  refine ⟨huse, hheader, fun x hx ↦ ?_⟩
  rw [hheader]
  exact (c.file_valid i hi).flat_congr hdata hx

/-- The data sectors of a file are none of the bitmap or the directory. -/
theorem Consistent.not_owns_data (c : Consistent fs d) {i : ℕ} (hi : InUse d i) {t : ℕ}
    (ht : (fileHeader d i).Owns t) :
    ¬(headerAt d freeMapSector).Owns t ∧ ¬(headerAt d directorySector).Owns t := by
  obtain ⟨j, hj, rfl⟩ := ht
  have hlive : (Owner.data i j).Live d := ⟨hi, hj⟩
  constructor
  · rintro ⟨l, hl, heq⟩
    cases c.allocated.injective (.freeMapData l) (.data i j) hl hlive heq
  · rintro ⟨l, hl, heq⟩
    cases c.allocated.injective (.directoryData l) (.data i j) hl hlive heq

theorem length_contentsOf (d : Disk) (i : ℕ) : (contentsOf d i).length = (fileHeader d i).length :=
  length_bytesOf _ _

/-- The key of an entry that `Create` did not fill in, and of the one it did. -/
theorem Created.entryKey {name : List Byte} {size : ℤ} {k s : ℕ} {h : FileHeader}
    (hc : Created d d' name size k s h) {i : ℕ} (hi : i < 20) :
    (directoryOn d').entryKey i = if i = k then Directory.key name
      else (directoryOn d).entryKey i := by
  rw [hc.directory.entryKey hi]
  by_cases hik : i = k
  · rw [if_pos hik, hik, Directory.entryKey_put_self]
  · rw [if_neg hik, Directory.entryKey_put_of_ne _ hik]

/-- A new file. -/
theorem Created.shows (hs : Shows fs d m) {name : List Byte} {size : ℤ} (hsize : 0 ≤ size)
    {k s : ℕ} {h : FileHeader} (hc : Created d d' name size k s h) (hnew : Directory.key name ∉ m) :
    ∃ b, b.length = size.toNat ∧ Shows fs d' (m.insert (Directory.key name) b) := by
  obtain ⟨-, -, huse, -, hheader, hkeep⟩ := hs.consistent.created_views hc
  have hkey : (directoryOn d').entryKey k = Directory.key name := by
    rw [hc.entryKey hc.entry_lt, if_pos rfl]
  have hfree : ¬InUse d k := by
    rintro ⟨-, hbusy⟩
    rw [hc.entry_free] at hbusy
    cases hbusy
  have hlength : (contentsOf d' k).length = size.toNat := by
    rw [length_contentsOf, hheader, FileHeader.length, hc.length]
  refine ⟨contentsOf d' k, hlength, hs.consistent.created hc, fun i hi ↦ ?_, ?_, ?_⟩
  · rcases (huse i).mp hi with hi | rfl
    · rw [(hkeep i hi).2]
      exact hs.nonneg i hi
    · rw [hheader, hc.length]
      exact hsize
  · rw [← hkey] at hnew ⊢
    refine hs.table.insert hfree huse (fun i hi ↦ ?_) (fun i hi ↦ ?_) hnew
    · have hik : i ≠ k := by
        rintro rfl
        exact hfree hi
      rw [hc.entryKey hi.1, if_neg hik]
    · exact (hc.sameFile hs.consistent hi).2.contentsOf
  · have hclears := hc.clears
    have hcount := hc.count_eq
    have hspace := hs.space
    rw [Files.space_insert_new hnew, hlength, sectorsFor]
    omega

/-- Marked places that are given back are free. -/
theorem Bitmap.clears_release {b b' : Bitmap} (hbits : b'.numBits = b.numBits) (old : Finset ℕ)
    (hlt : ∀ t ∈ old, t < b.numBits) (hmarked : ∀ t ∈ old, b.bit t = true)
    (hbit : ∀ t < b.numBits, b'.bit t = true ↔ b.bit t = true ∧ t ∉ old) :
    b'.clears = b.clears + old.card := by
  have hdisjoint : Disjoint ((Finset.range b.numBits).filter fun t ↦ b.bit t = false) old := by
    rw [Finset.disjoint_left]
    intro t ht hold
    rw [Finset.mem_filter, hmarked t hold] at ht
    cases ht.2
  rw [clears, clears, Nat.count_eq_card_filter_range, Nat.count_eq_card_filter_range,
    ← Finset.card_union_of_disjoint hdisjoint, hbits]
  congr 1
  ext t
  rw [Finset.mem_union, Finset.mem_filter, Finset.mem_filter, Finset.mem_range]
  constructor
  · rintro ⟨ht, hclear⟩
    by_cases hold : t ∈ old
    · exact .inr hold
    · refine .inl ⟨ht, Bool.eq_false_of_not_eq_true fun hset ↦ ?_⟩
      rw [(hbit t ht).mpr ⟨hset, hold⟩] at hclear
      cases hclear
  · intro hcase
    have ht : t < b.numBits := hcase.elim And.left (hlt t)
    refine ⟨ht, Bool.eq_false_of_not_eq_true fun hset ↦ ?_⟩
    obtain ⟨hset, hold⟩ := (hbit t ht).mp hset
    rcases hcase with ⟨-, hclear⟩ | hcase
    · rw [hset] at hclear
      cases hclear
    · exact hold hcase

/-- The sectors of a removed file are free again. -/
theorem Removed.clears (c : Consistent fs d) {k : ℕ} (hr : Removed d d' k) :
    (freeMapOn d').clears = (freeMapOn d).clears + (fileHeader d k).count + 1 := by
  have hvalid := c.file_valid k hr.inUse
  -- the header and the data sectors, which are all distinct
  have hdata : ((Finset.range (fileHeader d k).count).image (fileHeader d k).sectorAt).card =
      (fileHeader d k).count := by
    rw [Finset.card_image_of_injOn, Finset.card_range]
    intro i hi j hj heq
    exact hvalid.distinct i (Finset.mem_range.mp hi) j (Finset.mem_range.mp hj) heq
  have howns : ∀ t, t ∈ (Finset.range (fileHeader d k).count).image (fileHeader d k).sectorAt ↔
      (fileHeader d k).Owns t := fun t ↦ by
    simp only [Finset.mem_image, Finset.mem_range, FileHeader.Owns]
  have hheader : headerSector d k ∉
      (Finset.range (fileHeader d k).count).image (fileHeader d k).sectorAt := by
    rw [howns]
    rintro ⟨j, hj, heq⟩
    cases c.allocated.injective (.data k j) (.header k) ⟨hr.inUse, hj⟩ hr.inUse heq
  have hcard := Finset.card_insert_of_notMem hheader
  have hbits : (freeMapOn d').numBits = (freeMapOn d).numBits := rfl
  rw [Bitmap.clears_release hbits _ (fun t ht ↦ ?_) (fun t ht ↦ ?_) (fun t ht ↦ ?_), hcard, hdata,
    Nat.add_assoc]
  · rcases Finset.mem_insert.mp ht with rfl | ht
    · exact c.headerSector_lt hr.inUse
    · obtain ⟨j, hj, rfl⟩ := (howns t).mp ht
      exact hvalid.sectorAt_lt j hj
  · rcases Finset.mem_insert.mp ht with rfl | ht
    · exact c.allocated.taken_place (o := .header k) hr.inUse
    · obtain ⟨j, hj, rfl⟩ := (howns t).mp ht
      exact c.allocated.taken_place (o := .data k j) ⟨hr.inUse, hj⟩
  · rw [hr.bit t ht, Finset.mem_insert, howns, not_or]

/-- A file is gone. -/
theorem Removed.shows (hs : Shows fs d m) {k : ℕ} (hr : Removed d d' k) :
    Shows fs d' (m.erase ((directoryOn d).entryKey k)) := by
  obtain ⟨-, -, huse, hkeep⟩ := hs.consistent.removed_views hr
  refine ⟨hs.consistent.removed hr, fun i hi ↦ ?_, ?_, ?_⟩
  · rw [(hkeep i ((huse i).mp hi).1).2]
    exact hs.nonneg i ((huse i).mp hi).1
  · refine hs.table.erase hr.inUse huse (fun i hi ↦ ?_) fun i hi ↦ ?_
    · rw [hr.directory.entryKey hi.1, Directory.entryKey_setInUse]
    · have hi' := ((huse i).mp hi).1
      refine (hs.consistent.sameFile hi' hi (hkeep i hi').2 fun t ht ↦ ?_).contentsOf
      exact hr.frame t (hs.consistent.not_owns_data hi' ht).1
        (hs.consistent.not_owns_data hi' ht).2
  · have hspace := Files.space_erase (hs.table.lookup_key hr.inUse)
    have hclears := hr.clears hs.consistent
    have hcount := (hs.consistent.file_valid k hr.inUse).count_eq
    have hfree := hs.space
    rw [length_contentsOf, sectorsFor] at hspace
    omega

/-- The bytes of one file have changed. -/
theorem Shows.written (hs : Shows fs d m) {k : ℕ} (hk : InUse d k)
    (hframe : ∀ t, ¬(fileHeader d k).Owns t → d' t = d t) :
    Shows fs d' (m.insert ((directoryOn d).entryKey k) (contentsOf d' k)) := by
  obtain ⟨-, -, hbit, hdirectory, hkeep⟩ := hs.consistent.written_views hk hframe
  have huse : ∀ i, InUse d' i ↔ InUse d i := fun i ↦
    and_congr_right fun hi ↦ by rw [hdirectory.inUse hi]
  refine ⟨hs.consistent.written hk hframe, fun i hi ↦ ?_, ?_, ?_⟩
  · have hi := (huse i).mp hi
    rw [(hkeep i hi).2]
    exact hs.nonneg i hi
  · refine hs.table.update hk huse (fun i hi ↦ hdirectory.entryKey hi.1) fun i hi hik ↦ ?_
    refine (hs.consistent.sameFile hi ((huse i).mpr hi) (hkeep i hi).2 ?_).contentsOf
    -- a sector of another file is not written
    rintro t ⟨j, hj, rfl⟩
    refine hframe _ ?_
    rintro ⟨l, hl, heq⟩
    cases hs.consistent.allocated.injective (.data k l) (.data i j) ⟨hk, hl⟩ ⟨hi, hj⟩ heq
    exact hik rfl
  · have hlength : (contentsOf d' k).length = (contentsOf d k).length := by
      rw [length_contentsOf, length_contentsOf, (hkeep k hk).2]
    have hclears : (freeMapOn d').clears = (freeMapOn d).clears := Bitmap.clears_congr rfl hbit
    rw [Files.space_replace (hs.table.lookup_key hk) hlength, hclears]
    exact hs.space

end shows

/-! ## The operations on the files of a disk -/

/-- Entry `i` has the file it had. -/
structure Kept (d d' : Disk) (i : ℕ) : Prop where
  inUse : InUse d' i
  key : (directoryOn d').entryKey i = (directoryOn d).entryKey i
  header : fileHeader d' i = fileHeader d i

namespace Shows

variable {fs : FileSystem} {d : Disk} {m : Files} (hs : Shows fs d m)

include hs

theorem findIndex_cases (name : List Byte) :
    (∃ k, InUse d k ∧ (directoryOn d).entryKey k = Directory.key name ∧
      (directoryOn d).findIndex name = k ∧ Directory.key name ∈ m) ∨
    ((directoryOn d).findIndex name = -1 ∧ Directory.key name ∉ m) := by
  rcases hs.consistent.find_cases name with ⟨k, huse, hholds, hindex, -⟩ | ⟨hnone, hindex, -⟩
  · have hkey := (Directory.holds_iff.mp hholds).2
    exact .inl ⟨k, huse, hkey, hindex, (hs.table.mem_iff _).mpr ⟨k, huse, hkey⟩⟩
  · refine .inr ⟨hindex, fun hmem ↦ ?_⟩
    obtain ⟨i, hi, hkey⟩ := (hs.table.mem_iff _).mp hmem
    exact hnone i hi.1 (Directory.holds_iff.mpr ⟨hi.2, hkey⟩)

/-- There is a key more to give exactly when an entry is free. -/
private theorem card_keys_lt_iff :
    m.keys.card < numDirEntries ↔ ∃ i < numDirEntries, (directoryOn d).inUse i = false := by
  classical
  have hiff := Finset.card_filter_eq_iff (s := Finset.range numDirEntries) (p := InUse d)
  have hle := Finset.card_filter_le (Finset.range numDirEntries) (InUse d)
  rw [Finset.card_range] at hiff hle
  rw [hs.table.card_keys fun i hi ↦ hi.1, Nat.lt_iff_le_and_ne, and_iff_right hle, Ne, hiff]
  simp only [Finset.mem_range, not_forall, InUse, not_and, Bool.not_eq_true]
  refine exists_congr fun i ↦ ?_
  constructor
  · rintro ⟨hi, hfree⟩
    exact ⟨hi, hfree hi⟩
  · rintro ⟨hi, hfree⟩
    exact ⟨hi, fun _ ↦ hfree⟩

/-- `Create` succeeds exactly when there is room. -/
theorem create (junk : Garbage) (name : List Byte) {size : ℤ} (hlow : 0 ≤ size)
    (hhigh : size ≤ maxFileSize) :
    (m.Room (Directory.key name) size.toNat ∧
      ∃ d' b, fs.create junk name size d = .ok true d' ∧ b.length = size.toNat ∧
        Shows fs d' (m.insert (Directory.key name) b) ∧ ∀ i, InUse d i → Kept d d' i) ∨
    (¬m.Room (Directory.key name) size.toNat ∧ fs.create junk name size d = .ok false d) := by
  have hspace := hs.space
  rcases hs.consistent.create_cases junk name (show -2 ^ 31 ≤ size by omega) hhigh with
    ⟨d', k, s, h, hrun, hc⟩ | ⟨hrun, hrefused⟩
  · have hnew : Directory.key name ∉ m := by
      rcases hs.findIndex_cases name with ⟨j, -, -, hindex, -⟩ | ⟨-, hnew⟩
      · rw [hs.consistent.create_of_found junk (by omega) size] at hrun
        cases hrun
      · exact hnew
    obtain ⟨-, -, huse, -, -, hkeep⟩ := hs.consistent.created_views hc
    obtain ⟨b, hlength, hshows⟩ := hc.shows hs hlow hnew
    refine .inl ⟨⟨hnew, ?_, ?_⟩, d', b, hrun, hlength, hshows, fun i hi ↦ ?_⟩
    · exact hs.card_keys_lt_iff.mpr ⟨k, hc.entry_lt, hc.entry_free⟩
    · have hclears := hc.clears
      have hcount := hc.count_eq
      rw [sectorsFor]
      omega
    · refine ⟨(huse i).mpr (.inl hi), ?_, (hkeep i hi).2⟩
      have hik : i ≠ k := by
        rintro rfl
        have hbusy := hi.2
        rw [hc.entry_free] at hbusy
        cases hbusy
      rw [hc.entryKey hi.1, if_neg hik]
  · refine .inr ⟨fun hroom ↦ ?_, hrun⟩
    obtain ⟨hnew, hentry, hfree⟩ := hroom
    rw [sectorsFor] at hfree
    rcases hrefused with ⟨j, hj, hholds⟩ | hall | hnone | hfew
    · obtain ⟨hused, hkey⟩ := Directory.holds_iff.mp hholds
      exact hnew ((hs.table.mem_iff _).mpr ⟨j, ⟨hj, hused⟩, hkey⟩)
    · obtain ⟨i, hi, hclear⟩ := hs.card_keys_lt_iff.mp hentry
      rw [hall i hi] at hclear
      cases hclear
    · omega
    · omega

theorem openFile (junk : Garbage) (name : List Byte) :
    (Directory.key name ∈ m ∧ ∃ k, InUse d k ∧ (directoryOn d).entryKey k = Directory.key name ∧
      fs.openFile junk name d = .ok (some (fileHeader d k)) d) ∨
    (Directory.key name ∉ m ∧ fs.openFile junk name d = .ok none d) := by
  rcases hs.consistent.open_cases junk name with ⟨k, huse, hindex, hrun⟩ | ⟨hindex, hrun⟩
  · rcases hs.findIndex_cases name with ⟨j, -, hkey, hindex', hmem⟩ | ⟨hindex', -⟩
    · have hjk : j = k := by omega
      subst hjk
      exact .inl ⟨hmem, j, huse, hkey, hrun⟩
    · omega
  · rcases hs.findIndex_cases name with ⟨j, -, -, hindex', -⟩ | ⟨-, hmem⟩
    · omega
    · exact .inr ⟨hmem, hrun⟩

theorem remove (junk : Garbage) (name : List Byte) :
    (Directory.key name ∈ m ∧ ∃ d', fs.remove junk name d = .ok true d' ∧
      Shows fs d' (m.erase (Directory.key name)) ∧
      ∀ i, InUse d i → (directoryOn d).entryKey i ≠ Directory.key name → Kept d d' i) ∨
    (Directory.key name ∉ m ∧ fs.remove junk name d = .ok false d) := by
  rcases hs.consistent.remove_cases junk name with ⟨d', k, hindex, hrun, hr⟩ | ⟨hindex, hrun⟩
  · rcases hs.findIndex_cases name with ⟨j, -, hkey, hindex', hmem⟩ | ⟨hindex', -⟩
    · have hjk : j = k := by omega
      subst hjk
      obtain ⟨-, -, huse, hkeep⟩ := hs.consistent.removed_views hr
      have hshows := hr.shows hs
      rw [hkey] at hshows
      refine .inl ⟨hmem, d', hrun, hshows, fun i hi hne ↦ ?_⟩
      have hij : i ≠ j := by
        rintro rfl
        exact hne hkey
      refine ⟨(huse i).mpr ⟨hi, hij⟩, ?_, (hkeep i hi).2⟩
      rw [hr.directory.entryKey hi.1, Directory.entryKey_setInUse]
    · omega
  · rcases hs.findIndex_cases name with ⟨j, -, -, hindex', -⟩ | ⟨-, hmem⟩
    · omega
    · exact .inr ⟨hmem, hrun⟩

/-- What a request moves is the bytes there are. -/
theorem transferred {k : ℕ} (hk : InUse d k) {n p : ℤ}
    (hp : FileStore.Proper (contentsOf d k) n p) :
    (fileHeader d k).transferred n p = (FileStore.slice (contentsOf d k) n p).length := by
  have hlength : ((contentsOf d k).length : ℤ) = (fileHeader d k).fileLength := by
    rw [length_contentsOf, FileHeader.length]
    exact Int.toNat_of_nonneg (hs.nonneg k hk)
  rw [FileStore.Proper, hlength] at hp
  rw [FileHeader.transferred, FileStore.slice, List.length_take, List.length_drop]
  split <;> omega

/-- `ReadAt` of a file in the directory. -/
theorem readAt {k : ℕ} (hk : InUse d k) (junk : ℕ → Byte) {n p : ℤ}
    (hp : FileStore.Proper (contentsOf d k) n p) :
    ∃ data, Nachos.readAt (fileHeader d k) junk n p d =
        .ok (((FileStore.slice (contentsOf d k) n p).length : ℤ), data) d ∧
      bytesOf data (FileStore.slice (contentsOf d k) n p).length =
        FileStore.slice (contentsOf d k) n p := by
  have hmoved := hs.transferred hk hp
  by_cases hrefused : n ≤ 0 ∨ (fileHeader d k).fileLength ≤ p
  · rw [FileHeader.transferred_of_refused hrefused] at hmoved
    have hempty : FileStore.slice (contentsOf d k) n p = [] :=
      List.eq_nil_of_length_eq_zero (by omega)
    refine ⟨fun _ ↦ 0, ?_, ?_⟩
    · rw [Nachos.readAt, readAtVia, if_pos hrefused, hempty]
      rfl
    · rw [hempty]
      rfl
  · obtain ⟨hpos, hlt⟩ : 0 ≤ p ∧ p + n < 2 ^ 31 := by
      have hlength := length_contentsOf d k
      rw [FileHeader.length] at hlength
      rcases hp with hp | hp | hp
      · exact absurd (.inl hp) hrefused
      · exact absurd (.inr (by omega)) hrefused
      · exact hp
    obtain ⟨data, hrun, hdata⟩ :=
      readAt_flat (hs.consistent.file_valid k hk) junk hpos hlt d
    rw [hmoved] at hrun hdata
    refine ⟨data, hrun, List.ext_getElem? fun x ↦ ?_⟩
    by_cases hx : x < (FileStore.slice (contentsOf d k) n p).length
    · rw [getElem?_bytesOf _ hx, hdata x (by omega), FileStore.slice]
      rw [FileStore.slice, List.length_take, List.length_drop] at hx
      rw [List.getElem?_take_of_lt (by omega), List.getElem?_drop, contentsOf,
        getElem?_bytesOf _ (by rw [← length_contentsOf]; omega)]
    · rw [List.getElem?_eq_none (by rw [length_bytesOf]; omega),
        List.getElem?_eq_none (Nat.not_lt.mp hx)]

/-- `WriteAt` to a file in the directory. -/
theorem writeAt {k : ℕ} (hk : InUse d k) (junk src : ℕ → Byte) {n p : ℤ}
    (hp : FileStore.Proper (contentsOf d k) n p) :
    ∃ d', Nachos.writeAt (fileHeader d k) junk src n p d =
        .ok ((FileStore.slice (contentsOf d k) n p).length : ℤ) d' ∧
      Shows fs d' (m.insert ((directoryOn d).entryKey k)
        (overlay (contentsOf d k) p.toNat (bytesOf src n.toNat))) ∧
      ∀ i, InUse d i → Kept d d' i := by
  have hmoved := hs.transferred hk hp
  have hvalid := hs.consistent.file_valid k hk
  have hcontents := length_contentsOf d k
  have hlength := hs.nonneg k hk
  rw [FileHeader.length] at hcontents
  -- a write that is refused changes nothing, and one that is not changes the file
  have hwrite : ∃ d', Nachos.writeAt (fileHeader d k) junk src n p d =
        .ok ((FileStore.slice (contentsOf d k) n p).length : ℤ) d' ∧
      (∀ t, ¬(fileHeader d k).Owns t → d' t = d t) ∧
      ∀ y < (contentsOf d k).length, (fileHeader d k).flat d' y =
        if p.toNat ≤ y ∧ y < p.toNat + n.toNat then src (y - p.toNat)
        else (fileHeader d k).flat d y := by
    by_cases hrefused : n ≤ 0 ∨ (fileHeader d k).fileLength ≤ p
    · refine ⟨d, ?_, fun _ _ ↦ rfl, fun y hy ↦ ?_⟩
      · rw [← hmoved, FileHeader.transferred_of_refused hrefused, Nachos.writeAt, writeAtVia,
          if_pos hrefused]
        rfl
      · rw [if_neg (by omega)]
    · obtain ⟨hpos, hlt⟩ : 0 ≤ p ∧ p + n < 2 ^ 31 := by
        rcases hp with hp | hp | hp
        · exact absurd (.inl hp) hrefused
        · exact absurd (.inr (by omega)) hrefused
        · exact hp
      obtain ⟨d', hrun, hin, hout⟩ := writeAt_flat hvalid junk hpos hlt src d
      have hcount := hvalid.count_eq
      rw [FileHeader.length] at hcount
      rw [FileHeader.transferred, if_neg hrefused] at hin hout
      refine ⟨d', hmoved ▸ hrun, fun t ht ↦ hout t fun y hy hy' heq ↦ ?_, fun y hy ↦ ?_⟩
      · exact ht ⟨y / sectorSize, by simp only [sectorSize]; omega, heq.symm⟩
      · rw [hin y (by rw [FileHeader.length]; omega)]
        exact if_congr (by omega) rfl rfl
  obtain ⟨d', hrun, hframe, hflat⟩ := hwrite
  obtain ⟨-, -, -, hdirectory, hkeep⟩ := hs.consistent.written_views hk hframe
  have hnew : contentsOf d' k = overlay (contentsOf d k) p.toNat (bytesOf src n.toNat) := by
    refine List.ext_getElem? fun y ↦ ?_
    rw [getElem?_overlay, length_bytesOf]
    by_cases hy : y < (contentsOf d k).length
    · have hy' : y < (fileHeader d k).length := by rwa [← length_contentsOf]
      rw [contentsOf, (hkeep k hk).2, getElem?_bytesOf _ hy', hflat y hy]
      by_cases hin : p.toNat ≤ y ∧ y < p.toNat + n.toNat
      · rw [if_pos hin, if_pos ⟨hy, hin⟩, getElem?_bytesOf _ (by omega)]
      · rw [if_neg hin, if_neg fun h ↦ hin h.2, contentsOf, getElem?_bytesOf _ hy']
    · rw [if_neg fun h ↦ hy h.1, List.getElem?_eq_none (Nat.not_lt.mp hy),
        List.getElem?_eq_none]
      rw [length_contentsOf, (hkeep k hk).2, ← length_contentsOf]
      exact Nat.not_lt.mp hy
  refine ⟨d', hrun, hnew ▸ hs.written hk hframe, fun i hi ↦ ?_⟩
  refine ⟨⟨hi.1, ?_⟩, hdirectory.entryKey hi.1, (hkeep i hi).2⟩
  rw [hdirectory.inUse hi.1, hi.2]

/-- One of the two console files, which every start asks for. -/
theorem ensure (junk : Garbage) (name : List Byte) :
    ∃ r d', fs.create junk name 0 d = .ok r d' ∧ Shows fs d' (m.ensure (Directory.key name)) := by
  rcases hs.create junk name (Int.le_refl 0) (by decide) with
    ⟨hroom, d', b, hrun, hlength, hshows, -⟩ | ⟨hroom, hrun⟩
  · refine ⟨true, d', hrun, ?_⟩
    rw [List.eq_nil_of_length_eq_zero hlength] at hshows
    rw [Int.toNat_zero] at hroom
    rwa [Files.ensure, if_pos hroom]
  · refine ⟨false, d, hrun, ?_⟩
    rw [Int.toNat_zero] at hroom
    rwa [Files.ensure, if_neg hroom]

/-- A disk that is started again shows the same files. -/
theorem mount (junk : ℕ → Garbage) :
    ∃ d', FileSystem.mount junk d = .ok fs d' ∧
      Shows fs d' ((m.ensure FileSystem.stdinName).ensure FileSystem.stdoutName) := by
  obtain ⟨r₁, d₁, hrun₁, hs₁⟩ := hs.ensure (junk 0) FileSystem.stdinName
  obtain ⟨r₂, d₂, hrun₂, hs₂⟩ := hs₁.ensure (junk 1) FileSystem.stdoutName
  have hfs : fs = ⟨headerAt d freeMapSector, headerAt d directorySector⟩ := by
    rw [← hs.consistent.freeMapFile, ← hs.consistent.directoryFile]
  refine ⟨d₂, ?_, hs₂⟩
  rw [FileSystem.mount]
  refine (bind_of_ok (fetchFrom_of_lt (s := freeMapSector) (by decide) d)).trans ?_
  refine (bind_of_ok (fetchFrom_of_lt (s := directorySector) (by decide) d)).trans ?_
  rw [← hfs]
  exact (bind_of_ok hrun₁).trans (bind_of_ok hrun₂)

end Shows

/-! ## The open files -/

section related

variable {α β : Type} {R : α → β → Prop} {l : List α} {l' : List β} {i : ℕ}

private theorem forall₂_getElem? (h : List.Forall₂ R l l') {b : β} (hb : l'[i]? = some b) :
    ∃ a, l[i]? = some a ∧ R a b := by
  obtain ⟨hi, rfl⟩ := List.getElem?_eq_some_iff.mp hb
  have hi' : i < l.length := by rwa [h.length_eq]
  exact ⟨l[i], List.getElem?_eq_getElem hi', h.get hi' hi⟩

theorem forall₂_set (h : List.Forall₂ R l l') {a : α} {b : β} (hab : R a b) :
    List.Forall₂ R (l.set i a) (l'.set i b) := by
  by_cases hi : i < l.length
  · rw [List.set_eq_take_cons_drop a hi, List.set_eq_take_cons_drop b (h.length_eq ▸ hi)]
    exact List.rel_append (List.forall₂_take i h) (.cons hab (List.forall₂_drop (i + 1) h))
  · have hle := Nat.not_lt.mp hi
    rwa [List.set_eq_of_length_le hle, List.set_eq_of_length_le (h.length_eq ▸ hle)]

private theorem forall₂_eraseIdx (h : List.Forall₂ R l l') :
    List.Forall₂ R (l.eraseIdx i) (l'.eraseIdx i) := by
  rw [List.eraseIdx_eq_take_drop_succ, List.eraseIdx_eq_take_drop_succ]
  exact List.rel_append (List.forall₂_take i h) (List.forall₂_drop (i + 1) h)

end related

/-- An open file of the volume, and the one of the store that it is. -/
structure Held (d : Disk) (f : DiskFile) (a : OpenedFile) : Prop where
  position : f.seekPosition = a.position
  range : -2 ^ 31 ≤ a.position ∧ a.position < 2 ^ 31
  file : ∀ c, a.key = some c →
    ∃ k, InUse d k ∧ (directoryOn d).entryKey k = c ∧ f.hdr = fileHeader d k

section held

variable {d d' : Disk} {f : DiskFile} {a : OpenedFile}

/-- The file is kept. -/
theorem Held.onto (h : Held d f a)
    (hkept : ∀ i, InUse d i → a.key = some ((directoryOn d).entryKey i) → Kept d d' i) :
    Held d' f a := by
  refine ⟨h.position, h.range, fun c hc ↦ ?_⟩
  obtain ⟨k, huse, rfl, hhdr⟩ := h.file c hc
  have hk := hkept k huse hc
  exact ⟨k, hk.inUse, hk.key, hhdr.trans hk.header.symm⟩

/-- The file is gone, or another one is. -/
theorem Held.lose (h : Held d f a) {c : List Byte}
    (hkept : ∀ i, InUse d i → (directoryOn d).entryKey i ≠ c → Kept d d' i) :
    Held d' f (a.lose c) := by
  rw [OpenedFile.lose]
  by_cases hc : a.key = some c
  · rw [if_pos hc]
    exact ⟨h.position, h.range, fun _ h ↦ by cases h⟩
  · rw [if_neg hc]
    refine h.onto fun i hi hkey ↦ hkept i hi fun heq ↦ hc ?_
    rw [hkey, heq]

theorem Held.seek (h : Held d f a) (position : Word) :
    Held d (f.seek position.toInt) { a with position := position.toInt } := by
  have hlow := position.le_two_mul_toInt
  have hhigh := position.two_mul_toInt_lt
  refine ⟨rfl, ⟨?_, ?_⟩, h.file⟩
  · simp only
    omega
  · simp only
    omega

/-- A request moves the position by what it has moved. -/
theorem Held.advance (h : Held d f a) {b : List Byte} (hb : b.length ≤ 3840) {numBytes : ℤ} {n : ℕ}
    (hn : n = (FileStore.slice b numBytes a.position).length) :
    Held d (f.advance n) { a with position := a.position + n } := by
  obtain ⟨hlow, hhigh⟩ := h.range
  rw [FileStore.slice, List.length_take, List.length_drop] at hn
  have hrange : -2 ^ 31 ≤ a.position + n ∧ a.position + n < 2 ^ 31 := by omega
  refine ⟨?_, hrange, h.file⟩
  rw [DiskFile.advance, h.position]
  exact wrap32_of_range hrange.1 hrange.2

end held

/-! ## The simulation -/

/-- The volume has the files of the store, and its open files are those of the store. -/
structure Volume.Implements (v : Volume) (st : FileStore) : Prop where
  shows : Shows v.fs v.disk st.files
  opened : List.Forall₂ (Held v.disk) v.files st.opened

namespace Volume.Implements

variable {v : Volume} {st : FileStore} (hv : v.Implements st)

include hv

/-- A file of the store that is open, on the disk. -/
theorem file {i : ℕ} {a : OpenedFile} {c b : List Byte} (hat : st.At i a c b) :
    ∃ f k, v.files[i]? = some f ∧ Held v.disk f a ∧ InUse v.disk k ∧
      (directoryOn v.disk).entryKey k = c ∧ f.hdr = fileHeader v.disk k ∧
      contentsOf v.disk k = b := by
  obtain ⟨f, hf, hheld⟩ := forall₂_getElem? hv.opened hat.opened
  obtain ⟨k, huse, hkey, hhdr⟩ := hheld.file c hat.key
  refine ⟨f, k, hf, hheld, huse, hkey, hhdr, Option.some.inj ?_⟩
  rw [← hv.shows.table.lookup_key huse, hkey, hat.lookup]

theorem length_le {k : ℕ} (hk : InUse v.disk k) : (contentsOf v.disk k).length ≤ 3840 := by
  rw [length_contentsOf]
  exact (hv.shows.consistent.file_valid k hk).length_le

theorem create (junk : Garbage) (name : List Byte) (initialSize : Word)
    (hlegal : st.Legal (.create junk name initialSize)) :
    ∃ r v' st', v.exec (.create junk name initialSize) = some (r, v') ∧
      st.Step (.create junk name initialSize) r st' ∧ v'.Implements st' := by
  rcases hv.shows.create junk name hlegal.1 hlegal.2 with
    ⟨hroom, d, b, hrun, hlength, hshows, hkept⟩ | ⟨hroom, hrun⟩
  · refine ⟨_, _, _, onDisk_of_ok hrun, .created hroom hlength, hshows, ?_⟩
    exact hv.opened.imp fun f a h ↦ h.onto fun i hi _ ↦ hkept i hi
  · exact ⟨_, _, _, onDisk_of_ok hrun, .refused hroom, hv.shows, hv.opened⟩

theorem openFile (junk : Garbage) (name : List Byte) :
    ∃ r v' st', v.exec (.openFile junk name) = some (r, v') ∧
      st.Step (.openFile junk name) r st' ∧ v'.Implements st' := by
  rcases hv.shows.openFile junk name with ⟨hmem, k, huse, hkey, hrun⟩ | ⟨hmem, hrun⟩
  · refine ⟨_, _, _, onDisk_of_ok hrun, .opened hmem, hv.shows, ?_⟩
    have hrange : -2 ^ 31 ≤ (0 : ℤ) ∧ (0 : ℤ) < 2 ^ 31 := by decide
    refine List.rel_append hv.opened (.cons ⟨rfl, hrange, fun c hc ↦ ?_⟩ .nil)
    exact ⟨k, huse, hkey.trans (Option.some.inj hc), rfl⟩
  · refine ⟨_, _, _, onDisk_of_ok hrun, .missing hmem, hv.shows, ?_⟩
    simpa using hv.opened

theorem remove (junk : Garbage) (name : List Byte) :
    ∃ r v' st', v.exec (.remove junk name) = some (r, v') ∧
      st.Step (.remove junk name) r st' ∧ v'.Implements st' := by
  rcases hv.shows.remove junk name with ⟨hmem, d, hrun, hshows, hkept⟩ | ⟨hmem, hrun⟩
  · refine ⟨_, _, _, onDisk_of_ok hrun, .removed hmem, hshows, ?_⟩
    exact List.forall₂_map_right_iff.mpr (hv.opened.imp fun f a h ↦ h.lose hkept)
  · exact ⟨_, _, _, onDisk_of_ok hrun, .absent hmem, hv.shows, hv.opened⟩

/-- `ReadAt` at a position that may be the file's own. -/
theorem readAt {i : ℕ} {a : OpenedFile} {c b : List Byte} (hat : st.At i a c b)
    (junk : ℕ → Byte) {n p : ℤ} (hp : FileStore.Proper b n p) :
    ∃ f data, v.files[i]? = some f ∧ Held v.disk f a ∧
      Nachos.readAt f.hdr junk n p v.disk =
        .ok (((FileStore.slice b n p).length : ℤ), data) v.disk ∧
      bytesOf data (FileStore.slice b n p).length = FileStore.slice b n p := by
  obtain ⟨f, k, hf, hheld, huse, -, hhdr, rfl⟩ := hv.file hat
  obtain ⟨data, hrun, hdata⟩ := hv.shows.readAt huse junk hp
  exact ⟨f, data, hf, hheld, hhdr ▸ hrun, hdata⟩

theorem writeAt {i : ℕ} {a : OpenedFile} {c b : List Byte} (hat : st.At i a c b)
    (junk src : ℕ → Byte) {n p : ℤ} (hp : FileStore.Proper b n p) :
    ∃ f d, v.files[i]? = some f ∧ Held d f a ∧
      Nachos.writeAt f.hdr junk src n p v.disk =
        .ok ((FileStore.slice b n p).length : ℤ) d ∧
      Volume.Implements ⟨v.fs, d, v.files⟩ (st.patch c b src n p) := by
  obtain ⟨f, k, hf, hheld, huse, rfl, hhdr, rfl⟩ := hv.file hat
  obtain ⟨d, hrun, hshows, hkept⟩ := hv.shows.writeAt huse junk src hp
  refine ⟨f, d, hf, hheld.onto fun i hi _ ↦ hkept i hi, hhdr ▸ hrun, hshows, ?_⟩
  exact hv.opened.imp fun f a h ↦ h.onto fun i hi _ ↦ hkept i hi

/-- Every legal call is answered as the store answers it. -/
theorem step {call : FileCall} (hlegal : st.Legal call) :
    ∃ r v' st', v.exec call = some (r, v') ∧ st.Step call r st' ∧ v'.Implements st' := by
  cases call with
  | create junk name initialSize => exact hv.create junk name initialSize hlegal
  | openFile junk name => exact hv.openFile junk name
  | remove junk name => exact hv.remove junk name
  | seek i position =>
    obtain ⟨f, hf, hheld⟩ := forall₂_getElem? hv.opened (List.getElem?_eq_getElem hlegal)
    have hexec : v.exec (.seek i position) =
        some (.done, ⟨v.fs, v.disk, v.files.set i (f.seek position.toInt)⟩) := by
      rw [exec, hf]
      rfl
    exact ⟨_, _, _, hexec, .sought (List.getElem?_eq_getElem hlegal), hv.shows,
      forall₂_set hv.opened (hheld.seek position)⟩
  | read i junk numBytes =>
    obtain ⟨a, c, b, hat, hp⟩ := hlegal
    obtain ⟨-, k, -, -, huse, -, -, rfl⟩ := hv.file hat
    obtain ⟨f, data, hf, hheld, hrun, hdata⟩ := hv.readAt hat junk hp
    obtain ⟨bytes, hbytes⟩ : ∃ bytes, bytes =
      FileStore.slice (contentsOf v.disk k) numBytes.toInt a.position := ⟨_, rfl⟩
    rw [← hbytes, ← hheld.position] at hrun
    rw [← hbytes] at hdata
    have hexec : v.exec (.read i junk numBytes) = some (.data bytes.length bytes,
        ⟨v.fs, v.disk, v.files.set i (f.advance bytes.length)⟩) := by
      rw [exec, hf, Option.bind_some, onDisk_of_ok (DiskFile.read_of_ok hrun)]
      simp only [Int.toNat_natCast, hdata]
    exact ⟨_, _, _, hexec, .read hat hbytes, hv.shows,
      forall₂_set hv.opened (hheld.advance (hv.length_le huse) (congrArg List.length hbytes))⟩
  | write i junk src numBytes =>
    obtain ⟨a, c, b, hat, hp⟩ := hlegal
    obtain ⟨-, k, -, -, huse, -, -, hb⟩ := hv.file hat
    have hlength := hb ▸ hv.length_le huse
    obtain ⟨f, d, hf, hheld, hrun, hv'⟩ := hv.writeAt hat junk src hp
    obtain ⟨n, hn⟩ : ∃ n, n = (FileStore.slice b numBytes.toInt a.position).length := ⟨_, rfl⟩
    rw [← hn, ← hheld.position] at hrun
    have hexec : v.exec (.write i junk src numBytes) =
        some (.number n, ⟨v.fs, d, v.files.set i (f.advance n)⟩) := by
      rw [exec, hf, Option.bind_some, onDisk_of_ok (DiskFile.write_of_ok hrun)]
    exact ⟨_, _, _, hexec, .written hat hn, hv'.shows,
      forall₂_set hv'.opened (hheld.advance hlength hn)⟩
  | readAt i junk numBytes position =>
    obtain ⟨a, c, b, hat, hp⟩ := hlegal
    obtain ⟨f, data, hf, -, hrun, hdata⟩ := hv.readAt hat junk hp
    refine ⟨_, _, _, ?_, .readAt hat rfl, hv⟩
    rw [exec, hf, Option.bind_some, onDisk_of_ok hrun]
    simp only [Int.toNat_natCast, hdata]
  | writeAt i junk src numBytes position =>
    obtain ⟨a, c, b, hat, hp⟩ := hlegal
    obtain ⟨f, d, hf, -, hrun, hv'⟩ := hv.writeAt hat junk src hp
    refine ⟨_, _, _, ?_, .writtenAt hat rfl, hv'⟩
    rw [exec, hf, Option.bind_some, onDisk_of_ok hrun]
  | length i =>
    obtain ⟨a, c, b, hat⟩ := hlegal
    obtain ⟨f, k, hf, -, huse, -, hhdr, rfl⟩ := hv.file hat
    refine ⟨_, _, _, ?_, .length hat, hv⟩
    rw [exec, hf, Option.map_some, DiskFile.length, hhdr, length_contentsOf, FileHeader.length,
      Int.toNat_of_nonneg (hv.shows.nonneg k huse)]
  | close i => exact ⟨_, _, _, rfl, .closed, hv.shows, forall₂_eraseIdx hv.opened⟩
  | reboot junk =>
    obtain ⟨d, hrun, hshows⟩ := hv.shows.mount junk
    exact ⟨_, _, _, onDisk_of_ok hrun, .rebooted, hshows, .nil⟩

end Volume.Implements

/-- A formatted disk shows no files but the two of the console. -/
theorem start_shows (junk : ℕ → Garbage) (d : Disk) :
    ∃ fs d₀, FileSystem.start junk d = .ok fs d₀ ∧ Shows fs d₀ FileStore.start.files := by
  obtain ⟨fs, d₁, hrun, hf⟩ := format_eq (junk 0) d
  have hempty : ∀ i, ¬InUse d₁ i := by
    rintro i ⟨hi, hused⟩
    rw [hf.empty i hi] at hused
    cases hused
  have hspace : Files.space ∅ = 0 := rfl
  have hs : Shows fs d₁ ∅ := by
    refine ⟨hf.consistent, fun i hi ↦ absurd hi (hempty i), .empty hempty, ?_⟩
    rw [hspace, hf.clears, Files.capacity]
  obtain ⟨r₁, d₂, hrun₁, hs₁⟩ := hs.ensure (junk 1) FileSystem.stdinName
  obtain ⟨r₂, d₃, hrun₂, hs₂⟩ := hs₁.ensure (junk 2) FileSystem.stdoutName
  refine ⟨fs, d₃, ?_, hs₂⟩
  rw [FileSystem.start, bind_of_ok hrun, bind_of_ok hrun₁, bind_of_ok hrun₂]
  rfl

/-- **The file system is a file store.** From a formatted disk, every sequence of legal calls is
answered, and as the store answers it: `Create` succeeds exactly when the name is new and there is
room, `Open` and `Remove` exactly when the name is there, a read delivers the bytes that were
written last, and stopping the machine in between loses nothing but the open files. -/
theorem volume_answers (junk : ℕ → Garbage) (d : Disk) :
    ∃ fs d₀, FileSystem.start junk d = .ok fs d₀ ∧
      ∀ calls, Answers Volume.exec FileStore.Legal FileStore.Step ⟨fs, d₀, []⟩ FileStore.start
        calls := by
  obtain ⟨fs, d₀, hrun, hshows⟩ := start_shows junk d
  refine ⟨fs, d₀, hrun, fun calls ↦ ?_⟩
  have hv : Volume.Implements ⟨fs, d₀, []⟩ FileStore.start := ⟨hshows, .nil⟩
  refine Answers.of_simulation Volume.Implements ?_ calls hv
  intro v st call hv hlegal
  exact hv.step hlegal

end Nachos
