import Nachos.FileSys.Directory
import Nachos.FileSys.FileHeader
import Nachos.Program.Ownership

/-!
# The file system

The header of the bitmap file is in sector 0 and that of the directory in sector 1; both files stay
open, so their headers are also in memory. `Create`, `Open` and `Remove` read the directory and the
bitmap into memory, work on the copies and write them back.

The second half looks at the disk as it is stored: the two files, the entries in use, and which
sector belongs to whom.
-/

namespace Nachos

open Program

/-- What each `new` of an operation returns, in order: memory nobody has written to. -/
abbrev Garbage := ℕ → ℕ → Byte

@[simp] abbrev freeMapSector : ℕ := 0

@[simp] abbrev directorySector : ℕ := 1

@[simp] abbrev numDirEntries : ℕ := 20

/-- `FreeMapFileSize`. -/
@[simp] abbrev freeMapFileSize : ℕ := 128

/-- `DirectoryFileSize`. -/
@[simp] abbrev directoryFileSize : ℕ := 400

/-- A new `FileHeader`, as the memory it is put in. -/
def FileHeader.ofMemory (junk : ℕ → Byte) : FileHeader := ⟨fun i ↦ wordAt junk (4 * i)⟩

/-- The two files that stay open, as the headers in memory. -/
structure FileSystem where
  freeMapFile : FileHeader
  directoryFile : FileHeader

namespace FileSystem

/-- The part of the constructor that formats the disk. -/
def format (junk : Garbage) : DiskM FileSystem := do
  let freeMap ← Bitmap.create numSectors
  let directory := Directory.create numDirEntries (junk 0)
  let freeMap ← freeMap.mark freeMapSector
  let freeMap ← freeMap.mark directorySector
  let (ok, mapHdr, freeMap) ← (FileHeader.ofMemory (junk 1)).allocate freeMap freeMapFileSize
  assertThat (ok = true)
  let (ok, dirHdr, freeMap) ← (FileHeader.ofMemory (junk 2)).allocate freeMap directoryFileSize
  assertThat (ok = true)
  mapHdr.writeBack freeMapSector
  dirHdr.writeBack directorySector
  let freeMapFile ← FileHeader.fetchFrom freeMapSector
  let directoryFile ← FileHeader.fetchFrom directorySector
  freeMap.writeBack freeMapFile (junk 3)
  directory.writeBack directoryFile (junk 4)
  return ⟨freeMapFile, directoryFile⟩

/-- `new Directory` with `FetchFrom`, as every operation starts. -/
def fetchDirectory (fs : FileSystem) (junk : Garbage) : DiskM Directory :=
  (Directory.create numDirEntries (junk 0)).fetchFrom fs.directoryFile (junk 1)

/-- `FileSystem::Create`. -/
def create (fs : FileSystem) (junk : Garbage) (name : List Byte) (initialSize : ℤ) :
    DiskM Bool := do
  let directory ← fs.fetchDirectory junk
  if directory.find name ≠ -1 then return false
  else do
    let freeMap ← Bitmap.ofFile fs.freeMapFile numSectors (junk 2)
    let (sector, freeMap) ← freeMap.findAndSet
    if sector = -1 then return false
    else
      let (added, directory) := directory.add name (.ofInt 32 sector)
      if added = false then return false
      else do
        let (success, hdr, freeMap) ← (FileHeader.ofMemory (junk 3)).allocate freeMap initialSize
        if success = false then return false
        else do
          hdr.writeBack sector
          directory.writeBack fs.directoryFile (junk 4)
          freeMap.writeBack fs.freeMapFile (junk 5)
          return true

/-- `FileSystem::Open`: the header in memory, or `NULL`. -/
def openFile (fs : FileSystem) (junk : Garbage) (name : List Byte) : DiskM (Option FileHeader) := do
  let directory ← fs.fetchDirectory junk
  if 0 ≤ directory.find name then do
    let hdr ← FileHeader.fetchFrom (directory.find name)
    return some hdr
  else return none

/-- `FileSystem::Remove`. -/
def remove (fs : FileSystem) (junk : Garbage) (name : List Byte) : DiskM Bool := do
  let directory ← fs.fetchDirectory junk
  let sector := directory.find name
  if sector = -1 then return false
  else do
    let fileHdr ← FileHeader.fetchFrom sector
    let freeMap ← Bitmap.ofFile fs.freeMapFile numSectors (junk 2)
    let freeMap ← fileHdr.deallocate freeMap
    let freeMap ← freeMap.clear sector
    let (_, directory) := directory.remove name
    freeMap.writeBack fs.freeMapFile (junk 3)
    directory.writeBack fs.directoryFile (junk 4)
    return true

/-- `"stdin"`. -/
def stdinName : List Byte := [0x73, 0x74, 0x64, 0x69, 0x6e]

/-- `"stdout"`. -/
def stdoutName : List Byte := [0x73, 0x74, 0x64, 0x6f, 0x75, 0x74]

/-- `FileSystem::FileSystem(TRUE)`, up to the table of open files. -/
def start (junk : ℕ → Garbage) : DiskM FileSystem := do
  let fs ← format (junk 0)
  let _ ← fs.create (junk 1) stdinName 0
  let _ ← fs.create (junk 2) stdoutName 0
  return fs

end FileSystem

/-! ## What is on the disk -/

/-- The header in a sector. -/
def headerAt (d : Disk) (s : ℕ) : FileHeader := ⟨fun i ↦ wordAt (d s).byte (4 * i)⟩

/-- The stored bitmap. -/
def freeMapOn (d : Disk) : Bitmap := .stored (headerAt d freeMapSector) numSectors d

/-- The stored directory. -/
def directoryOn (d : Disk) : Directory := .stored (headerAt d directorySector) numDirEntries d

/-- There is a file in entry `i`. -/
def InUse (d : Disk) (i : ℕ) : Prop := i < numDirEntries ∧ (directoryOn d).inUse i = true

/-- The header sector of the file in entry `i`. -/
def headerSector (d : Disk) (i : ℕ) : ℕ := ((directoryOn d).sector i).toNat

/-- The header of the file in entry `i`. -/
def fileHeader (d : Disk) (i : ℕ) : FileHeader := headerAt d (headerSector d i)

/-- Who a sector can belong to. -/
inductive Owner where
  | freeMapHeader
  | directoryHeader
  | freeMapData (j : ℕ)
  | directoryData (j : ℕ)
  | header (i : ℕ)
  | data (i j : ℕ)

/-- The owners there are. -/
def Owner.Live (d : Disk) : Owner → Prop
  | .freeMapHeader => True
  | .directoryHeader => True
  | .freeMapData j => j < (headerAt d freeMapSector).count
  | .directoryData j => j < (headerAt d directorySector).count
  | .header i => InUse d i
  | .data i j => InUse d i ∧ j < (fileHeader d i).count

/-- The sector of an owner. -/
def Owner.sector (d : Disk) : Owner → ℕ
  | .freeMapHeader => freeMapSector
  | .directoryHeader => directorySector
  | .freeMapData j => (headerAt d freeMapSector).sectorAt j
  | .directoryData j => (headerAt d directorySector).sectorAt j
  | .header i => headerSector d i
  | .data i j => (fileHeader d i).sectorAt j

/-- The stored bitmap marks exactly the sectors in use, and no sector is used twice: the two header
sectors, the data sectors of the bitmap and of the directory and, for each entry in use, the header
sector and the data sectors. -/
def Allocated (d : Disk) : Prop :=
  Owned numSectors (Owner.Live d) (Owner.sector d) fun s ↦ (freeMapOn d).bit s = true

/-- The disk under a running file system. -/
structure Consistent (fs : FileSystem) (d : Disk) : Prop where
  freeMapFile : fs.freeMapFile = headerAt d freeMapSector
  directoryFile : fs.directoryFile = headerAt d directorySector
  freeMap_valid : (headerAt d freeMapSector).Valid
  freeMap_length : (headerAt d freeMapSector).length = freeMapFileSize
  directory_valid : (headerAt d directorySector).Valid
  directory_length : (headerAt d directorySector).length = directoryFileSize
  file_valid : ∀ i, InUse d i → (fileHeader d i).Valid
  allocated : Allocated d

/-! ## Headers on the disk -/

theorem headerAt_congr {d d' : Disk} {s : ℕ} (h : d' s = d s) : headerAt d' s = headerAt d s := by
  rw [headerAt, headerAt, h]

theorem fetchFrom_of_lt {s : ℕ} (hs : s < 1024) (d : Disk) :
    FileHeader.fetchFrom s d = .ok (headerAt d s) d := by
  rw [FileHeader.fetchFrom, bind_of_ok (readSector_of_lt hs d)]
  rfl

theorem headerAt_update (d : Disk) (s : ℕ) (h : FileHeader) :
    headerAt (Function.update d s h.toSector) s = h := by
  have hword : ∀ i : Fin 32, wordAt h.toSector.byte (4 * i) = h.word i := fun i ↦ by
    have hlay := wordAt_layWords (fun i ↦ h.word (Fin.ofNat 32 i)) i
    have hfin : Fin.ofNat 32 i.val = i := Fin.ext (Nat.mod_eq_of_lt i.isLt)
    rw [hfin] at hlay
    rw [← hlay]
    refine wordAt_congr fun x hx hx' ↦ Sector.byte_ofBytes _ ?_
    simp only [sectorSize]
    omega
  rw [headerAt, Function.update_self]
  exact congrArg FileHeader.mk (funext hword)

theorem FileHeader.Valid.flat_congr {h : FileHeader} (hv : h.Valid) {d d' : Disk}
    (hsame : ∀ t, h.Owns t → d' t = d t) {x : ℕ} (hx : x < h.length) :
    h.flat d' x = h.flat d x := by
  have hcount := hv.count_eq
  rw [FileHeader.flat, FileHeader.flat, hsame _ ⟨x / 128, by omega, rfl⟩]

theorem Bitmap.bit_stored_congr {file : FileHeader} (hv : file.Valid)
    (hlength : file.length = freeMapFileSize) {d d' : Disk}
    (hsame : ∀ t, file.Owns t → d' t = d t) {t : ℕ} (ht : t < 1024) :
    (Bitmap.stored file numSectors d').bit t = (Bitmap.stored file numSectors d).bit t := by
  simp only [freeMapFileSize] at hlength
  have hword : wordAt (file.flat d') (4 * (t / 32)) = wordAt (file.flat d) (4 * (t / 32)) :=
    wordAt_congr fun x hx hx' ↦ hv.flat_congr hsame (by omega)
  exact congrArg (·.getLsbD (t % 32)) hword

theorem Directory.same_stored {file : FileHeader} (hv : file.Valid)
    (hlength : file.length = directoryFileSize) {d d' : Disk}
    (hsame : ∀ t, file.Owns t → d' t = d t) :
    (Directory.stored file numDirEntries d').Same (Directory.stored file numDirEntries d) :=
  ⟨rfl, fun _ hx ↦ hv.flat_congr hsame (hlength ▸ hx)⟩

/-! ## Writing the bitmap and the directory back -/

section flush

variable {mapHdr dirHdr : FileHeader} (hmap : mapHdr.Valid)
  (hmapLength : mapHdr.length = freeMapFileSize) (hdir : dirHdr.Valid)
  (hdirLength : dirHdr.length = directoryFileSize)
  (hdisjoint : ∀ t, mapHdr.Owns t → ¬dirHdr.Owns t)
  {freeMap : Bitmap} (hbits : freeMap.numBits = 1024) {directory : Directory}
  (hsize : directory.tableSize = 20)

/-- The two files hold the bitmap and the directory, and nothing else has changed. -/
structure Flushed (mapHdr dirHdr : FileHeader) (freeMap : Bitmap) (directory : Directory)
    (d d' : Disk) : Prop where
  freeMap : ∀ t < 1024, (Bitmap.stored mapHdr numSectors d').bit t = freeMap.bit t
  directory : (Directory.stored dirHdr numDirEntries d').Same directory
  frame : ∀ t, ¬mapHdr.Owns t → ¬dirHdr.Owns t → d' t = d t

include hmap hmapLength hdir hdirLength hdisjoint hbits hsize

theorem flush_freeMap_last (junk junk' : ℕ → Byte) (d : Disk) :
    ∃ d₁ d₂, directory.writeBack dirHdr junk d = .ok () d₁ ∧
      freeMap.writeBack mapHdr junk' d₁ = .ok () d₂ ∧
      Flushed mapHdr dirHdr freeMap directory d d₂ := by
  have hwords := freeMap.numWords_eq
  simp only [freeMapFileSize, directoryFileSize] at hmapLength hdirLength
  obtain ⟨d₁, hrun₁, hin₁, hout₁⟩ := Directory.writeBack_eq hdir directory
    (by simp only [entrySize]; omega) junk d
  obtain ⟨d₂, hrun₂, hin₂, hout₂⟩ := Bitmap.writeBack_eq hmap (b := freeMap) (by omega) junk' d₁
  rw [hsize] at hin₁
  rw [hbits] at hin₂
  refine ⟨d₁, d₂, hrun₁, hrun₂, hin₂, ?_, fun t ht ht' ↦ ?_⟩
  · -- the bitmap is in other sectors
    refine (Directory.same_stored hdir hdirLength fun t ht ↦ hout₂ t fun j hj heq ↦ ?_).trans hin₁
    exact hdisjoint t ⟨j, hj, heq.symm⟩ ht
  · rw [hout₂ t fun j hj heq ↦ ht ⟨j, hj, heq.symm⟩, hout₁ t fun j hj heq ↦ ht' ⟨j, hj, heq.symm⟩]

theorem flush_directory_last (junk junk' : ℕ → Byte) (d : Disk) :
    ∃ d₁ d₂, freeMap.writeBack mapHdr junk d = .ok () d₁ ∧
      directory.writeBack dirHdr junk' d₁ = .ok () d₂ ∧
      Flushed mapHdr dirHdr freeMap directory d d₂ := by
  have hwords := freeMap.numWords_eq
  simp only [freeMapFileSize, directoryFileSize] at hmapLength hdirLength
  obtain ⟨d₁, hrun₁, hin₁, hout₁⟩ := Bitmap.writeBack_eq hmap (b := freeMap) (by omega) junk d
  obtain ⟨d₂, hrun₂, hin₂, hout₂⟩ := Directory.writeBack_eq hdir directory
    (by simp only [entrySize]; omega) junk' d₁
  rw [hbits] at hin₁
  rw [hsize] at hin₂
  refine ⟨d₁, d₂, hrun₁, hrun₂, fun t ht ↦ ?_, hin₂, fun t ht ht' ↦ ?_⟩
  · rw [← hin₁ t ht]
    refine Bitmap.bit_stored_congr hmap hmapLength (fun t ht ↦ hout₂ t fun j hj heq ↦ ?_) ht
    exact hdisjoint t ht ⟨j, hj, heq.symm⟩
  · rw [hout₂ t fun j hj heq ↦ ht' ⟨j, hj, heq.symm⟩, hout₁ t fun j hj heq ↦ ht ⟨j, hj, heq.symm⟩]

end flush

end Nachos
