import Nachos.Basic
import Nachos.Program.Bytes
import Nachos.Program.Exec

/-!
# The disk and the files on it

The disk is 1024 sectors of 128 bytes. A file is a header, itself one sector, that lists the data
sectors: 32 words, the length in bytes, the number of data sectors and up to 30 sector numbers.
`OpenFile` keeps a copy of the header in memory and reads and writes whole sectors through a buffer.

Two things of the source are kept as they are because other properties depend on them. Arithmetic on
`int` wraps, and division rounds towards zero. And `dataSectors` is the tail of the header object,
so the two words before it are `numSectors` and `numBytes`: an index of `-1` or `-2` finds those.
Any other index outside the table, and any access outside a buffer, is a `Fault`.

What `new` leaves in a buffer is an argument. So is the memory a caller passes, as a function from
offsets.
-/

namespace Nachos

open Program

/-! ## Sectors -/

@[simp] abbrev sectorSize : ℕ := 128

@[simp] abbrev numSectors : ℕ := 1024

@[simp] abbrev numDirect : ℕ := 30

/-- `MaxFileSize`. -/
@[simp] abbrev maxFileSize : ℕ := 3840

abbrev Sector := Fin sectorSize → Byte

/-- Byte `x` of a sector. -/
def Sector.byte (s : Sector) (x : ℕ) : Byte := s (Fin.ofNat sectorSize x)

/-- The first bytes of a buffer as a sector. -/
def Sector.ofBytes (b : ℕ → Byte) : Sector := fun i ↦ b i

@[simp] theorem Sector.byte_ofBytes (b : ℕ → Byte) {x : ℕ} (h : x < sectorSize) :
    (Sector.ofBytes b).byte x = b x := by
  rw [Sector.byte, Sector.ofBytes, Fin.val_ofNat, Nat.mod_eq_of_lt h]

abbrev Disk := ℕ → Sector

/-- Code that works on the disk. -/
abbrev DiskM := EStateM Fault Disk

/-- `SynchDisk::ReadSector`; the assertion is the one of `Disk::ReadRequest`. -/
def readSector (sectorNumber : ℤ) : DiskM Sector := fun d ↦
  if 0 ≤ sectorNumber ∧ sectorNumber < numSectors then .ok (d sectorNumber.toNat) d
  else .error .assertFailed d

/-- `SynchDisk::WriteSector`. -/
def writeSector (sectorNumber : ℤ) (data : Sector) : DiskM Unit := fun d ↦
  if 0 ≤ sectorNumber ∧ sectorNumber < numSectors then
    .ok () (Function.update d sectorNumber.toNat data)
  else .error .assertFailed d

/-! ## Buffers -/

/-- A block of memory with its size. -/
structure Buffer where
  size : ℕ
  bytes : ℕ → Byte

/-- `new char[n]`. -/
def newBuffer (n : ℤ) (junk : ℕ → Byte) : DiskM Buffer :=
  if n < 0 then throw .badAlloc else return ⟨n.toNat, junk⟩

/-- `n` bytes of `src` copied to `&buf[i]`. -/
def Buffer.store (buf : Buffer) (i : ℤ) (src : ℕ → Byte) (n : ℤ) : DiskM Buffer :=
  if 0 ≤ i ∧ i + n ≤ buf.size then
    return { buf with bytes := blit buf.bytes i.toNat src n.toNat }
  else throw .bufferIndex

/-- The `n` bytes at `&buf[i]`. -/
def Buffer.load (buf : Buffer) (i n : ℤ) : DiskM (ℕ → Byte) :=
  if 0 ≤ i ∧ i + n ≤ buf.size then return fun x ↦ buf.bytes (i.toNat + x) else throw .bufferIndex

/-! ## File headers -/

/-- A `FileHeader`, as its 32 words. -/
structure FileHeader where
  word : Fin 32 → Word

namespace FileHeader

/-- The number of a word. -/
abbrev index (i : ℕ) : Fin 32 := Fin.ofNat 32 i

def numBytes (h : FileHeader) : Word := h.word 0

def numSectors (h : FileHeader) : Word := h.word 1

def dataSectors (h : FileHeader) (i : ℕ) : Word := h.word (Fin.ofNat 32 (i + 2))

/-- `FileHeader::FetchFrom`. -/
def fetchFrom (sector : ℤ) : DiskM FileHeader := do
  let s ← readSector sector
  return ⟨fun i ↦ wordAt s.byte (4 * i)⟩

/-- The header as a sector. -/
def toSector (h : FileHeader) : Sector := .ofBytes (layWords fun i ↦ h.word (Fin.ofNat 32 i))

/-- `FileHeader::WriteBack`. -/
def writeBack (h : FileHeader) (sector : ℤ) : DiskM Unit := writeSector sector h.toSector

/-- `dataSectors[i]`, inside the object. -/
def dataSector (h : FileHeader) (i : ℤ) : DiskM ℤ :=
  if -2 ≤ i ∧ i < numDirect then return (h.word (Fin.ofNat 32 (i + 2).toNat)).toInt
  else throw .tableIndex

/-- `FileHeader::ByteToSector`. -/
def byteToSector (h : FileHeader) (offset : ℤ) : DiskM ℤ := h.dataSector (offset.tdiv sectorSize)

/-- `FileHeader::FileLength`. -/
def fileLength (h : FileHeader) : ℤ := h.numBytes.toInt

end FileHeader

/-! ## Reading and writing at a position

`ReadAt` and `WriteAt` come to their sectors through `FileHeader::ByteToSector`. They are written
over the function that takes an offset to a sector; in the code it is that of the header. -/

/-- The sectors a request of `numBytes` at `position` is about. -/
structure Extent where
  firstSector : ℤ
  lastSector : ℤ

def extent (numBytes position : ℤ) : Extent where
  firstSector := position.tdiv sectorSize
  lastSector := (wrap32 (wrap32 (position + numBytes) - 1)).tdiv sectorSize

/-- `numSectors`, a local variable of `ReadAt` and `WriteAt`. -/
def Extent.numSectors (e : Extent) : ℤ := wrap32 (1 + e.lastSector - e.firstSector)

/-- How often a loop from `firstSector` to `lastSector` runs. -/
def Extent.count (e : Extent) : ℕ := (e.lastSector - e.firstSector + 1).toNat

/-- The number of bytes that a request is cut down to. -/
def clip (fileLength numBytes position : ℤ) : ℤ :=
  if fileLength < wrap32 (position + numBytes) then wrap32 (fileLength - position) else numBytes

section via

variable (byteToSector : ℤ → DiskM ℤ)

/-- The loop of `ReadAt`, `j` sectors behind `firstSector`, `rest` to go. -/
def readSectorsVia (firstSector : ℤ) : ℕ → ℕ → Buffer → DiskM Buffer
  | _, 0, buf => return buf
  | j, rest + 1, buf => do
    let sector ← byteToSector (wrap32 ((firstSector + j) * sectorSize))
    let data ← readSector sector
    let buf ← buf.store (wrap32 (j * sectorSize)) data.byte sectorSize
    readSectorsVia firstSector (j + 1) rest buf

/-- The loop of `WriteAt`. -/
def writeSectorsVia (firstSector : ℤ) (buf : Buffer) : ℕ → ℕ → DiskM Unit
  | _, 0 => return
  | j, rest + 1 => do
    let sector ← byteToSector (wrap32 ((firstSector + j) * sectorSize))
    let data ← buf.load (wrap32 (j * sectorSize)) sectorSize
    writeSector sector (.ofBytes data)
    writeSectorsVia firstSector buf (j + 1) rest

variable (hdr : FileHeader)

/-- `OpenFile::ReadAt`: the result, and the bytes delivered. -/
def readAtVia (junk : ℕ → Byte) (numBytes position : ℤ) : DiskM (ℤ × (ℕ → Byte)) :=
  if numBytes ≤ 0 ∨ hdr.fileLength ≤ position then return (0, fun _ ↦ 0)
  else do
    let n := clip hdr.fileLength numBytes position
    let e := extent n position
    let buf ← newBuffer (wrap32 (e.numSectors * sectorSize)) junk
    let buf ← readSectorsVia byteToSector e.firstSector 0 e.count buf
    let data ← buf.load (wrap32 (position - wrap32 (e.firstSector * sectorSize))) n
    return (n, data)

/-- The read of one sector into `&buf[i]`, as `WriteAt` does it for a partial one. -/
def readIntoVia (junk : ℕ → Byte) (buf : Buffer) (i position : ℤ) : DiskM Buffer := do
  let (n, data) ← readAtVia byteToSector hdr junk sectorSize position
  buf.store i data n

/-- The buffer `WriteAt` writes from: what it reads of the first and the last sector if they are to
be partially modified, with the new bytes over it. -/
def fillBufferVia (junk : ℕ → Byte) (src : ℕ → Byte) (n position : ℤ) (buf : Buffer) :
    DiskM Buffer := do
  let e := extent n position
  let firstAligned := position = wrap32 (e.firstSector * sectorSize)
  let lastAligned := wrap32 (position + n) = wrap32 (wrap32 (e.lastSector + 1) * sectorSize)
  let buf ← (if ¬firstAligned then
      readIntoVia byteToSector hdr junk buf 0 (wrap32 (e.firstSector * sectorSize))
    else return buf)
  let buf ← (if ¬lastAligned ∧ (e.firstSector ≠ e.lastSector ∨ firstAligned) then
      readIntoVia byteToSector hdr junk buf
        (wrap32 (wrap32 (e.lastSector - e.firstSector) * sectorSize))
        (wrap32 (e.lastSector * sectorSize))
    else return buf)
  buf.store (wrap32 (position - wrap32 (e.firstSector * sectorSize))) src n

/-- `OpenFile::WriteAt`. -/
def writeAtVia (junk : ℕ → Byte) (src : ℕ → Byte) (numBytes position : ℤ) : DiskM ℤ :=
  if numBytes ≤ 0 ∨ hdr.fileLength ≤ position then return 0
  else do
    let n := clip hdr.fileLength numBytes position
    let e := extent n position
    let buf ← newBuffer (wrap32 (e.numSectors * sectorSize)) junk
    let buf ← fillBufferVia byteToSector hdr junk src n position buf
    writeSectorsVia byteToSector e.firstSector buf 0 e.count
    return n

end via

abbrev readSectors (hdr : FileHeader) := readSectorsVia hdr.byteToSector

abbrev writeSectors (hdr : FileHeader) := writeSectorsVia hdr.byteToSector

/-- `OpenFile::ReadAt`. -/
abbrev readAt (hdr : FileHeader) := readAtVia hdr.byteToSector hdr

abbrev readInto (hdr : FileHeader) := readIntoVia hdr.byteToSector hdr

abbrev fillBuffer (hdr : FileHeader) := fillBufferVia hdr.byteToSector hdr

/-- `OpenFile::WriteAt`. -/
abbrev writeAt (hdr : FileHeader) := writeAtVia hdr.byteToSector hdr

end Nachos
