import Mathlib.Data.List.OfFn
import Nachos.FileSys.Disk
import Nachos.Host.Posix
import Nachos.Program.Blocks

/-!
# The disk in a file of the host

The sectors of the disk lie one after the other in a file of the host, behind a magic number.
`Disk::Disk` opens the file and checks the number; if the file cannot be opened it makes a new one,
of zeros. A request reads or writes the 128 bytes of its sector at once, and the interrupt that
comes later only says so.

The code above works on a sequence of sectors, with `readSector` and `writeSector`. The file holds
such a sequence, from one run of Nachos to the next, as long as nothing else on the host touches it
and it can be opened. When it cannot, `Disk::Disk` does not ask why: a file that is there but cannot
be opened for reading and writing is emptied.
-/

namespace Nachos

open Program

/-! ## The calls of the host that abort on an error -/

/-- Code that works on the host. -/
abbrev HostM := EStateM Fault Host

namespace Sysdep

def call {α : Type} (f : Host → α × Host) : HostM α := fun h ↦ .ok (f h).1 (f h).2

/-- `OpenForReadWrite`, with `crashOnError` false. -/
def openForReadWrite (name : Name) (fails : Bool) (newFd : Word) : HostM Word :=
  call (·.openReadWrite name fails newFd)

/-- `OpenForWrite`. -/
def openForWrite (name : Name) (fails : Bool) (newFd : Word) : HostM Word := do
  let fd ← call (·.openTruncate name fails newFd)
  if 0 ≤ fd.toInt then return fd else throw .assertFailed

/-- `Read`. -/
def read (fd : Word) (nBytes : ℕ) (fails : Bool) : HostM (List Byte) := do
  let bytes ← call (·.read fd (BitVec.ofNat 32 nBytes) fails [])
  if bytes.map List.length = some nBytes then return bytes.getD [] else throw .assertFailed

/-- `WriteFile`. -/
def writeFile (fd : Word) (bytes : List Byte) (fails : Bool) : HostM Unit := do
  let retVal ← call (·.write fd bytes fails)
  if retVal = BitVec.ofNat 32 bytes.length then return else throw .assertFailed

/-- `Lseek`. -/
def lseek (fd offset : Word) (whence : ℕ) : HostM Unit := do
  let retVal ← call (·.lseek fd offset whence)
  if 0 ≤ retVal.toInt then return else throw .assertFailed

end Sysdep

/-! ## The drive -/

/-- `MagicNumber`. -/
@[simp] abbrev magicNumber : Word := 0x456789ab

/-- `MagicSize`. -/
@[simp] abbrev magicSize : ℕ := 4

/-- `DiskSize`. -/
@[simp] abbrev diskSize : ℕ := magicSize + numSectors * sectorSize

/-- `magicNum` in memory. -/
def magicBytes : List Byte := (List.range magicSize).map (wordByte magicNumber)

def Sector.toBytes (s : Sector) : List Byte := List.ofFn s

/-- `class Disk`: the descriptor of its file, and the host. -/
structure Drive where
  fileno : Word
  host : Host

namespace Drive

/-- What the host chooses while the drive is set up. -/
structure Choice where
  newFd : Word
  /-- The file cannot be opened, although it may exist. -/
  openFails : Bool
  /-- A file cannot be made. -/
  createFails : Bool
  /-- A read or a write fails. -/
  ioFails : Bool

/-- `Disk::Disk`. -/
def new (diskname : Name) (choice : Choice) : HostM Word := do
  let fileno ← Sysdep.openForReadWrite diskname choice.openFails choice.newFd
  if 0 ≤ fileno.toInt then do
    let magicNum ← Sysdep.read fileno magicSize choice.ioFails
    if wordAt (fun i ↦ magicNum.getD i 0) 0 = magicNumber then return fileno
    else throw .assertFailed
  else do
    let fileno ← Sysdep.openForWrite diskname choice.createFails choice.newFd
    Sysdep.writeFile fileno magicBytes choice.ioFails
    Sysdep.lseek fileno (BitVec.ofNat 32 (diskSize - 4)) 0
    Sysdep.writeFile fileno (List.replicate 4 0) choice.ioFails
    return fileno

/-- The transfer of `Disk::ReadRequest`. -/
def readRequest (fileno : Word) (sectorNumber : ℤ) (fails : Bool) : HostM Sector :=
  if 0 ≤ sectorNumber ∧ sectorNumber < numSectors then do
    Sysdep.lseek fileno (BitVec.ofInt 32 (sectorSize * sectorNumber + magicSize)) 0
    let data ← Sysdep.read fileno sectorSize fails
    return .ofBytes fun i ↦ data.getD i 0
  else throw .assertFailed

/-- The transfer of `Disk::WriteRequest`. -/
def writeRequest (fileno : Word) (sectorNumber : ℤ) (data : Sector) (fails : Bool) : HostM Unit :=
  if 0 ≤ sectorNumber ∧ sectorNumber < numSectors then do
    Sysdep.lseek fileno (BitVec.ofInt 32 (sectorSize * sectorNumber + magicSize)) 0
    Sysdep.writeFile fileno data.toBytes fails
  else throw .assertFailed

end Drive

/-! ## The image of a disk -/

/-- What is in the file. -/
def diskImage (d : Disk) : List Byte := magicBytes ++ blocks (fun k ↦ (d k).toBytes) numSectors

/-- A new disk. -/
def blankDisk : Disk := fun _ _ ↦ 0

/-- What is in the file of a name. -/
def Host.fileAt (h : Host) (name : Name) : Option (List Byte) := (h.dir name).map h.content

section image

variable {d : Disk} {k : ℕ}

theorem length_toBytes (s : Sector) : s.toBytes.length = sectorSize := List.length_ofFn

private theorem getD_toBytes (s : Sector) : Sector.ofBytes (fun i ↦ s.toBytes.getD i 0) = s := by
  funext i
  rw [Sector.ofBytes, Sector.toBytes, List.getD_eq_getElem?_getD, List.getElem?_ofFn,
    dif_pos i.isLt]
  rfl

theorem length_magicBytes : magicBytes.length = magicSize := rfl

theorem length_diskImage (d : Disk) : (diskImage d).length = diskSize := by
  rw [diskImage, List.length_append, length_blocks fun k ↦ length_toBytes (d k)]
  rfl

/-- The bytes of a sector are in its place. -/
private theorem take_drop_diskImage (hk : k < numSectors) :
    ((diskImage d).drop (sectorSize * k + magicSize)).take sectorSize = (d k).toBytes := by
  have hplace : sectorSize * k + magicSize = magicBytes.length + k * sectorSize := by
    rw [length_magicBytes, Nat.mul_comm, Nat.add_comm]
  rw [diskImage, hplace, List.drop_append, List.drop_of_length_le (Nat.le_add_right _ _),
    List.nil_append, Nat.add_sub_cancel_left, take_drop_blocks (fun k ↦ length_toBytes (d k)) hk]

/-- Bytes written over as many others. -/
private theorem splice_between (front behind : List Byte) {old new : List Byte}
    (hlength : old.length = new.length) (hne : new ≠ []) :
    splice (front ++ old ++ behind) front.length new = front ++ new ++ behind := by
  have hbehind : (front ++ old ++ behind).drop (front.length + new.length) = behind := by
    rw [← hlength, ← List.length_append, List.drop_left]
  rw [splice_of_ne_nil _ _ hne, hbehind]
  have hgap : front.length - (front ++ old ++ behind).length = 0 := by
    simp only [List.length_append]
    omega
  rw [hgap, List.replicate_zero, List.append_nil, List.append_assoc front, List.take_left]

/-- A sector is written to its place. -/
private theorem splice_diskImage (hk : k < numSectors) (data : Sector) :
    splice (diskImage d) (sectorSize * k + magicSize) data.toBytes =
      diskImage (Function.update d k data) := by
  have hupdate : (fun i ↦ (Function.update d k data i).toBytes) =
      Function.update (fun i ↦ (d i).toBytes) k data.toBytes := by
    funext i
    by_cases hi : i = k
    · rw [hi, Function.update_self, Function.update_self]
    · rw [Function.update_of_ne hi, Function.update_of_ne hi]
  have hne : data.toBytes ≠ [] := by
    intro hnil
    have := length_toBytes data
    rw [hnil] at this
    cases this
  have hplace : sectorSize * k + magicSize =
      (magicBytes ++ blocks (fun i ↦ (d i).toBytes) k).length := by
    rw [List.length_append, length_blocks fun k ↦ length_toBytes (d k), length_magicBytes,
      Nat.mul_comm, Nat.add_comm]
  rw [diskImage, diskImage, hupdate, blocks_update _ hk, blocks_split _ hk, hplace]
  simp only [← List.append_assoc]
  exact splice_between _ _ ((length_toBytes (d k)).trans (length_toBytes data).symm) hne

/-- A write beyond the end fills the gap. -/
private theorem splice_beyond {content bytes : List Byte} {pos : ℕ} (hpos : content.length ≤ pos)
    (hne : bytes ≠ []) :
    splice content pos bytes =
      content ++ List.replicate (pos - content.length) 0 ++ bytes := by
  have hlength : (content ++ List.replicate (pos - content.length) 0).length = pos := by
    rw [List.length_append, List.length_replicate]
    omega
  have hdrop : content.drop (pos + bytes.length) = [] := List.drop_of_length_le (by omega)
  rw [splice_of_ne_nil _ _ hne, hdrop, List.append_nil, List.take_of_length_le (by omega)]

/-- The image of a new disk is what `Disk::Disk` writes: the magic number, and a last word. -/
private theorem diskImage_blankDisk :
    splice (splice [] 0 magicBytes) (diskSize - 4) (List.replicate 4 0) = diskImage blankDisk := by
  have hmagic : splice [] 0 magicBytes = magicBytes := by
    rw [splice_beyond (Nat.le_refl 0) (by decide)]
    rfl
  have hsector : (fun k ↦ (blankDisk k).toBytes) = fun _ ↦ List.replicate sectorSize 0 := by
    funext k
    exact List.ofFn_const sectorSize 0
  rw [hmagic, splice_beyond (by decide) (by decide), diskImage, hsector, blocks_replicate,
    List.append_assoc, List.replicate_append_replicate]
  rfl

end image

/-! ## What the calls come to -/

/-- The name has the file `bytes`, which is open as `fd` at position `pos`. -/
structure Host.Opened (h : Host) (name : Name) (fd : Word) (pos : ℕ) (bytes : List Byte)
    (ino : ℕ) : Prop where
  dir : h.dir name = some ino
  content : h.content ino = bytes
  handle : h.fds fd = some (.file ino pos)

section calls

variable {h : Host} {name : Name} {fd : Word} {pos ino : ℕ} {bytes : List Byte}

theorem Host.Opened.lseek (ho : h.Opened name fd pos bytes ino) (offset : Word)
    (hoff : offset.toNat < offsetLimit) :
    ∃ h', Sysdep.lseek fd offset 0 h = .ok () h' ∧ h'.Opened name fd offset.toNat bytes ino := by
  have hpos : 0 ≤ offset.toInt := by
    rw [BitVec.toInt_eq_toNat_of_lt (by simp only [offsetLimit] at hoff; omega)]
    exact Int.natCast_nonneg _
  have hcall : Sysdep.call (·.lseek fd offset 0) h =
      .ok offset (h.setFd fd (some (.file ino offset.toNat))) := by
    rw [Sysdep.call, Host.lseek_start ho.handle hoff]
  refine ⟨h.setFd fd (some (.file ino offset.toNat)), ?_, ho.dir, ho.content,
    Function.update_self ..⟩
  rw [Sysdep.lseek, bind_of_ok hcall, if_pos hpos]
  rfl

theorem Host.Opened.read (ho : h.Opened name fd pos bytes ino) {n : ℕ}
    (hn : pos + n ≤ bytes.length) (hlt : n < 2 ^ 32) :
    ∃ h', Sysdep.read fd n false h = .ok ((bytes.drop pos).take n) h' ∧
      h'.Opened name fd (pos + n) bytes ino := by
  have hlength : ((bytes.drop pos).take n).length = n := by
    rw [List.length_take, List.length_drop]
    omega
  have hcall : Sysdep.call (·.read fd (BitVec.ofNat 32 n) false []) h =
      .ok (some ((bytes.drop pos).take n)) (h.setFd fd (some (.file ino (pos + n)))) := by
    rw [Sysdep.call, Host.read_file ho.handle, toNat_ofNat_of_lt hlt, ho.content, hlength]
  refine ⟨h.setFd fd (some (.file ino (pos + n))), ?_, ho.dir, ho.content,
    Function.update_self ..⟩
  rw [Sysdep.read, bind_of_ok hcall, if_pos (by rw [Option.map_some, hlength])]
  rfl

theorem Host.Opened.writeFile (ho : h.Opened name fd pos bytes ino) (new : List Byte)
    (hlen : pos + new.length < offsetLimit) :
    ∃ h', Sysdep.writeFile fd new false h = .ok () h' ∧
      h'.Opened name fd (pos + new.length) (splice bytes pos new) ino := by
  have hcall : Sysdep.call (·.write fd new false) h = .ok (BitVec.ofNat 32 new.length)
      ((h.setContent ino (splice bytes pos new)).setFd fd
        (some (.file ino (pos + new.length)))) := by
    rw [Sysdep.call, Host.write_file ho.handle hlen, ho.content]
  refine ⟨(h.setContent ino (splice bytes pos new)).setFd fd (some (.file ino (pos + new.length))),
    ?_, ho.dir, Function.update_self .., Function.update_self ..⟩
  rw [Sysdep.writeFile, bind_of_ok hcall, if_pos rfl]
  rfl

end calls

namespace Drive

/-- The file of the drive holds the disk, and the drive has it open. -/
def Holds (diskname : Name) (s : Drive) (d : Disk) : Prop :=
  ∃ pos ino, s.host.Opened diskname s.fileno pos (diskImage d) ino

section requests

variable {diskname : Name} {s : Drive} {d : Disk} {sectorNumber : ℤ}

/-- Where a sector is. -/
theorem toNat_offset (hlow : 0 ≤ sectorNumber) (hhigh : sectorNumber < numSectors) :
    (BitVec.ofInt 32 (sectorSize * sectorNumber + magicSize)).toNat =
      sectorSize * sectorNumber.toNat + magicSize := by
  simp only [numSectors] at hhigh
  rw [BitVec.toNat_ofInt]
  simp only [sectorSize, magicSize]
  omega

/-- The place of a sector is inside the file. -/
theorem offset_le (hlow : 0 ≤ sectorNumber) (hhigh : sectorNumber < numSectors) :
    sectorSize * sectorNumber.toNat + magicSize + sectorSize ≤ diskSize := by
  simp only [numSectors] at hhigh
  simp only [sectorSize, magicSize, diskSize, numSectors]
  omega

/-- The seek of a request. -/
theorem Holds.lseek (hs : s.Holds diskname d) (hlow : 0 ≤ sectorNumber)
    (hhigh : sectorNumber < numSectors) :
    ∃ h' ino, Sysdep.lseek s.fileno (BitVec.ofInt 32 (sectorSize * sectorNumber + magicSize)) 0
        s.host = .ok () h' ∧
      h'.Opened diskname s.fileno (sectorSize * sectorNumber.toNat + magicSize) (diskImage d)
        ino := by
  obtain ⟨pos, ino, ho⟩ := hs
  have hle := offset_le hlow hhigh
  have hoff := toNat_offset hlow hhigh
  obtain ⟨h', hrun, ho'⟩ := ho.lseek (.ofInt 32 (sectorSize * sectorNumber + magicSize)) (by
    simp only [offsetLimit, diskSize, numSectors, magicSize, sectorSize] at *
    omega)
  rw [hoff] at ho'
  exact ⟨h', ino, hrun, ho'⟩

theorem Holds.readRequest (hs : s.Holds diskname d) (hlow : 0 ≤ sectorNumber)
    (hhigh : sectorNumber < numSectors) :
    ∃ h', readRequest s.fileno sectorNumber false s.host = .ok (d sectorNumber.toNat) h' ∧
      (⟨s.fileno, h'⟩ : Drive).Holds diskname d := by
  obtain ⟨h₁, ino, hseek, ho₁⟩ := hs.lseek hlow hhigh
  have hk : sectorNumber.toNat < numSectors := by
    simp only [numSectors] at hhigh ⊢
    omega
  have hle : sectorSize * sectorNumber.toNat + magicSize + sectorSize ≤ (diskImage d).length := by
    rw [length_diskImage]
    exact offset_le hlow hhigh
  obtain ⟨h₂, hread, ho₂⟩ := ho₁.read hle (by decide)
  rw [take_drop_diskImage hk] at hread
  refine ⟨h₂, ?_, _, ino, ho₂⟩
  rw [Drive.readRequest, if_pos ⟨hlow, hhigh⟩, bind_of_ok hseek, bind_of_ok hread, getD_toBytes]
  rfl

theorem Holds.writeRequest (hs : s.Holds diskname d) (hlow : 0 ≤ sectorNumber)
    (hhigh : sectorNumber < numSectors) (data : Sector) :
    ∃ h', writeRequest s.fileno sectorNumber data false s.host = .ok () h' ∧
      (⟨s.fileno, h'⟩ : Drive).Holds diskname (Function.update d sectorNumber.toNat data) := by
  obtain ⟨h₁, ino, hseek, ho₁⟩ := hs.lseek hlow hhigh
  have hk : sectorNumber.toNat < numSectors := by
    simp only [numSectors] at hhigh ⊢
    omega
  have hlen : sectorSize * sectorNumber.toNat + magicSize + data.toBytes.length < offsetLimit := by
    have hle := offset_le hlow hhigh
    rw [length_toBytes]
    exact Nat.lt_of_le_of_lt hle (by decide)
  obtain ⟨h₂, hwrite, ho₂⟩ := ho₁.writeFile data.toBytes hlen
  rw [splice_diskImage hk] at ho₂
  refine ⟨h₂, ?_, _, ino, ho₂⟩
  rw [Drive.writeRequest, if_pos ⟨hlow, hhigh⟩, bind_of_ok hseek, hwrite]

end requests

/-! ## Setting up -/

section setUp

variable {diskname : Name} {choice : Choice} {h : Host} {d : Disk}

/-- Nothing but the first `open` fails. -/
structure Choice.Works (choice : Choice) (h : Host) : Prop where
  free : h.isFree choice.newFd = true
  created : choice.createFails = false
  io : choice.ioFails = false

/-- The file is there, and it can be opened. -/
private theorem new_of_file (hfile : h.fileAt diskname = some (diskImage d))
    (hworks : choice.Works h) (hopen : choice.openFails = false) :
    ∃ h', new diskname choice h = .ok choice.newFd h' ∧
      (⟨choice.newFd, h'⟩ : Drive).Holds diskname d := by
  obtain ⟨ino, hdir, hcontent⟩ := Option.map_eq_some_iff.mp hfile
  have hlen : (h.content ino).length < offsetLimit := by
    rw [hcontent, length_diskImage]
    decide
  have hcall : Sysdep.openForReadWrite diskname choice.openFails choice.newFd h =
      .ok choice.newFd (h.setFd choice.newFd (some (.file ino 0))) := by
    simp only [Sysdep.openForReadWrite, Sysdep.call, Host.openReadWrite, hopen, hworks.free, hdir,
      Bool.not_true, Bool.or_false, if_pos hlen]
  have ho : (h.setFd choice.newFd (some (.file ino 0))).Opened diskname choice.newFd 0
      (diskImage d) ino := ⟨hdir, hcontent, Function.update_self ..⟩
  have hle : 0 + magicSize ≤ (diskImage d).length := by
    rw [length_diskImage]
    decide
  obtain ⟨h₁, hread, ho₁⟩ := ho.read hle (by decide)
  have hmagic : ((diskImage d).drop 0).take magicSize = magicBytes := by
    rw [diskImage, List.drop_zero, ← length_magicBytes, List.take_left]
  rw [hmagic, ← hworks.io] at hread
  refine ⟨h₁, ?_, _, ino, ho₁⟩
  rw [new, bind_of_ok hcall, if_pos (Host.isFree_iff.mp hworks.free).1, bind_of_ok hread,
    if_pos (by decide)]
  rfl

/-- The file is not there, or it cannot be opened. -/
theorem new_of_refused (hrefused : h.dir diskname = none ∨ choice.openFails = true)
    (hworks : choice.Works h) :
    ∃ h', new diskname choice h = .ok choice.newFd h' ∧
      (⟨choice.newFd, h'⟩ : Drive).Holds diskname blankDisk := by
  have hcall : Sysdep.openForReadWrite diskname choice.openFails choice.newFd h = .ok (-1) h := by
    rcases hrefused with hnone | hfails
    · rw [Sysdep.openForReadWrite, Sysdep.call]
      rcases Host.openReadWrite_cases h diskname choice.openFails choice.newFd with heq | hopen
      · rw [heq]
      · obtain ⟨ino, hdir, -⟩ := hopen
        rw [hnone] at hdir
        cases hdir
    · simp only [Sysdep.openForReadWrite, Sysdep.call, Host.openReadWrite, hfails, Bool.true_or]
  obtain ⟨ino, h₁, htruncate, hdir, hcontent, hfds⟩ :=
    Host.openTruncate_of_free hworks.free diskname
  have hcreate : Sysdep.openForWrite diskname choice.createFails choice.newFd h =
      .ok choice.newFd h₁ := by
    have htry : Sysdep.call (·.openTruncate diskname choice.createFails choice.newFd) h =
        .ok choice.newFd h₁ := by
      rw [Sysdep.call, hworks.created, htruncate]
    rw [Sysdep.openForWrite, bind_of_ok htry, if_pos (Host.isFree_iff.mp hworks.free).1]
    rfl
  have ho₁ : h₁.Opened diskname choice.newFd 0 [] ino := by
    refine ⟨?_, ?_, ?_⟩
    · rw [hdir, Function.update_self]
    · rw [hcontent, Function.update_self]
    · rw [hfds, Function.update_self]
  obtain ⟨h₂, hwrite₁, ho₂⟩ := ho₁.writeFile magicBytes (by decide)
  obtain ⟨h₃, hseek, ho₃⟩ := ho₂.lseek (.ofNat 32 (diskSize - 4)) (by decide)
  obtain ⟨h₄, hwrite₂, ho₄⟩ := ho₃.writeFile (List.replicate 4 0) (by decide)
  refine ⟨h₄, ?_, _, ino, diskImage_blankDisk ▸ ho₄⟩
  rw [← hworks.io] at hwrite₁ hwrite₂
  rw [new, bind_of_ok hcall, if_neg (by decide), bind_of_ok hcreate, bind_of_ok hwrite₁,
    bind_of_ok hseek, bind_of_ok hwrite₂]
  rfl

end setUp

/-! ## Runs -/

/-- The drives that a sequence of runs can lead to, with what was written to the sectors. Nothing
else on the host touches the file; between two runs of Nachos only the file is left. -/
inductive Reaches (diskname : Name) : Drive → Disk → Prop
  | created {h h' : Host} {choice : Choice} {fileno : Word} (hnone : h.dir diskname = none)
      (hworks : choice.Works h) (hnew : new diskname choice h = .ok fileno h') :
      Reaches diskname ⟨fileno, h'⟩ blankDisk
  | read {s : Drive} {d : Disk} {h' : Host} {sectorNumber : ℤ} {data : Sector}
      (hs : Reaches diskname s d)
      (hread : readRequest s.fileno sectorNumber false s.host = .ok data h') :
      Reaches diskname ⟨s.fileno, h'⟩ d
  | write {s : Drive} {d : Disk} {h' : Host} {sectorNumber : ℤ} {data : Sector}
      (hs : Reaches diskname s d)
      (hwrite : writeRequest s.fileno sectorNumber data false s.host = .ok () h') :
      Reaches diskname ⟨s.fileno, h'⟩ (Function.update d sectorNumber.toNat data)
  /-- Something else happens on the host. -/
  | elsewhere {s : Drive} {d : Disk} {h' : Host} (hs : Reaches diskname s d)
      (hdir : h'.dir diskname = s.host.dir diskname)
      (hcontent : h'.fileAt diskname = s.host.fileAt diskname)
      (hfd : h'.fds s.fileno = s.host.fds s.fileno) : Reaches diskname ⟨s.fileno, h'⟩ d
  /-- Nachos is run again. -/
  | restart {s : Drive} {d : Disk} {h h' : Host} {choice : Choice} {fileno : Word}
      (hs : Reaches diskname s d) (hfile : h.fileAt diskname = s.host.fileAt diskname)
      (hworks : choice.Works h) (hopen : choice.openFails = false)
      (hnew : new diskname choice h = .ok fileno h') : Reaches diskname ⟨fileno, h'⟩ d

variable {diskname : Name} {s : Drive} {d : Disk}

theorem Holds.fileAt (hs : s.Holds diskname d) :
    s.host.fileAt diskname = some (diskImage d) := by
  obtain ⟨pos, ino, ho⟩ := hs
  rw [Host.fileAt, ho.dir, Option.map_some, ho.content]

private theorem readRequest_of_invalid {fileno : Word} {sectorNumber : ℤ}
    (hinvalid : ¬(0 ≤ sectorNumber ∧ sectorNumber < numSectors)) (fails : Bool) (h : Host) :
    readRequest fileno sectorNumber fails h = .error .assertFailed h := by
  rw [readRequest, if_neg hinvalid]
  rfl

private theorem writeRequest_of_invalid {fileno : Word} {sectorNumber : ℤ}
    (hinvalid : ¬(0 ≤ sectorNumber ∧ sectorNumber < numSectors)) (data : Sector) (fails : Bool)
    (h : Host) : writeRequest fileno sectorNumber data fails h = .error .assertFailed h := by
  rw [writeRequest, if_neg hinvalid]
  rfl

private theorem holds_of_reaches (hr : Reaches diskname s d) : s.Holds diskname d := by
  induction hr with
  | created hnone hworks hnew =>
    obtain ⟨h₁, hrun, hs⟩ := new_of_refused (.inl hnone) hworks
    rw [hnew] at hrun
    cases hrun
    exact hs
  | @read s d h' sectorNumber data _ hread ih =>
    by_cases hvalid : 0 ≤ sectorNumber ∧ sectorNumber < numSectors
    · obtain ⟨h₁, hrun, hs⟩ := ih.readRequest hvalid.1 hvalid.2
      rw [hread] at hrun
      cases hrun
      exact hs
    · rw [readRequest_of_invalid hvalid] at hread
      cases hread
  | @write s d h' sectorNumber data _ hwrite ih =>
    by_cases hvalid : 0 ≤ sectorNumber ∧ sectorNumber < numSectors
    · obtain ⟨h₁, hrun, hs⟩ := ih.writeRequest hvalid.1 hvalid.2 data
      rw [hwrite] at hrun
      cases hrun
      exact hs
    · rw [writeRequest_of_invalid hvalid] at hwrite
      cases hwrite
  | elsewhere _ hdir hcontent hfd ih =>
    obtain ⟨pos, ino, ho⟩ := ih
    refine ⟨pos, ino, hdir.trans ho.dir, ?_, hfd.trans ho.handle⟩
    rw [Host.fileAt, Host.fileAt, hdir, ho.dir, Option.map_some, Option.map_some, ho.content]
      at hcontent
    exact Option.some.inj hcontent
  | restart _ hfile hworks hopen hnew ih =>
    obtain ⟨h₁, hrun, hs⟩ := new_of_file (hfile.trans ih.fileAt) hworks hopen
    rw [hnew] at hrun
    cases hrun
    exact hs

/-- The drive does what the code above it takes a disk to do. -/
structure Serves (diskname : Name) (s : Drive) (d : Disk) : Prop where
  /-- `readSector` and its failure. -/
  read : ∀ sectorNumber data d', readSector sectorNumber d = .ok data d' →
    ∃ h', readRequest s.fileno sectorNumber false s.host = .ok data h' ∧
      Reaches diskname ⟨s.fileno, h'⟩ d'
  readFails : ∀ sectorNumber e d', readSector sectorNumber d = .error e d' →
    readRequest s.fileno sectorNumber false s.host = .error e s.host
  /-- `writeSector` and its failure. -/
  write : ∀ sectorNumber data d', writeSector sectorNumber data d = .ok () d' →
    ∃ h', writeRequest s.fileno sectorNumber data false s.host = .ok () h' ∧
      Reaches diskname ⟨s.fileno, h'⟩ d'
  writeFails : ∀ sectorNumber data e d', writeSector sectorNumber data d = .error e d' →
    writeRequest s.fileno sectorNumber data false s.host = .error e s.host
  /-- The disk is there when Nachos is run again. -/
  restart : ∀ h choice, h.fileAt diskname = s.host.fileAt diskname → choice.Works h →
    choice.openFails = false →
    ∃ h', new diskname choice h = .ok choice.newFd h' ∧ Reaches diskname ⟨choice.newFd, h'⟩ d
  /-- It is wiped if the file cannot be opened then. -/
  wiped : ∀ h choice, h.fileAt diskname = s.host.fileAt diskname → choice.Works h →
    choice.openFails = true →
    ∃ h', new diskname choice h = .ok choice.newFd h' ∧
      h'.fileAt diskname = some (diskImage blankDisk)

/-- **The file is the disk.** Wherever runs of Nachos have led, the requests do what `readSector`
and `writeSector` do to the sectors that were written so far, and so does the next run. -/
theorem drive_serves (hr : Reaches diskname s d) : Serves diskname s d := by
  have hs := holds_of_reaches hr
  refine ⟨fun sectorNumber data d' hread ↦ ?_, fun sectorNumber e d' hread ↦ ?_,
    fun sectorNumber data d' hwrite ↦ ?_, fun sectorNumber data e d' hwrite ↦ ?_,
    fun h choice hfile hworks hopen ↦ ?_, fun h choice _ hworks hopen ↦ ?_⟩
  · rw [readSector] at hread
    split at hread
    · rename_i hvalid
      cases hread
      obtain ⟨h', hrun, -⟩ := hs.readRequest hvalid.1 hvalid.2
      exact ⟨h', hrun, hr.read hrun⟩
    · cases hread
  · rw [readSector] at hread
    split at hread
    · cases hread
    · rename_i hinvalid
      cases hread
      exact readRequest_of_invalid hinvalid false s.host
  · rw [writeSector] at hwrite
    split at hwrite
    · rename_i hvalid
      cases hwrite
      obtain ⟨h', hrun, -⟩ := hs.writeRequest hvalid.1 hvalid.2 data
      exact ⟨h', hrun, hr.write hrun⟩
    · cases hwrite
  · rw [writeSector] at hwrite
    split at hwrite
    · cases hwrite
    · rename_i hinvalid
      cases hwrite
      exact writeRequest_of_invalid hinvalid data false s.host
  · obtain ⟨h', hrun, -⟩ := new_of_file (hfile.trans hs.fileAt) hworks hopen
    exact ⟨h', hrun, hr.restart hfile hworks hopen hrun⟩
  · obtain ⟨h', hrun, hblank⟩ := new_of_refused (.inr hopen) hworks
    exact ⟨h', hrun, hblank.fileAt⟩

/-- A host without files. -/
def emptyHost : Host := ⟨fun _ ↦ none, fun _ ↦ [], fun _ ↦ none, 0, []⟩

theorem drive_serves_empty : ∃ h', new [] ⟨3, false, false, false⟩ emptyHost = .ok 3 h' ∧
    Serves [] ⟨3, h'⟩ blankDisk := by
  have hworks : Choice.Works ⟨3, false, false, false⟩ emptyHost := ⟨by decide, rfl, rfl⟩
  have hnone : emptyHost.dir [] = none := rfl
  obtain ⟨h', hnew, -⟩ := new_of_refused (.inl hnone) hworks
  exact ⟨h', hnew, drive_serves (.created hnone hworks hnew)⟩

end Drive

end Nachos
