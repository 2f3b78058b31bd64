import Nachos.Host.Posix
import Nachos.Machine.Translate

/-!
# The kernel a system call runs in

What `ExceptionHandler` can reach: the machine of the user program, the open-file and socket tables
of the stub `FileSystem`, the heap the kernel takes its buffers from, the console and the host.

A buffer is a block of bytes at an address. Where `new` places it is up to the allocator, so it is
an argument, and a deleted block keeps its bytes until its address is given out again: reading
through a stale pointer sees whatever was put there last. `new` does not return null; it throws,
and here only a negative size makes it.

The kernel reaches user memory through the same `ReadMem` and `WriteMem` as the program. A failed
translation there calls `ExceptionHandler` again, which does not expect it and aborts.
-/

namespace Nachos

open Program

@[simp] abbrev maxFile : ℕ := 20

@[simp] abbrev maxSocket : ℕ := 20

/-! ## The heap -/

abbrev Ptr := ℕ

inductive HeapEvent where
  | new (p : Ptr)
  | delete (p : Ptr)
  deriving DecidableEq, Repr

/-- The bytes last allocated at each address, and what has been allocated and deleted, the latest
first. -/
structure Heap where
  bytes : Ptr → List Byte
  events : List HeapEvent

/-- A block allocated at `p`. -/
def Heap.new (h : Heap) (p : Ptr) (bytes : List Byte) : Heap :=
  ⟨Function.update h.bytes p bytes, .new p :: h.events⟩

/-- The block at `p` released. -/
def Heap.delete (h : Heap) (p : Ptr) : Heap := { h with events := .delete p :: h.events }

/-- Other bytes in the block at `p`. -/
def Heap.set (h : Heap) (p : Ptr) (bytes : List Byte) : Heap :=
  { h with bytes := Function.update h.bytes p bytes }

section heap

variable (h : Heap) (p : Ptr) (bytes bytes' : List Byte)

@[simp] theorem Heap.new_bytes_self : (h.new p bytes).bytes p = bytes := Function.update_self ..

@[simp] theorem Heap.set_bytes_self : (h.set p bytes).bytes p = bytes := Function.update_self ..

@[simp] theorem Heap.set_bytes : h.set p (h.bytes p) = h := by
  rw [Heap.set, Function.update_eq_self]

@[simp] theorem Heap.set_set : (h.set p bytes).set p bytes' = h.set p bytes' := by
  simp only [Heap.set, Function.update_idem]

@[simp] theorem Heap.set_new : (h.new p bytes).set p bytes' = h.new p bytes' := by
  simp only [Heap.new, Heap.set, Function.update_idem]

end heap

/-- The bytes before the first zero. -/
def cString (bytes : List Byte) : List Byte := bytes.takeWhile (· ≠ 0)

/-! ## The state -/

/-- The stub `OpenFile`; `object` is its own address. -/
structure OpenFile where
  object : Ptr
  type : Word
  filename : Ptr
  file : Word
  currentOffset : Word
  deriving DecidableEq, Repr

structure Kernel where
  machine : Machine
  openfile : ℕ → Option OpenFile
  socket : ℕ → Word
  heap : Heap
  host : Host
  /-- The characters `SynchConsoleInput::GetChar` has yet to deliver. -/
  consoleIn : List Byte
  /-- The characters put on the display so far. -/
  consoleOut : List Byte

/-- What the allocator, uninitialised memory and the host contribute to one system call. -/
structure Env where
  /-- Where `User2System` gets its buffer. -/
  kernelBuf : Ptr
  /-- Where `Read` and `Write` get theirs, and what is in it. -/
  buf : Ptr
  junk : ℕ → Byte
  /-- Where a new `OpenFile` is placed, and its representation in memory. -/
  object : Ptr
  objectBytes : List Byte
  /-- The value of `filenameopen` before it is assigned. -/
  filenameopen : Ptr
  /-- The descriptor the host offers, and the outcomes of its calls. -/
  newFd : Word
  openFails : Bool
  unlinkFails : Bool
  readFails : Bool
  writeFails : Bool
  ret : Word
  received : List Byte

/-- Code of the kernel. -/
abbrev Kern := EStateM Fault Kernel

/-! ## The machine -/

/-- A part of the kernel that works on the machine. In the kernel a trap is fatal. -/
def onMachine {α : Type} (x : Exec α) : Kern α := fun k ↦
  match x k.machine with
  | .ok a m => .ok a { k with machine := m }
  | .error (.trap _) m => .error .assertFailed { k with machine := m }
  | .error (.fault f) m => .error f { k with machine := m }

def readRegister (i : ℕ) : Kern Word := onMachine (readReg i)

def writeRegister (i : ℕ) (v : Word) : Kern Unit := onMachine (writeReg i v)

/-! ## Buffers -/

/-- A new block at `p`. -/
def newBlock (p : Ptr) (bytes : List Byte) : Kern Unit :=
  modify fun k ↦ { k with heap := k.heap.new p bytes }

/-- `new char[n]`, its bytes given by `init`. -/
def newChars (p : Ptr) (n : Word) (init : ℕ → Byte) : Kern Ptr :=
  if n.toInt < 0 then throw .badAlloc
  else do
    newBlock p ((List.range n.toNat).map init)
    return p

/-- `delete p`. -/
def deleteBlock (p : Ptr) : Kern Unit :=
  modify fun k ↦ { k with heap := k.heap.delete p }

def blockBytes (p : Ptr) : Kern (List Byte) := do
  let k ← get
  return k.heap.bytes p

/-- The read of `p[i]`. -/
def loadChar (p : Ptr) (i : ℕ) : Kern Byte := fun k ↦
  match (k.heap.bytes p)[i]? with
  | some c => .ok c k
  | none => .error .bufferIndex k

/-- `bytes` stored from `p[i]` on. -/
def storeChars (p : Ptr) (i : ℕ) (bytes : List Byte) : Kern Unit := fun k ↦
  if i + bytes.length ≤ (k.heap.bytes p).length then
    .ok () { k with heap := k.heap.set p (splice (k.heap.bytes p) i bytes) }
  else .error .bufferIndex k

/-- The loop of `User2System`: `rest` more characters, from `virtAddr + i` into `kernelBuf[i]`. -/
def copyFromUser (virtAddr : Word) (kernelBuf : Ptr) : ℕ → ℕ → Kern Unit
  | _, 0 => return
  | i, rest + 1 => do
    let oneChar ← onMachine (readMem (virtAddr + BitVec.ofNat 32 i) 1)
    storeChars kernelBuf i [oneChar.setWidth 8]
    if oneChar = 0 then return else copyFromUser virtAddr kernelBuf (i + 1) rest

/-- `User2System`: a string of at most `limit` characters, with zeros behind it. -/
def user2System (env : Env) (virtAddr limit : Word) : Kern Ptr := do
  let kernelBuf ← newChars env.kernelBuf (limit + 1) fun _ ↦ 0
  copyFromUser virtAddr kernelBuf 0 limit.toInt.toNat
  return kernelBuf

/-- The loop of `System2User`, `rest` characters away from `len`; the result is `i` at its end. -/
def copyToUser (virtAddr : Word) (char : ℕ → Kern Byte) : ℕ → ℕ → Kern Word
  | i, 0 => return BitVec.ofNat 32 i
  | i, rest + 1 => do
    let oneChar ← char i
    onMachine (writeMem (virtAddr + BitVec.ofNat 32 i) 1 (oneChar.signExtend 32))
    if oneChar = 0 then return BitVec.ofNat 32 (i + 1)
    else copyToUser virtAddr char (i + 1) rest

/-- `System2User`; `char i` reads `buffer[i]`. -/
def system2User (virtAddr len : Word) (char : ℕ → Kern Byte) : Kern Word :=
  if len.toInt < 0 then return -1
  else copyToUser virtAddr char 0 len.toNat

/-! ## Host calls -/

def onHost {α : Type} (f : Host → α × Host) : Kern α := fun k ↦
  .ok (f k.host).1 { k with host := (f k.host).2 }

def assert (c : Prop) [Decidable c] : Kern Unit := if c then return else throw .assertFailed

/-- `OpenForWrite`. -/
def openForWrite (env : Env) (name : Name) : Kern Word := do
  let fd ← onHost fun h ↦ h.openTruncate name env.openFails env.newFd
  assert (0 ≤ fd.toInt)
  return fd

/-- `OpenForReadWrite(name, FALSE)`. -/
def openForReadWrite (env : Env) (name : Name) : Kern Word :=
  onHost fun h ↦ h.openReadWrite name env.openFails env.newFd

/-- `ReadPartial`: the host reads into the buffer. -/
def readPartial (env : Env) (fd : Word) (buffer : Ptr) (nBytes : Word) : Kern Word := do
  let bytes ← onHost fun h ↦ h.read fd nBytes env.readFails env.received
  match bytes with
  | none => return -1
  | some bytes => do
    storeChars buffer 0 bytes
    return BitVec.ofNat 32 bytes.length

/-- The first `n` bytes of a buffer, handed to the host. -/
def takeChars (p : Ptr) (n : ℕ) : Kern (List Byte) := fun k ↦
  if n ≤ (k.heap.bytes p).length then .ok ((k.heap.bytes p).take n) k
  else .error .bufferIndex k

/-- `WriteFile`. -/
def writeFile (env : Env) (fd : Word) (buffer : Ptr) (nBytes : Word) : Kern Unit := do
  let bytes ← takeChars buffer nBytes.toNat
  let retVal ← onHost fun h ↦ h.write fd bytes env.writeFails
  assert (retVal = nBytes)

/-- `Lseek`. -/
def lseek (fd offset : Word) (whence : ℕ) : Kern Unit := do
  let retVal ← onHost fun h ↦ h.lseek fd offset whence
  assert (0 ≤ retVal.toInt)

/-- `Tell`. -/
def tell (fd : Word) : Kern Word := onHost fun h ↦ h.lseek fd 0 1

/-- `Close`. -/
def close (fd : Word) : Kern Unit := do
  let retVal ← onHost fun h ↦ h.close fd
  assert (0 ≤ retVal.toInt)

/-! ## The stub file system -/

/-- The read of `openfile[id]`. -/
def openfileAt (id : Word) : Kern (Option OpenFile) := fun k ↦
  if id.toNat < maxFile then .ok (k.openfile id.toNat) k else .error .tableIndex k

/-- The assignment `openfile[id] = f`. -/
def setOpenfile (id : Word) (f : Option OpenFile) : Kern Unit := fun k ↦
  if id.toNat < maxFile then .ok () { k with openfile := Function.update k.openfile id.toNat f }
  else .error .tableIndex k

/-- `->`. -/
def deref {α : Type} : Option α → Kern α
  | some a => return a
  | none => throw .nullDeref

/-- `FileSystem::findIndexFree`, `-1` when every slot is taken. -/
def Kernel.findIndexFree (k : Kernel) : Word :=
  match (List.range' 2 (maxFile - 2)).find? fun i ↦ (k.openfile i).isNone with
  | some i => BitVec.ofNat 32 i
  | none => -1

/-- `FileSystem::findIndexSocketFree`. -/
def Kernel.findIndexSocketFree (k : Kernel) : Word :=
  match (List.range maxSocket).find? fun i ↦ k.socket i = -1 with
  | some i => BitVec.ofNat 32 i
  | none => -1

/-- `FileSystem::findIndexSocket`. What it returns for a registered socket is the socket's id. -/
def Kernel.findIndexSocket (k : Kernel) (id : Word) : Word :=
  match (List.range maxSocket).find? fun i ↦ k.socket i = id with
  | some _ => id
  | none => -1

/-- The assignment `socket[pos] = id`. -/
def setSocket (pos id : Word) : Kern Unit := fun k ↦
  if pos.toNat < maxSocket then .ok () { k with socket := Function.update k.socket pos.toNat id }
  else .error .tableIndex k

/-- `FileSystem::Create`. -/
def fileSystemCreate (env : Env) (name : Name) : Kern Bool := do
  let fileDescriptor ← openForWrite env name
  if fileDescriptor = -1 then return false
  else do
    close fileDescriptor
    return true

/-- `FileSystem::Open(name, type)`; the name pointer itself goes into the entry. -/
def fileSystemOpen (env : Env) (filename : Ptr) (type : Word) : Kern (Option OpenFile) := do
  let name ← blockBytes filename
  let fileDescriptor ← openForReadWrite env (cString name)
  if fileDescriptor = -1 then return none
  else do
    newBlock env.object env.objectBytes
    return some
      { object := env.object, type := type, filename := filename, file := fileDescriptor,
        currentOffset := 0 }

/-- `FileSystem::Remove`. -/
def fileSystemRemove (env : Env) (name : Name) : Kern Bool := do
  let ret ← onHost fun h ↦ h.unlink name env.unlinkFails
  return ret = 0

/-- `delete openfile[id]`: the destructor closes the file. -/
def deleteOpenFile (f : OpenFile) : Kern Unit := do
  close f.file
  deleteBlock f.object

/-- `OpenFile::Length`. -/
def OpenFile.length (f : OpenFile) : Kern Word := do
  lseek f.file 0 2
  tell f.file

/-- `openfile[id]->Seek(pos)`. -/
def seekFile (id : Word) (f : OpenFile) (pos : Word) : Kern Unit := do
  lseek f.file pos 0
  let offset ← tell f.file
  setOpenfile id (some { f with currentOffset := offset })

/-- `openfile[id]->Read(into, numBytes)`. -/
def readFile (env : Env) (id : Word) (f : OpenFile) (into : Ptr) (numBytes : Word) : Kern Word := do
  lseek f.file f.currentOffset 0
  let numRead ← readPartial env f.file into numBytes
  setOpenfile id (some { f with currentOffset := f.currentOffset + numRead })
  return numRead

/-- `openfile[id]->Write(from, numBytes)`. -/
def writeOpenFile (env : Env) (id : Word) (f : OpenFile) (buffer : Ptr) (numBytes : Word) :
    Kern Word := do
  lseek f.file f.currentOffset 0
  writeFile env f.file buffer numBytes
  setOpenfile id (some { f with currentOffset := f.currentOffset + numBytes })
  return numBytes

/-! ## The console -/

/-- `SynchConsoleInput::GetChar`; without input the caller waits. -/
def getChar : Kern Byte := fun k ↦
  match k.consoleIn with
  | c :: rest => .ok c { k with consoleIn := rest }
  | [] => .error .blocked k

/-- The loop of `SynchConsoleInput::GetString`, `rest` characters away from `size - 1`. -/
def getStringLoop (buffer : Ptr) : ℕ → ℕ → Kern ℕ
  | i, 0 => return i
  | i, rest + 1 => do
    let c ← getChar
    if c = 10 ∨ c = 0 then return i
    else do
      storeChars buffer i [c]
      getStringLoop buffer (i + 1) rest

/-- `SynchConsoleInput::GetString`. -/
def getString (buffer : Ptr) (size : Word) : Kern Word := do
  let i ← getStringLoop buffer 0 (size.toInt - 1).toNat
  storeChars buffer i [0]
  return BitVec.ofNat 32 i

/-- `SynchConsoleOutput::PutString`. -/
def putString (buffer : Ptr) (size : Word) : Kern Word := do
  let bytes ← takeChars buffer size.toInt.toNat
  modify fun k ↦ { k with consoleOut := k.consoleOut ++ bytes }
  return size

/-- `SysRead`. -/
def sysRead (env : Env) (buffer : Ptr) (charCount fileId : Word) : Kern Word :=
  if fileId = 0 then getString buffer charCount
  else do
    let slot ← openfileAt fileId
    let f ← deref slot
    readFile env fileId f buffer charCount

/-- `SysWrite`. -/
def sysWrite (env : Env) (buffer : Ptr) (charCount fileId : Word) : Kern Word :=
  if fileId = 1 then putString buffer charCount
  else do
    let slot ← openfileAt fileId
    let f ← deref slot
    writeOpenFile env fileId f buffer charCount

/-- The tables as the constructor of the stub `FileSystem` leaves them, on a given host. -/
def Kernel.initial (machine : Machine) (heap : Heap) (host : Host) (consoleIn : List Byte) :
    Kernel :=
  { machine := machine
    openfile := fun _ ↦ none
    socket := fun _ ↦ -1
    heap := heap
    host := host
    consoleIn := consoleIn
    consoleOut := [] }

end Nachos
