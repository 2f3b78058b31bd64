import Nachos.Machine.OneInstruction
import Nachos.Userprog.Kernel

/-!
# System calls

`exceptionHandler` is `ExceptionHandler` of the kernel: one definition for each case of its
`switch`, under the name of the call, and the tail that each of them repeats, `advancePC`. The
result of a call goes into `r2`; its arguments are in `r4`, `r5` and `r6`.

The tests of the handlers for a null buffer are not repeated here: `new` throws instead of
returning null. What a `Trap` adds is everything that may have happened between two calls: the
machine is whatever the user program has made of it by then.
-/

namespace Nachos

open Program

@[simp] abbrev maxFileLength : Word := 32

@[simp] abbrev maxLengthData : Word := 1024

/-- `WriteRegister(2, v)`. -/
def setResult (v : Word) : Kern Unit := writeRegister 2 v

/-- Advance the program counters, as every handler does before it returns. -/
def advancePC : Kern Unit := do
  let pc ← readRegister pcReg
  writeRegister prevPCReg pc
  writeRegister pcReg (pc + 4)
  let pc' ← readRegister pcReg
  writeRegister nextPCReg (pc' + 4)

/-! ## Files -/

/-- `SC_Create`. -/
def scCreate (env : Env) : Kern Unit := do
  let firstAdd ← readRegister 4
  let filename ← user2System env firstAdd (maxFileLength + 1)
  let name ← blockBytes filename
  let created ← fileSystemCreate env (cString name)
  setResult (if created = false then -1 else 0)
  deleteBlock filename

/-- The part of `SC_Open` that fills slot `index`. -/
def openSlot (env : Env) (index : Word) (filenameopen : Ptr) (type : Word) : Kern Unit := do
  let f ← fileSystemOpen env filenameopen type
  setOpenfile index f
  setResult (if f.isNone then -1 else index)

/-- The branches of `SC_Open`; the result is `filenameopen`, assigned or not. -/
def openBranches (env : Env) (firstAdd type : Word) : Kern Ptr :=
  if type ≠ 0 ∧ type ≠ 1 then do
    setResult (-1)
    return env.filenameopen
  else do
    let k ← get
    if k.findIndexFree = -1 then do
      setResult (-1)
      return env.filenameopen
    else do
      let filenameopen ← user2System env firstAdd (maxFileLength + 1)
      openSlot env k.findIndexFree filenameopen type
      return filenameopen

/-- `SC_Open`. -/
def scOpen (env : Env) : Kern Unit := do
  let firstAdd ← readRegister 4
  let type ← readRegister 5
  let filenameopen ← openBranches env firstAdd type
  deleteBlock filenameopen

/-- `SC_Close`. -/
def scClose : Kern Unit := do
  let id ← readRegister 4
  let slot ← openfileAt id
  match slot with
  | none => setResult (-1)
  | some f => do
    deleteOpenFile f
    setOpenfile id none
    setResult 0

/-- Does some open file carry this name? The names are compared through the stored pointers. -/
def Kernel.isOpen (k : Kernel) (name : Name) : Bool :=
  (List.range maxFile).any fun i ↦
    match k.openfile i with
    | some f => cString (k.heap.bytes f.filename) == name
    | none => false

/-- The part of `SC_Remove` after the name is read. -/
def removeNamed (env : Env) (name : Name) : Kern Unit := do
  let k ← get
  if k.isOpen name then setResult (-1)
  else do
    let removed ← fileSystemRemove env name
    setResult (if removed = false then -1 else 0)

/-- `SC_Remove`. -/
def scRemove (env : Env) : Kern Unit := do
  let firstAdd ← readRegister 4
  let filenameRemove ← user2System env firstAdd (maxFileLength + 1)
  let name ← blockBytes filenameRemove
  removeNamed env (cString name)
  deleteBlock filenameRemove

/-- The branches of `SC_Read`; the result is the buffer to delete. -/
def readBranches (env : Env) (bufferAddr size fileId : Word) (buf : Ptr) : Kern Ptr :=
  if fileId.toInt < 0 ∨ 20 < fileId.toInt then do
    setResult (-1)
    return buf
  else if fileId = 0 then do
    let bytesRead ← sysRead env buf size fileId
    setResult bytesRead
    let _ ← system2User bufferAddr size (loadChar buf)
    return buf
  else do
    -- the first buffer is lost here
    let buf ← user2System env bufferAddr size
    let bytesRead ← sysRead env buf size fileId
    setResult bytesRead
    let _ ← system2User bufferAddr bytesRead (loadChar buf)
    return buf

/-- `SC_Read`. -/
def scRead (env : Env) : Kern Unit := do
  let bufferAddr ← readRegister 4
  let size ← readRegister 5
  let fileId ← readRegister 6
  let buf ← newChars env.buf size env.junk
  let buf ← readBranches env bufferAddr size fileId buf
  deleteBlock buf

/-- Copy from the user, write, and copy back what was written. -/
def writeOut (env : Env) (bufferAddr size fileId : Word) : Kern Ptr := do
  let buf ← user2System env bufferAddr size
  let bytesWritten ← sysWrite env buf size fileId
  setResult bytesWritten
  let _ ← system2User bufferAddr bytesWritten (loadChar buf)
  return buf

/-- The branches of `SC_Write`; the result is the buffer to delete. -/
def writeBranches (env : Env) (bufferAddr size fileId : Word) (buf : Ptr) : Kern Ptr :=
  if fileId.toInt < 0 ∨ 20 < fileId.toInt then do
    setResult (-1)
    return buf
  else if fileId = 1 then writeOut env bufferAddr size fileId
  else do
    let slot ← openfileAt fileId
    let f ← deref slot
    if f.type = 1 then do
      setResult (-1)
      return buf
    else writeOut env bufferAddr size fileId

/-- `SC_Write`. -/
def scWrite (env : Env) : Kern Unit := do
  let bufferAddr ← readRegister 4
  let size ← readRegister 5
  let fileId ← readRegister 6
  let buf ← newChars env.buf size env.junk
  let buf ← writeBranches env bufferAddr size fileId buf
  deleteBlock buf

/-- `SC_Seek` on an open file. -/
def seekOpen (f : OpenFile) (pos fileId : Word) : Kern Unit := do
  let pos ← (if pos = -1 then f.length else return pos)
  let length ← f.length
  if length.toInt < pos.toInt ∨ pos.toInt < 0 then setResult (-1)
  else do
    seekFile fileId f pos
    setResult pos

/-- `SC_Seek`. -/
def scSeek : Kern Unit := do
  let pos ← readRegister 4
  let fileId ← readRegister 5
  if fileId.toInt < 2 ∨ 20 < fileId.toInt then setResult (-1)
  else do
    let slot ← openfileAt fileId
    match slot with
    | none => setResult (-1)
    | some f => seekOpen f pos fileId

/-! ## Sockets -/

/-- `SC_SocketTCP`. -/
def scSocketTCP (env : Env) : Kern Unit := do
  let k ← get
  if k.findIndexSocketFree = -1 then setResult (-1)
  else do
    let idSocket ← onHost fun h ↦ h.socket env.newFd
    if idSocket.toInt < 0 then setResult (-1)
    else do
      setSocket k.findIndexSocketFree idSocket
      setResult idSocket

/-- `SC_Connect`. -/
def scConnect (env : Env) : Kern Unit := do
  let idSocket ← readRegister 4
  if idSocket.toInt < 0 then setResult (-1)
  else do
    let port ← readRegister 6
    let firstAdd ← readRegister 5
    let ipAddr ← user2System env firstAdd maxFileLength
    let address ← blockBytes ipAddr
    let ret ← onHost fun h ↦ h.onStream idSocket (.connect idSocket (cString address) port) env.ret
    setResult (if ret.toInt < 0 then -1 else 0)
    deleteBlock ipAddr

/-- `SC_Send`. The length is compared with `strlen`, which is unsigned. -/
def scSend (env : Env) : Kern Unit := do
  let idSocket ← readRegister 4
  if idSocket.toInt < 0 then setResult (-1)
  else do
    let firstAdd ← readRegister 5
    let buffer ← user2System env firstAdd maxLengthData
    let len ← readRegister 6
    let data ← blockBytes buffer
    let numbyte ← onHost fun h ↦
      h.onStream idSocket (.send idSocket ((cString data).take len.toNat)) env.ret
    setResult numbyte
    deleteBlock buffer

/-- The array `recv` after the host has read into it. -/
def fillRecv (bytes : List Byte) : Kern (List Byte) :=
  if bytes.length ≤ maxLengthData.toNat then
    return splice (List.replicate maxLengthData.toNat 0) 0 bytes
  else throw .bufferIndex

def charOf (bytes : List Byte) (i : ℕ) : Kern Byte := fun k ↦
  match bytes[i]? with
  | some c => .ok c k
  | none => .error .bufferIndex k

/-- `SC_Receive`. -/
def scReceive (env : Env) : Kern Unit := do
  let idSocket ← readRegister 4
  if idSocket.toInt < 0 then setResult (-1)
  else do
    let firstAdd ← readRegister 5
    let len ← readRegister 6
    let received ← onHost fun h ↦
      (h.record (.read idSocket len)).read idSocket len env.readFails env.received
    match received with
    | none => setResult (-1)
    | some bytes => do
      let recv ← fillRecv bytes
      setResult (BitVec.ofNat 32 bytes.length)
      let _ ← system2User firstAdd len (charOf recv)
      return

/-- `SC_CloseSoc`. -/
def scCloseSoc : Kern Unit := do
  let idSocket ← readRegister 4
  if idSocket.toInt < 0 then setResult (-1)
  else do
    let k ← get
    if k.findIndexSocket idSocket ≠ -1 then do
      setSocket (k.findIndexSocket idSocket) (-1)
      let _ ← onHost fun h ↦ (h.record (.close idSocket)).close idSocket
      setResult 0
    else setResult (-1)

/-- Is `serverid` negative or not in the table? The test of `SC_Bind`, `SC_Listen`, `SC_Accept`. -/
def Kernel.notRegistered (k : Kernel) (serverid : Word) : Prop :=
  serverid.toInt < 0 ∨ k.findIndexSocket serverid = -1

instance (k : Kernel) (serverid : Word) : Decidable (k.notRegistered serverid) :=
  inferInstanceAs (Decidable (_ ∨ _))

/-- `SC_Bind`. -/
def scBind (env : Env) : Kern Unit := do
  let serverid ← readRegister 4
  let k ← get
  if k.notRegistered serverid then setResult (-1)
  else do
    let ret ← onHost fun h ↦ h.onStream serverid (.bind serverid) env.ret
    setResult (if ret.toInt < 0 then -1 else 0)

/-- `SC_Listen`. -/
def scListen (env : Env) : Kern Unit := do
  let serverid ← readRegister 4
  let k ← get
  if k.notRegistered serverid then setResult (-1)
  else do
    let count ← readRegister 5
    let ret ← onHost fun h ↦ h.onStream serverid (.listen serverid count) env.ret
    setResult (if ret.toInt < 0 then -1 else 0)

/-- `SC_Accept`. -/
def scAccept (env : Env) : Kern Unit := do
  let serverid ← readRegister 4
  let k ← get
  if k.notRegistered serverid then setResult (-1)
  else do
    let idclient ← onHost fun h ↦ h.accept serverid env.newFd
    setResult (if idclient.toInt < 0 then -1 else idclient)

/-! ## The other calls -/

/-- `SC_PrintString`: it measures the string and prints nothing. -/
def scPrintString (env : Env) : Kern Unit := do
  let virtAddr ← readRegister 4
  let buffer ← user2System env virtAddr 255
  deleteBlock buffer

/-- The host's `toupper` on a `char`. -/
def toupper (c : Byte) : Byte := if 97 ≤ c.toNat ∧ c.toNat ≤ 122 then c - 32 else c

/-- `SC_Toupper`. -/
def scToupper (env : Env) : Kern Unit := do
  let firstAdd ← readRegister 4
  let data ← user2System env firstAdd maxLengthData
  let bytes ← blockBytes data
  storeChars data 0 ((cString bytes).map toupper)
  let _ ← system2User firstAdd (BitVec.ofNat 32 (cString bytes).length) (loadChar data)
  setResult 0
  deleteBlock data

/-- `SC_Add`, through `SysAdd`. -/
def scAdd : Kern Unit := do
  let op1 ← readRegister 4
  let op2 ← readRegister 5
  setResult (op1 + op2)

/-! ## The handler -/

/-- The system calls the handler has a case for, `Halt` aside. -/
inductive Syscall where
  | create | remove | open_ | read | write | seek | close | socketTCP | connect | send | receive
  | closeSoc | bind | accept | listen | printString | toupper | add
  deriving DecidableEq, Repr

/-- The call codes of `syscall.h`. -/
def Syscall.code : Syscall → Word
  | .create => 4
  | .remove => 5
  | .open_ => 6
  | .read => 7
  | .write => 8
  | .seek => 9
  | .close => 10
  | .socketTCP => 16
  | .connect => 17
  | .send => 18
  | .receive => 19
  | .closeSoc => 20
  | .bind => 21
  | .accept => 22
  | .listen => 23
  | .printString => 24
  | .toupper => 25
  | .add => 42

/-- All of them, in the order of their codes. -/
def Syscall.all : List Syscall :=
  [.create, .remove, .open_, .read, .write, .seek, .close, .socketTCP, .connect, .send, .receive,
    .closeSoc, .bind, .accept, .listen, .printString, .toupper, .add]

/-- The inner `switch`: which case a call code selects. -/
def Syscall.ofCode (type : Word) : Option Syscall := Syscall.all.find? fun c ↦ c.code = type

/-- A case of the inner `switch`, without the advance of the program counters. -/
def Syscall.body (env : Env) : Syscall → Kern Unit
  | .create => scCreate env
  | .remove => scRemove env
  | .open_ => scOpen env
  | .read => scRead env
  | .write => scWrite env
  | .seek => scSeek
  | .close => scClose
  | .socketTCP => scSocketTCP env
  | .connect => scConnect env
  | .send => scSend env
  | .receive => scReceive env
  | .closeSoc => scCloseSoc
  | .bind => scBind env
  | .accept => scAccept env
  | .listen => scListen env
  | .printString => scPrintString env
  | .toupper => scToupper env
  | .add => scAdd

/-- A handled system call. -/
def Syscall.run (env : Env) (call : Syscall) : Kern Unit := do
  call.body env
  advancePC

/-- The case for a call code. -/
def syscallHandler (env : Env) (type : Word) : Kern Unit :=
  if type = 0 then throw .halted
  else
    match Syscall.ofCode type with
    | some call => call.run env
    | none => throw .assertFailed

/-- `ExceptionHandler`. -/
def exceptionHandler (env : Env) (which : ExceptionType) : Kern Unit := do
  let type ← readRegister 2
  if which = .syscallException then syscallHandler env type else throw .assertFailed

theorem Syscall.ofCode_code (call : Syscall) : Syscall.ofCode call.code = some call := by
  cases call <;> rfl

/-! ## One instruction with the kernel under it -/

/-- A user instruction in a system: a trap it raises is handled, and the instruction ends there. -/
def Kernel.oneInstruction (k : Kernel) (env : Env) : EStateM.Result Fault Kernel Unit :=
  match Nachos.oneInstruction k.machine with
  | .ok _ m => .ok () { k with machine := m }
  | .error (.trap which) m => exceptionHandler env which { k with machine := m }
  | .error (.fault f) m => .error f { k with machine := m }

/-- A system call arriving in the kernel: the machine at the trap, and what the host will do. -/
structure Trap where
  machine : Machine
  env : Env

/-- A trap with its call. -/
structure CallTrap extends Trap where
  call : Syscall
  code : machine.registers 2 = call.code

/-- The kernel takes a system call. -/
def Kernel.handle (k : Kernel) (t : Trap) : EStateM.Result Fault Kernel Unit :=
  exceptionHandler t.env .syscallException { k with machine := t.machine }

/-- The kernel after a system call, if it returns. -/
def Kernel.trap (k : Kernel) (t : Trap) : Option Kernel :=
  match k.handle t with
  | .ok _ k' => some k'
  | .error _ _ => none

end Nachos
