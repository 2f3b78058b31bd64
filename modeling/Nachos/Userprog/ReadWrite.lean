import Nachos.Userprog.FileCalls

/-!
# `Read`, `Write` and `Seek` on an open file

Both transfers have the same shape: fetch a string from the user program into a buffer, move bytes
between the buffer and the file, and copy the buffer back. What happens to the table and to the
host is settled before the last of these, which can only fail; `Kernel.Moved` is the state at that
moment.
-/

namespace Nachos

open Program

/-! ## The common frame -/

/-- The part that `Read` and `Write` share: `branches` is what comes between the allocation and the
release of the buffer. -/
def withBuffer (env : Env) (size : Word) (branches : Ptr → Kern Ptr) : Kern Unit := do
  let buf ← newChars env.buf size env.junk
  let buf ← branches buf
  deleteBlock buf

/-- The kernel with the buffer that `Read` and `Write` allocate first. -/
def Kernel.buffered (k : Kernel) (env : Env) (size : Word) : Kernel :=
  { k with heap := k.heap.new env.buf ((List.range size.toNat).map env.junk) }

theorem newChars_of_nonneg {env : Env} {size : Word} (hsize : 0 ≤ size.toInt) (k : Kernel) :
    newChars env.buf size env.junk k = .ok env.buf (k.buffered env size) := by
  rw [newChars, if_neg (Int.not_lt.mpr hsize)]
  rfl

/-- A negative size cannot be allocated. -/
theorem size_nonneg_of_withBuffer {env : Env} {size : Word} {branches : Ptr → Kern Ptr}
    {k k' : Kernel} {u : Unit} (h : withBuffer env size branches k = .ok u k') :
    0 ≤ size.toInt := by
  by_contra hneg
  rw [withBuffer, newChars, if_pos (Int.not_le.mp hneg)] at h
  cases h

/-- `Read` after its arguments are fetched. -/
theorem scRead_eq (env : Env) (k : Kernel) :
    scRead env k = withBuffer env (k.machine.registers 5)
      (readBranches env (k.machine.registers 4) (k.machine.registers 5) (k.machine.registers 6))
      k := by
  rw [scRead, bind_of_ok (readRegister_of_lt (by decide) k),
    bind_of_ok (readRegister_of_lt (by decide) k), bind_of_ok (readRegister_of_lt (by decide) k)]
  rfl

/-- `Write` after its arguments are fetched. -/
theorem scWrite_eq (env : Env) (k : Kernel) :
    scWrite env k = withBuffer env (k.machine.registers 5)
      (writeBranches env (k.machine.registers 4) (k.machine.registers 5) (k.machine.registers 6))
      k := by
  rw [scWrite, bind_of_ok (readRegister_of_lt (by decide) k),
    bind_of_ok (readRegister_of_lt (by decide) k), bind_of_ok (readRegister_of_lt (by decide) k)]
  rfl

/-- `Seek` after its arguments are fetched. -/
theorem scSeek_eq (k : Kernel) :
    scSeek k = (if (k.machine.registers 5).toInt < 2 ∨ 20 < (k.machine.registers 5).toInt then
        setResult (-1)
      else do
        let slot ← openfileAt (k.machine.registers 5)
        match slot with
        | none => setResult (-1)
        | some f => seekOpen f (k.machine.registers 4) (k.machine.registers 5)) k := by
  rw [scSeek, bind_of_ok (readRegister_of_lt (by decide) k)]
  exact bind_of_ok (readRegister_of_lt (by decide) k)

/-- The end of a transfer: the buffer is copied back to the user program. -/
def copyOut (virtAddr result : Word) (p : Ptr) : Kern Ptr := do
  let _ ← system2User virtAddr result (loadChar p)
  return p

/-- `k` with the bytes moved and the result set, but nothing copied back yet. The buffer is at
`p`. -/
structure Kernel.Moved (k k₁ : Kernel) (openfile : ℕ → Option OpenFile) (host : Host)
    (result : Word) (p : Ptr) (size : ℕ) : Prop where
  openfile : k₁.openfile = openfile
  host : k₁.host = host
  result : k₁.machine.registers 2 = result
  buffer : size ≤ (k₁.heap.bytes p).length
  writable : ∀ addr n, k.machine.Writable addr n → k₁.machine.Writable addr n

/-- What the user program can see of a transfer, apart from its memory. -/
def Kernel.fileView (k : Kernel) : (ℕ → Option OpenFile) × Host × Word :=
  (k.openfile, k.host, k.machine.registers 2)

theorem keeps_copyOut (virtAddr result : Word) (p : Ptr) :
    Keeps Kernel.fileView (copyOut virtAddr result p) :=
  (keeps_system2User (fun _ _ _ _ _ _ _ _ ↦ rfl) (fun _ _ _ ↦ rfl) (fun _ ↦ keeps_loadChar _ _)
    _ _).bind fun _ ↦ Keeps.pure _

section moved

variable {k k₁ : Kernel} {openfile : ℕ → Option OpenFile} {host : Host} {result : Word} {p : Ptr}
  {size : ℕ} (hmoved : k.Moved k₁ openfile host result p size)

include hmoved

/-- Copying back and releasing the buffer leaves the table, the host and the result. -/
theorem Kernel.Moved.of_ok {virtAddr : Word} {k' : Kernel} {u : Unit}
    (h : (copyOut virtAddr result p >>= deleteBlock) k₁ = .ok u k') :
    k'.openfile = openfile ∧ k'.host = host ∧ k'.machine.registers 2 = result := by
  have hview := ((keeps_copyOut virtAddr result p).bind
    fun _ ↦ keeps_deleteBlock (fun _ _ ↦ rfl) _) k₁ u k' h
  simp only [Kernel.fileView, Prod.mk.injEq] at hview
  obtain ⟨hopenfile, hhost, hresult⟩ := hview
  exact ⟨hopenfile.trans hmoved.openfile, hhost.trans hmoved.host, hresult.trans hmoved.result⟩

/-- It succeeds if the user program may write where it asked for the bytes. -/
theorem Kernel.Moved.returns {virtAddr : Word} (hsize : 0 ≤ result.toInt → result.toNat ≤ size)
    (hwritable : k.machine.Writable virtAddr size) :
    ∃ k', (copyOut virtAddr result p >>= deleteBlock) k₁ = .ok () k' := by
  have hcopy : ∃ v k₂, system2User virtAddr result (loadChar p) k₁ = .ok v k₂ :=
    system2User_returns (fun h ↦ Nat.le_trans (hsize h) hmoved.buffer)
      fun h i hi ↦ hmoved.writable _ _ hwritable i (Nat.lt_of_lt_of_le hi (hsize h))
  obtain ⟨v, k₂, hrun⟩ := hcopy
  have hout : copyOut virtAddr result p k₁ = .ok p k₂ := by
    rw [copyOut, bind_of_ok hrun]
    rfl
  exact ⟨_, bind_of_ok hout⟩

end moved

/-! ## A transfer -/

/-- Fetch from the user program, move the bytes, copy back. -/
def transfer (env : Env) (virtAddr size : Word) (move : Ptr → Kern Word) : Kern Ptr := do
  let buf ← user2System env virtAddr size
  let result ← move buf
  setResult result
  copyOut virtAddr result buf

/-- The bytes `User2System` hands on when `n` are asked for. -/
def fetchedBytes (s : List Byte) (n : ℕ) : List Byte := (stringBlock s n).take n

theorem length_fetchedBytes {m : Machine} {addr : Word} {n : ℕ} {s : List Byte}
    (h : m.stringAt addr n = some s) : (fetchedBytes s n).length = n := by
  rw [fetchedBytes, List.length_take, length_stringBlock (stringAt_length h)]
  omega

section transfer

variable {env : Env} {k : Kernel} {virtAddr size : Word} {branches : Ptr → Kern Ptr}
  {move : Ptr → Kern Word}
  (hbranches : ∀ buf k₁, k₁.openfile = k.openfile →
    branches buf k₁ = transfer env virtAddr size move k₁)

include hbranches

/-- A transfer that returns has fetched its string. -/
theorem fetched_of_withBuffer {k' : Kernel} {u : Unit}
    (h : withBuffer env size branches k = .ok u k') :
    0 ≤ size.toInt ∧ size.toNat + 1 < 2 ^ 31 ∧
      ∃ s, k.machine.stringAt virtAddr size.toNat = some s := by
  have hsize := size_nonneg_of_withBuffer h
  rw [withBuffer, bind_of_ok (newChars_of_nonneg hsize k)] at h
  obtain ⟨_, _, hmoved, -⟩ := bind_eq_ok.mp h
  rw [hbranches env.buf (k.buffered env size) rfl] at hmoved
  obtain ⟨p, k₂, hfetch, -⟩ := bind_eq_ok.mp hmoved
  obtain ⟨hlimit, s, -, hs, -⟩ := user2System_eq_ok hsize hfetch
  exact ⟨hsize, hlimit, s, hs⟩

/-- A transfer whose string is fetched comes to the copying back, with bytes in the buffer for which
`P` holds. -/
theorem withBuffer_transfer_eq {s : List Byte} {openfile : ℕ → Option OpenFile} {host : Host}
    {out : List Byte} {result : Word} {P : List Byte → Prop} (hsize : 0 ≤ size.toInt)
    (hlimit : size.toNat + 1 < 2 ^ 31) (hs : k.machine.stringAt virtAddr size.toNat = some s)
    (hmove : ∀ m heap, heap.bytes env.kernelBuf = stringBlock s size.toNat →
      ∃ heap' : Heap, P (heap'.bytes env.kernelBuf) ∧
        move env.kernelBuf { k with machine := m, heap := heap } = .ok result
          { k with
            machine := m, heap := heap', openfile := openfile, host := host, consoleOut := out }) :
    ∃ (m : Machine) (heap' : Heap), k.machine.Alike m ∧ P (heap'.bytes env.kernelBuf) ∧
      withBuffer env size branches k
        = (copyOut virtAddr result env.kernelBuf >>= deleteBlock) { k with
          machine := m.setReg 2 result, heap := heap', openfile := openfile, host := host,
          consoleOut := out } := by
  obtain ⟨m, halike, hfetch⟩ := user2System_eq env (k := k.buffered env size) hlimit hs
  obtain ⟨heap', hbuffer, hrun⟩ := hmove m ((k.buffered env size).heap.new env.kernelBuf
    (stringBlock s size.toNat)) (Function.update_self _ _ _)
  refine ⟨m, heap', halike, hbuffer, ?_⟩
  rw [withBuffer, bind_of_ok (newChars_of_nonneg hsize k)]
  refine bind_congr ((hbranches env.buf (k.buffered env size) rfl).trans ?_) deleteBlock
  rw [transfer, bind_of_ok hfetch]
  exact (bind_of_ok hrun).trans (bind_of_ok (setResult_eq _ _))

/-- A transfer whose string is fetched is settled but for the copying back. -/
private theorem withBuffer_transfer {s : List Byte} {openfile : ℕ → Option OpenFile} {host : Host}
    {result : Word} (hsize : 0 ≤ size.toInt) (hlimit : size.toNat + 1 < 2 ^ 31)
    (hs : k.machine.stringAt virtAddr size.toNat = some s)
    (hmove : ∀ m heap, heap.bytes env.kernelBuf = stringBlock s size.toNat →
      ∃ heap' : Heap, size.toNat ≤ (heap'.bytes env.kernelBuf).length ∧
        move env.kernelBuf { k with machine := m, heap := heap } = .ok result
          { k with machine := m, heap := heap', openfile := openfile, host := host }) :
    ∃ k₁, withBuffer env size branches k
        = (copyOut virtAddr result env.kernelBuf >>= deleteBlock) k₁ ∧
      k.Moved k₁ openfile host result env.kernelBuf size.toNat := by
  obtain ⟨m, heap', halike, hbuffer, hrun⟩ :=
    withBuffer_transfer_eq (P := fun b ↦ size.toNat ≤ b.length) hbranches hsize hlimit hs hmove
  refine ⟨_, hrun, rfl, rfl, Machine.setReg_registers_self _ _ _, hbuffer, ?_⟩
  intro addr n hwritable i hi
  have hphysical : (m.physical (addr + BitVec.ofNat 32 i) 1 true).isSome = true := by
    rw [halike.physical]
    exact hwritable i hi
  exact hphysical

end transfer

/-! ## Read and Write on an open slot -/

/-- The number of bytes a `Read` of `n` delivers. -/
theorem length_bytesAt (k : Kernel) (file : OpenFile) (ino n : ℕ) :
    (k.bytesAt file ino n).length
      = min n ((k.host.content ino).length - file.currentOffset.toNat) := by
  rw [Kernel.bytesAt, List.length_take, List.length_drop]

section open_

variable {env : Env} {k : Kernel} {id : Word} {file : OpenFile} {ino pos : ℕ}
  (htwo : 2 ≤ id.toNat) (hid : id.toNat < maxFile) (hslot : k.openfile id.toNat = some file)

include htwo hid

theorem slot_inRange : ¬(id.toInt < 0 ∨ 20 < id.toInt) ∧ ¬id.toInt < 2 ∧ id ≠ 0 ∧ id ≠ 1 := by
  simp only [maxFile] at hid
  have hint : id.toInt = id.toNat := toInt_eq_toNat (by simp only [offsetLimit]; omega)
  refine ⟨by omega, by omega, ?_, ?_⟩
  · rintro rfl
    exact absurd htwo (by decide)
  · rintro rfl
    exact absurd htwo (by decide)

theorem readBranches_transfer (virtAddr size : Word) (buf : Ptr) (k₁ : Kernel) :
    readBranches env virtAddr size id buf k₁
      = transfer env virtAddr size (fun p ↦ sysRead env p size id) k₁ := by
  obtain ⟨hrange, -, hzero, -⟩ := slot_inRange htwo hid
  rw [readBranches, if_neg hrange, if_neg hzero]
  rfl

include hslot

private theorem sysRead_of_slot (p : Ptr) (size : Word) :
    sysRead env p size id k = readFile env id file p size k := by
  obtain ⟨-, -, hzero, -⟩ := slot_inRange htwo hid
  rw [sysRead, if_neg hzero, bind_of_ok (openfileAt_of_lt hid k), hslot]
  rfl

theorem sysWrite_of_slot (p : Ptr) (size : Word) :
    sysWrite env p size id k = writeOpenFile env id file p size k := by
  obtain ⟨-, -, -, hone⟩ := slot_inRange htwo hid
  rw [sysWrite, if_neg hone, bind_of_ok (openfileAt_of_lt hid k), hslot]
  rfl

theorem scSeek_of_slot (hreg : k.machine.registers 5 = id) :
    scSeek k = seekOpen file (k.machine.registers 4) id k := by
  obtain ⟨hrange, htwo', -⟩ := slot_inRange htwo hid
  rw [scSeek_eq, hreg, if_neg (not_or.mpr ⟨htwo', (not_or.mp hrange).2⟩),
    bind_of_ok (openfileAt_of_lt hid k), hslot]

theorem writeBranches_transfer (hmode : file.type ≠ 1) (virtAddr size : Word) (buf : Ptr) :
    writeBranches env virtAddr size id buf k
      = transfer env virtAddr size (fun p ↦ sysWrite env p size id) k := by
  obtain ⟨hrange, -, -, hone⟩ := slot_inRange htwo hid
  rw [writeBranches, if_neg hrange, if_neg hone, bind_of_ok (openfileAt_of_lt hid k), hslot]
  simp only [deref]
  rw [bind_of_ok (show (Pure.pure file : Kern OpenFile) k = .ok file k from rfl), if_neg hmode]
  rfl

/-- A file opened for reading only is not written. -/
theorem writeBranches_readOnly (hmode : file.type = 1) (virtAddr size : Word) (buf : Ptr) :
    writeBranches env virtAddr size id buf k
      = .ok buf { k with machine := k.machine.setReg 2 (-1) } := by
  obtain ⟨hrange, -, -, hone⟩ := slot_inRange htwo hid
  rw [writeBranches, if_neg hrange, if_neg hone, bind_of_ok (openfileAt_of_lt hid k), hslot]
  simp only [deref]
  rw [bind_of_ok (show (Pure.pure file : Kern OpenFile) k = .ok file k from rfl), if_pos hmode,
    bind_of_ok (setResult_eq _ k)]
  rfl

variable (hfd : k.host.fds file.file = some (.file ino pos))

include hfd

/-- The part of `Read` between the fetching and the copying back. -/
theorem sysRead_moves {size : Word} {s : List Byte} (hlen : s.length ≤ size.toNat)
    (hoff : file.currentOffset.toNat < offsetLimit) (hok : env.readFails = false) (m : Machine)
    (heap : Heap) (hheap : heap.bytes env.kernelBuf = stringBlock s size.toNat) :
    ∃ heap' : Heap, heap'.bytes env.kernelBuf
        = splice (stringBlock s size.toNat) 0 (k.bytesAt file ino size.toNat) ∧
      sysRead env env.kernelBuf size id { k with machine := m, heap := heap }
        = .ok (BitVec.ofNat 32 (k.bytesAt file ino size.toNat).length) { k with
          machine := m
          heap := heap'
          openfile := k.advanced id.toNat file
            (BitVec.ofNat 32 (k.bytesAt file ino size.toNat).length)
          host := (k.atPos file.file ino
            (file.currentOffset.toNat + (k.bytesAt file ino size.toNat).length)).host } := by
  have hbuf : (k.bytesAt file ino size.toNat).length ≤ (heap.bytes env.kernelBuf).length := by
    rw [hheap, length_stringBlock hlen, length_bytesAt]
    omega
  refine ⟨_, ?_, (sysRead_of_slot htwo hid (k := { k with machine := m, heap := heap }) hslot _
    _).trans (readFile_eq (k := { k with machine := m, heap := heap }) hfd
      hid hoff hok hbuf)⟩
  simp only [Heap.set_bytes_self, hheap]
  rfl

/-- **`Read` of an open file**, once the string at the buffer is fetched. -/
theorem readTransfer {virtAddr size : Word} {s : List Byte} (hsize : 0 ≤ size.toInt)
    (hlimit : size.toNat + 1 < 2 ^ 31) (hs : k.machine.stringAt virtAddr size.toNat = some s)
    (hoff : file.currentOffset.toNat < offsetLimit) (hok : env.readFails = false) :
    ∃ k₁, withBuffer env size (readBranches env virtAddr size id) k
        = (copyOut virtAddr (BitVec.ofNat 32 (k.bytesAt file ino size.toNat).length)
          env.kernelBuf >>= deleteBlock) k₁ ∧
      k.Moved k₁
        (k.advanced id.toNat file (BitVec.ofNat 32 (k.bytesAt file ino size.toNat).length))
        (k.atPos file.file ino
          (file.currentOffset.toNat + (k.bytesAt file ino size.toNat).length)).host
        (BitVec.ofNat 32 (k.bytesAt file ino size.toNat).length) env.kernelBuf size.toNat := by
  refine withBuffer_transfer (fun buf k₁ _ ↦ readBranches_transfer htwo hid virtAddr size buf k₁)
    hsize hlimit hs fun m heap hheap ↦ ?_
  obtain ⟨heap', hbytes, hrun⟩ :=
    sysRead_moves htwo hid hslot hfd (stringAt_length hs) hoff hok m heap hheap
  refine ⟨heap', ?_, hrun⟩
  rw [hbytes, length_splice, length_stringBlock (stringAt_length hs)]
  split <;> omega

/-- A `Write` that returns found room below the largest offset. -/
theorem room_of_write (hmode : file.type ≠ 1) {virtAddr size : Word} {k' : Kernel} {u : Unit}
    (h : withBuffer env size (writeBranches env virtAddr size id) k = .ok u k') :
    file.currentOffset.toNat + size.toNat < offsetLimit := by
  by_contra hroom
  have hbranches : ∀ buf k₁, k₁.openfile = k.openfile →
      writeBranches env virtAddr size id buf k₁
        = transfer env virtAddr size (fun p ↦ sysWrite env p size id) k₁ :=
    fun buf k₁ h ↦ writeBranches_transfer htwo hid (h ▸ hslot) hmode virtAddr size buf
  obtain ⟨hsize, -⟩ := fetched_of_withBuffer hbranches h
  rw [withBuffer, bind_of_ok (newChars_of_nonneg hsize k)] at h
  obtain ⟨_, _, htransfer, -⟩ := bind_eq_ok.mp h
  rw [hbranches env.buf (k.buffered env size) rfl] at htransfer
  obtain ⟨p, k₁, hfetch, htransfer⟩ := bind_eq_ok.mp htransfer
  obtain ⟨v, k₂, hwrite, -⟩ := bind_eq_ok.mp htransfer
  obtain ⟨-, s, m, -, -, -, rfl⟩ := user2System_eq_ok hsize hfetch
  have hwrite' := (sysWrite_of_slot htwo hid
    (k := (k.buffered env size).withString m env.kernelBuf s size.toNat) hslot p size).symm.trans
      hwrite
  exact writeOpenFile_no_room (k := (k.buffered env size).withString m env.kernelBuf s size.toNat)
    hfd hsize hroom hwrite'

/-- **`Write` to an open file**, once the bytes are fetched. -/
theorem writeTransfer (hmode : file.type ≠ 1) {virtAddr size : Word} {s : List Byte}
    (hsize : 0 ≤ size.toInt) (hlimit : size.toNat + 1 < 2 ^ 31)
    (hs : k.machine.stringAt virtAddr size.toNat = some s)
    (hroom : file.currentOffset.toNat + size.toNat < offsetLimit)
    (hok : env.writeFails = false) :
    ∃ k₁, withBuffer env size (writeBranches env virtAddr size id) k
        = (copyOut virtAddr size env.kernelBuf >>= deleteBlock) k₁ ∧
      k.Moved k₁ (k.advanced id.toNat file size)
        (k.hostWritten file ino (fetchedBytes s size.toNat)) size env.kernelBuf size.toNat := by
  refine withBuffer_transfer (fun buf k₁ h ↦ writeBranches_transfer htwo hid (h ▸ hslot) hmode
    virtAddr size buf) hsize hlimit hs fun m heap hheap ↦ ?_
  have hbuf : size.toNat ≤ (heap.bytes env.kernelBuf).length := by
    rw [hheap, length_stringBlock (stringAt_length hs)]
    omega
  refine ⟨heap, hbuf, ?_⟩
  rw [sysWrite_of_slot htwo hid (k := { k with machine := m, heap := heap }) hslot,
    writeOpenFile_eq (k := { k with machine := m, heap := heap }) hfd hid hok hbuf hroom]
  simp only [hheap]
  rfl

end open_

end Nachos
