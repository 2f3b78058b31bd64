import Nachos.Program.Run
import Nachos.Userprog.FileCalls

/-!
# The offset of an open file

`OpenFile::Read` adds what `ReadPartial` returns to `currentOffset`, also when that is the error
code. After a read that fails at the start of the file the offset is `-1`, and the next `Read` or
`Write` aborts in `Lseek`. As long as no read fails the offset stays a position that `lseek` takes:
reads end at the end of the file and writes below the largest offset.
-/

namespace Nachos

open Program

/-- A call of `OpenFile::Read`, `OpenFile::Write` or `OpenFile::Seek`. -/
inductive StubOp where
  | read (numBytes : Word)
  | write (numBytes : Word)
  | seek (pos : Word)
  deriving DecidableEq, Repr

/-- A call with the block its buffer points to, which is smaller than the address space of the
32-bit build, and with what the host will do. -/
structure StubCall where
  op : StubOp
  env : Env
  buffer : Ptr
  block : List Byte
  small : block.length < offsetLimit

/-- Where the call first moves the host's position to. -/
def StubOp.target (file : OpenFile) : StubOp → Word
  | .read _ | .write _ => file.currentOffset
  | .seek pos => pos

/-- The call on the file in slot `id`. -/
def StubCall.run (c : StubCall) (id : Word) (file : OpenFile) : Kern Unit :=
  match c.op with
  | .read numBytes => do
    let _ ← readFile c.env id file c.buffer numBytes
    return
  | .write numBytes => do
    let _ ← writeOpenFile c.env id file c.buffer numBytes
    return
  | .seek pos => seekFile id file pos

/-- The kernel with the caller's buffer. -/
def StubCall.start (c : StubCall) (k : Kernel) : Kernel :=
  { k with heap := k.heap.new c.buffer c.block }

/-- The kernel after a call on slot `id`, if it returns. -/
def Kernel.fileStep (id : Word) (k : Kernel) (c : StubCall) : Option Kernel :=
  match k.openfile id.toNat with
  | none => none
  | some file =>
    match c.run id file (c.start k) with
    | .ok _ k' => some k'
    | .error _ _ => none

/-- A read that fails leaves the offset; the offset is not negative afterwards; and the assertion of
`Lseek` fails for nothing but a `Seek` to a negative position. -/
structure Kernel.OffsetSafe (id : Word) (k : Kernel) (c : StubCall) : Prop where
  failed : ∀ n file, c.op = .read n → c.env.readFails = true →
    k.openfile id.toNat = some file → ∃ k' file', k.fileStep id c = some k' ∧
      k'.openfile id.toNat = some file' ∧ file'.currentOffset = file.currentOffset
  nonneg : ∀ k' file', k.fileStep id c = some k' → k'.openfile id.toNat = some file' →
    0 ≤ file'.currentOffset.toInt
  lseek : ∀ file, k.openfile id.toNat = some file →
    (∀ pos, c.op = .seek pos → 0 ≤ pos.toInt) →
    ∃ k', lseek file.file (c.op.target file) 0 (c.start k) = .ok () k'

/-- The condition on a call. -/
def StubCall.ReadSucceeds (c : StubCall) : Prop := ∀ n, c.op = .read n → c.env.readFails = false

/-- Slot `id` is open on a regular file, at an offset that is not negative. -/
structure Kernel.Placed (id : Word) (k : Kernel) (file : OpenFile) (ino pos : ℕ) : Prop where
  slot : k.openfile id.toNat = some file
  fd : k.host.fds file.file = some (.file ino pos)
  length : (k.host.content ino).length < offsetLimit
  offset : 0 ≤ file.currentOffset.toInt

private theorem add_toInt_nonneg {v w : Word} (h : v.toNat + w.toNat < offsetLimit) :
    0 ≤ (v + w).toInt := by
  simp only [offsetLimit] at h
  have hnat : (v + w).toNat = v.toNat + w.toNat := by
    rw [BitVec.toNat_add, Nat.mod_eq_of_lt (by omega)]
  rw [toInt_eq_toNat (by rw [hnat]; exact h)]
  omega

section step

variable {id : Word} (hid : id.toNat < maxFile) {k : Kernel} {file : OpenFile} {ino pos : ℕ}
  (h : k.Placed id file ino pos) {c : StubCall}

include h

theorem Kernel.Placed.offset_lt : file.currentOffset.toNat < offsetLimit :=
  toNat_lt_of_nonneg h.offset

theorem Kernel.Placed.fileStep_eq_some {k' : Kernel} :
    k.fileStep id c = some k' ↔ c.run id file (c.start k) = .ok () k' := by
  rw [Kernel.fileStep, h.slot]
  simp only
  cases c.run id file (c.start k) with
  | ok u k₁ => simp
  | error e k₁ => simp

theorem Kernel.Placed.fd_start : (c.start k).host.fds file.file = some (.file ino pos) := h.fd

include hid

/-- A read that does not fail ends inside the file or where it started. -/
theorem Kernel.Placed.read {n : Word} (hop : c.op = .read n) (hok : c.env.readFails = false)
    {k' : Kernel} (hstep : k.fileStep id c = some k') :
    ∃ file' pos', k'.Placed id file' ino pos' := by
  rw [h.fileStep_eq_some, StubCall.run, hop] at hstep
  obtain ⟨v, k₁, hread, hret⟩ := bind_eq_ok.mp hstep
  cases hret
  have hroom := room_of_readFile h.fd_start h.offset_lt hok hread
  rw [readFile_eq h.fd_start hid h.offset_lt hok hroom] at hread
  cases hread
  refine ⟨_, _, Function.update_self .., Kernel.atPos_fds_self _ _ _ _, h.length, ?_⟩
  have hlen : ((c.start k).bytesAt file ino n.toNat).length
      ≤ (k.host.content ino).length - file.currentOffset.toNat := by
    rw [Kernel.bytesAt, List.length_take, List.length_drop]
    exact Nat.min_le_right _ _
  have hoff := h.offset_lt
  have hlength := h.length
  simp only [offsetLimit] at hoff hlength
  refine add_toInt_nonneg ?_
  rw [toNat_ofNat_of_lt (by omega)]
  simp only [offsetLimit]
  omega

/-- A write that returns ends below the largest offset. -/
theorem Kernel.Placed.write {n : Word} (hop : c.op = .write n) {k' : Kernel}
    (hstep : k.fileStep id c = some k') : ∃ file' pos', k'.Placed id file' ino pos' := by
  rw [h.fileStep_eq_some, StubCall.run, hop] at hstep
  obtain ⟨v, k₁, hwrite, hret⟩ := bind_eq_ok.mp hstep
  cases hret
  have hblock : (c.start k).heap.bytes c.buffer = c.block := Function.update_self ..
  obtain ⟨hbuf, hok, hroom⟩ := writeOpenFile_eq_ok h.fd_start (by rw [hblock]; exact c.small) hwrite
  rw [writeOpenFile_eq h.fd_start hid hok hbuf hroom] at hwrite
  cases hwrite
  refine ⟨_, _, Function.update_self .., Function.update_self .., ?_, add_toInt_nonneg hroom⟩
  have hlength := h.length
  have hcontent : ∀ data, ((c.start k).hostWritten file ino data).content ino
      = splice (k.host.content ino) file.currentOffset.toNat data :=
    fun data ↦ Function.update_self ..
  rw [hcontent, length_splice, List.length_take, Nat.min_eq_left hbuf]
  split <;> omega

/-- A `Seek` that returns went to a position that is not negative. -/
theorem Kernel.Placed.seek {target : Word} (hop : c.op = .seek target) {k' : Kernel}
    (hstep : k.fileStep id c = some k') : ∃ file' pos', k'.Placed id file' ino pos' := by
  rw [h.fileStep_eq_some, StubCall.run, hop] at hstep
  have htarget : 0 ≤ target.toInt := by
    by_contra hneg
    simp only at hstep
    rw [seekFile, bind_of_error (lseek_start_negative h.fd_start (Int.not_le.mp hneg))] at hstep
    cases hstep
  simp only at hstep
  rw [seekFile_eq h.fd_start hid (toNat_lt_of_nonneg htarget)] at hstep
  cases hstep
  exact ⟨_, _, Function.update_self .., Kernel.atPos_fds_self _ _ _ _, h.length, htarget⟩

/-- A call in which no read fails keeps the file placed. -/
theorem Kernel.Placed.step (hok : c.ReadSucceeds) {k' : Kernel}
    (hstep : k.fileStep id c = some k') : ∃ file' pos', k'.Placed id file' ino pos' := by
  cases hop : c.op with
  | read n => exact h.read hid hop (hok n hop) hstep
  | write n => exact h.write hid hop hstep
  | seek target => exact h.seek hid hop hstep

/-- In a placed file the property of a call is the condition on it. -/
theorem Kernel.Placed.offsetSafe_iff : k.OffsetSafe id c ↔ c.ReadSucceeds := by
  constructor
  · intro hsafe n hop
    by_contra hfail
    -- the error code is added to the offset
    rw [Bool.not_eq_false] at hfail
    obtain ⟨k', file', hstep, hslot, hoffset⟩ := hsafe.failed n file hop hfail h.slot
    rw [h.fileStep_eq_some, StubCall.run, hop] at hstep
    obtain ⟨v, k₁, hread, hret⟩ := bind_eq_ok.mp hstep
    cases hret
    rw [readFile_of_failure h.fd_start hid h.offset_lt hfail] at hread
    cases hread
    have hentry : some file' = some { file with currentOffset := file.currentOffset + -1 } :=
      hslot.symm.trans (Function.update_self ..)
    cases hentry
    simp at hoffset
  · intro hok
    refine ⟨fun n file hop hfail _ ↦ ?_, fun k' file' hstep hslot ↦ ?_, fun file' hslot hseek ↦ ?_⟩
    · rw [hok n hop] at hfail
      cases hfail
    · obtain ⟨file'', pos', hplaced⟩ := h.step hid hok hstep
      rw [hplaced.slot] at hslot
      cases hslot
      exact hplaced.offset
    · rw [h.slot] at hslot
      cases hslot
      have htarget : 0 ≤ (c.op.target file).toInt := by
        cases hop : c.op with
        | read n | write n => exact h.offset
        | seek target => exact hseek target hop
      exact ⟨_, lseek_start_eq h.fd_start (toNat_lt_of_nonneg htarget)⟩

end step

/-- **The offset is safe exactly when** no read fails: for every file just opened and every sequence
of calls, along the run. -/
theorem offsetSafe_along_iff {id : Word} (hid : id.toNat < maxFile) {k : Kernel} {file : OpenFile}
    {ino pos : ℕ} (hslot : k.openfile id.toNat = some file) (hnew : file.currentOffset = 0)
    (hfd : k.host.fds file.file = some (.file ino pos))
    (hlength : (k.host.content ino).length < offsetLimit) (calls : List StubCall) :
    Along (Kernel.fileStep id) (Kernel.OffsetSafe id) k calls ↔
      Along (Kernel.fileStep id) (fun _ c ↦ c.ReadSucceeds) k calls := by
  refine along_iff (fun k ↦ ∃ file ino pos, k.Placed id file ino pos) ?_ ?_
    ⟨file, ino, pos, hslot, hfd, hlength, by rw [hnew]; decide⟩
  · rintro k c ⟨file, ino, pos, h⟩
    exact h.offsetSafe_iff hid
  · rintro k c k' ⟨file, ino, pos, h⟩ hok hstep
    obtain ⟨file', pos', h'⟩ := h.step hid hok hstep
    exact ⟨file', ino, pos', h'⟩

/-- Descriptor 2 just opened on a file of two bytes. -/
def offsetKernel : Kernel :=
  { Kernel.initial (callMachine 0 0) ⟨fun _ ↦ [], []⟩
      { Host.oneFile with fds := fun fd ↦ if fd = 3 then some (.file 0 0) else none } [] with
    openfile := fun i ↦ if i = 2 then some ⟨3, 0, 1, 3, 0⟩ else none }

/-- `Read` of one byte. -/
def readOne (fails : Bool) : StubCall :=
  ⟨.read 1, { Env.quiet with readFails := fails }, 2, [0], by decide⟩

private theorem offsetKernel_placed : offsetKernel.Placed 2 ⟨3, 0, 1, 3, 0⟩ 0 0 :=
  ⟨rfl, rfl, by decide, by decide⟩

/-- The first read fails, and moves the offset from 0 to `-1`. -/
theorem failedRead_not_offsetSafe :
    ¬∀ (id : Word) (k : Kernel) (file : OpenFile) (ino pos : ℕ) (calls : List StubCall),
      id.toNat < maxFile → k.openfile id.toNat = some file → file.currentOffset = 0 →
      k.host.fds file.file = some (.file ino pos) → (k.host.content ino).length < offsetLimit →
      Along (Kernel.fileStep id) (Kernel.OffsetSafe id) k calls := by
  intro h
  have hsafe := (h 2 offsetKernel ⟨3, 0, 1, 3, 0⟩ 0 0 [readOne true, readOne false] (by decide) rfl
    rfl rfl (by decide)).1
  have hok := (offsetKernel_placed.offsetSafe_iff (by decide)).mp hsafe 1 rfl
  exact absurd hok (by decide)

/-- Two reads that do not fail. -/
theorem twoReads_offsetSafe :
    Along (Kernel.fileStep 2) (Kernel.OffsetSafe 2) offsetKernel
      [readOne false, readOne false] := by
  have hok : (readOne false).ReadSucceeds := fun _ _ ↦ rfl
  exact (offsetSafe_along_iff (by decide) rfl rfl rfl (by decide) _).mpr
    ⟨hok, fun _ _ ↦ ⟨hok, fun _ _ ↦ trivial⟩⟩

end Nachos
