import Nachos.Userprog.ReadBytes

/-!
# The bytes a `Write` takes

`User2System` is made for strings: it stops at a zero and leaves zeros in the rest of its buffer.
`Write` hands over as many bytes as it was asked for, so behind a zero the console or the file gets
zeros, whatever the user program has there. Copying the buffer back does no harm: `System2User`
stops at the same zero, and what it has copied by then is what was there.
-/

namespace Nachos

open Program

/-! ## Bytes in user memory -/

/-- The `n` bytes from `addr` on. -/
def Machine.bytesFrom (m : Machine) : Word → ℕ → List Byte
  | _, 0 => []
  | addr, n + 1 => (m.byteAt addr).getD 0 :: m.bytesFrom (addr + 1) n

/-- The `n` bytes from `addr` on can be read. -/
def Machine.Readable (m : Machine) (addr : Word) (n : ℕ) : Prop :=
  ∀ i < n, (m.byteAt (addr + BitVec.ofNat 32 i)).isSome = true

private theorem cString_cons_zero (rest : List Byte) : cString (0 :: rest) = [] := by
  rw [cString, List.takeWhile_cons_of_neg (by decide)]

private theorem cString_cons_of_ne {c : Byte} (hc : c ≠ 0) (rest : List Byte) :
    cString (c :: rest) = c :: cString rest := by
  rw [cString, List.takeWhile_cons_of_pos (by simpa using hc), cString]

section readable

variable {m : Machine} {addr : Word} {n : ℕ}

theorem length_bytesFrom (m : Machine) (addr : Word) (n : ℕ) :
    (m.bytesFrom addr n).length = n := by
  induction n generalizing addr with
  | zero => rfl
  | succ n ih => rw [Machine.bytesFrom, List.length_cons, ih]

theorem Machine.Readable.head (h : m.Readable addr (n + 1)) :
    m.byteAt addr = some ((m.byteAt addr).getD 0) := by
  have hsome := h 0 (Nat.succ_pos n)
  rw [BitVec.add_zero] at hsome
  obtain ⟨c, hc⟩ := Option.isSome_iff_exists.mp hsome
  rw [hc]
  rfl

theorem Machine.Readable.tail (h : m.Readable addr (n + 1)) : m.Readable (addr + 1) n := by
  intro i hi
  rw [addr_add_one_add]
  exact h (i + 1) (by omega)

theorem Machine.Readable.getElem? (h : m.Readable addr n) {i : ℕ} (hi : i < n) :
    (m.bytesFrom addr n)[i]? = m.byteAt (addr + BitVec.ofNat 32 i) := by
  induction n generalizing addr i with
  | zero => exact absurd hi (Nat.not_lt_zero i)
  | succ n ih =>
    cases i with
    | zero => rw [Machine.bytesFrom, List.getElem?_cons_zero, BitVec.add_zero, ← h.head]
    | succ i =>
      rw [Machine.bytesFrom, List.getElem?_cons_succ, ih h.tail (by omega), addr_add_one_add]

/-- The string at an address is what comes before the first zero. -/
theorem Machine.Readable.stringAt (h : m.Readable addr n) :
    m.stringAt addr n = some (cString (m.bytesFrom addr n)) := by
  induction n generalizing addr with
  | zero => rfl
  | succ n ih =>
    rw [Machine.stringAt, h.head, ih h.tail, Machine.bytesFrom]
    generalize (m.byteAt addr).getD 0 = c
    by_cases hc : c = 0
    · rw [hc, cString_cons_zero]
      rfl
    · rw [cString_cons_of_ne hc]
      exact if_neg hc

theorem Machine.Writable.readable (hm : m.Linear) (h : m.Writable addr n) : m.Readable addr n := by
  obtain ⟨pt, hpt⟩ := hm.pageTable_some
  intro i hi
  rw [byteAt_of_maps hm.tlb_none hpt (h.maps hm hpt hi).readable]
  rfl

end readable

/-! ## A string with zeros behind it -/

/-- What is fetched starts with the first byte, or is zero throughout. -/
private theorem fetchedBytes_cString_cons (c : Byte) (rest : List Byte) :
    fetchedBytes (cString (c :: rest)) (c :: rest).length =
      if c = 0 then List.replicate (rest.length + 1) 0
      else c :: fetchedBytes (cString rest) rest.length := by
  rw [List.length_cons, fetchedBytes, stringBlock]
  by_cases hc : c = 0
  · rw [if_pos hc, hc, cString_cons_zero, List.nil_append, List.take_replicate]
    simp
  · rw [if_neg hc, cString_cons_of_ne hc, List.cons_append, List.take_succ_cons, List.length_cons,
      Nat.add_sub_add_right]
    rfl

/-- The bytes that are fetched are the ones that are there exactly if behind a zero there are only
zeros. -/
theorem fetchedBytes_eq_iff (bytes : List Byte) :
    fetchedBytes (cString bytes) bytes.length = bytes ↔
      ∀ j < bytes.length, (∃ i < j, bytes[i]? = some 0) → bytes[j]? = some 0 := by
  induction bytes with
  | nil => exact iff_of_true rfl fun j hj ↦ absurd hj (Nat.not_lt_zero j)
  | cons c rest ih =>
    rw [fetchedBytes_cString_cons]
    by_cases hc : c = 0
    · subst hc
      rw [if_pos rfl, List.replicate_succ, List.cons.injEq, and_iff_right rfl]
      constructor
      · intro hzeros j hj hbefore
        rw [← hzeros]
        cases j with
        | zero => rfl
        | succ j =>
          rw [List.getElem?_cons_succ, List.getElem?_replicate_of_lt (by simpa using hj)]
      · intro hzeros
        refine List.ext_getElem? fun j ↦ ?_
        by_cases hj : j < rest.length
        · rw [List.getElem?_replicate_of_lt hj]
          exact (hzeros (j + 1) (by simpa using hj) ⟨0, Nat.succ_pos j, rfl⟩).symm
        · rw [List.getElem?_eq_none (by simpa using hj), List.getElem?_eq_none (by omega)]
    · rw [if_neg hc, List.cons.injEq, and_iff_right rfl, ih]
      constructor
      · rintro hzeros j hj ⟨i, hi, hzero⟩
        cases j with
        | zero => exact absurd hi (Nat.not_lt_zero i)
        | succ j =>
          cases i with
          | zero => exact absurd (Option.some.inj hzero) hc
          | succ i => exact hzeros j (by simpa using hj) ⟨i, by omega, hzero⟩
      · rintro hzeros j hj ⟨i, hi, hzero⟩
        exact hzeros (j + 1) (by simpa using hj) ⟨i + 1, by omega, hzero⟩

/-- Up to the first zero nothing is changed. -/
private theorem uptoZero_fetchedBytes (bytes : List Byte) :
    uptoZero (fetchedBytes (cString bytes) bytes.length) = uptoZero bytes := by
  induction bytes with
  | nil => rfl
  | cons c rest ih =>
    rw [fetchedBytes_cString_cons]
    by_cases hc : c = 0
    · subst hc
      rw [if_pos rfl, List.replicate_succ, uptoZero, if_pos rfl, uptoZero, if_pos rfl]
    · rw [if_neg hc, uptoZero, if_neg hc, ih, uptoZero, if_neg hc]

/-! ## What is written -/

/-- The bytes that are written. -/
private theorem getElem?_splice_written (content : List Byte) (pos : ℕ) {bytes : List Byte} {i : ℕ}
    (hi : i < bytes.length) : (splice content pos bytes)[pos + i]? = bytes[i]? := by
  have hne : bytes ≠ [] := List.ne_nil_of_length_pos (by omega)
  have hlen : ((content ++ List.replicate (pos - content.length) 0).take pos).length = pos := by
    rw [List.length_take, List.length_append, List.length_replicate]
    omega
  rw [splice_of_ne_nil _ _ hne, List.append_assoc, List.getElem?_append_right (by omega), hlen,
    Nat.add_sub_cancel_left, List.getElem?_append_left hi]

/-- The rest of the content. -/
private theorem getElem?_splice_kept (content : List Byte) (pos : ℕ) (bytes : List Byte) {j : ℕ}
    (hj : j < content.length) (hout : j < pos ∨ pos + bytes.length ≤ j) :
    (splice content pos bytes)[j]? = content[j]? := by
  by_cases hne : bytes = []
  · rw [splice, if_pos hne]
  have hlen : ((content ++ List.replicate (pos - content.length) 0).take pos).length = pos := by
    rw [List.length_take, List.length_append, List.length_replicate]
    omega
  rw [splice_of_ne_nil _ _ hne]
  rcases hout with hlt | hge
  · rw [List.append_assoc, List.getElem?_append_left (by omega), List.getElem?_take_of_lt hlt,
      List.getElem?_append_left hj]
  · rw [List.getElem?_append_right (by rw [List.length_append]; omega), List.getElem?_drop,
      List.length_append, hlen]
    congr 1
    omega

/-! ## The call -/

/-- Where a `Write` goes: to the console, or to the file `ino` through an entry of the table. -/
inductive WriteTarget where
  | console
  | file (file : OpenFile) (ino : ℕ)

/-- The descriptor of the call stands for the target, and a host that is asked does not fail. -/
def Kernel.Accepts (k : Kernel) (t : Trap) : WriteTarget → Prop
  | .console => t.machine.registers 6 = 1
  | .file file ino =>
    2 ≤ (t.machine.registers 6).toNat ∧ (t.machine.registers 6).toNat < maxFile ∧
    k.openfile (t.machine.registers 6).toNat = some file ∧ file.type = 0 ∧
    (∃ pos, k.host.fds file.file = some (.file ino pos)) ∧ 0 ≤ file.currentOffset.toInt ∧
    t.env.writeFails = false

/-- A `Write` of a buffer that is mapped and writable. -/
structure Kernel.Writing (k : Kernel) (t : Trap) (target : WriteTarget) : Prop where
  code : t.machine.registers 2 = Syscall.write.code
  accepts : k.Accepts t target
  size : 0 ≤ (t.machine.registers 5).toInt
  linear : t.machine.Linear
  frames : t.machine.DistinctFrames
  writable : t.machine.Writable (t.machine.registers 4) (t.machine.registers 5).toNat

/-- The target has the bytes of the buffer, and nothing else is changed. -/
def Kernel.Delivered (k k' : Kernel) (t : Trap) : WriteTarget → Prop
  | .console =>
    k'.consoleOut = k.consoleOut ++
        t.machine.bytesFrom (t.machine.registers 4) (t.machine.registers 5).toNat ∧
      k'.host = k.host ∧ k'.openfile = k.openfile
  | .file file ino =>
    (∀ i < (t.machine.registers 5).toNat,
      (k'.host.content ino)[file.currentOffset.toNat + i]?
        = t.machine.byteAt (t.machine.registers 4 + BitVec.ofNat 32 i)) ∧
    (∀ j < (k.host.content ino).length, j < file.currentOffset.toNat ∨
        file.currentOffset.toNat + (t.machine.registers 5).toNat ≤ j →
      (k'.host.content ino)[j]? = (k.host.content ino)[j]?) ∧
    (k'.host.content ino).length = (if (t.machine.registers 5).toNat = 0 then
        (k.host.content ino).length
      else max (k.host.content ino).length
        (file.currentOffset.toNat + (t.machine.registers 5).toNat)) ∧
    (∀ other ≠ ino, k'.host.content other = k.host.content other) ∧
    k'.consoleOut = k.consoleOut ∧
    ∃ offset, k'.openfile = Function.update k.openfile (t.machine.registers 6).toNat
        (some { file with currentOffset := offset }) ∧
      offset.toInt = file.currentOffset.toNat + (t.machine.registers 5).toNat

/-- The call returns the number of bytes it was asked for, the target has them, and user memory is
as it was. -/
def Kernel.WriteFaithful (k : Kernel) (t : Trap) (target : WriteTarget) : Prop :=
  ∃ k', k.handle t = .ok () k' ∧ k'.machine.registers 2 = t.machine.registers 5 ∧
    k.Delivered k' t target ∧ ∀ x, k'.machine.byteAt x = t.machine.byteAt x

/-- The offset of a file stays an `int`. -/
def WriteTarget.Room (n : ℕ) : WriteTarget → Prop
  | .console => True
  | .file entry _ => entry.currentOffset.toNat + n < offsetLimit

/-- The table, the host and the console output when `data` has gone to the target. -/
def Kernel.sent (k : Kernel) (t : Trap) (data : List Byte) :
    WriteTarget → (ℕ → Option OpenFile) × Host × List Byte
  | .console => (k.openfile, k.host, k.consoleOut ++ data)
  | .file file ino =>
    (k.advanced (t.machine.registers 6).toNat file (t.machine.registers 5),
      k.hostWritten file ino data, k.consoleOut)

/-- What copying back leaves alone. -/
def Kernel.writeView (k : Kernel) : ((ℕ → Option OpenFile) × Host × List Byte) × Word :=
  ((k.openfile, k.host, k.consoleOut), k.machine.registers 2)

private theorem keeps_copyOut_writeView (virtAddr result : Word) (p : Ptr) :
    Keeps Kernel.writeView (copyOut virtAddr result p) :=
  (keeps_system2User (fun _ _ _ _ _ _ _ _ ↦ rfl) (fun _ _ _ ↦ rfl) (fun _ ↦ keeps_loadChar _ _)
    _ _).bind fun _ ↦ Keeps.pure _

section writing

variable {k : Kernel} {t : Trap} {target : WriteTarget}

private theorem writeBranches_of_accepts (haccepts : k.Accepts t target) (buf : Ptr) (k₁ : Kernel)
    (hopenfile : k₁.openfile = k.openfile) :
    writeBranches t.env (t.machine.registers 4) (t.machine.registers 5) (t.machine.registers 6)
        buf k₁
      = transfer t.env (t.machine.registers 4) (t.machine.registers 5)
          (fun p ↦ sysWrite t.env p (t.machine.registers 5) (t.machine.registers 6)) k₁ := by
  cases target with
  | console =>
    have hone : t.machine.registers 6 = 1 := haccepts
    rw [writeBranches, hone, if_neg (by decide), if_pos rfl]
    rfl
  | file file ino =>
    obtain ⟨htwo, hlt, hslot, htype, -⟩ := haccepts
    exact writeBranches_transfer htwo hlt (hopenfile ▸ hslot) (by rw [htype]; decide) _ _ buf

/-- The part of `Write` between the fetching and the copying back. -/
private theorem sysWrite_moves (haccepts : k.Accepts t target)
    (hsize : 0 ≤ (t.machine.registers 5).toInt)
    (hroom : target.Room (t.machine.registers 5).toNat) {s : List Byte}
    (hlen : s.length ≤ (t.machine.registers 5).toNat) (m : Machine) (heap : Heap)
    (hheap : heap.bytes t.env.kernelBuf = stringBlock s (t.machine.registers 5).toNat) :
    sysWrite t.env t.env.kernelBuf (t.machine.registers 5) (t.machine.registers 6)
        { k with machine := m, heap := heap }
      = .ok (t.machine.registers 5) { k with
        machine := m
        heap := heap
        openfile := (k.sent t (fetchedBytes s (t.machine.registers 5).toNat) target).1
        host := (k.sent t (fetchedBytes s (t.machine.registers 5).toNat) target).2.1
        consoleOut := (k.sent t (fetchedBytes s (t.machine.registers 5).toNat) target).2.2 } := by
  have hbuf : (t.machine.registers 5).toNat ≤ (heap.bytes t.env.kernelBuf).length := by
    rw [hheap, length_stringBlock hlen]
    omega
  cases target with
  | console =>
    have hone : t.machine.registers 6 = 1 := haccepts
    have hint : (t.machine.registers 5).toInt.toNat = (t.machine.registers 5).toNat := by
      rw [toInt_eq_toNat (toNat_lt_of_nonneg hsize), Int.toNat_natCast]
    have htake : takeChars t.env.kernelBuf (t.machine.registers 5).toInt.toNat
        { k with machine := m, heap := heap }
        = .ok (fetchedBytes s (t.machine.registers 5).toNat)
          { k with machine := m, heap := heap } := by
      rw [hint, takeChars, if_pos hbuf, hheap, fetchedBytes]
    rw [sysWrite, if_pos hone, putString, bind_of_ok htake]
    rfl
  | file file ino =>
    obtain ⟨htwo, hlt, hslot, -, ⟨pos, hfd⟩, -, hok⟩ := haccepts
    rw [sysWrite_of_slot htwo hlt (k := { k with machine := m, heap := heap }) hslot,
      writeOpenFile_eq (k := { k with machine := m, heap := heap }) hfd hlt hok hbuf hroom]
    simp only [hheap]
    rfl

/-- The target is served exactly if what it gets is what the buffer holds. -/
private theorem delivered_iff (k' : Kernel) (data : List Byte) (haccepts : k.Accepts t target)
    (hroom : target.Room (t.machine.registers 5).toNat)
    (hreadable : t.machine.Readable (t.machine.registers 4) (t.machine.registers 5).toNat)
    (hlen : data.length = (t.machine.registers 5).toNat)
    (hsent : (k'.openfile, k'.host, k'.consoleOut) = k.sent t data target) :
    k.Delivered k' t target ↔
      data = t.machine.bytesFrom (t.machine.registers 4) (t.machine.registers 5).toNat := by
  cases target with
  | console =>
    simp only [Kernel.sent, Prod.mk.injEq] at hsent
    obtain ⟨hopenfile, hhost, hout⟩ := hsent
    rw [Kernel.Delivered, hout, List.append_cancel_left_eq]
    exact and_iff_left ⟨hhost, hopenfile⟩
  | file file ino =>
    simp only [Kernel.sent, Prod.mk.injEq] at hsent
    obtain ⟨hopenfile, hhost, hout⟩ := hsent
    obtain ⟨-, -, -, -, -, hoffset, -⟩ := haccepts
    have hcontent : k'.host.content ino
        = splice (k.host.content ino) file.currentOffset.toNat data := by
      rw [hhost]
      exact Function.update_self _ _ _
    constructor
    · rintro ⟨hbytes, -⟩
      refine List.ext_getElem? fun i ↦ ?_
      by_cases hi : i < (t.machine.registers 5).toNat
      · rw [hreadable.getElem? hi, ← hbytes i hi, hcontent,
          getElem?_splice_written _ _ (by omega)]
      · rw [List.getElem?_eq_none (by omega),
          List.getElem?_eq_none (by rw [length_bytesFrom]; omega)]
    · intro hdata
      have hempty : data = [] ↔ (t.machine.registers 5).toNat = 0 := by
        rw [← hlen, List.length_eq_zero_iff]
      refine ⟨fun i hi ↦ ?_, fun j hj hout ↦ ?_, ?_, fun other hne ↦ ?_, hout, _, hopenfile, ?_⟩
      · rw [hcontent, getElem?_splice_written _ _ (by omega), hdata, hreadable.getElem? hi]
      · rw [hcontent, getElem?_splice_kept _ _ _ hj (by rwa [hlen])]
      · rw [hcontent, length_splice, hlen]
        simp only [hempty]
      · rw [hhost]
        exact Function.update_of_ne hne _ _
      · have hsize : (t.machine.registers 5).toNat < 2 ^ 31 := by
          have hlt : file.currentOffset.toNat + (t.machine.registers 5).toNat < 2 ^ 31 := hroom
          omega
        have hint := (toInt_advanced_iff hoffset hsize).mpr hroom
        rwa [BitVec.ofNat_toNat, BitVec.setWidth_eq] at hint

variable (h : k.Writing t target)

include h

/-- What the call does, if the offset of the file stays an `int`: the target gets what
`User2System` has fetched. -/
theorem Kernel.Writing.handle_eq (hroom : target.Room (t.machine.registers 5).toNat) :
    ∃ k', k.handle t = .ok () k' ∧ k'.machine.registers 2 = t.machine.registers 5 ∧
      (k'.openfile, k'.host, k'.consoleOut) = k.sent t (fetchedBytes
        (cString (t.machine.bytesFrom (t.machine.registers 4) (t.machine.registers 5).toNat))
        (t.machine.registers 5).toNat) target ∧
      ∀ x, k'.machine.byteAt x = t.machine.byteAt x := by
  have hmemory := h.writable.le_memorySize h.linear h.frames (BitVec.isLt _).le
  simp only [memorySize, numPhysPages, pageSize] at hmemory
  have hreadable := h.writable.readable h.linear
  have hs := hreadable.stringAt
  have hlength := length_bytesFrom t.machine (t.machine.registers 4) (t.machine.registers 5).toNat
  have hzero := uptoZero_fetchedBytes
    (t.machine.bytesFrom (t.machine.registers 4) (t.machine.registers 5).toNat)
  have hpre := uptoZero_isPrefix
    (t.machine.bytesFrom (t.machine.registers 4) (t.machine.registers 5).toNat)
  have hbyte : ∀ i < (t.machine.registers 5).toNat,
      (t.machine.bytesFrom (t.machine.registers 4) (t.machine.registers 5).toNat)[i]?
        = t.machine.byteAt (t.machine.registers 4 + BitVec.ofNat 32 i) :=
    fun i hi ↦ hreadable.getElem? hi
  rw [hlength] at hzero
  generalize t.machine.bytesFrom (t.machine.registers 4) (t.machine.registers 5).toNat = bytes at *
  have hfetched := length_fetchedBytes hs
  obtain ⟨m, heap, halike, hbytes, hrun⟩ := withBuffer_transfer_eq
    (k := { k with machine := t.machine }) (s := cString bytes)
    (P := (· = stringBlock (cString bytes) (t.machine.registers 5).toNat))
    (fun buf k₁ ↦ writeBranches_of_accepts h.accepts buf k₁) h.size (by omega) hs
    fun m heap hheap ↦ ⟨heap, hheap, sysWrite_moves (k := { k with machine := t.machine })
      h.accepts h.size hroom (stringAt_length hs) m heap hheap⟩
  -- the bytes are copied back to where they are
  have hlinear := halike.linear h.linear
  have hsplit : heap.bytes t.env.kernelBuf
      = fetchedBytes (cString bytes) (t.machine.registers 5).toNat ++
        (stringBlock (cString bytes) (t.machine.registers 5).toNat).drop
          (t.machine.registers 5).toNat := by
    rw [hbytes, fetchedBytes, List.take_append_drop]
  obtain ⟨k', hcopy, hcopied⟩ := @copyOut_copied
    (t.machine.registers 4) t.env.kernelBuf _ _
    { k with
      machine := m.setReg 2 (t.machine.registers 5)
      heap := heap
      openfile := (k.sent t (fetchedBytes (cString bytes) (t.machine.registers 5).toNat) target).1
      host := (k.sent t (fetchedBytes (cString bytes) (t.machine.registers 5).toNat) target).2.1
      consoleOut :=
        (k.sent t (fetchedBytes (cString bytes) (t.machine.registers 5).toNat) target).2.2 }
    ⟨hlinear.tlb_none, hlinear.pageTable_some⟩ (halike.distinctFrames h.frames)
    (by rw [hfetched]; omega) hsplit fun i hi ↦ by
      have hphysical := h.writable i (by omega)
      rw [← halike.physical] at hphysical
      exact hphysical
  rw [hfetched, BitVec.ofNat_toNat, BitVec.setWidth_eq] at hcopy
  rw [hzero] at hcopied
  have hview := ((keeps_copyOut_writeView _ _ _).bind
    fun _ ↦ keeps_deleteBlock (fun _ _ ↦ rfl) _) _ _ _ hcopy
  simp only [Kernel.writeView, Prod.mk.injEq, Machine.setReg_registers_self] at hview
  have hbody : Syscall.write.body t.env { k with machine := t.machine } = .ok () k' :=
    (scWrite_eq t.env { k with machine := t.machine }).trans (hrun.trans hcopy)
  refine ⟨_, handle_of_body h.code hbody, (Machine.skip_result _).trans hview.2, ?_, fun x ↦ ?_⟩
  · exact Prod.ext hview.1.1 (Prod.ext hview.1.2.1 hview.1.2.2)
  · by_cases hin : ∃ i < (uptoZero bytes).length, x = t.machine.registers 4 + BitVec.ofNat 32 i
    · obtain ⟨i, hi, rfl⟩ := hin
      have hle := hpre.length_le
      refine (hcopied.copied i hi).trans ?_
      rw [← hbyte i (by omega), List.getElem?_eq_getElem hi, List.prefix_iff_getElem?.mp hpre i hi]
    · have hframe := hcopied.frame x fun i hi heq ↦ hin ⟨i, hi, heq⟩
      exact hframe.trans (halike.byteAt x)

/-- A call that returns found room. -/
theorem Kernel.Writing.room {k' : Kernel} (hrun : k.handle t = .ok () k') :
    target.Room (t.machine.registers 5).toNat := by
  cases target with
  | console => trivial
  | file file ino =>
    obtain ⟨htwo, hlt, hslot, htype, ⟨pos, hfd⟩, -⟩ := h.accepts
    obtain ⟨k₁, hbody, -⟩ := handle_eq_ok h.code hrun
    have hbuffer := (scWrite_eq t.env { k with machine := t.machine }).symm.trans hbody
    exact room_of_write (k := { k with machine := t.machine }) htwo hlt hslot hfd
      (by rw [htype]; decide) hbuffer

/-- **`Write` is faithful exactly when** the offset stays an `int` and the buffer has nothing but
zeros behind its first zero. -/
theorem write_faithful_iff :
    k.WriteFaithful t target ↔
      target.Room (t.machine.registers 5).toNat ∧
      ∀ j < (t.machine.registers 5).toNat,
        (∃ i < j, t.machine.byteAt (t.machine.registers 4 + BitVec.ofNat 32 i) = some 0) →
        t.machine.byteAt (t.machine.registers 4 + BitVec.ofNat 32 j) = some 0 := by
  have hreadable := h.writable.readable h.linear
  have hlength := length_bytesFrom t.machine (t.machine.registers 4) (t.machine.registers 5).toNat
  have hzeros := fetchedBytes_eq_iff
    (t.machine.bytesFrom (t.machine.registers 4) (t.machine.registers 5).toNat)
  rw [hlength] at hzeros
  -- the same condition, on the bytes of the buffer
  have hcond : (∀ j < (t.machine.registers 5).toNat,
      (∃ i < j, t.machine.byteAt (t.machine.registers 4 + BitVec.ofNat 32 i) = some 0) →
      t.machine.byteAt (t.machine.registers 4 + BitVec.ofNat 32 j) = some 0) ↔
      fetchedBytes (cString (t.machine.bytesFrom (t.machine.registers 4)
          (t.machine.registers 5).toNat)) (t.machine.registers 5).toNat
        = t.machine.bytesFrom (t.machine.registers 4) (t.machine.registers 5).toNat := by
    rw [hzeros]
    refine forall_congr' fun j ↦ imp_congr_right fun hj ↦ ?_
    rw [hreadable.getElem? hj]
    refine imp_congr_left (exists_congr fun i ↦ and_congr_right fun hi ↦ ?_)
    rw [hreadable.getElem? (Nat.lt_trans hi hj)]
  rw [hcond]
  have hdelivered := fun (k' : Kernel) ↦ delivered_iff k'
    (fetchedBytes (cString (t.machine.bytesFrom (t.machine.registers 4)
      (t.machine.registers 5).toNat)) (t.machine.registers 5).toNat) h.accepts
  constructor
  · rintro ⟨k', hrun, -, hserved, -⟩
    have hroom := h.room hrun
    obtain ⟨k'', hrun', -, hsent, -⟩ := h.handle_eq hroom
    rw [hrun] at hrun'
    cases hrun'
    exact ⟨hroom, (hdelivered k' hroom hreadable (length_fetchedBytes hreadable.stringAt)
      hsent).mp hserved⟩
  · rintro ⟨hroom, hsame⟩
    obtain ⟨k', hrun, hresult, hsent, hmemory⟩ := h.handle_eq hroom
    exact ⟨k', hrun, hresult, (hdelivered k' hroom hreadable
      (length_fetchedBytes hreadable.stringAt) hsent).mpr hsame, hmemory⟩

end writing

/-! ## A zero in the buffer -/

/-- A machine about to write three bytes from address 128 to the console. -/
def writingMachine (bytes : List Byte) : Machine :=
  { identityMap with
    mainMemory := fun i ↦ if i < 128 then 0 else bytes.getD (i - 128) 0
    registers := fun i ↦ if i = 2 then 8 else if i = 4 then 128 else
      if i = 5 then 3 else if i = 6 then 1 else 0 }

def writingTrap (bytes : List Byte) : Trap := ⟨writingMachine bytes, Env.quiet⟩

def writingKernel (bytes : List Byte) : Kernel :=
  Kernel.initial (writingMachine bytes) ⟨fun _ ↦ [], []⟩
    ⟨fun _ ↦ none, fun _ ↦ [], fun _ ↦ none, 1, []⟩ []

private theorem writingKernel_writing (bytes : List Byte) :
    (writingKernel bytes).Writing (writingTrap bytes) .console where
  code := rfl
  accepts := show (1 : Word) = 1 from rfl
  size := show 0 ≤ (3 : Word).toInt by decide
  linear := ⟨rfl, _, rfl⟩
  frames := identityMap_distinctFrames
  writable := by
    have hall : ∀ i < 3, (identityMap.physical (128 + BitVec.ofNat 32 i) 1 true).isSome = true :=
      by decide
    exact hall

/-- The bytes `a`, `0`, `b`: the console shows a zero for the last of them. -/
theorem writingKernel_not_faithful :
    (writingKernel [97, 0, 98]).Writing (writingTrap [97, 0, 98]) .console ∧
      ¬(writingKernel [97, 0, 98]).WriteFaithful (writingTrap [97, 0, 98]) .console := by
  refine ⟨writingKernel_writing _, ?_⟩
  rintro ⟨k', hrun, -, ⟨hout, -⟩, -⟩
  have hsome : (writingKernel [97, 0, 98]).trap (writingTrap [97, 0, 98]) = some k' := by
    rw [Kernel.trap, hrun]
  have hshown : ((writingKernel [97, 0, 98]).trap (writingTrap [97, 0, 98])).map
      Kernel.consoleOut = some [97, 0, 0] := by
    decide +kernel
  rw [hsome, Option.map_some, hout] at hshown
  exact absurd hshown (by decide)

/-- Without a zero the console shows all three. -/
theorem writingKernel_faithful :
    (writingKernel [97, 99, 98]).WriteFaithful (writingTrap [97, 99, 98]) .console := by
  refine (write_faithful_iff (writingKernel_writing [97, 99, 98])).mpr ⟨trivial, ?_⟩
  have hbytes : ∀ i < 3, (writingMachine [97, 99, 98]).byteAt (128 + BitVec.ofNat 32 i)
      ≠ some 0 := by decide
  rintro j hj ⟨i, hi, hzero⟩
  exact absurd hzero (hbytes i (Nat.lt_trans hi hj))

end Nachos
