import Nachos.Userprog.Return
import Nachos.Userprog.Transfer

/-!
# What the file calls do

One lemma for each way through `Open`, `Close`, `Seek`, `Read` and `Write`: the state it ends in,
in terms of the host, the table and the string the user program passed. The lemmas about returning
calls (`_eq_ok`) say that there is no other way.
-/

namespace Nachos

open Program

/-- The limit the handlers use for file names. -/
@[simp] abbrev nameLimit : ℕ := 33

/-! ## Finding a slot -/

theorem toNat_ofNat_slot {i : ℕ} (hi : i < maxFile) : (BitVec.ofNat 32 i).toNat = i :=
  toNat_ofNat_of_lt (Nat.lt_trans hi (by decide))

theorem slot_ne_neg_one {i : ℕ} (hi : i < maxFile) : BitVec.ofNat 32 i ≠ (-1 : Word) :=
  ofNat_ne_neg_one (Nat.lt_trans hi (by decide))

theorem newFd_ne_neg_one {fd : Word} (hpos : 0 ≤ fd.toInt) : fd ≠ -1 := by
  rintro rfl
  exact absurd hpos (by decide)

/-- `i` is the first free slot behind the two console descriptors. -/
structure Kernel.FirstFree (k : Kernel) (i : ℕ) : Prop where
  two_le : 2 ≤ i
  lt : i < maxFile
  free : k.openfile i = none
  least : ∀ j, 2 ≤ j → j < i → k.openfile j ≠ none

theorem findIndexFree_cases (k : Kernel) :
    (k.findIndexFree = -1 ∧ ∀ i, 2 ≤ i → i < maxFile → k.openfile i ≠ none) ∨
    ∃ i, k.FirstFree i ∧ k.findIndexFree = BitVec.ofNat 32 i := by
  rw [Kernel.findIndexFree]
  cases h : (List.range' 2 (maxFile - 2)).find? fun i ↦ (k.openfile i).isNone with
  | none =>
    refine Or.inl ⟨rfl, fun i h2 hi ↦ ?_⟩
    have hsome := List.find?_range'_eq_none.mp h i h2 (by simp only [maxFile] at hi ⊢; omega)
    exact Option.isSome_iff_ne_none.mp (by simpa using hsome)
  | some i =>
    obtain ⟨hfree, hmem, hleast⟩ := List.find?_range'_eq_some.mp h
    obtain ⟨h2, hlt⟩ := List.mem_range'_1.mp hmem
    refine Or.inr ⟨i, ⟨h2, ?_, by simpa using hfree, fun j hj hji ↦ ?_⟩, rfl⟩
    · simp only [maxFile] at hlt ⊢
      omega
    · exact Option.isSome_iff_ne_none.mp (by simpa using hleast j hj hji)

theorem findIndexFree_eq_neg_one_iff (k : Kernel) :
    k.findIndexFree = -1 ↔ ∀ i, 2 ≤ i → i < maxFile → k.openfile i ≠ none := by
  rcases findIndexFree_cases k with ⟨hfull, hall⟩ | ⟨i, hfirst, hidx⟩
  · exact iff_of_true hfull hall
  · refine iff_of_false ?_ fun hall ↦ hall i hfirst.two_le hfirst.lt hfirst.free
    rw [hidx]
    exact slot_ne_neg_one hfirst.lt

/-! ## Open -/

/-- The mode is one that `Open` accepts. -/
def ModeOk (type : Word) : Prop := type = 0 ∨ type = 1

theorem not_modeOk_iff {type : Word} : ¬ModeOk type ↔ type ≠ 0 ∧ type ≠ 1 := not_or

private theorem openBranches_refused {env : Env} {k : Kernel} (firstAdd : Word) {type : Word}
    (h : ¬ModeOk type ∨ k.findIndexFree = -1) :
    openBranches env firstAdd type k
      = .ok env.filenameopen { k with machine := k.machine.setReg 2 (-1) } := by
  rw [openBranches]
  by_cases hmode : ModeOk type
  · rw [if_neg (fun hne ↦ not_modeOk_iff.mpr hne hmode), bind_of_ok (get_eq k),
      if_pos (h.resolve_left (not_not_intro hmode)), bind_of_ok (setResult_eq _ k)]
    rfl
  · rw [if_pos (not_modeOk_iff.mp hmode), bind_of_ok (setResult_eq _ k)]
    rfl

/-- `Open` refuses a bad mode and a full table before it looks at the name. -/
theorem scOpen_refused {env : Env} {k : Kernel}
    (h : ¬ModeOk (k.machine.registers 5) ∨ k.findIndexFree = -1) :
    scOpen env k = .ok () { k with
      machine := k.machine.setReg 2 (-1), heap := k.heap.delete env.filenameopen } := by
  rw [scOpen, bind_of_ok (readRegister_of_lt (by decide) k),
    bind_of_ok (readRegister_of_lt (by decide) k), bind_of_ok (openBranches_refused _ h)]
  rfl

theorem openBranches_slot {env : Env} {k : Kernel} {firstAdd type : Word} {i : ℕ}
    (hmode : ModeOk type) (hi : i < maxFile) (hidx : k.findIndexFree = BitVec.ofNat 32 i) :
    openBranches env firstAdd type k = (do
      let filenameopen ← user2System env firstAdd (maxFileLength + 1)
      openSlot env (BitVec.ofNat 32 i) filenameopen type
      return filenameopen : Kern Ptr) k := by
  rw [openBranches, if_neg (fun hne ↦ not_modeOk_iff.mpr hne hmode), bind_of_ok (get_eq k), hidx,
    if_neg (slot_ne_neg_one hi)]

/-- The entry `Open` makes. -/
def Env.entry (env : Env) (type : Word) : OpenFile :=
  { object := env.object, type := type, filename := env.kernelBuf, file := env.newFd,
    currentOffset := 0 }

section openSlot

variable {env : Env} {k : Kernel} {i : ℕ} {p : Ptr} (type : Word) {name : Name}
  (hi : i < maxFile) (hname : cString (k.heap.bytes p) = name)

include hi hname

private theorem openSlot_of_failure (hfree : k.openfile i = none)
    (h : k.host.openReadWrite name env.openFails env.newFd = (-1, k.host)) :
    openSlot env (BitVec.ofNat 32 i) p type k
      = .ok () { k with machine := k.machine.setReg 2 (-1) } := by
  have hopen : fileSystemOpen env p type k = .ok none k := by
    rw [fileSystemOpen, bind_of_ok (blockBytes_eq p k), hname, openForReadWrite,
      bind_of_ok (onHost_eq _ k), h, if_pos rfl]
    rfl
  have hset : Function.update k.openfile i none = k.openfile := by
    rw [← hfree, Function.update_eq_self]
  rw [openSlot, bind_of_ok hopen, bind_of_ok (setOpenfile_of_lt (by rwa [toNat_ofNat_slot hi]) _ k),
    toNat_ofNat_slot hi, hset, setResult_eq]
  rfl

private theorem openSlot_of_success {ino : ℕ} (hpos : 0 ≤ env.newFd.toInt)
    (h : k.host.openReadWrite name env.openFails env.newFd
      = (env.newFd, k.host.setFd env.newFd (some (.file ino 0)))) :
    openSlot env (BitVec.ofNat 32 i) p type k = .ok () { k with
      machine := k.machine.setReg 2 (BitVec.ofNat 32 i)
      openfile := Function.update k.openfile i (some { env.entry type with filename := p })
      host := k.host.setFd env.newFd (some (.file ino 0))
      heap := k.heap.new env.object env.objectBytes } := by
  have hopen : fileSystemOpen env p type k
      = .ok (some { env.entry type with filename := p }) { k with
        host := k.host.setFd env.newFd (some (.file ino 0))
        heap := k.heap.new env.object env.objectBytes } := by
    rw [fileSystemOpen, bind_of_ok (blockBytes_eq p k), hname, openForReadWrite,
      bind_of_ok (onHost_eq _ k), h, if_neg (newFd_ne_neg_one hpos), bind_of_ok (newBlock_eq _ _ _)]
    rfl
  rw [openSlot, bind_of_ok hopen, bind_of_ok (setOpenfile_of_lt (by rwa [toNat_ofNat_slot hi]) _ _),
    toNat_ofNat_slot hi, setResult_eq]
  rfl

end openSlot

/-- The kernel after an `Open` that the host refused. -/
def Kernel.afterOpenFailure (k : Kernel) (env : Env) (m : Machine) (name : Name) : Kernel :=
  { k with
    machine := m.setReg 2 (-1)
    heap := (k.heap.new env.kernelBuf (stringBlock name nameLimit)).delete env.kernelBuf }

/-- The kernel after a successful `Open` of slot `i`. The buffer with the name is released, and
the entry keeps its address. -/
def Kernel.afterOpen (k : Kernel) (env : Env) (m : Machine) (name : Name) (i ino : ℕ)
    (type : Word) : Kernel :=
  { k with
    machine := m.setReg 2 (BitVec.ofNat 32 i)
    openfile := Function.update k.openfile i (some (env.entry type))
    host := k.host.setFd env.newFd (some (.file ino 0))
    heap := ((k.heap.new env.kernelBuf (stringBlock name nameLimit)).new env.object
      env.objectBytes).delete env.kernelBuf }

theorem cString_withString {k : Kernel} {m m' : Machine} {p : Ptr} {addr : Word} {n : ℕ}
    {name : Name} (hname : m.stringAt addr n = some name) :
    cString ((k.withString m' p name n).heap.bytes p) = name := by
  rw [Kernel.withString_bytes]
  exact cString_stringBlock (stringAt_ne_zero hname) (stringAt_length hname)

section open_

variable {env : Env} {k : Kernel} {i : ℕ} {name : Name} {m : Machine}
  (hmode : ModeOk (k.machine.registers 5)) (hfirst : k.FirstFree i)
  (hidx : k.findIndexFree = BitVec.ofNat 32 i)
  (hname : k.machine.stringAt (k.machine.registers 4) nameLimit = some name)
  (hrun : user2System env (k.machine.registers 4) (maxFileLength + 1) k
    = .ok env.kernelBuf (k.withString m env.kernelBuf name nameLimit))

include hmode hfirst hidx hname hrun

theorem scOpen_of_failure
    (h : k.host.openReadWrite name env.openFails env.newFd = (-1, k.host)) :
    scOpen env k = .ok () (k.afterOpenFailure env m name) := by
  have hslot := openSlot_of_failure (k := k.withString m env.kernelBuf name nameLimit)
    (k.machine.registers 5) hfirst.lt (cString_withString hname) hfirst.free h
  rw [scOpen, bind_of_ok (readRegister_of_lt (by decide) k),
    bind_of_ok (readRegister_of_lt (by decide) k), bind_apply,
    openBranches_slot hmode hfirst.lt hidx, bind_of_ok hrun, bind_of_ok hslot]
  rfl

theorem scOpen_of_success {ino : ℕ} (hpos : 0 ≤ env.newFd.toInt)
    (h : k.host.openReadWrite name env.openFails env.newFd
      = (env.newFd, k.host.setFd env.newFd (some (.file ino 0)))) :
    scOpen env k = .ok () (k.afterOpen env m name i ino (k.machine.registers 5)) := by
  have hslot := openSlot_of_success (k := k.withString m env.kernelBuf name nameLimit)
    (k.machine.registers 5) hfirst.lt (cString_withString hname) hpos h
  rw [scOpen, bind_of_ok (readRegister_of_lt (by decide) k),
    bind_of_ok (readRegister_of_lt (by decide) k), bind_apply,
    openBranches_slot hmode hfirst.lt hidx, bind_of_ok hrun, bind_of_ok hslot]
  rfl

end open_

/-- **`Open`.** A returning `Open` was refused outright, failed at the host, or filled the first
free slot. -/
theorem scOpen_eq_ok {env : Env} {k k' : Kernel} {u : Unit} (h : scOpen env k = .ok u k') :
    ((¬ModeOk (k.machine.registers 5) ∨ k.findIndexFree = -1) ∧ k' = { k with
      machine := k.machine.setReg 2 (-1), heap := k.heap.delete env.filenameopen }) ∨
    ∃ i name m, ModeOk (k.machine.registers 5) ∧ k.FirstFree i ∧
      k.machine.stringAt (k.machine.registers 4) nameLimit = some name ∧ k.machine.Alike m ∧
      ((k.host.openReadWrite name env.openFails env.newFd = (-1, k.host) ∧
        k' = k.afterOpenFailure env m name) ∨
      ∃ ino, k.host.dir name = some ino ∧ (k.host.content ino).length < offsetLimit ∧
        0 ≤ env.newFd.toInt ∧ k.host.fds env.newFd = none ∧
        (k.host.openReadWrite name env.openFails env.newFd).1 = env.newFd ∧
        k' = k.afterOpen env m name i ino (k.machine.registers 5)) := by
  by_cases hrefused : ¬ModeOk (k.machine.registers 5) ∨ k.findIndexFree = -1
  · rw [scOpen_refused hrefused] at h
    cases h
    exact Or.inl ⟨hrefused, rfl⟩
  · rw [not_or, not_not] at hrefused
    obtain ⟨hmode, hnotFull⟩ := hrefused
    rcases findIndexFree_cases k with ⟨hfull, -⟩ | ⟨i, hfirst, hidx⟩
    · exact absurd hfull hnotFull
    · right
      -- the name was read, or the call would not have returned
      have hread : ∃ p k₁, user2System env (k.machine.registers 4) (maxFileLength + 1) k
          = .ok p k₁ := by
        have h' := h
        rw [scOpen, bind_of_ok (readRegister_of_lt (by decide) k),
          bind_of_ok (readRegister_of_lt (by decide) k)] at h'
        obtain ⟨_, _, hbranches, -⟩ := bind_eq_ok.mp h'
        rw [openBranches_slot hmode hfirst.lt hidx] at hbranches
        obtain ⟨p, k₁, hp, -⟩ := bind_eq_ok.mp hbranches
        exact ⟨p, k₁, hp⟩
      obtain ⟨p, k₁, hrun⟩ := hread
      obtain ⟨-, name, m, hname, halike, rfl, rfl⟩ := user2System_eq_ok (by decide) hrun
      refine ⟨i, name, m, hmode, hfirst, hname, halike, ?_⟩
      rcases Host.openReadWrite_cases k.host name env.openFails env.newFd with
        hfail | ⟨ino, hdir, hlen, hpos, hnone, hok⟩
      · rw [scOpen_of_failure hmode hfirst hidx hname hrun hfail] at h
        cases h
        exact Or.inl ⟨hfail, rfl⟩
      · rw [scOpen_of_success hmode hfirst hidx hname hrun hpos hok] at h
        cases h
        exact Or.inr ⟨ino, hdir, hlen, hpos, hnone, by rw [hok], rfl⟩

/-! ## Create and Remove -/

section create

variable {env : Env} {k : Kernel} (name : Name)

/-- `FileSystem::Create` where the host does not refuse. -/
theorem fileSystemCreate_of_free (hok : env.openFails = false)
    (hfd : k.host.isFree env.newFd = true) :
    fileSystemCreate env name k = .ok true { k with
      host := ((k.host.openTruncate name env.openFails env.newFd).2.close env.newFd).2 } := by
  obtain ⟨ino, h', hopen, -, -, hfds⟩ := Host.openTruncate_of_free hfd name
  obtain ⟨hpos, -⟩ := Host.isFree_iff.mp hfd
  have hwrite : openForWrite env name k = .ok env.newFd { k with host := h' } := by
    rw [openForWrite, bind_of_ok (onHost_eq _ k), hok, hopen, bind_of_ok (assert_of_true hpos _)]
    rfl
  have hhost : h'.close env.newFd = (0, h'.setFd env.newFd none) :=
    Host.close_of_open (by simp [hfds])
  have hclose : close env.newFd { k with host := h' }
      = .ok () { k with host := h'.setFd env.newFd none } := by
    rw [close, bind_of_ok (onHost_eq _ _), hhost,
      assert_of_true (show (0 : ℤ) ≤ (0 : Word).toInt by decide)]
  rw [fileSystemCreate, bind_of_ok hwrite, if_neg (newFd_ne_neg_one hpos), bind_of_ok hclose, hok,
    hopen, hhost]
  rfl

/-- Where it does, `OpenForWrite` aborts. -/
theorem fileSystemCreate_refused
    (hrefused : env.openFails = true ∨ k.host.isFree env.newFd = false) :
    fileSystemCreate env name k = .error .assertFailed k := by
  have hwrite : openForWrite env name k = .error .assertFailed k := by
    rw [openForWrite, bind_of_ok (onHost_eq _ k), Host.openTruncate_refused hrefused]
    exact bind_of_error (assert_of_false (show ¬(0 : ℤ) ≤ (-1 : Word).toInt by decide) k)
  rw [fileSystemCreate, bind_of_error hwrite]

end create

section named

variable (env : Env) {k : Kernel} {name : Name}
  (hname : k.machine.stringAt (k.machine.registers 4) nameLimit = some name)

include hname

/-- The name of a call, fetched. -/
theorem user2System_name :
    ∃ m, k.machine.Alike m ∧ user2System env (k.machine.registers 4) (maxFileLength + 1) k
      = .ok env.kernelBuf (k.withString m env.kernelBuf name nameLimit) :=
  user2System_eq env (show (maxFileLength + 1 : Word).toNat + 1 < 2 ^ 31 by decide) hname

/-- `Create` of a name that can be read, where the host does not refuse. -/
theorem scCreate_of_free (hok : env.openFails = false) (hfd : k.host.isFree env.newFd = true) :
    ∃ m, k.machine.Alike m ∧ scCreate env k = .ok () { k with
      machine := m.setReg 2 0
      host := ((k.host.openTruncate name env.openFails env.newFd).2.close env.newFd).2
      heap := (k.heap.new env.kernelBuf (stringBlock name nameLimit)).delete env.kernelBuf } := by
  obtain ⟨m, halike, hfetch⟩ := user2System_name env hname
  refine ⟨m, halike, ?_⟩
  rw [scCreate, bind_of_ok (readRegister_of_lt (by decide) k), bind_of_ok hfetch,
    bind_of_ok (blockBytes_eq _ _), cString_withString hname,
    bind_of_ok (fileSystemCreate_of_free (k := k.withString m _ _ _) name hok hfd),
    bind_of_ok (setResult_eq _ _)]
  rfl

/-- Where the host refuses, the kernel aborts. -/
theorem scCreate_refused (hrefused : env.openFails = true ∨ k.host.isFree env.newFd = false) :
    ∃ k₁, scCreate env k = .error .assertFailed k₁ := by
  obtain ⟨m, -, hfetch⟩ := user2System_name env hname
  refine ⟨k.withString m env.kernelBuf name nameLimit, ?_⟩
  rw [scCreate, bind_of_ok (readRegister_of_lt (by decide) k), bind_of_ok hfetch,
    bind_of_ok (blockBytes_eq _ _), cString_withString hname,
    bind_of_error (fileSystemCreate_refused (k := k.withString m _ _ _) name hrefused)]

end named

/-- What `Remove` comes to: refused, or the outcome of the host's `unlink`. -/
def Kernel.removal (k : Kernel) (env : Env) (name : Name) : Word × Host :=
  if (k.withString k.machine env.kernelBuf name nameLimit).isOpen name = true then (-1, k.host)
  else k.host.unlink name env.unlinkFails

/-- The kernel after a `Remove`. -/
def Kernel.afterRemove (k : Kernel) (env : Env) (m : Machine) (name : Name) : Kernel :=
  { k with
    machine := m.setReg 2 (k.removal env name).1
    host := (k.removal env name).2
    heap := (k.heap.new env.kernelBuf (stringBlock name nameLimit)).delete env.kernelBuf }

private theorem removeNamed_eq (env : Env) (k : Kernel) (name : Name) :
    removeNamed env name k = .ok () { k with
      machine := k.machine.setReg 2
        (if k.isOpen name = true then (-1, k.host) else k.host.unlink name env.unlinkFails).1
      host := (if k.isOpen name = true then (-1, k.host)
        else k.host.unlink name env.unlinkFails).2 } := by
  rw [removeNamed, bind_of_ok (get_eq k)]
  split
  · exact setResult_eq _ k
  · have hret : (if decide ((k.host.unlink name env.unlinkFails).1 = 0) = false then (-1 : Word)
        else 0) = (k.host.unlink name env.unlinkFails).1 := by
      rcases k.host.unlink_cases name env.unlinkFails with h | h <;> rw [h] <;> rfl
    have hremove : fileSystemRemove env name k = .ok
        (decide ((k.host.unlink name env.unlinkFails).1 = 0))
        { k with host := (k.host.unlink name env.unlinkFails).2 } := rfl
    rw [bind_of_ok hremove, hret, setResult_eq]

/-- **`Remove`** of a name that can be read. -/
theorem scRemove_eq (env : Env) {k : Kernel} {name : Name}
    (hname : k.machine.stringAt (k.machine.registers 4) nameLimit = some name) :
    ∃ m, k.machine.Alike m ∧ scRemove env k = .ok () (k.afterRemove env m name) := by
  obtain ⟨m, halike, hfetch⟩ := user2System_name env hname
  refine ⟨m, halike, ?_⟩
  rw [scRemove, bind_of_ok (readRegister_of_lt (by decide) k), bind_of_ok hfetch,
    bind_of_ok (blockBytes_eq _ _), cString_withString hname, bind_of_ok (removeNamed_eq _ _ _)]
  rfl

/-! ## Close -/

/-- `Close` of a free slot. -/
theorem scClose_of_none {k : Kernel} (hid : (k.machine.registers 4).toNat < maxFile)
    (hslot : k.openfile (k.machine.registers 4).toNat = none) :
    scClose k = .ok () { k with machine := k.machine.setReg 2 (-1) } := by
  rw [scClose, bind_of_ok (readRegister_of_lt (by decide) k), bind_of_ok (openfileAt_of_lt hid k),
    hslot]
  exact setResult_eq _ k

theorem scClose_of_not_lt {k : Kernel} (hid : ¬(k.machine.registers 4).toNat < maxFile) :
    scClose k = .error .tableIndex k := by
  rw [scClose, bind_of_ok (readRegister_of_lt (by decide) k),
    bind_of_error (openfileAt_of_not_lt hid k)]

/-- The kernel after a `Close` of the open slot `id`. -/
def Kernel.afterClose (k : Kernel) (id : ℕ) (file : OpenFile) : Kernel :=
  { k with
    machine := k.machine.setReg 2 0
    openfile := Function.update k.openfile id none
    host := k.host.setFd file.file none
    heap := k.heap.delete file.object }

/-- `Close` of an open slot whose host descriptor is open. -/
theorem scClose_of_some {k : Kernel} {file : OpenFile} {handle : Handle}
    (hid : (k.machine.registers 4).toNat < maxFile)
    (hslot : k.openfile (k.machine.registers 4).toNat = some file)
    (hfd : k.host.fds file.file = some handle) :
    scClose k = .ok () (k.afterClose (k.machine.registers 4).toNat file) := by
  have hclose : close file.file k = .ok () { k with host := k.host.setFd file.file none } := by
    have hhost : k.host.close file.file = (0, k.host.setFd file.file none) := by
      rw [Host.close, hfd]
    rw [close, bind_of_ok (onHost_eq _ k), hhost,
      assert_of_true (show 0 ≤ (0 : Word).toInt by decide)]
  rw [scClose, bind_of_ok (readRegister_of_lt (by decide) k), bind_of_ok (openfileAt_of_lt hid k),
    hslot]
  simp only [deleteOpenFile]
  rw [bind_of_ok (by rw [bind_of_ok hclose, deleteBlock_eq]),
    bind_of_ok (setOpenfile_of_lt hid none _), setResult_eq]
  rfl

/-- `Close` of an open slot whose host descriptor is not open: the destructor asserts. -/
theorem scClose_of_closed {k : Kernel} {file : OpenFile}
    (hid : (k.machine.registers 4).toNat < maxFile)
    (hslot : k.openfile (k.machine.registers 4).toNat = some file)
    (hfd : k.host.fds file.file = none) : scClose k = .error .assertFailed k := by
  have hhost : k.host.close file.file = (-1, k.host) := by rw [Host.close, hfd]
  have hclose : close file.file k = .error .assertFailed k := by
    rw [close, bind_of_ok (onHost_eq _ k), hhost,
      assert_of_false (show ¬0 ≤ (-1 : Word).toInt by decide)]
  rw [scClose, bind_of_ok (readRegister_of_lt (by decide) k), bind_of_ok (openfileAt_of_lt hid k),
    hslot]
  simp only [deleteOpenFile]
  rw [bind_of_error (bind_of_error hclose)]

/-- **`Close`.** A returning `Close` found a free slot or closed an open one. -/
theorem scClose_eq_ok {k k' : Kernel} {u : Unit} (h : scClose k = .ok u k') :
    (k.machine.registers 4).toNat < maxFile ∧
      ((k.openfile (k.machine.registers 4).toNat = none ∧
          k' = { k with machine := k.machine.setReg 2 (-1) }) ∨
        ∃ file handle, k.openfile (k.machine.registers 4).toNat = some file ∧
          k.host.fds file.file = some handle ∧
          k' = k.afterClose (k.machine.registers 4).toNat file) := by
  by_cases hid : (k.machine.registers 4).toNat < maxFile
  · refine ⟨hid, ?_⟩
    cases hslot : k.openfile (k.machine.registers 4).toNat with
    | none =>
      rw [scClose_of_none hid hslot] at h
      cases h
      exact Or.inl ⟨rfl, rfl⟩
    | some file =>
      cases hfd : k.host.fds file.file with
      | none =>
        rw [scClose_of_closed hid hslot hfd] at h
        cases h
      | some handle =>
        rw [scClose_of_some hid hslot hfd] at h
        cases h
        exact Or.inr ⟨file, handle, rfl, hfd, rfl⟩
  · rw [scClose_of_not_lt hid] at h
    cases h

/-! ## Entries that are open on a regular file -/

theorem toInt_ofNat_of_lt {n : ℕ} (h : n < offsetLimit) : (BitVec.ofNat 32 n).toInt = n := by
  simp only [offsetLimit] at h
  rw [BitVec.toInt_eq_toNat_cond, BitVec.toNat_ofNat, Nat.mod_eq_of_lt (by omega),
    if_pos (by omega)]

theorem toInt_eq_toNat {v : Word} (h : v.toNat < offsetLimit) : v.toInt = v.toNat := by
  simp only [offsetLimit] at h
  rw [BitVec.toInt_eq_toNat_cond, if_pos (by omega)]

theorem toNat_lt_of_nonneg {v : Word} (h : 0 ≤ v.toInt) : v.toNat < offsetLimit := by
  have := v.isLt
  rw [BitVec.toInt_eq_toNat_cond] at h
  simp only [offsetLimit]
  split at h <;> omega

theorem storeChars_of_le {p : Ptr} {i : ℕ} {bytes : List Byte} {k : Kernel}
    (h : i + bytes.length ≤ (k.heap.bytes p).length) :
    storeChars p i bytes k
      = .ok () { k with heap := k.heap.set p (splice (k.heap.bytes p) i bytes) } := if_pos h

/-- The kernel with the host's position behind descriptor `fd` moved. -/
def Kernel.atPos (k : Kernel) (fd : Word) (ino pos : ℕ) : Kernel :=
  { k with host := k.host.setFd fd (some (.file ino pos)) }

@[simp] theorem Kernel.atPos_content (k : Kernel) (fd : Word) (ino pos : ℕ) :
    (k.atPos fd ino pos).host.content = k.host.content := rfl

@[simp] theorem Kernel.atPos_fds_self (k : Kernel) (fd : Word) (ino pos : ℕ) :
    (k.atPos fd ino pos).host.fds fd = some (.file ino pos) := Function.update_self _ _ _

@[simp] theorem Kernel.atPos_atPos (k : Kernel) (fd : Word) (ino pos pos' : ℕ) :
    (k.atPos fd ino pos).atPos fd ino pos' = k.atPos fd ino pos' := by
  simp only [Kernel.atPos, Host.setFd_setFd]

theorem Kernel.atPos_self {k : Kernel} {fd : Word} {ino pos : ℕ}
    (h : k.host.fds fd = some (.file ino pos)) : k.atPos fd ino pos = k := by
  rw [Kernel.atPos, Host.setFd, ← h, Function.update_eq_self]

section file

variable {env : Env} {k : Kernel} {file : OpenFile} {ino pos : ℕ}
  (hfd : k.host.fds file.file = some (.file ino pos))

include hfd

theorem lseek_start_eq {offset : Word} (hoff : offset.toNat < offsetLimit) :
    lseek file.file offset 0 k = .ok () (k.atPos file.file ino offset.toNat) := by
  rw [lseek, bind_of_ok (onHost_eq _ k), Host.lseek_start hfd hoff,
    assert_of_true (show 0 ≤ offset.toInt by rw [toInt_eq_toNat hoff]; omega)]
  rfl

/-- `Lseek` to a negative offset aborts. -/
theorem lseek_start_negative {offset : Word} (hneg : offset.toInt < 0) :
    lseek file.file offset 0 k = .error .assertFailed k := by
  have hfail : k.host.lseek file.file offset 0 = (-1, k.host) := by
    rw [Host.lseek, hfd]
    simp only [Host.seekBase]
    rw [if_neg (by omega)]
  rw [lseek, bind_of_ok (onHost_eq _ k), hfail,
    assert_of_false (show ¬0 ≤ (-1 : Word).toInt by decide)]

private theorem tell_eq (hpos : pos < offsetLimit) :
    tell file.file k = .ok (BitVec.ofNat 32 pos) k := by
  have hsame := Kernel.atPos_self hfd
  rw [Kernel.atPos] at hsame
  rw [tell, onHost_eq, Host.lseek_by_zero hfd 1 hpos]
  simp only [Host.seekBase, hsame]

/-- The length of the file, at which the host's position is left. -/
theorem length_eq (hlen : (k.host.content ino).length < offsetLimit) :
    file.length k = .ok (BitVec.ofNat 32 (k.host.content ino).length)
      (k.atPos file.file ino (k.host.content ino).length) := by
  have hseek : lseek file.file 0 2 k
      = .ok () (k.atPos file.file ino (k.host.content ino).length) := by
    rw [lseek, bind_of_ok (onHost_eq _ k), Host.lseek_by_zero hfd 2 hlen]
    simp only [Host.seekBase]
    rw [assert_of_true (by rw [toInt_ofNat_of_lt hlen]; omega)]
    rfl
  rw [OpenFile.length, bind_of_ok hseek, tell_eq (Kernel.atPos_fds_self _ _ _ _) hlen]

/-! ## Seek -/

theorem seekFile_eq {id pos' : Word} (hid : id.toNat < maxFile) (hpos' : pos'.toNat < offsetLimit) :
    seekFile id file pos' k = .ok () { k.atPos file.file ino pos'.toNat with
      openfile := Function.update k.openfile id.toNat
        (some { file with currentOffset := pos' }) } := by
  rw [seekFile, bind_of_ok (lseek_start_eq hfd hpos'),
    bind_of_ok (tell_eq (Kernel.atPos_fds_self _ _ _ _) hpos'), setOpenfile_of_lt hid,
    BitVec.ofNat_toNat]
  rfl

/-- The position `Seek(pos)` asks for. -/
def seekTarget (length : ℕ) (pos : Word) : Word := if pos = -1 then BitVec.ofNat 32 length else pos

/-- The kernel after a `Seek` to a position outside the file. -/
def Kernel.afterSeekRefused (k : Kernel) (file : OpenFile) (ino : ℕ) : Kernel :=
  { k.atPos file.file ino (k.host.content ino).length with machine := k.machine.setReg 2 (-1) }

/-- The kernel after a `Seek` to `pos`. -/
def Kernel.afterSeek (k : Kernel) (id : ℕ) (file : OpenFile) (ino : ℕ) (pos : Word) : Kernel :=
  { k.atPos file.file ino pos.toNat with
    machine := k.machine.setReg 2 pos
    openfile := Function.update k.openfile id (some { file with currentOffset := pos }) }

/-- The first `Length` of `Seek`, if there is one, moves only the host's position. -/
private theorem seekTarget_eq (hlen : (k.host.content ino).length < offsetLimit) (target : Word) :
    ∃ pos', (if target = -1 then file.length else return target : Kern Word) k
      = .ok (seekTarget (k.host.content ino).length target) (k.atPos file.file ino pos') := by
  rw [seekTarget]
  split
  · exact ⟨_, length_eq hfd hlen⟩
  · exact ⟨pos, by rw [Kernel.atPos_self hfd]; rfl⟩

theorem seekOpen_eq (hlen : (k.host.content ino).length < offsetLimit) {id : Word}
    (hid : id.toNat < maxFile) (target : Word) :
    seekOpen file target id k =
      if (seekTarget (k.host.content ino).length target).toNat ≤ (k.host.content ino).length then
        .ok () (k.afterSeek id.toNat file ino (seekTarget (k.host.content ino).length target))
      else .ok () (k.afterSeekRefused file ino) := by
  obtain ⟨pos', hfirst⟩ := seekTarget_eq hfd hlen target
  rw [seekOpen, bind_of_ok hfirst,
    bind_of_ok (length_eq (k := k.atPos file.file ino pos') (Kernel.atPos_fds_self _ _ _ _) hlen)]
  simp only [Kernel.atPos_content, Kernel.atPos_atPos, toInt_ofNat_of_lt hlen]
  generalize seekTarget (k.host.content ino).length target = t
  by_cases ht : t.toNat ≤ (k.host.content ino).length
  · have htlt : t.toNat < offsetLimit := Nat.lt_of_le_of_lt ht hlen
    rw [if_neg (by rw [toInt_eq_toNat htlt]; omega), if_pos ht,
      bind_of_ok (seekFile_eq (Kernel.atPos_fds_self _ _ _ _) hid htlt), setResult_eq,
      Kernel.atPos_atPos]
    rfl
  · rw [if_pos ?_, if_neg ht, setResult_eq]
    · rfl
    · by_cases hneg : t.toInt < 0
      · exact Or.inr hneg
      · left
        rw [toInt_eq_toNat (toNat_lt_of_nonneg (Int.not_lt.mp hneg))]
        omega

/-! ## Read and Write -/

/-- What a read of `n` bytes at the entry's offset delivers. -/
def Kernel.bytesAt (k : Kernel) (file : OpenFile) (ino n : ℕ) : List Byte :=
  ((k.host.content ino).drop file.currentOffset.toNat).take n

/-- The table after `n` bytes were read or written through the entry. -/
def Kernel.advanced (k : Kernel) (id : ℕ) (file : OpenFile) (n : Word) : ℕ → Option OpenFile :=
  Function.update k.openfile id (some { file with currentOffset := file.currentOffset + n })

omit hfd in
/-- The host's read at the entry's offset. -/
private theorem read_bytesAt (size : Word) (received : List Byte) :
    (k.atPos file.file ino file.currentOffset.toNat).host.read file.file size false received
      = (some (k.bytesAt file ino size.toNat), (k.atPos file.file ino
        (file.currentOffset.toNat + (k.bytesAt file ino size.toNat).length)).host) := by
  rw [Host.read_file (Kernel.atPos_fds_self _ _ _ _)]
  simp only [Kernel.atPos, Host.setFd_setFd]
  rfl

theorem readFile_eq {id : Word} (hid : id.toNat < maxFile)
    (hoff : file.currentOffset.toNat < offsetLimit) (hok : env.readFails = false) {into : Ptr}
    {size : Word} (hbuf : (k.bytesAt file ino size.toNat).length ≤ (k.heap.bytes into).length) :
    readFile env id file into size k
      = .ok (BitVec.ofNat 32 (k.bytesAt file ino size.toNat).length)
        { k.atPos file.file ino
            (file.currentOffset.toNat + (k.bytesAt file ino size.toNat).length) with
          heap := k.heap.set into (splice (k.heap.bytes into) 0 (k.bytesAt file ino size.toNat))
          openfile := k.advanced id.toNat file
            (BitVec.ofNat 32 (k.bytesAt file ino size.toNat).length) } := by
  have hpartial : readPartial env file.file into size (k.atPos file.file ino
      file.currentOffset.toNat) = .ok (BitVec.ofNat 32 (k.bytesAt file ino size.toNat).length)
        { k.atPos file.file ino
            (file.currentOffset.toNat + (k.bytesAt file ino size.toNat).length) with
          heap := k.heap.set into
            (splice (k.heap.bytes into) 0 (k.bytesAt file ino size.toNat)) } := by
    rw [readPartial, bind_of_ok (onHost_eq _ _), hok, read_bytesAt]
    simp only
    rw [bind_of_ok (storeChars_of_le (by rwa [Nat.zero_add]))]
    rfl
  rw [readFile, bind_of_ok (lseek_start_eq hfd hoff), bind_of_ok hpartial,
    bind_of_ok (setOpenfile_of_lt hid _ _)]
  rfl

/-- A read that returns has room for what it delivers. -/
theorem room_of_readFile {id : Word} (hoff : file.currentOffset.toNat < offsetLimit)
    (hok : env.readFails = false) {into : Ptr} {size v : Word} {k' : Kernel}
    (h : readFile env id file into size k = .ok v k') :
    (k.bytesAt file ino size.toNat).length ≤ (k.heap.bytes into).length := by
  by_contra hbuf
  rw [readFile, bind_of_ok (lseek_start_eq hfd hoff)] at h
  obtain ⟨_, _, hpartial, -⟩ := bind_eq_ok.mp h
  rw [readPartial, bind_of_ok (onHost_eq _ _), hok, read_bytesAt] at hpartial
  obtain ⟨_, _, hstore, -⟩ := bind_eq_ok.mp hpartial
  rw [storeChars, if_neg (by rw [Nat.zero_add]; exact hbuf)] at hstore
  cases hstore

/-- A read that fails takes the error code for a count. -/
theorem readFile_of_failure {id : Word} (hid : id.toNat < maxFile)
    (hoff : file.currentOffset.toNat < offsetLimit) (hfail : env.readFails = true) (into : Ptr)
    (size : Word) :
    readFile env id file into size k = .ok (-1)
      { k.atPos file.file ino file.currentOffset.toNat with
        openfile := k.advanced id.toNat file (-1) } := by
  have hpartial : readPartial env file.file into size (k.atPos file.file ino
      file.currentOffset.toNat) = .ok (-1) (k.atPos file.file ino file.currentOffset.toNat) := by
    rw [readPartial, bind_of_ok (onHost_eq _ _), hfail]
    rfl
  rw [readFile, bind_of_ok (lseek_start_eq hfd hoff), bind_of_ok hpartial,
    bind_of_ok (setOpenfile_of_lt hid _ _)]
  rfl

/-- The host after `data` was written through the entry. -/
def Kernel.hostWritten (k : Kernel) (file : OpenFile) (ino : ℕ) (data : List Byte) : Host :=
  (k.host.setContent ino (splice (k.host.content ino) file.currentOffset.toNat data)).setFd
    file.file (some (.file ino (file.currentOffset.toNat + data.length)))

private theorem writeFile_eq (hok : env.writeFails = false) {buffer : Ptr} {size : Word}
    (hbuf : size.toNat ≤ (k.heap.bytes buffer).length)
    (hpos : pos = file.currentOffset.toNat) (hroom : pos + size.toNat < offsetLimit) :
    writeFile env file.file buffer size k = .ok ()
      { k with host := k.hostWritten file ino ((k.heap.bytes buffer).take size.toNat) } := by
  have hlen : ((k.heap.bytes buffer).take size.toNat).length = size.toNat := by
    rw [List.length_take, Nat.min_eq_left hbuf]
  rw [writeFile, bind_of_ok (show takeChars buffer size.toNat k
    = .ok ((k.heap.bytes buffer).take size.toNat) k from if_pos hbuf),
    bind_of_ok (onHost_eq _ k), hok, Host.write_file hfd (by rw [hlen]; exact hroom), hlen,
    BitVec.ofNat_toNat, assert_of_true (BitVec.setWidth_eq _), hpos]
  simp only [Kernel.hostWritten, hlen]

omit hfd in
private theorem hostWritten_atPos (k : Kernel) (file : OpenFile) (ino pos : ℕ) (data : List Byte) :
    (k.atPos file.file ino pos).hostWritten file ino data = k.hostWritten file ino data := by
  simp only [Kernel.hostWritten, Kernel.atPos, Host.setFd, Host.setContent, Function.update_idem]

theorem writeOpenFile_eq {id : Word} (hid : id.toNat < maxFile)
    (hok : env.writeFails = false) {buffer : Ptr} {size : Word}
    (hbuf : size.toNat ≤ (k.heap.bytes buffer).length)
    (hroom : file.currentOffset.toNat + size.toNat < offsetLimit) :
    writeOpenFile env id file buffer size k = .ok size { k with
      host := k.hostWritten file ino ((k.heap.bytes buffer).take size.toNat)
      openfile := k.advanced id.toNat file size } := by
  have hoff : file.currentOffset.toNat < offsetLimit := by omega
  have hwrite := writeFile_eq
    (k := k.atPos file.file ino file.currentOffset.toNat) (Kernel.atPos_fds_self _ _ _ _) hok
    hbuf rfl hroom
  rw [writeOpenFile, bind_of_ok (lseek_start_eq hfd hoff), bind_of_ok hwrite, hostWritten_atPos,
    bind_of_ok (setOpenfile_of_lt hid _ _)]
  rfl

/-- A write that does not fit below the largest offset is not taken by the host. -/
theorem writeOpenFile_no_room {id : Word} {buffer : Ptr} {size : Word} (hsize : 0 ≤ size.toInt)
    (hroom : ¬file.currentOffset.toNat + size.toNat < offsetLimit) {v : Word} {k' : Kernel} :
    writeOpenFile env id file buffer size k ≠ .ok v k' := by
  intro h
  rw [writeOpenFile] at h
  obtain ⟨_, k₁, hseek, h⟩ := bind_eq_ok.mp h
  obtain ⟨_, k₂, hwrite, -⟩ := bind_eq_ok.mp h
  by_cases hoff : file.currentOffset.toNat < offsetLimit
  · rw [lseek_start_eq hfd hoff] at hseek
    cases hseek
    rw [writeFile] at hwrite
    obtain ⟨bytes, k₃, htake, hwrite⟩ := bind_eq_ok.mp hwrite
    rw [takeChars] at htake
    split at htake
    · rename_i hlen
      cases htake
      rw [bind_of_ok (onHost_eq _ _)] at hwrite
      have hfail : ((k.atPos file.file ino file.currentOffset.toNat).host.write file.file
          (((k.atPos file.file ino file.currentOffset.toNat).heap.bytes buffer).take size.toNat)
          env.writeFails).1 = -1 := by
        refine Host.write_no_room (Kernel.atPos_fds_self _ _ _ _) ?_ _
        rw [List.length_take, Nat.min_eq_left hlen]
        exact hroom
      rw [hfail, assert_of_false ?_] at hwrite
      · cases hwrite
      · rintro rfl
        exact absurd hsize (by decide)
    · cases htake
  · -- an offset that is negative as an `int`
    have hneg : file.currentOffset.toInt < 0 := by
      by_contra hpos
      exact hoff (toNat_lt_of_nonneg (Int.not_lt.mp hpos))
    rw [lseek_start_negative hfd hneg] at hseek
    cases hseek

/-- A write that returns had its bytes, was taken by the host, and fits below the largest offset. -/
theorem writeOpenFile_eq_ok {id : Word} {buffer : Ptr} {size v : Word} {k' : Kernel}
    (hsmall : (k.heap.bytes buffer).length < offsetLimit)
    (h : writeOpenFile env id file buffer size k = .ok v k') :
    size.toNat ≤ (k.heap.bytes buffer).length ∧ env.writeFails = false ∧
      file.currentOffset.toNat + size.toNat < offsetLimit := by
  have hbytes : size.toNat ≤ (k.heap.bytes buffer).length ∧
      (env.writeFails = true → size = -1) := by
    rw [writeOpenFile] at h
    obtain ⟨_, k₁, hseek, h⟩ := bind_eq_ok.mp h
    obtain ⟨_, k₂, hwrite, -⟩ := bind_eq_ok.mp h
    have hheap := keeps_lseek (f := Kernel.heap) (fun _ _ ↦ rfl) _ _ _ _ _ _ hseek
    rw [writeFile] at hwrite
    obtain ⟨bytes, k₃, htake, hwrite⟩ := bind_eq_ok.mp hwrite
    rw [takeChars, hheap] at htake
    split at htake
    · rename_i hlen
      refine ⟨hlen, fun hfail ↦ ?_⟩
      have hrefused : k₃.host.write file.file bytes true = (-1, k₃.host) := rfl
      by_contra hne
      rw [bind_of_ok (onHost_eq _ _), hfail, hrefused, assert_of_false (Ne.symm hne)] at hwrite
      cases hwrite
    · cases htake
  have hsize : 0 ≤ size.toInt := by
    rw [toInt_eq_toNat (Nat.lt_of_le_of_lt hbytes.1 hsmall)]
    omega
  refine ⟨hbytes.1, ?_, ?_⟩
  · cases hfail : env.writeFails with
    | false => rfl
    | true =>
      rw [hbytes.2 hfail] at hsize
      exact absurd hsize (by decide)
  · by_contra hroom
    exact writeOpenFile_no_room hfd hsize hroom h

end file

end Nachos
