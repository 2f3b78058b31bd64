import Nachos.Userprog.Exception

/-!
# What the parts of the kernel leave alone

Each primitive of the kernel touches one component of the state, and a view that ignores this
component is not changed by it. The rules below say so primitive by primitive, for an arbitrary
view `f`, and follow the program text from there: whatever a view ignores of the components a
handler works on, the handler keeps. `Keeps` speaks about calls that return.
-/

namespace Nachos

open Program

/-! ## Running the primitives -/

theorem onMachine_of_ok {α : Type} {x : Exec α} {k : Kernel} {a : α} {m : Machine}
    (h : x k.machine = .ok a m) : onMachine x k = .ok a { k with machine := m } := by
  rw [onMachine, h]

theorem readRegister_of_lt {i : ℕ} (h : i < numTotalRegs) (k : Kernel) :
    readRegister i k = .ok (k.machine.registers i) k := by
  rw [readRegister, onMachine, readReg_of_lt h]

theorem writeRegister_of_lt {i : ℕ} (h : i < numTotalRegs) (v : Word) (k : Kernel) :
    writeRegister i v k = .ok () { k with machine := k.machine.setReg i v } := by
  rw [writeRegister, onMachine, writeReg_of_lt h]

theorem setResult_eq (v : Word) (k : Kernel) :
    setResult v k = .ok () { k with machine := k.machine.setReg 2 v } :=
  writeRegister_of_lt (by decide) v k

theorem onHost_eq {α : Type} (f : Host → α × Host) (k : Kernel) :
    onHost f k = .ok (f k.host).1 { k with host := (f k.host).2 } := rfl

theorem get_eq (k : Kernel) : (get : Kern Kernel) k = .ok k k := rfl

theorem newBlock_eq (p : Ptr) (bytes : List Byte) (k : Kernel) :
    newBlock p bytes k = .ok () { k with heap := k.heap.new p bytes } := rfl

theorem deleteBlock_eq (p : Ptr) (k : Kernel) :
    deleteBlock p k = .ok () { k with heap := k.heap.delete p } := rfl

theorem blockBytes_eq (p : Ptr) (k : Kernel) : blockBytes p k = .ok (k.heap.bytes p) k := rfl

theorem assert_of_true {c : Prop} [Decidable c] (h : c) (k : Kernel) : assert c k = .ok () k := by
  rw [assert, if_pos h]
  rfl

theorem assert_of_false {c : Prop} [Decidable c] (h : ¬c) (k : Kernel) :
    assert c k = .error .assertFailed k := by
  rw [assert, if_neg h]
  rfl

theorem openfileAt_of_lt {id : Word} (h : id.toNat < maxFile) (k : Kernel) :
    openfileAt id k = .ok (k.openfile id.toNat) k := if_pos h

theorem openfileAt_of_not_lt {id : Word} (h : ¬id.toNat < maxFile) (k : Kernel) :
    openfileAt id k = .error .tableIndex k := if_neg h

theorem setOpenfile_of_lt {id : Word} (h : id.toNat < maxFile) (file : Option OpenFile)
    (k : Kernel) : setOpenfile id file k
      = .ok () { k with openfile := Function.update k.openfile id.toNat file } := if_pos h

/-! ## Views -/

section ignores

variable {τ : Type} (f : Kernel → τ)

/-- The view does not see the use and dirty bits that a translation sets. -/
def IgnoresTables : Prop :=
  ∀ k addr size writing a tlb pageTable,
    k.machine.translate addr size writing = .success a tlb pageTable →
      f { k with machine := k.machine.setTables tlb pageTable } = f k

/-- The view does not see the contents of user memory. -/
def IgnoresMemory : Prop :=
  ∀ k a v, f { k with machine := k.machine.store a 1 v } = f k

/-- The view does not see `r2`. -/
def IgnoresResult : Prop := ∀ k v, f { k with machine := k.machine.setReg 2 v } = f k

def IgnoresHeap : Prop := ∀ k h, f { k with heap := h } = f k

/-- The view does not see what is stored in a block. -/
def IgnoresStores : Prop := ∀ k p bytes, f { k with heap := k.heap.set p bytes } = f k

def IgnoresHost : Prop := ∀ k h, f { k with host := h } = f k

def IgnoresConsole : Prop :=
  ∀ k input output, f { k with consoleIn := input, consoleOut := output } = f k

def IgnoresOpenfile : Prop := ∀ k t, f { k with openfile := t } = f k

def IgnoresSocket : Prop := ∀ k t, f { k with socket := t } = f k

end ignores

variable {τ : Type} {f : Kernel → τ} {env : Env}

theorem IgnoresHeap.stores (hf : IgnoresHeap f) : IgnoresStores f := fun k _ _ ↦ hf k _

/-! ## Machine -/

theorem keeps_get : Keeps f (get : Kern Kernel) := by
  intro k a k' h
  cases h
  rfl

theorem onMachine_eq_ok {α : Type} {x : Exec α} {k k' : Kernel} {a : α}
    (h : onMachine x k = .ok a k') :
    ∃ m, x k.machine = .ok a m ∧ k' = { k with machine := m } := by
  rw [onMachine] at h
  split at h
  · rename_i b m hx
    cases h
    exact ⟨m, hx, rfl⟩
  · cases h
  · cases h

theorem keeps_readRegister (i : ℕ) : Keeps f (readRegister i) := by
  intro k v k' h
  rw [readRegister] at h
  obtain ⟨m, hm, rfl⟩ := onMachine_eq_ok h
  rw [readReg] at hm
  split at hm <;> cases hm
  rfl

theorem keeps_setResult (hf : IgnoresResult f) (v : Word) : Keeps f (setResult v) := by
  intro k u k' h
  rw [setResult, writeRegister] at h
  obtain ⟨m, hm, rfl⟩ := onMachine_eq_ok h
  rw [writeReg_of_lt (by decide)] at hm
  cases hm
  exact hf k v

theorem keeps_readMem (hf : IgnoresTables f) (addr : Word) (size : ℕ) :
    Keeps f (onMachine (readMem addr size)) := by
  intro k v k' h
  obtain ⟨m, hm, rfl⟩ := onMachine_eq_ok h
  obtain ⟨_, _, _, ht, rfl⟩ := readMem_eq_ok hm
  exact hf k _ _ _ _ _ _ ht

theorem keeps_writeMem (hf : IgnoresTables f) (hm : IgnoresMemory f) (addr value : Word) :
    Keeps f (onMachine (writeMem addr 1 value)) := by
  intro k v k' h
  obtain ⟨m, hw, rfl⟩ := onMachine_eq_ok h
  obtain ⟨a, tlb, pageTable, ht, rfl⟩ := writeMem_eq_ok hw
  exact (hm { k with machine := k.machine.setTables tlb pageTable } a value).trans
    (hf k _ _ _ _ _ _ ht)

/-! ## Buffers -/

private theorem keeps_newBlock (hf : IgnoresHeap f) (p : Ptr) (bytes : List Byte) :
    Keeps f (newBlock p bytes) := by
  intro k u k' h
  cases h
  exact hf k _

theorem keeps_newChars (hf : IgnoresHeap f) (p : Ptr) (n : Word) (init : ℕ → Byte) :
    Keeps f (newChars p n init) :=
  Keeps.ite (fun _ ↦ Keeps.throw _) fun _ ↦ (keeps_newBlock hf _ _).bind fun _ ↦ Keeps.pure _

theorem keeps_deleteBlock (hf : IgnoresHeap f) (p : Ptr) : Keeps f (deleteBlock p) := by
  intro k u k' h
  cases h
  exact hf k _

theorem keeps_blockBytes (p : Ptr) : Keeps f (blockBytes p) :=
  keeps_get.bind fun _ ↦ Keeps.pure _

theorem keeps_loadChar (p : Ptr) (i : ℕ) : Keeps f (loadChar p i) := by
  intro k c k' h
  rw [loadChar] at h
  split at h <;> cases h
  rfl

theorem keeps_takeChars (p : Ptr) (n : ℕ) : Keeps f (takeChars p n) := by
  intro k c k' h
  rw [takeChars] at h
  split at h <;> cases h
  rfl

theorem keeps_storeChars (hf : IgnoresStores f) (p : Ptr) (i : ℕ) (bytes : List Byte) :
    Keeps f (storeChars p i bytes) := by
  intro k u k' h
  rw [storeChars] at h
  split at h <;> cases h
  exact hf k _ _

theorem keeps_copyFromUser (hh : IgnoresStores f) (ht : IgnoresTables f) (virtAddr : Word) (p : Ptr)
    (i rest : ℕ) : Keeps f (copyFromUser virtAddr p i rest) := by
  induction rest generalizing i with
  | zero => exact Keeps.pure _
  | succ rest ih =>
    exact (keeps_readMem ht _ _).bind fun _ ↦ (keeps_storeChars hh _ _ _).bind fun _ ↦
      Keeps.ite (fun _ ↦ Keeps.pure _) fun _ ↦ ih (i + 1)

theorem keeps_user2System (hh : IgnoresHeap f) (ht : IgnoresTables f) (virtAddr limit : Word) :
    Keeps f (user2System env virtAddr limit) :=
  (keeps_newChars hh _ _ _).bind fun _ ↦ (keeps_copyFromUser hh.stores ht _ _ _ _).bind fun _ ↦
    Keeps.pure _

private theorem keeps_copyToUser (ht : IgnoresTables f) (hm : IgnoresMemory f)
    {char : ℕ → Kern Byte} (hchar : ∀ i, Keeps f (char i)) (virtAddr : Word) (i rest : ℕ) :
    Keeps f (copyToUser virtAddr char i rest) := by
  induction rest generalizing i with
  | zero => exact Keeps.pure _
  | succ rest ih =>
    exact (hchar i).bind fun _ ↦ (keeps_writeMem ht hm _ _).bind fun _ ↦
      Keeps.ite (fun _ ↦ Keeps.pure _) fun _ ↦ ih (i + 1)

theorem keeps_system2User (ht : IgnoresTables f) (hm : IgnoresMemory f) {char : ℕ → Kern Byte}
    (hchar : ∀ i, Keeps f (char i)) (virtAddr len : Word) :
    Keeps f (system2User virtAddr len char) :=
  Keeps.ite (fun _ ↦ Keeps.pure _) fun _ ↦ keeps_copyToUser ht hm hchar _ _ _

theorem keeps_copyBack (ht : IgnoresTables f) (hm : IgnoresMemory f) (virtAddr len : Word)
    (p : Ptr) : Keeps f (system2User virtAddr len (loadChar p)) :=
  keeps_system2User ht hm (keeps_loadChar p) _ _

/-! ## Host and console -/

theorem keeps_onHost {α : Type} (hf : IgnoresHost f) (g : Host → α × Host) :
    Keeps f (onHost g) := by
  intro k a k' h
  cases h
  exact hf k _

theorem keeps_assert (c : Prop) [Decidable c] : Keeps f (assert c) :=
  Keeps.ite (fun _ ↦ Keeps.pure _) fun _ ↦ Keeps.throw _

theorem keeps_lseek (hf : IgnoresHost f) (fd offset : Word) (whence : ℕ) :
    Keeps f (lseek fd offset whence) :=
  (keeps_onHost hf _).bind fun _ ↦ keeps_assert _

theorem keeps_tell (hf : IgnoresHost f) (fd : Word) : Keeps f (tell fd) := keeps_onHost hf _

theorem keeps_close (hf : IgnoresHost f) (fd : Word) : Keeps f (close fd) :=
  (keeps_onHost hf _).bind fun _ ↦ keeps_assert _

theorem keeps_length (hf : IgnoresHost f) (file : OpenFile) : Keeps f file.length :=
  (keeps_lseek hf _ _ _).bind fun _ ↦ keeps_tell hf _

private theorem keeps_readPartial (hf : IgnoresHost f) (hh : IgnoresStores f) (fd : Word)
    (buffer : Ptr) (nBytes : Word) : Keeps f (readPartial env fd buffer nBytes) := by
  refine (keeps_onHost hf _).bind fun bytes ↦ ?_
  cases bytes with
  | none => exact Keeps.pure _
  | some bytes => exact (keeps_storeChars hh _ _ _).bind fun _ ↦ Keeps.pure _

private theorem keeps_writeFile (hf : IgnoresHost f) (fd : Word) (buffer : Ptr) (nBytes : Word) :
    Keeps f (writeFile env fd buffer nBytes) :=
  (keeps_takeChars _ _).bind fun _ ↦ (keeps_onHost hf _).bind fun _ ↦ keeps_assert _

theorem keeps_getChar (hf : IgnoresConsole f) : Keeps f getChar := by
  intro k c k' h
  rw [getChar] at h
  split at h <;> cases h
  exact hf k _ _

private theorem keeps_getString (hf : IgnoresConsole f) (hh : IgnoresStores f) (buffer : Ptr)
    (size : Word) : Keeps f (getString buffer size) := by
  have hloop : ∀ rest i, Keeps f (getStringLoop buffer i rest) := by
    intro rest
    induction rest with
    | zero => intro i; exact Keeps.pure _
    | succ rest ih =>
      intro i
      exact (keeps_getChar hf).bind fun _ ↦ Keeps.ite (fun _ ↦ Keeps.pure _) fun _ ↦
        (keeps_storeChars hh _ _ _).bind fun _ ↦ ih (i + 1)
  exact (hloop _ _).bind fun _ ↦ (keeps_storeChars hh _ _ _).bind fun _ ↦ Keeps.pure _

private theorem keeps_putString (hf : IgnoresConsole f) (buffer : Ptr) (size : Word) :
    Keeps f (putString buffer size) := by
  refine (keeps_takeChars _ _).bind fun bytes ↦ Keeps.bind ?_ fun _ ↦ Keeps.pure _
  intro k u k' h
  cases h
  exact hf k _ _

/-! ## Tables -/

theorem keeps_openfileAt (id : Word) : Keeps f (openfileAt id) := by
  intro k a k' h
  rw [openfileAt] at h
  split at h <;> cases h
  rfl

theorem keeps_deref {α : Type} (a : Option α) : Keeps f (deref a) := by
  cases a with
  | none => exact Keeps.throw _
  | some a => exact Keeps.pure _

theorem keeps_setOpenfile (hf : IgnoresOpenfile f) (id : Word) (file : Option OpenFile) :
    Keeps f (setOpenfile id file) := by
  intro k a k' h
  rw [setOpenfile] at h
  split at h <;> cases h
  exact hf k _

theorem keeps_setSocket (hf : IgnoresSocket f) (pos id : Word) : Keeps f (setSocket pos id) := by
  intro k a k' h
  rw [setSocket] at h
  split at h <;> cases h
  exact hf k _

/-! ## Open files

Reading, writing and seeking put an entry back with another offset. A view that ignores offsets
does not notice, provided the entry was the one in the table; nothing in between changes the
table, since that is a view that ignores the host and the heap. -/

/-- The view does not see the offset of an open file. -/
def IgnoresOffsets (f : Kernel → τ) : Prop :=
  ∀ (k : Kernel) (i : ℕ) (file : OpenFile) (offset : Word), k.openfile i = some file →
    f { k with
      openfile := Function.update k.openfile i (some { file with currentOffset := offset }) } = f k

private theorem setOpenfile_eq_ok {id : Word} {file : Option OpenFile} {k k' : Kernel} {u : Unit}
    (h : setOpenfile id file k = .ok u k') :
    id.toNat < maxFile ∧ k' = { k with openfile := Function.update k.openfile id.toNat file } := by
  rw [setOpenfile] at h
  split at h
  · rename_i hid
    cases h
    exact ⟨hid, rfl⟩
  · cases h

theorem openfileAt_eq_ok {id : Word} {slot : Option OpenFile} {k k' : Kernel}
    (h : openfileAt id k = .ok slot k') :
    id.toNat < maxFile ∧ slot = k.openfile id.toNat ∧ k' = k := by
  rw [openfileAt] at h
  split at h
  · rename_i hid
    cases h
    exact ⟨hid, rfl, rfl⟩
  · cases h

theorem deref_eq_ok {α : Type} {slot : Option α} {a : α} {k k' : Kernel}
    (h : deref slot k = .ok a k') : slot = some a ∧ k' = k := by
  cases slot with
  | none => cases h
  | some b =>
    cases h
    exact ⟨rfl, rfl⟩

/-- The slot holds this entry. -/
abbrev SlotIs (id : Word) (file : OpenFile) (k : Kernel) : Prop :=
  k.openfile id.toNat = some file

theorem keepsFrom_setOffset (hf : IgnoresOffsets f) (id : Word) (file : OpenFile) (offset : Word) :
    KeepsFrom (SlotIs id file) f
      (setOpenfile id (some { file with currentOffset := offset })) := by
  intro k hslot u k' h
  obtain ⟨-, rfl⟩ := setOpenfile_eq_ok h
  exact hf k id.toNat file offset hslot

section offsets

variable (hf : IgnoresOffsets f) (hhost : IgnoresHost f)

include hf hhost

private theorem keepsFrom_seekFile (id : Word) (file : OpenFile) (pos : Word) :
    KeepsFrom (SlotIs id file) f (seekFile id file pos) := by
  have hhost' : IgnoresHost Kernel.openfile := fun _ _ ↦ rfl
  refine KeepsFrom.bind (v := Kernel.openfile) (p := fun t ↦ t id.toNat = some file)
    (keeps_lseek hhost _ _ _) (keeps_lseek hhost' _ _ _) fun _ ↦ ?_
  refine KeepsFrom.bind (v := Kernel.openfile) (p := fun t ↦ t id.toNat = some file)
    (keeps_tell hhost _) (keeps_tell hhost' _) fun offset ↦ ?_
  exact keepsFrom_setOffset hf id file offset

private theorem keepsFrom_readFile (hstores : IgnoresStores f) (id : Word) (file : OpenFile)
    (into : Ptr)
    (numBytes : Word) : KeepsFrom (SlotIs id file) f (readFile env id file into numBytes) := by
  have hhost' : IgnoresHost Kernel.openfile := fun _ _ ↦ rfl
  have hstores' : IgnoresStores Kernel.openfile := fun _ _ _ ↦ rfl
  refine KeepsFrom.bind (v := Kernel.openfile) (p := fun t ↦ t id.toNat = some file)
    (keeps_lseek hhost _ _ _) (keeps_lseek hhost' _ _ _) fun _ ↦ ?_
  refine KeepsFrom.bind (v := Kernel.openfile) (p := fun t ↦ t id.toNat = some file)
    (keeps_readPartial hhost hstores _ _ _) (keeps_readPartial hhost' hstores' _ _ _)
    fun numRead ↦ ?_
  exact (keepsFrom_setOffset hf id file _).andThen fun _ ↦ Keeps.pure _

private theorem keepsFrom_writeOpenFile (id : Word) (file : OpenFile) (buffer : Ptr)
    (numBytes : Word) :
    KeepsFrom (SlotIs id file) f (writeOpenFile env id file buffer numBytes) := by
  have hhost' : IgnoresHost Kernel.openfile := fun _ _ ↦ rfl
  refine KeepsFrom.bind (v := Kernel.openfile) (p := fun t ↦ t id.toNat = some file)
    (keeps_lseek hhost _ _ _) (keeps_lseek hhost' _ _ _) fun _ ↦ ?_
  refine KeepsFrom.bind (v := Kernel.openfile) (p := fun t ↦ t id.toNat = some file)
    (keeps_writeFile hhost _ _ _) (keeps_writeFile hhost' _ _ _) fun _ ↦ ?_
  exact (keepsFrom_setOffset hf id file _).andThen fun _ ↦ Keeps.pure _

omit hf hhost in
/-- An operation on the entry of a slot, from the slot's index. -/
private theorem keeps_slotThen {α : Type} {id : Word} {g : OpenFile → Kern α}
    (hg : ∀ file, KeepsFrom (SlotIs id file) f (g file)) :
    Keeps f (do let slot ← openfileAt id; let file ← deref slot; g file) := by
  intro k a k' h
  obtain ⟨slot, k₁, hslot, h⟩ := bind_eq_ok.mp h
  obtain ⟨-, rfl, rfl⟩ := openfileAt_eq_ok hslot
  obtain ⟨file, k₂, hderef, hrun⟩ := bind_eq_ok.mp h
  obtain ⟨hfile, rfl⟩ := deref_eq_ok hderef
  exact hg file k₂ hfile a k' hrun

theorem keeps_sysRead (hstores : IgnoresStores f) (hconsole : IgnoresConsole f) (buffer : Ptr)
    (charCount fileId : Word) : Keeps f (sysRead env buffer charCount fileId) :=
  Keeps.ite (fun _ ↦ keeps_getString hconsole hstores _ _) fun _ ↦
    keeps_slotThen fun file ↦ keepsFrom_readFile hf hhost hstores fileId file buffer charCount

theorem keeps_sysWrite (hconsole : IgnoresConsole f) (buffer : Ptr) (charCount fileId : Word) :
    Keeps f (sysWrite env buffer charCount fileId) :=
  Keeps.ite (fun _ ↦ keeps_putString hconsole _ _) fun _ ↦
    keeps_slotThen fun file ↦ keepsFrom_writeOpenFile hf hhost fileId file buffer charCount

end offsets

/-! ## Handlers -/

theorem keeps_fileSystemCreate (hf : IgnoresHost f) (name : Name) :
    Keeps f (fileSystemCreate env name) :=
  ((keeps_onHost hf _).bind fun _ ↦ (keeps_assert _).bind fun _ ↦ Keeps.pure _).bind fun _ ↦
    Keeps.ite (fun _ ↦ Keeps.pure _) fun _ ↦ (keeps_close hf _).bind fun _ ↦ Keeps.pure _

theorem keeps_removeNamed (hf : IgnoresHost f) (hresult : IgnoresResult f) (name : Name) :
    Keeps f (removeNamed env name) :=
  keeps_get.bind fun _ ↦ Keeps.ite (fun _ ↦ keeps_setResult hresult _) fun _ ↦
    ((keeps_onHost hf _).bind fun _ ↦ Keeps.pure _).bind fun _ ↦ keeps_setResult hresult _

/-- The view ignores what any call may change: user memory, the result, buffers, the host and the
console. What is left are the registers and the two tables. -/
structure IgnoresEffects (f : Kernel → τ) : Prop where
  tables : IgnoresTables f
  memory : IgnoresMemory f
  result : IgnoresResult f
  heap : IgnoresHeap f
  host : IgnoresHost f
  console : IgnoresConsole f

section handlers

variable (hf : IgnoresEffects f)

include hf

private theorem keeps_fileSystemOpen (filename : Ptr) (type : Word) :
    Keeps f (fileSystemOpen env filename type) :=
  (keeps_blockBytes _).bind fun _ ↦ (keeps_onHost hf.host _).bind fun _ ↦
    Keeps.ite (fun _ ↦ Keeps.pure _) fun _ ↦ (keeps_newBlock hf.heap _ _).bind fun _ ↦ Keeps.pure _

private theorem keeps_deleteOpenFile (file : OpenFile) : Keeps f (deleteOpenFile file) :=
  (keeps_close hf.host _).bind fun _ ↦ keeps_deleteBlock hf.heap _

private theorem keeps_scCreate : Keeps f (scCreate env) :=
  (keeps_readRegister _).bind fun _ ↦ (keeps_user2System hf.heap hf.tables _ _).bind fun _ ↦
    (keeps_blockBytes _).bind fun _ ↦ (keeps_fileSystemCreate hf.host _).bind fun _ ↦
      (keeps_setResult hf.result _).bind fun _ ↦ keeps_deleteBlock hf.heap _

private theorem keeps_scOpen (hopen : IgnoresOpenfile f) : Keeps f (scOpen env) := by
  refine (keeps_readRegister _).bind fun _ ↦ (keeps_readRegister _).bind fun _ ↦ Keeps.bind ?_
    fun _ ↦ keeps_deleteBlock hf.heap _
  refine Keeps.ite (fun _ ↦ (keeps_setResult hf.result _).bind fun _ ↦ Keeps.pure _) fun _ ↦
    keeps_get.bind fun _ ↦ Keeps.ite
      (fun _ ↦ (keeps_setResult hf.result _).bind fun _ ↦ Keeps.pure _) fun _ ↦
        (keeps_user2System hf.heap hf.tables _ _).bind fun _ ↦ Keeps.bind ?_ fun _ ↦ Keeps.pure _
  exact (keeps_fileSystemOpen hf _ _).bind fun _ ↦ (keeps_setOpenfile hopen _ _).bind fun _ ↦
    keeps_setResult hf.result _

private theorem keeps_scClose (hopen : IgnoresOpenfile f) : Keeps f scClose := by
  refine (keeps_readRegister _).bind fun _ ↦ (keeps_openfileAt _).bind fun slot ↦ ?_
  cases slot with
  | none => exact keeps_setResult hf.result _
  | some file =>
    exact (keeps_deleteOpenFile hf file).bind fun _ ↦ (keeps_setOpenfile hopen _ _).bind fun _ ↦
      keeps_setResult hf.result _

private theorem keeps_scRemove : Keeps f (scRemove env) :=
  (keeps_readRegister _).bind fun _ ↦ (keeps_user2System hf.heap hf.tables _ _).bind fun _ ↦
    (keeps_blockBytes _).bind fun _ ↦ (keeps_removeNamed hf.host hf.result _).bind fun _ ↦
      keeps_deleteBlock hf.heap _

theorem keeps_scRead (hoff : IgnoresOffsets f) : Keeps f (scRead env) := by
  have hread : ∀ buffer charCount fileId, Keeps f (sysRead env buffer charCount fileId) :=
    keeps_sysRead hoff hf.host hf.heap.stores hf.console
  refine (keeps_readRegister _).bind fun _ ↦ (keeps_readRegister _).bind fun _ ↦
    (keeps_readRegister _).bind fun _ ↦ (keeps_newChars hf.heap _ _ _).bind fun _ ↦
      Keeps.bind ?_ fun _ ↦ keeps_deleteBlock hf.heap _
  refine Keeps.ite (fun _ ↦ (keeps_setResult hf.result _).bind fun _ ↦ Keeps.pure _) fun _ ↦
    Keeps.ite (fun _ ↦ ?_) fun _ ↦ ?_
  · exact (hread _ _ _).bind fun _ ↦ (keeps_setResult hf.result _).bind fun _ ↦
      (keeps_copyBack hf.tables hf.memory _ _ _).bind fun _ ↦ Keeps.pure _
  · exact (keeps_user2System hf.heap hf.tables _ _).bind fun _ ↦ (hread _ _ _).bind fun _ ↦
      (keeps_setResult hf.result _).bind fun _ ↦
        (keeps_copyBack hf.tables hf.memory _ _ _).bind fun _ ↦ Keeps.pure _

private theorem keeps_writeOut (hoff : IgnoresOffsets f) (bufferAddr size fileId : Word) :
    Keeps f (writeOut env bufferAddr size fileId) :=
  (keeps_user2System hf.heap hf.tables _ _).bind fun _ ↦
    (keeps_sysWrite hoff hf.host hf.console _ _ _).bind fun _ ↦
      (keeps_setResult hf.result _).bind fun _ ↦
        (keeps_copyBack hf.tables hf.memory _ _ _).bind fun _ ↦ Keeps.pure _

theorem keeps_scWrite (hoff : IgnoresOffsets f) : Keeps f (scWrite env) := by
  refine (keeps_readRegister _).bind fun _ ↦ (keeps_readRegister _).bind fun _ ↦
    (keeps_readRegister _).bind fun _ ↦ (keeps_newChars hf.heap _ _ _).bind fun _ ↦
      Keeps.bind ?_ fun _ ↦ keeps_deleteBlock hf.heap _
  refine Keeps.ite (fun _ ↦ (keeps_setResult hf.result _).bind fun _ ↦ Keeps.pure _) fun _ ↦
    Keeps.ite (fun _ ↦ keeps_writeOut hf hoff _ _ _) fun _ ↦ ?_
  exact (keeps_openfileAt _).bind fun _ ↦ (keeps_deref _).bind fun _ ↦
    Keeps.ite (fun _ ↦ (keeps_setResult hf.result _).bind fun _ ↦ Keeps.pure _) fun _ ↦
      keeps_writeOut hf hoff _ _ _

private theorem keepsFrom_seekOpen (hoff : IgnoresOffsets f) (file : OpenFile) (pos fileId : Word) :
    KeepsFrom (SlotIs fileId file) f (seekOpen file pos fileId) := by
  have hhost' : IgnoresHost Kernel.openfile := fun _ _ ↦ rfl
  refine KeepsFrom.bind (v := Kernel.openfile) (p := fun t ↦ t fileId.toNat = some file)
    (Keeps.ite (fun _ ↦ keeps_length hf.host _) fun _ ↦ Keeps.pure _)
    (Keeps.ite (fun _ ↦ keeps_length hhost' _) fun _ ↦ Keeps.pure _) fun pos ↦ ?_
  refine KeepsFrom.bind (v := Kernel.openfile) (p := fun t ↦ t fileId.toNat = some file)
    (keeps_length hf.host _) (keeps_length hhost' _) fun length ↦ ?_
  by_cases hpos : length.toInt < pos.toInt ∨ pos.toInt < 0
  · rw [if_pos hpos]
    exact (keeps_setResult hf.result _).from
  · rw [if_neg hpos]
    exact (keepsFrom_seekFile hoff hf.host fileId file pos).andThen fun _ ↦
      keeps_setResult hf.result _

private theorem keeps_scSeek (hoff : IgnoresOffsets f) : Keeps f scSeek := by
  refine (keeps_readRegister _).bind fun pos ↦ (keeps_readRegister _).bind fun fileId ↦
    Keeps.ite (fun _ ↦ keeps_setResult hf.result _) fun _ ↦ ?_
  intro k u k' h
  obtain ⟨slot, k₁, hslot, h⟩ := bind_eq_ok.mp h
  obtain ⟨-, rfl, rfl⟩ := openfileAt_eq_ok hslot
  cases hs : k₁.openfile fileId.toNat with
  | none =>
    rw [hs] at h
    exact keeps_setResult hf.result _ k₁ u k' h
  | some file =>
    rw [hs] at h
    exact keepsFrom_seekOpen hf hoff file pos fileId k₁ hs u k' h

private theorem keeps_scSocketTCP (hsocket : IgnoresSocket f) : Keeps f (scSocketTCP env) :=
  keeps_get.bind fun _ ↦ Keeps.ite (fun _ ↦ keeps_setResult hf.result _) fun _ ↦
    (keeps_onHost hf.host _).bind fun _ ↦ Keeps.ite (fun _ ↦ keeps_setResult hf.result _) fun _ ↦
      (keeps_setSocket hsocket _ _).bind fun _ ↦ keeps_setResult hf.result _

private theorem keeps_scCloseSoc (hsocket : IgnoresSocket f) : Keeps f scCloseSoc :=
  (keeps_readRegister _).bind fun _ ↦ Keeps.ite (fun _ ↦ keeps_setResult hf.result _) fun _ ↦
    keeps_get.bind fun _ ↦ Keeps.ite
      (fun _ ↦ (keeps_setSocket hsocket _ _).bind fun _ ↦ (keeps_onHost hf.host _).bind fun _ ↦
        keeps_setResult hf.result _) fun _ ↦ keeps_setResult hf.result _

private theorem keeps_scConnect : Keeps f (scConnect env) :=
  (keeps_readRegister _).bind fun _ ↦ Keeps.ite (fun _ ↦ keeps_setResult hf.result _) fun _ ↦
    (keeps_readRegister _).bind fun _ ↦ (keeps_readRegister _).bind fun _ ↦
      (keeps_user2System hf.heap hf.tables _ _).bind fun _ ↦ (keeps_blockBytes _).bind fun _ ↦
        (keeps_onHost hf.host _).bind fun _ ↦ (keeps_setResult hf.result _).bind fun _ ↦
          keeps_deleteBlock hf.heap _

private theorem keeps_scSend : Keeps f (scSend env) :=
  (keeps_readRegister _).bind fun _ ↦ Keeps.ite (fun _ ↦ keeps_setResult hf.result _) fun _ ↦
    (keeps_readRegister _).bind fun _ ↦ (keeps_user2System hf.heap hf.tables _ _).bind fun _ ↦
      (keeps_readRegister _).bind fun _ ↦ (keeps_blockBytes _).bind fun _ ↦
        (keeps_onHost hf.host _).bind fun _ ↦ (keeps_setResult hf.result _).bind fun _ ↦
          keeps_deleteBlock hf.heap _

omit hf in
theorem keeps_charOf (bytes : List Byte) (i : ℕ) : Keeps f (charOf bytes i) := by
  intro k c k' h
  rw [charOf] at h
  split at h <;> cases h
  rfl

private theorem keeps_scReceive : Keeps f (scReceive env) := by
  refine (keeps_readRegister _).bind fun _ ↦ Keeps.ite (fun _ ↦ keeps_setResult hf.result _) fun _ ↦
    (keeps_readRegister _).bind fun _ ↦ (keeps_readRegister _).bind fun _ ↦
      (keeps_onHost hf.host _).bind fun received ↦ ?_
  cases received with
  | none => exact keeps_setResult hf.result _
  | some bytes =>
    refine Keeps.bind (Keeps.ite (fun _ ↦ Keeps.pure _) fun _ ↦ Keeps.throw _) fun recv ↦ ?_
    exact (keeps_setResult hf.result _).bind fun _ ↦
      (keeps_system2User hf.tables hf.memory (keeps_charOf recv) _ _).bind fun _ ↦ Keeps.pure _

private theorem keeps_scBind : Keeps f (scBind env) :=
  (keeps_readRegister _).bind fun _ ↦ keeps_get.bind fun _ ↦
    Keeps.ite (fun _ ↦ keeps_setResult hf.result _) fun _ ↦
      (keeps_onHost hf.host _).bind fun _ ↦ keeps_setResult hf.result _

private theorem keeps_scListen : Keeps f (scListen env) :=
  (keeps_readRegister _).bind fun _ ↦ keeps_get.bind fun _ ↦
    Keeps.ite (fun _ ↦ keeps_setResult hf.result _) fun _ ↦ (keeps_readRegister _).bind fun _ ↦
      (keeps_onHost hf.host _).bind fun _ ↦ keeps_setResult hf.result _

private theorem keeps_scAccept : Keeps f (scAccept env) :=
  (keeps_readRegister _).bind fun _ ↦ keeps_get.bind fun _ ↦
    Keeps.ite (fun _ ↦ keeps_setResult hf.result _) fun _ ↦
      (keeps_onHost hf.host _).bind fun _ ↦ keeps_setResult hf.result _

private theorem keeps_scPrintString : Keeps f (scPrintString env) :=
  (keeps_readRegister _).bind fun _ ↦ (keeps_user2System hf.heap hf.tables _ _).bind fun _ ↦
    keeps_deleteBlock hf.heap _

private theorem keeps_scToupper : Keeps f (scToupper env) :=
  (keeps_readRegister _).bind fun _ ↦ (keeps_user2System hf.heap hf.tables _ _).bind fun _ ↦
    (keeps_blockBytes _).bind fun _ ↦ (keeps_storeChars hf.heap.stores _ _ _).bind fun _ ↦
      (keeps_copyBack hf.tables hf.memory _ _ _).bind fun _ ↦
        (keeps_setResult hf.result _).bind fun _ ↦ keeps_deleteBlock hf.heap _

private theorem keeps_scAdd : Keeps f scAdd :=
  (keeps_readRegister _).bind fun _ ↦ (keeps_readRegister _).bind fun _ ↦
    keeps_setResult hf.result _

/-- A view that ignores offsets and the sockets is kept by every call but `Open` and `Close`. -/
theorem keeps_body_of_ne (hoff : IgnoresOffsets f) (hsocket : IgnoresSocket f) {call : Syscall}
    (hopen : call ≠ .open_) (hclose : call ≠ .close) : Keeps f (call.body env) := by
  cases call with
  | create => exact keeps_scCreate hf
  | remove => exact keeps_scRemove hf
  | open_ => exact absurd rfl hopen
  | read => exact keeps_scRead hf hoff
  | write => exact keeps_scWrite hf hoff
  | seek => exact keeps_scSeek hf hoff
  | close => exact absurd rfl hclose
  | socketTCP => exact keeps_scSocketTCP hf hsocket
  | connect => exact keeps_scConnect hf
  | send => exact keeps_scSend hf
  | receive => exact keeps_scReceive hf
  | closeSoc => exact keeps_scCloseSoc hf hsocket
  | bind => exact keeps_scBind hf
  | accept => exact keeps_scAccept hf
  | listen => exact keeps_scListen hf
  | printString => exact keeps_scPrintString hf
  | toupper => exact keeps_scToupper hf
  | add => exact keeps_scAdd hf

/-- A view that ignores the two tables as well is kept by the body of every call. -/
theorem keeps_body (hopen : IgnoresOpenfile f) (hsocket : IgnoresSocket f) (call : Syscall) :
    Keeps f (call.body env) := by
  by_cases ho : call = .open_
  · rw [ho]
    exact keeps_scOpen hf hopen
  · by_cases hc : call = .close
    · rw [hc]
      exact keeps_scClose hf hopen
    · exact keeps_body_of_ne hf (fun k _ _ _ _ ↦ hopen k _) hsocket ho hc

end handlers

end Nachos
