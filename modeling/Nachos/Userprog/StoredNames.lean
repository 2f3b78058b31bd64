import Nachos.Program.Run
import Nachos.Userprog.FileCalls

/-!
# Names of open files

`Remove` is not to unlink a file that is open, and finds out by comparing its argument with the
name stored in each entry of the table. What is stored is the address of the buffer from which
`Open` passed the name on, and `Open` releases that buffer before it returns. The comparison is
right as long as nothing has been allocated at the address since.

So the invariant is about the heap: behind the stored address of each open entry there are still
the bytes of the name it was opened under. Every call writes only to blocks that it has allocated
itself (`spares_body`).
-/

namespace Nachos

open Program

/-! ## What a call writes to -/

/-- The addresses the allocator hands out to a call. -/
def CallTrap.allocations (t : CallTrap) : List Ptr :=
  match t.call with
  | .create | .remove | .connect | .send | .printString | .toupper => [t.env.kernelBuf]
  | .open_ => [t.env.kernelBuf, t.env.object]
  | .read | .write => [t.env.buf, t.env.kernelBuf]
  | _ => []

/-- The bytes behind `p`. -/
def Kernel.bytesBehind (p : Ptr) (k : Kernel) : List Byte := k.heap.bytes p

section spares

variable {p q : Ptr} {env : Env}

private theorem spares_newBlock (hq : q ≠ p) (bytes : List Byte) :
    Keeps (Kernel.bytesBehind p) (newBlock q bytes) := by
  intro k u k' h
  cases h
  exact Function.update_of_ne hq.symm _ _

theorem spares_newChars (hq : q ≠ p) (n : Word) (init : ℕ → Byte) :
    Keeps (Kernel.bytesBehind p) (newChars q n init) :=
  Keeps.ite (fun _ ↦ Keeps.throw _) fun _ ↦ (spares_newBlock hq _).bind fun _ ↦ Keeps.pure _

theorem newChars_ptr {n : Word} {init : ℕ → Byte} :
    ∀ k a k', newChars q n init k = .ok a k' → a = q := by
  intro k a k' h
  rw [newChars] at h
  split at h
  · cases h
  · obtain ⟨_, _, _, h⟩ := bind_eq_ok.mp h
    cases h
    rfl

theorem spares_storeChars (hq : q ≠ p) (i : ℕ) (bytes : List Byte) :
    Keeps (Kernel.bytesBehind p) (storeChars q i bytes) := by
  intro k u k' h
  rw [storeChars] at h
  split at h <;> cases h
  exact Function.update_of_ne hq.symm _ _

theorem spares_deleteBlock (q : Ptr) : Keeps (Kernel.bytesBehind p) (deleteBlock q) := by
  intro k u k' h
  cases h
  rfl

private theorem spares_copyFromUser (hq : q ≠ p) (virtAddr : Word) (i rest : ℕ) :
    Keeps (Kernel.bytesBehind p) (copyFromUser virtAddr q i rest) := by
  induction rest generalizing i with
  | zero => exact Keeps.pure _
  | succ rest ih =>
    exact (keeps_readMem (fun _ _ _ _ _ _ _ _ ↦ rfl) _ _).bind fun _ ↦
      (spares_storeChars hq _ _).bind fun _ ↦ Keeps.ite (fun _ ↦ Keeps.pure _) fun _ ↦ ih (i + 1)

private theorem user2System_ptr {virtAddr limit : Word} :
    ∀ k a k', user2System env virtAddr limit k = .ok a k' → a = env.kernelBuf := by
  intro k a k' h
  obtain ⟨q, k₁, hq, h⟩ := bind_eq_ok.mp h
  obtain ⟨_, _, _, h⟩ := bind_eq_ok.mp h
  cases h
  exact newChars_ptr _ _ _ hq

private theorem spares_user2System (hq : env.kernelBuf ≠ p) (virtAddr limit : Word) :
    Keeps (Kernel.bytesBehind p) (user2System env virtAddr limit) :=
  Keeps.bind_of_eq env.kernelBuf (spares_newChars hq _ _) newChars_ptr
    ((spares_copyFromUser hq _ _ _).bind fun _ ↦ Keeps.pure _)

/-- A string is fetched and used through its address. -/
theorem spares_fetch {α : Type} (hq : env.kernelBuf ≠ p) (virtAddr limit : Word)
    {use : Ptr → Kern α} (huse : Keeps (Kernel.bytesBehind p) (use env.kernelBuf)) :
    Keeps (Kernel.bytesBehind p) (user2System env virtAddr limit >>= use) :=
  Keeps.bind_of_eq env.kernelBuf (spares_user2System hq _ _) user2System_ptr huse

/-! ### What does not touch the heap -/

theorem spares_setResult (v : Word) : Keeps (Kernel.bytesBehind p) (setResult v) :=
  keeps_setResult (fun _ _ ↦ rfl) v

theorem spares_onHost {α : Type} (g : Host → α × Host) :
    Keeps (Kernel.bytesBehind p) (onHost g) := keeps_onHost (fun _ _ ↦ rfl) g

theorem spares_setOpenfile (id : Word) (file : Option OpenFile) :
    Keeps (Kernel.bytesBehind p) (setOpenfile id file) := keeps_setOpenfile (fun _ _ ↦ rfl) id file

private theorem spares_setSocket (pos id : Word) :
    Keeps (Kernel.bytesBehind p) (setSocket pos id) :=
  keeps_setSocket (fun _ _ ↦ rfl) pos id

private theorem spares_lseek (fd offset : Word) (whence : ℕ) :
    Keeps (Kernel.bytesBehind p) (lseek fd offset whence) := keeps_lseek (fun _ _ ↦ rfl) _ _ _

private theorem spares_close (fd : Word) : Keeps (Kernel.bytesBehind p) (close fd) :=
  keeps_close (fun _ _ ↦ rfl) fd

private theorem spares_length (file : OpenFile) : Keeps (Kernel.bytesBehind p) file.length :=
  keeps_length (fun _ _ ↦ rfl) file

theorem spares_system2User {char : ℕ → Kern Byte}
    (hchar : ∀ i, Keeps (Kernel.bytesBehind p) (char i))
    (virtAddr len : Word) : Keeps (Kernel.bytesBehind p) (system2User virtAddr len char) :=
  keeps_system2User (fun _ _ _ _ _ _ _ _ ↦ rfl) (fun _ _ _ ↦ rfl) hchar virtAddr len

/-- The tail that `Read`, `Write` and `Toupper` have in common. -/
theorem spares_copyBack (virtAddr len : Word) (q r : Ptr) :
    Keeps (Kernel.bytesBehind p)
      (do let _ ← system2User virtAddr len (loadChar q); return r : Kern Ptr) :=
  (spares_system2User (keeps_loadChar q) _ _).bind fun _ ↦ Keeps.pure _

/-! ### Handlers -/

private theorem spares_scOpen (hq : env.kernelBuf ≠ p) (hobject : env.object ≠ p) :
    Keeps (Kernel.bytesBehind p) (scOpen env) := by
  have hopen : ∀ filename type, Keeps (Kernel.bytesBehind p) (fileSystemOpen env filename type) :=
    fun filename type ↦ (keeps_blockBytes _).bind fun _ ↦ (spares_onHost _).bind fun _ ↦
      Keeps.ite (fun _ ↦ Keeps.pure _) fun _ ↦ (spares_newBlock hobject _).bind fun _ ↦ Keeps.pure _
  have hslot : ∀ index filename type, Keeps (Kernel.bytesBehind p)
      (openSlot env index filename type) := fun index filename type ↦
    (hopen _ _).bind fun _ ↦ (spares_setOpenfile _ _).bind fun _ ↦ spares_setResult _
  refine (keeps_readRegister _).bind fun _ ↦ (keeps_readRegister _).bind fun _ ↦ Keeps.bind ?_
    fun _ ↦ spares_deleteBlock _
  exact Keeps.ite (fun _ ↦ (spares_setResult _).bind fun _ ↦ Keeps.pure _) fun _ ↦
    keeps_get.bind fun _ ↦ Keeps.ite (fun _ ↦ (spares_setResult _).bind fun _ ↦ Keeps.pure _)
      fun _ ↦ spares_fetch hq _ _ ((hslot _ _ _).bind fun _ ↦ Keeps.pure _)

private theorem spares_scClose : Keeps (Kernel.bytesBehind p) scClose := by
  refine (keeps_readRegister _).bind fun _ ↦ (keeps_openfileAt _).bind fun slot ↦ ?_
  cases slot with
  | none => exact spares_setResult _
  | some file =>
    exact Keeps.bind ((spares_close _).bind fun _ ↦ spares_deleteBlock _) fun _ ↦
      (spares_setOpenfile _ _).bind fun _ ↦ spares_setResult _

private theorem spares_scCreate (hq : env.kernelBuf ≠ p) :
    Keeps (Kernel.bytesBehind p) (scCreate env) :=
  (keeps_readRegister _).bind fun _ ↦ spares_fetch hq _ _ ((keeps_blockBytes _).bind fun _ ↦
    (keeps_fileSystemCreate (fun _ _ ↦ rfl) _).bind fun _ ↦ (spares_setResult _).bind fun _ ↦
      spares_deleteBlock _)

private theorem spares_scRemove (hq : env.kernelBuf ≠ p) :
    Keeps (Kernel.bytesBehind p) (scRemove env) :=
  (keeps_readRegister _).bind fun _ ↦ spares_fetch hq _ _ ((keeps_blockBytes _).bind fun _ ↦
    (keeps_removeNamed (fun _ _ ↦ rfl) (fun _ _ ↦ rfl) _).bind fun _ ↦ spares_deleteBlock _)

private theorem spares_readFile (hq : q ≠ p) (id : Word) (file : OpenFile) (numBytes : Word) :
    Keeps (Kernel.bytesBehind p) (readFile env id file q numBytes) := by
  refine (spares_lseek _ _ _).bind fun _ ↦ Keeps.bind ?_ fun _ ↦
    (spares_setOpenfile _ _).bind fun _ ↦ Keeps.pure _
  refine (spares_onHost _).bind fun bytes ↦ ?_
  cases bytes with
  | none => exact Keeps.pure _
  | some bytes => exact (spares_storeChars hq _ _).bind fun _ ↦ Keeps.pure _

private theorem spares_getString (hq : q ≠ p) (size : Word) :
    Keeps (Kernel.bytesBehind p) (getString q size) := by
  have hloop : ∀ rest i, Keeps (Kernel.bytesBehind p) (getStringLoop q i rest) := by
    intro rest
    induction rest with
    | zero => intro i; exact Keeps.pure _
    | succ rest ih =>
      intro i
      exact (keeps_getChar fun _ _ _ ↦ rfl).bind fun _ ↦ Keeps.ite (fun _ ↦ Keeps.pure _) fun _ ↦
        (spares_storeChars hq _ _).bind fun _ ↦ ih (i + 1)
  exact (hloop _ _).bind fun _ ↦ (spares_storeChars hq _ _).bind fun _ ↦ Keeps.pure _

private theorem spares_sysRead (hq : q ≠ p) (charCount fileId : Word) :
    Keeps (Kernel.bytesBehind p) (sysRead env q charCount fileId) :=
  Keeps.ite (fun _ ↦ spares_getString hq _) fun _ ↦ (keeps_openfileAt _).bind fun _ ↦
    (keeps_deref _).bind fun _ ↦ spares_readFile hq _ _ _

private theorem spares_sysWrite (charCount fileId : Word) :
    Keeps (Kernel.bytesBehind p) (sysWrite env q charCount fileId) :=
  keeps_sysWrite (fun _ _ _ _ _ ↦ rfl) (fun _ _ ↦ rfl) (fun _ _ _ ↦ rfl) _ _ _

private theorem spares_scRead (hbuf : env.buf ≠ p) (hq : env.kernelBuf ≠ p) :
    Keeps (Kernel.bytesBehind p) (scRead env) := by
  refine (keeps_readRegister _).bind fun _ ↦ (keeps_readRegister _).bind fun _ ↦
    (keeps_readRegister _).bind fun _ ↦ Keeps.bind_of_eq env.buf (spares_newChars hbuf _ _)
      newChars_ptr (Keeps.bind ?_ fun _ ↦ spares_deleteBlock _)
  refine Keeps.ite (fun _ ↦ (spares_setResult _).bind fun _ ↦ Keeps.pure _) fun _ ↦
    Keeps.ite (fun _ ↦ ?_) fun _ ↦ ?_
  · exact (spares_sysRead hbuf _ _).bind fun _ ↦ (spares_setResult _).bind fun _ ↦
      spares_copyBack _ _ _ _
  · exact spares_fetch hq _ _ ((spares_sysRead hq _ _).bind fun _ ↦
      (spares_setResult _).bind fun _ ↦ spares_copyBack _ _ _ _)

private theorem spares_scWrite (hbuf : env.buf ≠ p) (hq : env.kernelBuf ≠ p) :
    Keeps (Kernel.bytesBehind p) (scWrite env) := by
  have hout : ∀ bufferAddr size fileId, Keeps (Kernel.bytesBehind p)
      (writeOut env bufferAddr size fileId) := fun bufferAddr size fileId ↦
    spares_fetch hq _ _ ((spares_sysWrite _ _).bind fun _ ↦ (spares_setResult _).bind fun _ ↦
      spares_copyBack _ _ _ _)
  refine (keeps_readRegister _).bind fun _ ↦ (keeps_readRegister _).bind fun _ ↦
    (keeps_readRegister _).bind fun _ ↦ (spares_newChars hbuf _ _).bind fun _ ↦
      Keeps.bind ?_ fun _ ↦ spares_deleteBlock _
  exact Keeps.ite (fun _ ↦ (spares_setResult _).bind fun _ ↦ Keeps.pure _) fun _ ↦
    Keeps.ite (fun _ ↦ hout _ _ _) fun _ ↦ (keeps_openfileAt _).bind fun _ ↦
      (keeps_deref _).bind fun _ ↦ Keeps.ite
        (fun _ ↦ (spares_setResult _).bind fun _ ↦ Keeps.pure _) fun _ ↦ hout _ _ _

private theorem spares_scSeek : Keeps (Kernel.bytesBehind p) scSeek := by
  refine (keeps_readRegister _).bind fun pos ↦ (keeps_readRegister _).bind fun fileId ↦
    Keeps.ite (fun _ ↦ spares_setResult _) fun _ ↦ (keeps_openfileAt _).bind fun slot ↦ ?_
  cases slot with
  | none => exact spares_setResult _
  | some file =>
    refine Keeps.bind (Keeps.ite (fun _ ↦ spares_length _) fun _ ↦ Keeps.pure _) fun _ ↦
      (spares_length _).bind fun _ ↦ Keeps.ite (fun _ ↦ spares_setResult _) fun _ ↦ ?_
    exact Keeps.bind ((spares_lseek _ _ _).bind fun _ ↦ (spares_onHost _).bind fun _ ↦
      spares_setOpenfile _ _) fun _ ↦ spares_setResult _

private theorem spares_scReceive : Keeps (Kernel.bytesBehind p) (scReceive env) := by
  refine (keeps_readRegister _).bind fun _ ↦ Keeps.ite (fun _ ↦ spares_setResult _) fun _ ↦
    (keeps_readRegister _).bind fun _ ↦ (keeps_readRegister _).bind fun _ ↦
      (spares_onHost _).bind fun received ↦ ?_
  cases received with
  | none => exact spares_setResult _
  | some bytes =>
    refine Keeps.bind (Keeps.ite (fun _ ↦ Keeps.pure _) fun _ ↦ Keeps.throw _) fun recv ↦ ?_
    exact (spares_setResult _).bind fun _ ↦
      (spares_system2User (keeps_charOf recv) _ _).bind fun _ ↦ Keeps.pure _

private theorem spares_scToupper (hq : env.kernelBuf ≠ p) :
    Keeps (Kernel.bytesBehind p) (scToupper env) :=
  (keeps_readRegister _).bind fun _ ↦ spares_fetch hq _ _ ((keeps_blockBytes _).bind fun _ ↦
    (spares_storeChars hq _ _).bind fun _ ↦
      (spares_system2User (keeps_loadChar _) _ _).bind fun _ ↦ (spares_setResult _).bind fun _ ↦
        spares_deleteBlock _)

end spares

/-- **A call writes only to what it has allocated.** -/
theorem spares_body {p : Ptr} {t : CallTrap} (h : p ∉ t.allocations) :
    Keeps (Kernel.bytesBehind p) (t.call.body t.env) := by
  -- the calls with a buffer write to it alone; the others write to no block at all
  cases hcall : t.call with
  | create =>
    simp only [CallTrap.allocations, hcall, List.mem_singleton] at h
    exact spares_scCreate (Ne.symm h)
  | remove =>
    simp only [CallTrap.allocations, hcall, List.mem_singleton] at h
    exact spares_scRemove (Ne.symm h)
  | open_ =>
    simp only [CallTrap.allocations, hcall, List.mem_cons, List.not_mem_nil, or_false, not_or] at h
    exact spares_scOpen (Ne.symm h.1) (Ne.symm h.2)
  | read =>
    simp only [CallTrap.allocations, hcall, List.mem_cons, List.not_mem_nil, or_false, not_or] at h
    exact spares_scRead (Ne.symm h.1) (Ne.symm h.2)
  | write =>
    simp only [CallTrap.allocations, hcall, List.mem_cons, List.not_mem_nil, or_false, not_or] at h
    exact spares_scWrite (Ne.symm h.1) (Ne.symm h.2)
  | connect =>
    simp only [CallTrap.allocations, hcall, List.mem_singleton] at h
    exact (keeps_readRegister _).bind fun _ ↦ Keeps.ite (fun _ ↦ spares_setResult _) fun _ ↦
      (keeps_readRegister _).bind fun _ ↦ (keeps_readRegister _).bind fun _ ↦
        spares_fetch (Ne.symm h) _ _ ((keeps_blockBytes _).bind fun _ ↦
          (spares_onHost _).bind fun _ ↦ (spares_setResult _).bind fun _ ↦ spares_deleteBlock _)
  | send =>
    simp only [CallTrap.allocations, hcall, List.mem_singleton] at h
    exact (keeps_readRegister _).bind fun _ ↦ Keeps.ite (fun _ ↦ spares_setResult _) fun _ ↦
      (keeps_readRegister _).bind fun _ ↦ spares_fetch (Ne.symm h) _ _
        ((keeps_readRegister _).bind fun _ ↦ (keeps_blockBytes _).bind fun _ ↦
          (spares_onHost _).bind fun _ ↦ (spares_setResult _).bind fun _ ↦ spares_deleteBlock _)
  | printString =>
    simp only [CallTrap.allocations, hcall, List.mem_singleton] at h
    exact (keeps_readRegister _).bind fun _ ↦
      spares_fetch (Ne.symm h) _ _ (spares_deleteBlock _)
  | toupper =>
    simp only [CallTrap.allocations, hcall, List.mem_singleton] at h
    exact spares_scToupper (Ne.symm h)
  | seek => exact spares_scSeek
  | close => exact spares_scClose
  | receive => exact spares_scReceive
  | socketTCP =>
    exact keeps_get.bind fun _ ↦ Keeps.ite (fun _ ↦ spares_setResult _) fun _ ↦
      (spares_onHost _).bind fun _ ↦ Keeps.ite (fun _ ↦ spares_setResult _) fun _ ↦
        (spares_setSocket _ _).bind fun _ ↦ spares_setResult _
  | closeSoc =>
    exact (keeps_readRegister _).bind fun _ ↦ Keeps.ite (fun _ ↦ spares_setResult _) fun _ ↦
      keeps_get.bind fun _ ↦ Keeps.ite
        (fun _ ↦ (spares_setSocket _ _).bind fun _ ↦ (spares_onHost _).bind fun _ ↦
          spares_setResult _) fun _ ↦ spares_setResult _
  | bind | accept =>
    exact (keeps_readRegister _).bind fun _ ↦ keeps_get.bind fun _ ↦
      Keeps.ite (fun _ ↦ spares_setResult _) fun _ ↦
        (spares_onHost _).bind fun _ ↦ spares_setResult _
  | listen =>
    exact (keeps_readRegister _).bind fun _ ↦ keeps_get.bind fun _ ↦
      Keeps.ite (fun _ ↦ spares_setResult _) fun _ ↦ (keeps_readRegister _).bind fun _ ↦
        (spares_onHost _).bind fun _ ↦ spares_setResult _
  | add =>
    exact (keeps_readRegister _).bind fun _ ↦ (keeps_readRegister _).bind fun _ ↦
      spares_setResult _

/-! ## Runs -/

/-- The kernel, with the name that each open descriptor was opened under: the descriptors that
`Open` has returned and that were not closed since. -/
structure NamedState where
  kernel : Kernel
  opened : Word → Option Name

/-- The file name a call passes, as `User2System` delivers it. -/
def CallTrap.name (t : CallTrap) : Option Name :=
  t.machine.stringAt (t.machine.registers 4) nameLimit

/-- How the result of a call changes the open descriptors. -/
def CallTrap.openedAfter (t : CallTrap) (opened : Word → Option Name) (result : Word) :
    Word → Option Name :=
  match t.call with
  | .open_ => if result = -1 then opened else Function.update opened result t.name
  | .close => if result = 0 then Function.update opened (t.machine.registers 4) none else opened
  | _ => opened

def NamedState.step (s : NamedState) (t : CallTrap) : Option NamedState :=
  (s.kernel.trap t.toTrap).map fun k ↦ ⟨k, t.openedAfter s.opened (k.machine.registers 2)⟩

def NamedState.initial (machine : Machine) (heap : Heap) (host : Host) (consoleIn : List Byte) :
    NamedState := ⟨Kernel.initial machine heap host consoleIn, fun _ ↦ none⟩

/-- What is asked of `Remove`: it refuses a name that a descriptor is open under, and unlinks any
other. -/
structure NamedState.RemoveOk (s : NamedState) (t : CallTrap) : Prop where
  refuses : ∀ n, t.call = .remove → t.name = some n → (∃ d, s.opened d = some n) →
    ∃ k', s.kernel.trap t.toTrap = some k' ∧ k'.machine.registers 2 = -1 ∧
      k'.host = s.kernel.host
  unlinks : ∀ n, t.call = .remove → t.name = some n → (∀ d, s.opened d ≠ some n) →
    ∃ k', s.kernel.trap t.toTrap = some k' ∧
      k'.machine.registers 2 = (s.kernel.host.unlink n t.env.unlinkFails).1 ∧
      k'.host = (s.kernel.host.unlink n t.env.unlinkFails).2

/-- Nothing is allocated at the address stored in an open entry. The object of a new entry is not
placed over the buffer with its name, which is not released yet. -/
structure NamedState.NoReuse (s : NamedState) (t : CallTrap) : Prop where
  names : ∀ i f, s.kernel.openfile i = some f → f.filename ∉ t.allocations
  live : t.call = .open_ → t.env.object ≠ t.env.kernelBuf

/-- The name that `Remove` sees for a descriptor. -/
def Kernel.storedName (k : Kernel) (id : Word) : Option Name :=
  if id.toNat < maxFile then (k.openfile id.toNat).map fun f ↦ cString (k.heap.bytes f.filename)
  else none

/-- `Remove` sees the names under which the descriptors were opened. -/
def NamedState.Inv (s : NamedState) : Prop := s.opened = s.kernel.storedName

/-- The addresses stored in the table. -/
def Kernel.filenames (k : Kernel) : ℕ → Option Ptr := fun i ↦ (k.openfile i).map OpenFile.filename

private theorem ignoresEffects_filenames : IgnoresEffects Kernel.filenames where
  tables _ _ _ _ _ _ _ _ := rfl
  memory _ _ _ := rfl
  result _ _ := rfl
  heap _ _ := rfl
  host _ _ := rfl
  console _ _ _ := rfl

private theorem ignoresOffsets_filenames : IgnoresOffsets Kernel.filenames := by
  intro k i file offset hslot
  funext j
  by_cases hj : j = i
  · subst hj
    simp [Kernel.filenames, hslot]
  · simp [Kernel.filenames, Function.update_of_ne hj]

private theorem storedName_eq (k : Kernel) (id : Word) : k.storedName id =
    if id.toNat < maxFile then (k.filenames id.toNat).map fun p ↦ cString (k.bytesBehind p)
    else none := by
  rw [Kernel.storedName, Kernel.filenames, Option.map_map]
  rfl

/-- The table keeps its addresses and the heap the bytes behind them. -/
theorem storedName_of_kept (k k' : Kernel) {id : Word}
    (hfilenames : k'.filenames id.toNat = k.filenames id.toNat)
    (hbytes : ∀ f, k.openfile id.toNat = some f →
      k'.bytesBehind f.filename = k.bytesBehind f.filename) :
    k'.storedName id = k.storedName id := by
  rw [storedName_eq, storedName_eq, hfilenames]
  by_cases hid : id.toNat < maxFile
  · rw [if_pos hid, if_pos hid]
    cases hslot : k.openfile id.toNat with
    | none => simp [Kernel.filenames, hslot]
    | some f => simp [Kernel.filenames, hslot, hbytes f hslot]
  · rw [if_neg hid, if_neg hid]

section step

variable {s : NamedState} {t : CallTrap} (hs : s.Inv) (hfresh : s.NoReuse t) {k₁ : Kernel}
  {u : Unit} (hbody : t.call.body t.env { s.kernel with machine := t.machine } = .ok u k₁)

include hfresh hbody in
/-- No call changes the bytes behind a stored address. -/
private theorem bytesBehind_body {i : ℕ} {f : OpenFile} (hf : s.kernel.openfile i = some f) :
    k₁.bytesBehind f.filename = s.kernel.bytesBehind f.filename :=
  spares_body (hfresh.names i f hf) { s.kernel with machine := t.machine } u k₁ hbody

include hs hfresh hbody

private theorem namedInv_open (hcall : t.call = .open_) :
    t.openedAfter s.opened (k₁.machine.registers 2) = k₁.storedName := by
  have hbytes := fun i f hf ↦ bytesBehind_body (i := i) (f := f) hfresh hbody hf
  have hlive := hfresh.live hcall
  rw [hcall] at hbody
  simp only [CallTrap.openedAfter, hcall]
  rcases scOpen_eq_ok hbody with ⟨-, rfl⟩ | ⟨i, name, m, -, hfirst, hname, -, ⟨-, rfl⟩ | ⟨ino, -, -,
    -, -, -, rfl⟩⟩
  · rw [Machine.setReg_registers_self, if_pos rfl, hs]
    rfl
  · simp only [Kernel.afterOpenFailure, Machine.setReg_registers_self, if_true]
    rw [hs]
    funext id
    exact (storedName_of_kept s.kernel
      (Kernel.afterOpenFailure { s.kernel with machine := t.machine } t.env m name) rfl
      fun f hf ↦ hbytes _ f hf).symm
  · have hne := slot_ne_neg_one hfirst.lt
    simp only [Kernel.afterOpen, Machine.setReg_registers_self, if_neg hne]
    funext id
    by_cases hid : id = BitVec.ofNat 32 i
    · -- the new entry: its buffer still holds the name
      subst hid
      have hstring : cString (stringBlock name nameLimit) = name :=
        cString_stringBlock (stringAt_ne_zero hname) (stringAt_length hname)
      rw [Function.update_self, CallTrap.name, hname, Kernel.storedName, toNat_ofNat_slot hfirst.lt,
        if_pos hfirst.lt]
      simp [Env.entry, Heap.delete, Heap.new, Function.update_of_ne hlive.symm, hstring]
    · have hne : id.toNat ≠ i := by
        rintro rfl
        exact hid (by simp)
      rw [Function.update_of_ne hid, hs]
      refine (storedName_of_kept s.kernel _ ?_ fun f hf ↦ hbytes _ f hf).symm
      simp [Kernel.filenames, Kernel.afterOpen, Function.update_of_ne hne]

omit hfresh in
private theorem namedInv_close (hcall : t.call = .close) :
    t.openedAfter s.opened (k₁.machine.registers 2) = k₁.storedName := by
  rw [hcall] at hbody
  simp only [CallTrap.openedAfter, hcall]
  obtain ⟨hid, ⟨-, rfl⟩ | ⟨file, handle, -, -, rfl⟩⟩ := scClose_eq_ok hbody
  · rw [Machine.setReg_registers_self, if_neg (by decide), hs]
    rfl
  · simp only [Kernel.afterClose, Machine.setReg_registers_self, if_true]
    funext id
    by_cases hsame : id = t.machine.registers 4
    · subst hsame
      rw [Function.update_self, Kernel.storedName, if_pos hid]
      simp
    · have hne : id.toNat ≠ (t.machine.registers 4).toNat :=
        fun h ↦ hsame (BitVec.eq_of_toNat_eq h)
      rw [Function.update_of_ne hsame, hs]
      refine (storedName_of_kept s.kernel (Kernel.afterClose { s.kernel with machine := t.machine }
        (t.machine.registers 4).toNat file) ?_ fun f hf ↦ rfl).symm
      simp [Kernel.filenames, Kernel.afterClose, Function.update_of_ne hne]

private theorem namedInv_body :
    t.openedAfter s.opened (k₁.machine.registers 2) = k₁.storedName := by
  by_cases hopen : t.call = .open_
  · exact namedInv_open hs hfresh hbody hopen
  by_cases hclose : t.call = .close
  · exact namedInv_close hs hbody hclose
  have hopened : t.openedAfter s.opened (k₁.machine.registers 2) = s.opened := by
    rw [CallTrap.openedAfter]
    split
    · exact absurd ‹_› hopen
    · exact absurd ‹_› hclose
    · rfl
  have hfilenames := keeps_body_of_ne ignoresEffects_filenames ignoresOffsets_filenames
    (fun _ _ ↦ rfl) hopen hclose _ u k₁ hbody
  rw [hopened, hs]
  funext id
  exact (storedName_of_kept s.kernel k₁ (congrFun hfilenames _)
    fun f hf ↦ bytesBehind_body hfresh hbody hf).symm

end step

/-- A call that does not reuse a stored name keeps the invariant. -/
private theorem namedInv_step {s s' : NamedState} {t : CallTrap} (hs : s.Inv) (hfresh : s.NoReuse t)
    (h : s.step t = some s') : s'.Inv := by
  obtain ⟨k', htrap, rfl⟩ := Option.map_eq_some_iff.mp h
  obtain ⟨k₁, hbody, rfl⟩ := trap_eq_some t.code htrap
  rw [Machine.skip_result, NamedState.Inv]
  exact namedInv_body hs hfresh hbody

/-! ## Remove -/

/-- The search of `Remove` goes through the stored names. -/
private theorem isOpen_iff (k : Kernel) (n : Name) :
    k.isOpen n = true ↔ ∃ d, k.storedName d = some n := by
  rw [Kernel.isOpen, List.any_eq_true]
  constructor
  · rintro ⟨i, hi, hfound⟩
    have hi : i < maxFile := List.mem_range.mp hi
    refine ⟨BitVec.ofNat 32 i, ?_⟩
    rw [Kernel.storedName, toNat_ofNat_slot hi, if_pos hi]
    cases hslot : k.openfile i with
    | none =>
      rw [hslot] at hfound
      cases hfound
    | some f =>
      rw [hslot] at hfound
      simpa using hfound
  · rintro ⟨d, hd⟩
    rw [Kernel.storedName] at hd
    split at hd
    · rename_i hlt
      refine ⟨d.toNat, List.mem_range.mpr hlt, ?_⟩
      obtain ⟨f, hf, hname⟩ := Option.map_eq_some_iff.mp hd
      rw [hf]
      simpa using hname
    · cases hd

/-- The names found after the argument of `Remove` has been placed elsewhere. -/
private theorem isOpen_withString {s : NamedState} {t : CallTrap} (hs : s.Inv)
    (hfresh : s.NoReuse t) (hcall : t.call = .remove) (m : Machine) (n : Name) :
    (s.kernel.withString m t.env.kernelBuf n nameLimit).isOpen n = true ↔
      ∃ d, s.opened d = some n := by
  have hstored : (s.kernel.withString m t.env.kernelBuf n nameLimit).storedName = s.opened := by
    rw [hs]
    funext id
    refine storedName_of_kept s.kernel _ rfl fun f hf ↦ ?_
    have hne := hfresh.names _ f hf
    simp only [CallTrap.allocations, hcall, List.mem_singleton] at hne
    exact Function.update_of_ne hne _ _
  rw [isOpen_iff, hstored]

/-- While the stored names are right, so is `Remove`. -/
private theorem removeOk_of_inv {s : NamedState} {t : CallTrap} (hs : s.Inv)
    (hfresh : s.NoReuse t) : s.RemoveOk t := by
  have hremove : ∀ n, t.call = .remove → t.name = some n → ∃ k', s.kernel.trap t.toTrap = some k' ∧
      (((∃ d, s.opened d = some n) ∧ k'.machine.registers 2 = -1 ∧ k'.host = s.kernel.host) ∨
        ((¬∃ d, s.opened d = some n) ∧
          k'.machine.registers 2 = (s.kernel.host.unlink n t.env.unlinkFails).1 ∧
          k'.host = (s.kernel.host.unlink n t.env.unlinkFails).2)) := by
    intro n hcall hname
    obtain ⟨m, -, hrun⟩ := scRemove_eq t.env (k := { s.kernel with machine := t.machine }) hname
    have hbody : t.call.body t.env { s.kernel with machine := t.machine } = .ok () _ :=
      (congrFun (congrArg (Syscall.body t.env) hcall) _).trans hrun
    -- the result and the host come from the removal
    have hafter : ∀ removal : Word × Host,
        Kernel.removal { s.kernel with machine := t.machine } t.env n = removal →
        ∃ k', s.kernel.trap t.toTrap = some k' ∧ k'.machine.registers 2 = removal.1 ∧
          k'.host = removal.2 := by
      rintro removal rfl
      refine ⟨_, trap_of_body t.code hbody, ?_, rfl⟩
      rw [Machine.skip_result, Kernel.afterRemove, Machine.setReg_registers_self]
    have hopen := isOpen_withString hs hfresh hcall t.machine n
    by_cases hd : ∃ d, s.opened d = some n
    · obtain ⟨k', htrap, hresult, hhost⟩ := hafter (-1, s.kernel.host) (if_pos (hopen.mpr hd))
      exact ⟨k', htrap, .inl ⟨hd, hresult, hhost⟩⟩
    · obtain ⟨k', htrap, hresult, hhost⟩ := hafter (s.kernel.host.unlink n t.env.unlinkFails)
        (if_neg fun h ↦ hd (hopen.mp h))
      exact ⟨k', htrap, .inr ⟨hd, hresult, hhost⟩⟩
  constructor
  · intro n hcall hname hopen
    obtain ⟨k', htrap, ⟨-, h⟩ | ⟨hnot, -⟩⟩ := hremove n hcall hname
    · exact ⟨k', htrap, h⟩
    · exact absurd hopen hnot
  · intro n hcall hname hclosed
    obtain ⟨k', htrap, ⟨⟨d, hd⟩, -⟩ | ⟨-, h⟩⟩ := hremove n hcall hname
    · exact absurd hd (hclosed d)
    · exact ⟨k', htrap, h⟩

/-- **Remove and open files.** In every run of system calls in which no call is given a block at an
address that an open entry has stored, `Remove` refuses exactly the names that are open. -/
theorem remove_respects_open (machine : Machine) (heap : Heap) (host : Host)
    (consoleIn : List Byte) (traps : List CallTrap)
    (hfresh : Along NamedState.step NamedState.NoReuse
      (NamedState.initial machine heap host consoleIn) traps) :
    Along NamedState.step NamedState.RemoveOk
      (NamedState.initial machine heap host consoleIn) traps := by
  refine Along.imp NamedState.Inv (fun _ _ ↦ removeOk_of_inv) (fun _ _ _ ↦ namedInv_step) ?_ hfresh
  funext id
  simp [NamedState.initial, Kernel.storedName, Kernel.initial]

/-! ## The failing run -/

/-- `Remove("b")`, its buffer where `Open` had its own. -/
def removeB : CallTrap where
  machine := nameMachine 98 5 0 0
  env := Env.quiet
  call := .remove
  code := by decide

/-- `Remove("a")`, with a buffer elsewhere. -/
def removeA : CallTrap where
  machine := nameMachine 97 5 0 0
  env := { Env.quiet with kernelBuf := 7 }
  call := .remove
  code := by decide

def NamedState.oneFile : NamedState :=
  NamedState.initial (callMachine 0 0) ⟨fun _ ↦ [], []⟩ Host.oneFile []

/-- After `Open("a")` and a `Remove("b")` that reuses the buffer, `Remove("a")` unlinks the open
file. -/
theorem removeA_unlinks_open :
    ¬∀ (machine : Machine) (heap : Heap) (host : Host) (consoleIn : List Byte)
        (traps : List CallTrap), Along NamedState.step NamedState.RemoveOk
      (NamedState.initial machine heap host consoleIn) traps := by
  intro h
  have hrun := h (callMachine 0 0) ⟨fun _ ↦ [], []⟩ Host.oneFile [] [openA, removeB, removeA]
  have hopened : ((NamedState.oneFile.step openA).bind (·.step removeB)).map
      (fun s ↦ (s.opened 2, (s.step removeA).map fun s' ↦ s'.kernel.machine.registers 2))
      = some (some [97], some 0) := by decide +kernel
  obtain ⟨s₂, hs₂, hafter⟩ := Option.map_eq_some_iff.mp hopened
  obtain ⟨s₁, hs₁, hs₂⟩ := Option.bind_eq_some_iff.mp hs₂
  have hok := ((hrun.2 s₁ hs₁).2 s₂ hs₂).1
  simp only [Prod.mk.injEq] at hafter
  obtain ⟨k', htrap, hresult, -⟩ :=
    hok.refuses [97] rfl (by decide +kernel) ⟨2, hafter.1⟩
  have hstep : (s₂.step removeA).map (fun s' ↦ s'.kernel.machine.registers 2) = some (-1) := by
    rw [NamedState.step, htrap]
    exact congrArg some hresult
  rw [hafter.2] at hstep
  exact absurd hstep (by decide)

/-- The general theorem at a run that opens a file and refuses to remove it. -/
theorem removeA_respects_open :
    Along NamedState.step NamedState.RemoveOk NamedState.oneFile [openA, removeA] := by
  have hfirst : NamedState.oneFile.NoReuse openA :=
    ⟨fun i f (hf : none = some f) ↦ (by cases hf), fun _ ↦ by decide⟩
  refine remove_respects_open (callMachine 0 0) ⟨fun _ ↦ [], []⟩ Host.oneFile [] [openA, removeA]
    ⟨hfirst, fun s₁ hs₁ ↦ ⟨⟨fun i f hf ↦ ?_, fun h ↦ (by cases h)⟩, fun _ _ ↦ trivial⟩⟩
  -- the one open entry has its name at 1, the new buffer is at 7
  obtain ⟨k', htrap, rfl⟩ := Option.map_eq_some_iff.mp hs₁
  obtain ⟨k₁, hbody, rfl⟩ := trap_eq_some openA.code htrap
  have hfilename : f.filename = 1 := by
    rcases scOpen_eq_ok hbody with ⟨-, rfl⟩ | ⟨j, name, m, -, -, -, -,
      ⟨-, rfl⟩ | ⟨ino, -, -, -, -, -, rfl⟩⟩
    · cases hf
    · cases hf
    · simp only [Kernel.afterOpen] at hf
      by_cases hij : i = j
      · rw [hij, Function.update_self] at hf
        cases hf
        rfl
      · rw [Function.update_of_ne hij] at hf
        cases hf
  rw [hfilename]
  decide

end Nachos
