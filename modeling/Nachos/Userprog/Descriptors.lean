import Nachos.Userprog.ReadWrite

/-!
# Descriptors that are not open

`Read`, `Write`, `Seek` and `Close` take any integer for a descriptor. Each makes its own test of
it: `Close` none at all, the other three against `20` where the table ends at `19`, and `Read` and
`Write` do not look whether the slot they then follow is taken. `CallTrap.InRange` lists what is
left: the descriptors a call handles without leaving the table or following a null pointer.

What "currently open" means is recorded along the run, from the results the program saw; the
invariant is that the table agrees with it.
-/

namespace Nachos

open Program

/-! ## Runs -/

/-- The kernel, with the descriptors that `Open` has returned and that were not closed since. -/
structure DescriptorState where
  kernel : Kernel
  opens : List Word

/-- How the result of a call changes the open descriptors. -/
def CallTrap.opensAfter (t : CallTrap) (opens : List Word) (result : Word) : List Word :=
  match t.call with
  | .open_ => if result = -1 then opens else result :: opens
  | .close => if result = 0 then opens.filter (· ≠ t.machine.registers 4) else opens
  | _ => opens

def DescriptorState.step (s : DescriptorState) (t : CallTrap) : Option DescriptorState :=
  (s.kernel.trap t.toTrap).map fun k ↦ ⟨k, t.opensAfter s.opens (k.machine.registers 2)⟩

/-- The states that system calls lead to from the initial table. -/
inductive DescriptorState.Reachable : DescriptorState → Prop
  | initial (machine : Machine) (heap : Heap) (host : Host) (consoleIn : List Byte) :
      DescriptorState.Reachable ⟨Kernel.initial machine heap host consoleIn, []⟩
  | step {s s' : DescriptorState} {t : CallTrap} : DescriptorState.Reachable s →
      s.step t = some s' → DescriptorState.Reachable s'

/-- Which slots are taken. -/
def Kernel.occupied (k : Kernel) : ℕ → Bool := fun i ↦ (k.openfile i).isSome

theorem ignoresEffects_occupied : IgnoresEffects Kernel.occupied where
  tables _ _ _ _ _ _ _ _ := rfl
  memory _ _ _ := rfl
  result _ _ := rfl
  heap _ _ := rfl
  host _ _ := rfl
  console _ _ _ := rfl

private theorem ignoresOffsets_occupied : IgnoresOffsets Kernel.occupied := by
  intro k i file offset hslot
  funext j
  by_cases hj : j = i
  · subst hj
    simp [Kernel.occupied, hslot]
  · simp [Kernel.occupied, Function.update_of_ne hj]

/-- The taken slots are those of the open descriptors. -/
def DescriptorState.Inv (s : DescriptorState) : Prop :=
  ∀ id : Word, id ∈ s.opens ↔ id.toNat < maxFile ∧ s.kernel.occupied id.toNat = true

private theorem descriptorInv_update {k k' : Kernel} {opens opens' : List Word} {i : ℕ}
    (taken : Bool) (hi : i < maxFile) (h : DescriptorState.Inv ⟨k, opens⟩)
    (hk' : k'.occupied = Function.update k.occupied i taken)
    (hself : BitVec.ofNat 32 i ∈ opens' ↔ taken = true)
    (hother : ∀ id : Word, id ≠ BitVec.ofNat 32 i → (id ∈ opens' ↔ id ∈ opens)) :
    DescriptorState.Inv ⟨k', opens'⟩ := by
  intro id
  rw [hk']
  by_cases hid : id = BitVec.ofNat 32 i
  · rw [hid, toNat_ofNat_slot hi, Function.update_self, hself]
    exact ⟨fun ht ↦ ⟨hi, ht⟩, fun ht ↦ ht.2⟩
  · have hne : id.toNat ≠ i := by
      rintro rfl
      exact hid (by simp)
    rw [hother id hid, Function.update_of_ne hne]
    exact h id

/-- Every call keeps the agreement between the table and the open descriptors. -/
private theorem descriptorInv_step {s s' : DescriptorState} {t : CallTrap} (hs : s.Inv)
    (h : s.step t = some s') : s'.Inv := by
  obtain ⟨k', htrap, rfl⟩ := Option.map_eq_some_iff.mp h
  obtain ⟨k₁, hbody, rfl⟩ := trap_eq_some t.code htrap
  rw [Machine.skip_result]
  -- only `Open` and `Close` change the table
  by_cases hopen : t.call = .open_
  · rw [hopen] at hbody
    simp only [CallTrap.opensAfter, hopen]
    rcases scOpen_eq_ok hbody with ⟨-, rfl⟩ | ⟨i, name, m, -, hfirst, -, -,
      ⟨-, rfl⟩ | ⟨ino, -, -, -, -, -, rfl⟩⟩
    · simp only [Machine.setReg_registers_self, if_true]
      exact hs
    · simp only [Kernel.afterOpenFailure, Machine.setReg_registers_self, if_true]
      exact hs
    · have hne := slot_ne_neg_one hfirst.lt
      simp only [Kernel.afterOpen, Machine.setReg_registers_self, if_neg hne]
      refine descriptorInv_update true hfirst.lt hs ?_ ?_ ?_
      · funext j
        by_cases hj : j = i
        · subst hj
          simp [Kernel.occupied]
        · simp [Kernel.occupied, Function.update_of_ne hj]
      · simp
      · intro id hid
        simp [hid]
  · by_cases hclose : t.call = .close
    · rw [hclose] at hbody
      simp only [CallTrap.opensAfter, hclose]
      obtain ⟨hid, ⟨-, rfl⟩ | ⟨file, handle, -, -, rfl⟩⟩ := scClose_eq_ok hbody
      · simp only [Machine.setReg_registers_self, if_neg (show ¬(-1 : Word) = 0 by decide)]
        exact hs
      · simp only [Kernel.afterClose, Machine.setReg_registers_self, if_true]
        refine descriptorInv_update false hid hs ?_ ?_ ?_
        · funext j
          by_cases hj : j = (t.machine.registers 4).toNat
          · subst hj
            simp [Kernel.occupied]
          · simp [Kernel.occupied, Function.update_of_ne hj]
        · simp
        · intro id hne
          rw [BitVec.ofNat_toNat, BitVec.setWidth_eq] at hne
          simp [hne]
    · have hopens : t.opensAfter s.opens (k₁.machine.registers 2) = s.opens := by
        rw [CallTrap.opensAfter]
        split
        · exact absurd ‹_› hopen
        · exact absurd ‹_› hclose
        · rfl
      have hocc := keeps_body_of_ne ignoresEffects_occupied ignoresOffsets_occupied
        (fun _ _ ↦ rfl) hopen hclose _ () k₁ hbody
      rw [hopens]
      intro id
      rw [hs id]
      exact ⟨fun hid ↦ ⟨hid.1, (congrFun hocc _).trans hid.2⟩,
        fun hid ↦ ⟨hid.1, (congrFun hocc _).symm.trans hid.2⟩⟩

theorem DescriptorState.Reachable.inv {s : DescriptorState} (h : s.Reachable) : s.Inv := by
  induction h with
  | initial machine heap host consoleIn =>
    intro id
    simp [Kernel.initial, Kernel.occupied]
  | step _ hstep ih => exact descriptorInv_step ih hstep

/-! ## What is safe about one call -/

/-- The register a call takes its descriptor from. -/
def CallTrap.descriptor (t : CallTrap) : Word :=
  match t.call with
  | .read | .write => t.machine.registers 6
  | .seek => t.machine.registers 5
  | _ => t.machine.registers 4

/-- The console descriptors: `0` for `Read`, `1` for `Write`. -/
def CallTrap.LegalConsole (t : CallTrap) : Prop :=
  (t.call = .read ∧ t.descriptor = 0) ∨ (t.call = .write ∧ t.descriptor = 1)

/-- The call failed and left the table, the files and user memory alone. -/
structure Rejected (k k' : Kernel) (t : CallTrap) : Prop where
  result : k'.machine.registers 2 = -1
  openfile : k'.openfile = k.openfile
  dir : k'.host.dir = k.host.dir
  content : k'.host.content = k.host.content
  mainMemory : k'.machine.mainMemory = t.machine.mainMemory

/-- The handler stays inside the table, follows no null entry, and rejects a descriptor that is
neither a console descriptor nor open. -/
structure DescriptorState.Safe (s : DescriptorState) (t : CallTrap) : Prop where
  index : ∀ k', s.kernel.handle t.toTrap ≠ .error .tableIndex k'
  null : ∀ k', s.kernel.handle t.toTrap ≠ .error .nullDeref k'
  rejects : ¬t.LegalConsole → t.descriptor ∉ s.opens →
    ∃ k', s.kernel.handle t.toTrap = .ok () k' ∧ Rejected s.kernel k' t

/-- The arguments that a call handles: for `Close` a slot number, for `Seek` anything but `20`, for
`Read` and `Write` the console, an open descriptor, or one outside `0..20` with a size that can be
allocated. -/
def CallTrap.InRange (t : CallTrap) (opens : List Word) : Prop :=
  match t.call with
  | .close => t.descriptor.toNat < maxFile
  | .seek => t.descriptor ≠ 20
  | .read | .write => t.LegalConsole ∨ t.descriptor ∈ opens ∨
      ((t.descriptor.toInt < 0 ∨ 20 < t.descriptor.toInt) ∧ 0 ≤ (t.machine.registers 5).toInt)
  | _ => True

/-! ## Faults of the table

Every other primitive can go wrong in its own way, but not by an index into the table or a null
entry. -/

/-- The faults in question. -/
def TableFault (e : Fault) : Prop := e = .tableIndex ∨ e = .nullDeref

/-- `x` ends in no table fault and keeps a property of the taken slots. -/
def Stays {α : Type} (p : (ℕ → Bool) → Prop) (x : Kern α) : Prop :=
  Triple (fun k ↦ p k.occupied) x (fun _ k ↦ p k.occupied) (fun e _ ↦ ¬TableFault e)

section stays

variable {α β : Type} {p : (ℕ → Bool) → Prop} {env : Env}

theorem Stays.bind {x : Kern α} {g : α → Kern β} (hx : Stays p x) (hg : ∀ a, Stays p (g a)) :
    Stays p (x >>= g) := Triple.bind hx hg

theorem Stays.pure (a : α) : Stays p (Pure.pure a : Kern α) := Triple.pure a fun _ h ↦ h

theorem Stays.ite {c : Prop} [Decidable c] {x y : Kern α} (hx : c → Stays p x)
    (hy : ¬c → Stays p y) : Stays p (if c then x else y) := Triple.ite hx hy

/-- A primitive that keeps the table and has no table fault of its own. -/
theorem stays_of_keeps {x : Kern α} (hk : Keeps Kernel.occupied x)
    (he : ∀ k e k', x k = .error e k' → ¬TableFault e) : Stays p x := by
  intro k hp
  cases h : x k with
  | ok a k' =>
    change p k'.occupied
    rwa [hk k a k' h]
  | error e k' => exact he k e k' h

/-- The faults of the simulator are not those of the table. -/
def MachineFaults {α : Type} (x : Exec α) : Prop :=
  Triple (fun _ ↦ True) x (fun _ _ ↦ True) fun e _ ↦ ∀ f, e = .fault f → ¬TableFault f

private theorem machineFaults_readReg (i : ℕ) : MachineFaults (readReg i) := by
  rintro m -
  by_cases hi : i < numTotalRegs
  · rw [readReg_of_lt hi]
    trivial
  · rw [readReg, if_neg hi]
    rintro f hf
    cases hf
    simp [TableFault]

theorem machineFaults_writeReg (i : ℕ) (v : Word) : MachineFaults (writeReg i v) := by
  rintro m -
  by_cases hi : i < numTotalRegs
  · rw [writeReg_of_lt hi]
    trivial
  · rw [writeReg, if_neg hi]
    rintro f hf
    cases hf
    simp [TableFault]

theorem MachineFaults.bind {x : Exec α} {g : α → Exec β} (hx : MachineFaults x)
    (hg : ∀ a, MachineFaults (g a)) : MachineFaults (x >>= g) := Triple.bind hx hg

private theorem machineFaults_throw_trap (which : ExceptionType) :
    MachineFaults (throw (.trap which) : Exec α) := Triple.throw _ fun _ _ f hf ↦ by cases hf

private theorem machineFaults_abort : MachineFaults (abort : Exec α) :=
  Triple.throw _ fun _ _ f hf ↦ by cases hf; simp [TableFault]

private theorem machineFaults_raiseException (which : ExceptionType) (badVAddr : Word) :
    MachineFaults (raiseException which badVAddr : Exec α) :=
  (machineFaults_writeReg _ _).bind fun _ ↦ MachineFaults.bind
    ((machineFaults_readReg _).bind fun _ ↦ (machineFaults_readReg _).bind fun _ ↦
      (machineFaults_writeReg _ _).bind fun _ ↦ (machineFaults_writeReg _ _).bind fun _ ↦
        (machineFaults_writeReg _ _).bind fun _ ↦ machineFaults_writeReg _ _)
    fun _ ↦ machineFaults_throw_trap which

private theorem machineFaults_physicalAddress (addr : Word) (size : ℕ) (writing : Bool) :
    MachineFaults (physicalAddress addr size writing) := by
  intro m hm
  rw [physicalAddress]
  cases m.translate addr size writing with
  | abort => exact machineFaults_abort (α := ℕ) m hm
  | exception which => exact machineFaults_raiseException (α := ℕ) which addr m hm
  | success a tlb pageTable => trivial

private theorem machineFaults_readMem (addr : Word) : MachineFaults (readMem addr 1) :=
  (machineFaults_physicalAddress addr 1 false).bind fun _ ↦ fun _ _ ↦ trivial

private theorem machineFaults_writeMem (addr value : Word) :
    MachineFaults (writeMem addr 1 value) :=
  (machineFaults_physicalAddress addr 1 true).bind fun _ ↦ fun _ _ ↦ trivial

theorem not_tableFault_onMachine {x : Exec α} (hx : MachineFaults x) (k : Kernel) (e : Fault)
    (k' : Kernel) (h : onMachine x k = .error e k') : ¬TableFault e := by
  rw [onMachine] at h
  split at h
  · cases h
  · cases h
    simp [TableFault]
  · rename_i f m hxm
    cases h
    exact hx.of_error trivial hxm _ rfl

theorem stays_setResult (v : Word) : Stays p (setResult v) :=
  stays_of_keeps (keeps_setResult ignoresEffects_occupied.result v)
    (not_tableFault_onMachine (machineFaults_writeReg 2 v))

private theorem stays_readMem (addr : Word) : Stays p (onMachine (readMem addr 1)) :=
  stays_of_keeps (keeps_readMem ignoresEffects_occupied.tables addr 1)
    (not_tableFault_onMachine (machineFaults_readMem addr))

private theorem stays_writeMem (addr value : Word) : Stays p (onMachine (writeMem addr 1 value)) :=
  stays_of_keeps
    (keeps_writeMem ignoresEffects_occupied.tables ignoresEffects_occupied.memory addr value)
    (not_tableFault_onMachine (machineFaults_writeMem addr value))

private theorem stays_newChars (q : Ptr) (n : Word) (init : ℕ → Byte) :
    Stays p (newChars q n init) := by
  refine stays_of_keeps (keeps_newChars ignoresEffects_occupied.heap q n init) ?_
  intro k e k' h
  rw [newChars] at h
  split at h
  · cases h
    simp [TableFault]
  · cases h

private theorem stays_deleteBlock (q : Ptr) : Stays p (deleteBlock q) :=
  stays_of_keeps (keeps_deleteBlock ignoresEffects_occupied.heap q) fun _ _ _ h ↦ by cases h

private theorem stays_loadChar (q : Ptr) (i : ℕ) : Stays p (loadChar q i) := by
  refine stays_of_keeps (keeps_loadChar q i) ?_
  intro k e k' h
  rw [loadChar] at h
  split at h <;> cases h
  simp [TableFault]

private theorem stays_takeChars (q : Ptr) (n : ℕ) : Stays p (takeChars q n) := by
  refine stays_of_keeps (keeps_takeChars q n) ?_
  intro k e k' h
  rw [takeChars] at h
  split at h <;> cases h
  simp [TableFault]

theorem stays_storeChars (q : Ptr) (i : ℕ) (bytes : List Byte) :
    Stays p (storeChars q i bytes) := by
  refine stays_of_keeps (keeps_storeChars ignoresEffects_occupied.heap.stores q i bytes) ?_
  intro k e k' h
  rw [storeChars] at h
  split at h <;> cases h
  simp [TableFault]

theorem stays_onHost (g : Host → α × Host) : Stays p (onHost g) :=
  stays_of_keeps (keeps_onHost ignoresEffects_occupied.host g) fun _ _ _ h ↦ by cases h

private theorem stays_assert (c : Prop) [Decidable c] : Stays p (assert c) := by
  refine stays_of_keeps (keeps_assert c) ?_
  intro k e k' h
  rw [assert] at h
  split at h <;> cases h
  simp [TableFault]

private theorem stays_getChar : Stays p getChar := by
  refine stays_of_keeps (keeps_getChar ignoresEffects_occupied.console) ?_
  intro k e k' h
  rw [getChar] at h
  split at h <;> cases h
  simp [TableFault]

private theorem stays_user2System (virtAddr limit : Word) :
    Stays p (user2System env virtAddr limit) := by
  have hloop : ∀ q rest i, Stays p (copyFromUser virtAddr q i rest) := by
    intro q rest
    induction rest with
    | zero => exact fun _ ↦ Stays.pure _
    | succ rest ih =>
      exact fun i ↦ (stays_readMem _).bind fun _ ↦ (stays_storeChars _ _ _).bind fun _ ↦
        Stays.ite (fun _ ↦ Stays.pure _) fun _ ↦ ih (i + 1)
  exact (stays_newChars _ _ _).bind fun q ↦ (hloop q _ _).bind fun _ ↦ Stays.pure _

theorem stays_system2User (virtAddr len : Word) (q : Ptr) :
    Stays p (system2User virtAddr len (loadChar q)) := by
  have hloop : ∀ rest i, Stays p (copyToUser virtAddr (loadChar q) i rest) := by
    intro rest
    induction rest with
    | zero => exact fun _ ↦ Stays.pure _
    | succ rest ih =>
      exact fun i ↦ (stays_loadChar q i).bind fun _ ↦ (stays_writeMem _ _).bind fun _ ↦
        Stays.ite (fun _ ↦ Stays.pure _) fun _ ↦ ih (i + 1)
  exact Stays.ite (fun _ ↦ Stays.pure _) fun _ ↦ hloop _ _

private theorem stays_getString (buffer : Ptr) (size : Word) : Stays p (getString buffer size) := by
  have hloop : ∀ rest i, Stays p (getStringLoop buffer i rest) := by
    intro rest
    induction rest with
    | zero => exact fun _ ↦ Stays.pure _
    | succ rest ih =>
      exact fun i ↦ stays_getChar.bind fun _ ↦ Stays.ite (fun _ ↦ Stays.pure _) fun _ ↦
        (stays_storeChars _ _ _).bind fun _ ↦ ih (i + 1)
  exact (hloop _ _).bind fun _ ↦ (stays_storeChars _ _ _).bind fun _ ↦ Stays.pure _

private theorem stays_putString (buffer : Ptr) (size : Word) : Stays p (putString buffer size) := by
  refine (stays_takeChars _ _).bind fun bytes ↦ Stays.bind ?_ fun _ ↦ Stays.pure _
  exact fun k hk ↦ hk

theorem stays_lseek (fd offset : Word) (whence : ℕ) : Stays p (lseek fd offset whence) :=
  (stays_onHost _).bind fun _ ↦ stays_assert _

private theorem stays_length (file : OpenFile) : Stays p file.length :=
  (stays_lseek _ _ _).bind fun _ ↦ stays_onHost _

private theorem stays_readPartial (fd : Word) (buffer : Ptr) (nBytes : Word) :
    Stays p (readPartial env fd buffer nBytes) := by
  refine (stays_onHost _).bind fun bytes ↦ ?_
  cases bytes with
  | none => exact Stays.pure _
  | some bytes => exact (stays_storeChars _ _ _).bind fun _ ↦ Stays.pure _

private theorem stays_writeFile (fd : Word) (buffer : Ptr) (nBytes : Word) :
    Stays p (writeFile env fd buffer nBytes) :=
  (stays_takeChars _ _).bind fun _ ↦ (stays_onHost _).bind fun _ ↦ stays_assert _

end stays

/-! ## Calls on open descriptors -/

/-- Slot `id` exists and is taken. -/
def Taken (id : Word) (t : ℕ → Bool) : Prop := id.toNat < maxFile ∧ t id.toNat = true

section taken

variable {id : Word} {env : Env} {p : (ℕ → Bool) → Prop}

theorem stays_setOpenfile (file : OpenFile) : Stays (Taken id) (setOpenfile id (some file)) := by
  rintro k ⟨hid, hk⟩
  rw [setOpenfile_of_lt hid]
  exact ⟨hid, by simp [Kernel.occupied]⟩

theorem stays_slotThen {α : Type} {g : OpenFile → Kern α} (hg : ∀ file, Stays (Taken id) (g file)) :
    Stays (Taken id) (do let slot ← openfileAt id; let file ← deref slot; g file) := by
  rintro k ⟨hid, hk⟩
  obtain ⟨file, hfile⟩ := Option.isSome_iff_exists.mp hk
  rw [bind_of_ok (openfileAt_of_lt hid k), hfile, bind_of_ok (show deref (some file) k = .ok file k
    from rfl)]
  exact hg file k ⟨hid, hk⟩

private theorem stays_readFile (file : OpenFile) (into : Ptr) (numBytes : Word) :
    Stays (Taken id) (readFile env id file into numBytes) :=
  (stays_lseek _ _ _).bind fun _ ↦ (stays_readPartial _ _ _).bind fun _ ↦
    (stays_setOpenfile _).bind fun _ ↦ Stays.pure _

private theorem stays_writeOpenFile (file : OpenFile) (buffer : Ptr) (numBytes : Word) :
    Stays (Taken id) (writeOpenFile env id file buffer numBytes) :=
  (stays_lseek _ _ _).bind fun _ ↦ (stays_writeFile _ _ _).bind fun _ ↦
    (stays_setOpenfile _).bind fun _ ↦ Stays.pure _

private theorem stays_sysRead (buffer : Ptr) (charCount : Word) :
    Stays (Taken id) (sysRead env buffer charCount id) :=
  Stays.ite (fun _ ↦ stays_getString _ _) fun _ ↦
    stays_slotThen fun file ↦ stays_readFile file buffer charCount

private theorem stays_sysWrite (buffer : Ptr) (charCount : Word) :
    Stays (Taken id) (sysWrite env buffer charCount id) :=
  Stays.ite (fun _ ↦ stays_putString _ _) fun _ ↦
    stays_slotThen fun file ↦ stays_writeOpenFile file buffer charCount

private theorem stays_readBranches (bufferAddr size : Word) (buf : Ptr) :
    Stays (Taken id) (readBranches env bufferAddr size id buf) := by
  refine Stays.ite (fun _ ↦ (stays_setResult _).bind fun _ ↦ Stays.pure _) fun _ ↦
    Stays.ite (fun _ ↦ ?_) fun _ ↦ ?_
  · exact (stays_sysRead _ _).bind fun _ ↦ (stays_setResult _).bind fun _ ↦
      (stays_system2User _ _ _).bind fun _ ↦ Stays.pure _
  · exact (stays_user2System _ _).bind fun _ ↦ (stays_sysRead _ _).bind fun _ ↦
      (stays_setResult _).bind fun _ ↦ (stays_system2User _ _ _).bind fun _ ↦ Stays.pure _

/-- The console branch of `Read`, and the one that rejects, do not look at the table. -/
private theorem stays_readBranches_other (h : id.toInt < 0 ∨ 20 < id.toInt ∨ id = 0)
    (bufferAddr size : Word) (buf : Ptr) : Stays p (readBranches env bufferAddr size id buf) := by
  refine Stays.ite (fun _ ↦ (stays_setResult _).bind fun _ ↦ Stays.pure _) fun hrange ↦
    Stays.ite (fun hzero ↦ ?_) fun hzero ↦ ?_
  · refine Stays.bind (Stays.ite (fun _ ↦ stays_getString _ _) fun hne ↦ absurd hzero hne)
      fun _ ↦ ?_
    exact (stays_setResult _).bind fun _ ↦ (stays_system2User _ _ _).bind fun _ ↦ Stays.pure _
  · rcases h with h | h | h
    · exact absurd (Or.inl h) hrange
    · exact absurd (Or.inr h) hrange
    · exact absurd h hzero

theorem stays_writeOut (hwrite : ∀ buffer charCount, Stays p (sysWrite env buffer charCount id))
    (bufferAddr size : Word) : Stays p (writeOut env bufferAddr size id) :=
  (stays_user2System _ _).bind fun _ ↦ (hwrite _ _).bind fun _ ↦ (stays_setResult _).bind fun _ ↦
    (stays_system2User _ _ _).bind fun _ ↦ Stays.pure _

private theorem stays_writeBranches (bufferAddr size : Word) (buf : Ptr) :
    Stays (Taken id) (writeBranches env bufferAddr size id buf) :=
  Stays.ite (fun _ ↦ (stays_setResult _).bind fun _ ↦ Stays.pure _) fun _ ↦
    Stays.ite (fun _ ↦ stays_writeOut stays_sysWrite _ _) fun _ ↦ stays_slotThen fun _ ↦
      Stays.ite (fun _ ↦ (stays_setResult _).bind fun _ ↦ Stays.pure _) fun _ ↦
        stays_writeOut stays_sysWrite _ _

/-- The console branch of `Write`, and the one that rejects, do not look at the table. -/
private theorem stays_writeBranches_other (h : id.toInt < 0 ∨ 20 < id.toInt ∨ id = 1)
    (bufferAddr size : Word) (buf : Ptr) : Stays p (writeBranches env bufferAddr size id buf) := by
  refine Stays.ite (fun _ ↦ (stays_setResult _).bind fun _ ↦ Stays.pure _) fun hrange ↦
    Stays.ite (fun hone ↦ ?_) fun hone ↦ ?_
  · refine stays_writeOut (fun _ _ ↦ Stays.ite (fun _ ↦ stays_putString _ _) fun hne ↦ ?_) _ _
    exact absurd hone hne
  · rcases h with h | h | h
    · exact absurd (Or.inl h) hrange
    · exact absurd (Or.inr h) hrange
    · exact absurd h hone

private theorem stays_seekOpen (file : OpenFile) (pos : Word) :
    Stays (Taken id) (seekOpen file pos id) := by
  refine Stays.bind (Stays.ite (fun _ ↦ stays_length _) fun _ ↦ Stays.pure _) fun _ ↦
    (stays_length _).bind fun _ ↦ Stays.ite (fun _ ↦ stays_setResult _) fun _ ↦
      Stays.bind ?_ fun _ ↦ stays_setResult _
  exact (stays_lseek _ _ _).bind fun _ ↦ Stays.bind (stays_onHost _) fun _ ↦ stays_setOpenfile _

end taken

/-! ## Descriptors that are not open -/

section closed

variable {k : Kernel} {id : Word} {env : Env}

private theorem not_taken_of_lt (h : ¬Taken id k.occupied) (hid : id.toNat < maxFile) :
    k.openfile id.toNat = none := by
  by_contra hne
  exact h ⟨hid, Option.isSome_iff_ne_none.mpr hne⟩

/-- Following a slot that is not taken, or not there, does not end well. -/
private theorem slotThen_ne_ok {α : Type} (h : ¬Taken id k.occupied) {g : OpenFile → Kern α} {a : α}
    {k' : Kernel} : (do let slot ← openfileAt id; let file ← deref slot; g file) k ≠ .ok a k' := by
  intro hrun
  by_cases hid : id.toNat < maxFile
  · rw [bind_of_ok (openfileAt_of_lt hid k), not_taken_of_lt h hid] at hrun
    cases hrun
  · rw [bind_of_error (openfileAt_of_not_lt hid k)] at hrun
    cases hrun

private theorem readBranches_ne_ok (h : ¬Taken id k.occupied)
    (hrange : ¬(id.toInt < 0 ∨ 20 < id.toInt))
    (hzero : id ≠ 0) {bufferAddr size : Word} {buf q : Ptr} {k' : Kernel} :
    readBranches env bufferAddr size id buf k ≠ .ok q k' := by
  intro hrun
  rw [readBranches, if_neg hrange, if_neg hzero] at hrun
  obtain ⟨buf', k₁, hcopy, hrun⟩ := bind_eq_ok.mp hrun
  obtain ⟨_, k₂, hread, -⟩ := bind_eq_ok.mp hrun
  have hocc := keeps_user2System ignoresEffects_occupied.heap ignoresEffects_occupied.tables _ _ k
    buf' k₁ hcopy
  rw [sysRead, if_neg hzero] at hread
  exact slotThen_ne_ok (k := k₁) (by rwa [hocc]) hread

private theorem writeBranches_ne_ok (h : ¬Taken id k.occupied)
    (hrange : ¬(id.toInt < 0 ∨ 20 < id.toInt))
    (hone : id ≠ 1) {bufferAddr size : Word} {buf q : Ptr} {k' : Kernel} :
    writeBranches env bufferAddr size id buf k ≠ .ok q k' := by
  intro hrun
  rw [writeBranches, if_neg hrange, if_neg hone] at hrun
  exact slotThen_ne_ok h hrun

end closed

/-! ## The four calls -/

private theorem stays_withBuffer {p : (ℕ → Bool) → Prop} {env : Env} {size : Word}
    {branches : Ptr → Kern Ptr} (h : ∀ buf, Stays p (branches buf)) :
    Stays p (withBuffer env size branches) :=
  (stays_newChars _ _ _).bind fun _ ↦ (h _).bind fun _ ↦ stays_deleteBlock _

/-- A call that allocates, rejects and releases. -/
private theorem withBuffer_rejected (env : Env) {size : Word} (hsize : 0 ≤ size.toInt)
    {branches : Ptr → Kern Ptr} {k : Kernel}
    (h : ∀ buf k₁, branches buf k₁ = .ok buf { k₁ with machine := k₁.machine.setReg 2 (-1) }) :
    ∃ heap, withBuffer env size branches k
      = .ok () { k with machine := k.machine.setReg 2 (-1), heap := heap } := by
  rw [withBuffer, newChars, if_neg (Int.not_lt.mpr hsize),
    bind_of_ok (show (do newBlock _ _; return env.buf : Kern Ptr) k = _ from rfl),
    bind_of_ok (h _ _)]
  exact ⟨_, rfl⟩

private theorem withBuffer_ne_ok {env : Env} {size : Word} {branches : Ptr → Kern Ptr}
    {k k' : Kernel}
    {u : Unit} (h : ∀ buf q k₁ k₂, k₁.occupied = k.occupied → branches buf k₁ ≠ .ok q k₂) :
    withBuffer env size branches k ≠ .ok u k' := by
  intro hrun
  obtain ⟨buf, k₁, hnew, hrun⟩ := bind_eq_ok.mp hrun
  obtain ⟨q, k₂, hbranches, -⟩ := bind_eq_ok.mp hrun
  exact h buf q k₁ k₂ (keeps_newChars ignoresEffects_occupied.heap _ _ _ k buf k₁ hnew) hbranches

section calls

variable {s : DescriptorState} {t : CallTrap}

/-- The kernel when the handler starts. -/
abbrev DescriptorState.at (s : DescriptorState) (t : CallTrap) : Kernel :=
  { s.kernel with machine := t.machine }

theorem safe_of_body
    (hfault : ∀ e k', t.call.body t.env (s.at t) = .error e k' → ¬TableFault e)
    (hrejects : ¬t.LegalConsole → t.descriptor ∉ s.opens → ∃ heap,
      t.call.body t.env (s.at t)
        = .ok () { s.at t with machine := t.machine.setReg 2 (-1), heap := heap }) : s.Safe t := by
  have herror : ∀ e k', s.kernel.handle t.toTrap = .error e k' → ¬TableFault e := by
    intro e k' h
    cases hbody : t.call.body t.env (s.at t) with
    | ok u k₁ =>
      rw [handle_of_body t.code hbody] at h
      cases h
    | error e₁ k₁ =>
      rw [handle_of_body_error t.code hbody] at h
      cases h
      exact hfault e k' hbody
  refine ⟨fun k' h ↦ herror _ _ h (Or.inl rfl), fun k' h ↦ herror _ _ h (Or.inr rfl), ?_⟩
  intro hconsole hopen
  obtain ⟨heap, hbody⟩ := hrejects hconsole hopen
  refine ⟨_, handle_of_body t.code hbody, ?_, rfl, rfl, rfl, rfl⟩
  rw [Machine.skip_result, Machine.setReg_registers_self]

/-- A call that does not return does not reject. -/
private theorem not_safe_of_body (hconsole : ¬t.LegalConsole) (hopen : t.descriptor ∉ s.opens)
    (h : ∀ u k', t.call.body t.env (s.at t) ≠ .ok u k') : ¬s.Safe t := by
  intro hsafe
  obtain ⟨k', hk', -⟩ := hsafe.rejects hconsole hopen
  cases hbody : t.call.body t.env (s.at t) with
  | ok u k₁ => exact h u k₁ hbody
  | error e k₁ =>
    rw [handle_of_body_error t.code hbody] at hk'
    cases hk'

theorem Stays.not_tableFault {α : Type} {p : (ℕ → Bool) → Prop} {x : Kern α} (h : Stays p x)
    {k : Kernel} (hk : p k.occupied) : ∀ e k', x k = .error e k' → ¬TableFault e :=
  fun _ _ hx ↦ h.of_error hk hx

theorem taken_iff_mem (hs : s.Inv) (id : Word) : Taken id s.kernel.occupied ↔ id ∈ s.opens :=
  (hs id).symm

private theorem safe_close_iff (hcall : t.call = .close) (hs : s.Inv) :
    s.Safe t ↔ t.descriptor.toNat < maxFile := by
  have hfd : t.descriptor = t.machine.registers 4 := by rw [CallTrap.descriptor, hcall]
  have hconsole : ¬t.LegalConsole := by simp [CallTrap.LegalConsole, hcall]
  rw [hfd]
  constructor
  · intro hsafe
    by_contra hid
    have hbody : t.call.body t.env (s.at t) = .error .tableIndex (s.at t) := by
      rw [hcall]
      exact scClose_of_not_lt hid
    exact hsafe.index _ (handle_of_body_error t.code hbody)
  · intro hid
    apply safe_of_body
    · intro e k' h
      rw [hcall] at h
      cases hslot : s.kernel.openfile (t.machine.registers 4).toNat with
      | none =>
        rw [Syscall.body, scClose_of_none (k := s.at t) hid hslot] at h
        cases h
      | some file =>
        cases hhandle : s.kernel.host.fds file.file with
        | none =>
          rw [Syscall.body, scClose_of_closed (k := s.at t) hid hslot hhandle] at h
          cases h
          simp [TableFault]
        | some handle =>
          rw [Syscall.body, scClose_of_some (k := s.at t) hid hslot hhandle] at h
          cases h
    · intro _ hopen
      rw [hfd, ← taken_iff_mem hs] at hopen
      rw [hcall]
      exact ⟨_, scClose_of_none (k := s.at t) hid (not_taken_of_lt (k := s.kernel) hopen hid)⟩

private theorem seek_range {id : Word} (h : ¬(id.toInt < 2 ∨ 20 < id.toInt)) (hne : id ≠ 20) :
    id.toNat < maxFile := by
  have hlt : id.toNat < offsetLimit := toNat_lt_of_nonneg (by omega)
  rw [toInt_eq_toNat hlt] at h
  have hne' : id.toNat ≠ 20 := fun heq ↦ hne (BitVec.eq_of_toNat_eq heq)
  simp only [maxFile]
  omega

private theorem safe_seek_iff (hcall : t.call = .seek) (hs : s.Inv) :
    s.Safe t ↔ t.descriptor ≠ 20 := by
  have hfd : t.descriptor = t.machine.registers 5 := by rw [CallTrap.descriptor, hcall]
  rw [hfd]
  constructor
  · intro hsafe h20
    have hbody : t.call.body t.env (s.at t) = .error .tableIndex (s.at t) := by
      rw [hcall, Syscall.body, scSeek_eq, h20, if_neg (by decide)]
      exact bind_of_error (openfileAt_of_not_lt (by decide) _)
    exact hsafe.index _ (handle_of_body_error t.code hbody)
  · intro h20
    have hrun : t.call.body t.env (s.at t) = scSeek (s.at t) := by rw [hcall, Syscall.body]
    rw [scSeek_eq] at hrun
    by_cases hrange : (t.machine.registers 5).toInt < 2 ∨ 20 < (t.machine.registers 5).toInt
    · rw [if_pos hrange, setResult_eq] at hrun
      refine safe_of_body (fun e k' h ↦ ?_) fun _ _ ↦ ⟨_, hrun⟩
      rw [hrun] at h
      cases h
    · rw [if_neg hrange] at hrun
      have hid := seek_range hrange h20
      cases hslot : s.kernel.openfile (t.machine.registers 5).toNat with
      | none =>
        rw [bind_of_ok (openfileAt_of_lt hid (s.at t)), hslot] at hrun
        have hreject := hrun.trans (setResult_eq (-1) (s.at t))
        refine safe_of_body (fun e k' h ↦ ?_) fun _ _ ↦ ⟨_, hreject⟩
        rw [hreject] at h
        cases h
      | some file =>
        have htaken : Taken (t.machine.registers 5) s.kernel.occupied := by
          refine ⟨hid, ?_⟩
          rw [Kernel.occupied, hslot]
          rfl
        rw [bind_of_ok (openfileAt_of_lt hid (s.at t)), hslot] at hrun
        refine safe_of_body (fun e k' h ↦ ?_) fun _ hopen ↦ ?_
        · rw [hrun] at h
          exact (stays_seekOpen file _).not_tableFault (k := s.at t) htaken e k' h
        · rw [hfd, ← taken_iff_mem hs] at hopen
          exact absurd htaken hopen

/-- What `Read` and `Write` have in common, `console` being the descriptor of the console: their
branches never touch the table outside the console descriptor's and the rejecting branch, need a
taken slot otherwise, and reject what is outside `0..20`. -/
private theorem safe_transfer_iff (console : Word) (branches : Ptr → Kern Ptr) (hs : s.Inv)
    (hconsole : t.LegalConsole ↔ t.descriptor = console)
    (hbody : t.call.body t.env (s.at t)
      = withBuffer t.env (t.machine.registers 5) branches (s.at t))
    (hopen : ∀ buf, Stays (Taken t.descriptor) (branches buf))
    (hother : t.descriptor.toInt < 0 ∨ 20 < t.descriptor.toInt ∨ t.descriptor = console →
      ∀ buf, Stays (fun _ ↦ True) (branches buf))
    (hclosed : ¬(t.descriptor.toInt < 0 ∨ 20 < t.descriptor.toInt) → t.descriptor ≠ console →
      ∀ buf q k₁ k₂, ¬Taken t.descriptor k₁.occupied → branches buf k₁ ≠ .ok q k₂)
    (hreject : t.descriptor.toInt < 0 ∨ 20 < t.descriptor.toInt → ∀ buf k₁,
      branches buf k₁ = .ok buf { k₁ with machine := k₁.machine.setReg 2 (-1) }) :
    s.Safe t ↔ t.LegalConsole ∨ t.descriptor ∈ s.opens ∨
      ((t.descriptor.toInt < 0 ∨ 20 < t.descriptor.toInt) ∧ 0 ≤ (t.machine.registers 5).toInt) := by
  constructor
  · intro hsafe
    by_contra hnot
    simp only [not_or, not_and_or] at hnot
    obtain ⟨hnc, hno, hrange⟩ := hnot
    refine not_safe_of_body hnc hno (fun u k' h ↦ ?_) hsafe
    rw [hbody] at h
    by_cases hout : t.descriptor.toInt < 0 ∨ 20 < t.descriptor.toInt
    · -- the size is negative: `new` throws
      have hsize : (t.machine.registers 5).toInt < 0 := by
        rcases hrange with hrange | hrange
        · exact absurd hout (not_or.mpr hrange)
        · exact Int.not_le.mp hrange
      rw [withBuffer, newChars, if_pos hsize] at h
      cases h
    · refine withBuffer_ne_ok (fun buf q k₁ k₂ hocc ↦ ?_) h
      refine hclosed hout (fun heq ↦ hnc (hconsole.mpr heq)) buf q k₁ k₂ ?_
      rw [hocc]
      exact fun htaken ↦ hno ((taken_iff_mem hs _).mp htaken)
  · rintro (hc | ho | ⟨hout, hsize⟩)
    · refine safe_of_body (fun e k' h ↦ ?_) fun hnc _ ↦ absurd hc hnc
      rw [hbody] at h
      exact (stays_withBuffer (hother (Or.inr (Or.inr (hconsole.mp hc))))).not_tableFault trivial
        e k' h
    · have htaken : Taken t.descriptor s.kernel.occupied := (taken_iff_mem hs _).mpr ho
      refine safe_of_body (fun e k' h ↦ ?_) fun _ hno ↦ absurd ho hno
      rw [hbody] at h
      exact (stays_withBuffer hopen).not_tableFault (k := s.at t) htaken e k' h
    · obtain ⟨heap, hrun⟩ := withBuffer_rejected t.env hsize (k := s.at t) (hreject hout)
      refine safe_of_body (fun e k' h ↦ ?_) fun _ _ ↦ ⟨heap, hbody.trans hrun⟩
      rw [hbody, hrun] at h
      cases h

private theorem safe_read_iff (hcall : t.call = .read) (hs : s.Inv) :
    s.Safe t ↔ t.LegalConsole ∨ t.descriptor ∈ s.opens ∨
      ((t.descriptor.toInt < 0 ∨ 20 < t.descriptor.toInt) ∧ 0 ≤ (t.machine.registers 5).toInt) := by
  have hfd : t.descriptor = t.machine.registers 6 := by rw [CallTrap.descriptor, hcall]
  refine safe_transfer_iff 0 (readBranches t.env (t.machine.registers 4) (t.machine.registers 5)
    t.descriptor) hs ?_ ?_ ?_ ?_ ?_ ?_
  · simp [CallTrap.LegalConsole, hcall]
  · rw [hcall, hfd]
    exact scRead_eq t.env (s.at t)
  · exact stays_readBranches _ _
  · exact fun h buf ↦ stays_readBranches_other h _ _ buf
  · exact fun hrange hzero buf q k₁ k₂ h ↦ readBranches_ne_ok h hrange hzero
  · intro hout buf k₁
    rw [readBranches, if_pos hout, bind_of_ok (setResult_eq _ k₁)]
    rfl

private theorem safe_write_iff (hcall : t.call = .write) (hs : s.Inv) :
    s.Safe t ↔ t.LegalConsole ∨ t.descriptor ∈ s.opens ∨
      ((t.descriptor.toInt < 0 ∨ 20 < t.descriptor.toInt) ∧ 0 ≤ (t.machine.registers 5).toInt) := by
  have hfd : t.descriptor = t.machine.registers 6 := by rw [CallTrap.descriptor, hcall]
  refine safe_transfer_iff 1 (writeBranches t.env (t.machine.registers 4) (t.machine.registers 5)
    t.descriptor) hs ?_ ?_ ?_ ?_ ?_ ?_
  · simp [CallTrap.LegalConsole, hcall]
  · rw [hcall, hfd]
    exact scWrite_eq t.env (s.at t)
  · exact stays_writeBranches _ _
  · exact fun h buf ↦ stays_writeBranches_other h _ _ buf
  · exact fun hrange hone buf q k₁ k₂ h ↦ writeBranches_ne_ok h hrange hone
  · intro hout buf k₁
    rw [writeBranches, if_pos hout, bind_of_ok (setResult_eq _ k₁)]
    rfl

end calls

/-- **Descriptor safety.** In every state that system calls lead to, `Read`, `Write`, `Seek` and
`Close` stay inside the table, follow no null entry and reject descriptors that are not open,
exactly for the arguments of `InRange`. -/
theorem descriptor_safe_iff {s : DescriptorState} {t : CallTrap} (hs : s.Reachable)
    (hcall : t.call ∈ [Syscall.read, .write, .seek, .close]) :
    s.Safe t ↔ t.InRange s.opens := by
  simp only [List.mem_cons, List.not_mem_nil, or_false] at hcall
  rcases hcall with hcall | hcall | hcall | hcall <;> simp only [CallTrap.InRange, hcall]
  · exact safe_read_iff hcall hs.inv
  · exact safe_write_iff hcall hs.inv
  · exact safe_seek_iff hcall hs.inv
  · exact safe_close_iff hcall hs.inv

/-! ## The failing call -/

/-- `Close(20)`. -/
def closeTwenty : CallTrap where
  machine := callMachine 10 20
  env := Env.quiet
  call := .close
  code := by decide

/-- The initial state, nothing open. -/
def DescriptorState.boot : DescriptorState := ⟨Kernel.boot (callMachine 0 0), []⟩

theorem DescriptorState.boot_reachable : DescriptorState.boot.Reachable := .initial _ _ _ _

/-- `Close(20)` looks at the slot after the last one. -/
theorem closeTwenty_not_safe :
    ¬∀ (s : DescriptorState) (t : CallTrap), s.Reachable →
      t.call ∈ [Syscall.read, .write, .seek, .close] → s.Safe t := by
  intro h
  have hsafe := h .boot closeTwenty DescriptorState.boot_reachable (by decide)
  have hbody : closeTwenty.call.body closeTwenty.env (DescriptorState.boot.at closeTwenty)
      = .error .tableIndex (DescriptorState.boot.at closeTwenty) :=
    scClose_of_not_lt (by decide)
  exact hsafe.index _ (handle_of_body_error closeTwenty.code hbody)

/-- `Read(0, 1, 2)`. -/
def readByte : CallTrap where
  machine := (nameMachine 97 7 0 1).setReg 6 2
  env := Env.quiet
  call := .read
  code := by decide

/-- `Close(2)`. -/
def closeTwo : CallTrap where
  machine := callMachine 10 2
  env := Env.quiet
  call := .close
  code := by decide

/-- The kernel at boot, on a host with one file. -/
def Kernel.oneFile : Kernel := Kernel.initial (callMachine 0 0) ⟨fun _ ↦ [], []⟩ Host.oneFile []

/-- The general theorem at that call, and at two calls on a file that is open. -/
theorem closeTwenty_safe_iff :
    (DescriptorState.boot.Safe closeTwenty ↔ closeTwenty.InRange DescriptorState.boot.opens) ∧
      ∃ s, DescriptorState.step ⟨Kernel.oneFile, []⟩ openA = some s ∧ s.opens = [2] ∧
        s.Safe readByte ∧ s.Safe closeTwo := by
  refine ⟨descriptor_safe_iff DescriptorState.boot_reachable (by decide), ?_⟩
  have hopens : (DescriptorState.step ⟨Kernel.oneFile, []⟩ openA).map DescriptorState.opens
      = some [2] := by decide +kernel
  obtain ⟨s, hs, hopens⟩ := Option.map_eq_some_iff.mp hopens
  have hreach : s.Reachable := .step (.initial _ _ _ _) hs
  refine ⟨s, hs, hopens, (descriptor_safe_iff hreach (by decide)).mpr ?_,
    (descriptor_safe_iff hreach (by decide)).mpr ?_⟩
  · rw [hopens]
    exact .inr (.inl (by decide))
  · show closeTwo.descriptor.toNat < maxFile
    decide

end Nachos
