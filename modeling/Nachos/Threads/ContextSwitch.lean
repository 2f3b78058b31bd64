import Nachos.Machine.PageTable
import Nachos.Threads.Placement

/-!
# Context switches and user programs

There is one register file and one page table register for all threads. `Scheduler::Run` saves the
registers of the thread that gives up the processor, if that thread runs a user program, and after
`SWITCH` the thread that goes on puts its own back. The two halves belong to different calls of
`Run`: what is restored was saved by an earlier call, and between the two any threads have run, with
or without a user program, and interrupts have completed delayed loads in the one register file.

A `System` is a kernel together with the machine. Nothing of a user program is lost in it: a thread
finds the registers and the page table register as it left them.
-/

namespace Nachos

namespace Threads

open Program

/-- `class AddrSpace`, as far as the machine gets to know it. `P` is the type of the addresses of
page tables. -/
structure Space (P : Type) where
  pageTable : P
  numPages : Word
  deriving DecidableEq, Repr

/-- The kernel and the machine it runs on. -/
structure System (T S P : Type) where
  kernel : Kernel T S
  registers : ℕ → Word
  mainMemory : ℕ → Byte
  tlb : Option (ℕ → TranslationEntry)
  pageTable : Option P
  pageTableSize : Word
  /-- The page tables in the memory of the host. -/
  tables : P → ℕ → TranslationEntry
  /-- `Thread::space`. -/
  space : T → Option (Space P)
  /-- `Thread::userRegisters`. -/
  userRegisters : T → ℕ → Word

variable {T S P : Type} [DecidableEq T]

/-- The thread with which an event calls `Scheduler::Run`. -/
def Kernel.nextThread (k : Kernel T S) : Event T S → Option T
  | .yield | .dispatch => k.readyList.head?
  | _ => none

/-- The kernel after an event, if that does not make it crash. -/
def Kernel.after [DecidableEq S] (k : Kernel T S) (e : Event T S) : Option (Kernel T S) :=
  match step e k with
  | .ok _ k' => some k'
  | .error _ _ => none

namespace System

/-! ## The machine -/

/-- The machine an instruction sees: the page table is the one that the pointer points to. -/
def machine (w : System T S P) : Machine where
  registers := w.registers
  mainMemory := w.mainMemory
  tlb := w.tlb
  pageTable := w.pageTable.map w.tables
  pageTableSize := w.pageTableSize

def setKernel (w : System T S P) (k : Kernel T S) : System T S P := { w with kernel := k }

/-- What an instruction leaves. -/
def setMachine [DecidableEq P] (w : System T S P) (m : Machine) : System T S P :=
  { w with
    registers := m.registers
    mainMemory := m.mainMemory
    tlb := m.tlb
    pageTableSize := m.pageTableSize
    tables :=
      match w.pageTable, m.pageTable with
      | some p, some table => Function.update w.tables p table
      | _, _ => w.tables }

/-- Code of the simulator, up to its end or a trap. -/
def onMachine [DecidableEq P] (w : System T S P) (x : Exec Unit) : Option (System T S P) :=
  match x w.machine with
  | .ok _ m => some (w.setMachine m)
  | .error (.trap _) m => some (w.setMachine m)
  | .error (.fault _) _ => none

/-! ## The two halves of a switch -/

/-- `Thread::SaveUserState`. -/
def saveUserState (w : System T S P) (thread : T) : System T S P :=
  { w with userRegisters := Function.update w.userRegisters thread fun i ↦
      if i < numTotalRegs then w.registers i else w.userRegisters thread i }

/-- `Thread::RestoreUserState`. -/
def restoreUserState (w : System T S P) (thread : T) : System T S P :=
  { w with registers := fun i ↦
      if i < numTotalRegs then w.userRegisters thread i else w.registers i }

/-- `AddrSpace::RestoreState`. -/
def restoreState (w : System T S P) (space : Space P) : System T S P :=
  { w with pageTable := some space.pageTable, pageTableSize := space.numPages }

/-- What `Scheduler::Run` does for a user program before `SWITCH`; `AddrSpace::SaveState` saves
nothing. -/
def leave (w : System T S P) (oldThread : T) : System T S P :=
  match w.space oldThread with
  | none => w
  | some _ => w.saveUserState oldThread

/-- What `Scheduler::Run` does for a user program after `SWITCH`. -/
def comeBack (w : System T S P) (oldThread : T) : System T S P :=
  match w.space oldThread with
  | none => w
  | some space => (w.restoreUserState oldThread).restoreState space

/-- `Scheduler::Run`, as far as the machine is concerned. A thread that has not begun does not come
out of a `SWITCH` in `Run` but starts in `Thread::Begin`. -/
def switch [DecidableEq S] (w : System T S P) (nextThread : T) : System T S P :=
  let w := w.leave w.kernel.currentThread
  if w.kernel.resume nextThread = .begin then w else w.comeBack nextThread

/-- The page table register is that of the address space. -/
def Installed (w : System T S P) (space : Space P) : Prop :=
  w.pageTable = some space.pageTable ∧ w.pageTableSize = space.numPages

/-- What the thread `t` has stored: its address space, and the registers of its program. -/
structure Holds (w : System T S P) (t : T) (space : Space P) (registers : ℕ → Word) : Prop where
  space : w.space t = some space
  registers : ∀ i < numTotalRegs, w.userRegisters t i = registers i

/-- The machine is set up for a program with these registers. -/
structure Runs (w : System T S P) (space : Space P) (registers : ℕ → Word) : Prop where
  installed : w.Installed space
  registers : ∀ i < numTotalRegs, w.registers i = registers i

section switch

variable {w : System T S P} {t u n : T} {space : Space P} {registers : ℕ → Word}

@[simp] theorem leave_kernel (w : System T S P) (t : T) : (w.leave t).kernel = w.kernel := by
  rw [leave]
  split <;> rfl

@[simp] theorem leave_space (w : System T S P) (t : T) : (w.leave t).space = w.space := by
  rw [leave]
  split <;> rfl

omit [DecidableEq T] in
@[simp] theorem comeBack_space (w : System T S P) (t : T) : (w.comeBack t).space = w.space := by
  rw [comeBack]
  split <;> rfl

omit [DecidableEq T] in
@[simp] theorem comeBack_userRegisters (w : System T S P) (t : T) :
    (w.comeBack t).userRegisters = w.userRegisters := by
  rw [comeBack]
  split <;> rfl

/-- The thread that leaves has stored its registers. -/
private theorem holds_leave (h : w.space t = some space) :
    (w.leave t).Holds t space w.registers := by
  refine ⟨by rw [leave_space, h], fun i hi ↦ ?_⟩
  rw [leave, h]
  simp only [saveUserState, Function.update_self]
  exact if_pos hi

/-- The other threads keep what they have stored. -/
theorem Holds.leave (h : w.Holds t space registers) (hne : t ≠ u) :
    (w.leave u).Holds t space registers := by
  refine ⟨by rw [leave_space, h.space], fun i hi ↦ ?_⟩
  rw [System.leave]
  split
  · exact h.registers i hi
  · simp only [saveUserState, Function.update_of_ne hne]
    exact h.registers i hi

omit [DecidableEq T] in
/-- The thread that comes back finds what it had stored. -/
theorem Holds.runs_comeBack (h : w.Holds t space registers) :
    (w.comeBack t).Runs space registers := by
  rw [comeBack, h.space]
  refine ⟨⟨rfl, rfl⟩, fun i hi ↦ ?_⟩
  exact (if_pos hi).trans (h.registers i hi)

variable [DecidableEq S]

private theorem switch_space (w : System T S P) (n : T) : (w.switch n).space = w.space := by
  rw [switch]
  split
  · exact leave_space w _
  · exact (comeBack_space _ n).trans (leave_space w _)

theorem Holds.switch (h : (w.leave w.kernel.currentThread).Holds t space registers) (n : T) :
    (w.switch n).Holds t space registers := by
  rw [System.switch]
  split
  · exact h
  · exact ⟨by rw [comeBack_space, h.space], fun i hi ↦ by
      rw [comeBack_userRegisters]
      exact h.registers i hi⟩

theorem Holds.runs_switch (h : (w.leave w.kernel.currentThread).Holds n space registers)
    (hn : w.kernel.resume n ≠ .begin) : (w.switch n).Runs space registers := by
  rw [System.switch, if_neg (by rwa [leave_kernel])]
  exact h.runs_comeBack

end switch

variable [DecidableEq S] [DecidableEq P]

/-! ## Runs -/

variable (T S P) in
inductive Action where
  /-- An event of the kernel that is no interrupt. -/
  | kernel (e : Event T S)
  /-- `Interrupt::CheckIfDue` finds interrupts due, whose handlers call `V`. -/
  | interrupt (posts : List S)
  /-- The current thread calls `AddrSpace::Execute`. -/
  | execute (space : Space P)
  /-- The current thread executes an instruction of its program. -/
  | instruction
  /-- The exception handler has written to the registers and to the memory. -/
  | handler (registers : ℕ → Word) (mainMemory : ℕ → Byte)

/-- Can it happen? -/
def Allows (w : System T S P) : Action T S P → Prop
  | .kernel e => w.kernel.Allows e ∧ ∀ s, e ≠ .interrupt s
  | .interrupt _ =>
    w.kernel.control = .running ∨ ∃ finishing, w.kernel.control = .sleeping finishing
  | .execute _ => w.kernel.control = .running
  | .instruction | .handler _ _ =>
    w.kernel.control = .running ∧ w.space w.kernel.currentThread ≠ none

/-- What happens. -/
def step (w : System T S P) : Action T S P → Option (System T S P)
  | .kernel e => do
    let k ← w.kernel.after e
    match w.kernel.nextThread e with
    | none => some (w.setKernel k)
    | some n => some ((w.switch n).setKernel k)
  | .interrupt posts => do
    let w ← w.onMachine (delayedLoad 0 0)
    let k ← posts.foldlM (fun k s ↦ k.after (.interrupt s)) w.kernel
    some (w.setKernel k)
  | .execute space => some (restoreState { w with
      space := Function.update w.space w.kernel.currentThread (some space)
      registers := initRegisters space.numPages } space)
  | .instruction => w.onMachine oneInstruction
  | .handler registers mainMemory =>
    some { w with registers := registers, mainMemory := mainMemory }

/-- The system when the first thread starts: no thread runs a user program yet. -/
structure Starts (w : System T S P) (main : T) (initialValue : S → ℤ) : Prop where
  kernel : w.kernel = Kernel.init main initialValue
  space : ∀ t, w.space t = none

/-- The systems a run can lead to. -/
inductive Reachable (main : T) (initialValue : S → ℤ) : System T S P → Prop
  | start {w : System T S P} (h : w.Starts main initialValue) : Reachable main initialValue w
  | step {w w' : System T S P} {a : Action T S P} (hw : Reachable main initialValue w)
      (ha : w.Allows a) (hstep : w.step a = some w') : Reachable main initialValue w'

/-- A run from `w` to `w'` in which the thread has the processor in the last state only. -/
inductive Returns (t : T) : System T S P → System T S P → Prop
  | here {w : System T S P} (h : w.kernel.currentThread = t) : Returns t w w
  | later {w w₁ w' : System T S P} {a : Action T S P} (h : w.kernel.currentThread ≠ t)
      (ha : w.Allows a) (hstep : w.step a = some w₁) (hrest : Returns t w₁ w') : Returns t w w'

end System

/-! ## What the kernel does to a thread -/

section kernel

variable [DecidableEq S] {k k' : Kernel T S} {e : Event T S}

theorem Kernel.step_of_after (h : k.after e = some k') : step e k = .ok () k' := by
  rw [Kernel.after] at h
  split at h
  · next hstep =>
    cases h
    exact hstep
  · cases h

theorem Kernel.Moves.currentThread (hm : k.Moves e k') :
    k'.currentThread = (k.nextThread e).getD k.currentThread := by
  cases hm with
  | yieldAlone hc hr => rw [Kernel.nextThread, hr]; rfl
  | yield hc hr => rw [Kernel.nextThread, hr]; rfl
  | dispatch hc hr => rw [Kernel.nextThread, hr]; rfl
  | post he hq hv => obtain rfl | rfl := he <;> rfl
  | awaken he hq hv => obtain rfl | rfl := he <;> rfl
  | _ => rfl

/-- The thread is not executing: it does not have the processor, or it is in the loop of
`Thread::Sleep`. -/
def Kernel.Suspended (k : Kernel T S) (t : T) : Prop :=
  t ≠ k.currentThread ∨ ∃ finishing, k.control = .sleeping finishing

/-- A thread that was created is not created again. -/
theorem Kernel.Moves.created (hm : k.Moves e k') {t : T} (ht : k.status t ≠ .justCreated) :
    k'.status t ≠ .justCreated := by
  have hupdate : ∀ (u : T) (st : ThreadStatus) (status : T → ThreadStatus),
      st ≠ .justCreated → status t ≠ .justCreated →
        Function.update status u st t ≠ .justCreated := by
    intro u st status hst hold
    by_cases htu : t = u
    · rwa [htu, Function.update_self]
    · rwa [Function.update_of_ne htu]
  cases hm with
  | fork hc hnew => exact hupdate _ _ _ (by decide) ht
  | yield hc hr => exact hupdate _ _ _ (by decide) (hupdate _ _ _ (by decide) ht)
  | sleep hc hv => exact hupdate _ _ _ (by decide) ht
  | awaken he hq hv => exact hupdate _ _ _ (by decide) ht
  | finish hc => exact hupdate _ _ _ (by decide) ht
  | dispatch hc hr => exact hupdate _ _ _ (by decide) ht
  | _ => exact ht

/-- A thread that was suspended somewhere behind its start stays so, and one that is suspended now
was executing. -/
theorem Kernel.Moves.begun (hm : k.Moves e k') {t : T} (ht : k.status t ≠ .justCreated)
    (hbegun : k.Suspended t → k.resume t ≠ .begin) : k'.Suspended t → k'.resume t ≠ .begin := by
  have hupdate : ∀ (u : T) (r : Resume S), r ≠ .begin → (t ≠ u → k.resume t ≠ .begin) →
      Function.update k.resume u r t ≠ .begin := by
    intro u r hr hold
    by_cases htu : t = u
    · rwa [htu, Function.update_self]
    · rw [Function.update_of_ne htu]
      exact hold htu
  intro hs
  cases hm with
  | fork hc hnew =>
    rename_i thread
    have hne : t ≠ thread := fun heq ↦ ht (heq ▸ hnew)
    exact (Function.update_of_ne hne _ _).trans_ne (hbegun hs)
  | yieldAlone hc hr => exact hbegun hs
  | yield hc hr => exact hupdate _ _ (fun h ↦ by cases h) fun hne ↦ hbegun (.inl hne)
  | callP hc => exact hbegun (hs.imp_right fun ⟨_, hsleep⟩ ↦ by cases hsleep)
  | sleep hc hv => exact hupdate _ _ (fun h ↦ by cases h) fun hne ↦ hbegun (.inl hne)
  | pass hc hv => exact hbegun (hs.imp_right fun ⟨_, hsleep⟩ ↦ by cases hsleep)
  | post he hq hv => exact hbegun hs
  | awaken he hq hv => exact hbegun hs
  | finish hc => exact hupdate _ _ (fun h ↦ by cases h) fun hne ↦ hbegun (.inl hne)
  | dispatch hc hr => exact hbegun (.inr ⟨_, hc⟩)

/-- What a thread can rely on while the kernel goes from `k` to `k'`. -/
structure Kernel.Later (k k' : Kernel T S) : Prop where
  placed : k'.Placed
  created : ∀ t, k.status t ≠ .justCreated → k'.status t ≠ .justCreated
  begun : ∀ t, k.status t ≠ .justCreated → (k.Suspended t → k.resume t ≠ .begin) →
    k'.Suspended t → k'.resume t ≠ .begin

omit [DecidableEq S] in
theorem Kernel.Later.refl (hk : k.Placed) : k.Later k := ⟨hk, fun _ h ↦ h, fun _ _ h ↦ h⟩

omit [DecidableEq S] in
theorem Kernel.Later.trans {k'' : Kernel T S} (h : k.Later k') (h' : k'.Later k'') :
    k.Later k'' :=
  ⟨h'.placed, fun t ht ↦ h'.created t (h.created t ht),
    fun t ht hbegun ↦ h'.begun t (h.created t ht) (h.begun t ht hbegun)⟩

theorem Kernel.Moves.later (hm : k.Moves e k') (hk : k.Placed) : k.Later k' :=
  ⟨hm.placed hk, fun _ ht ↦ hm.created ht, fun _ ht hbegun ↦ hm.begun ht hbegun⟩

/-- The thread that gets the processor was suspended. -/
theorem Kernel.Moves.suspended (hm : k.Moves e k') (hk : k.Placed) {n : T}
    (hn : k.nextThread e = some n) : k.Suspended n := by
  cases hm with
  | yieldAlone hc hr =>
    rw [Kernel.nextThread, hr] at hn
    cases hn
  | yield hc hr =>
    rw [Kernel.nextThread, hr] at hn
    cases hn
    -- the current thread is running, the next one is ready
    have hready : k.status n = .ready := (hk.ready_iff n).mp (by rw [hr]; exact List.mem_cons_self)
    have hcur := hk.status_current (by rw [hc]; trivial)
    refine .inl fun heq ↦ ?_
    rw [heq, hcur] at hready
    cases hready
  | dispatch hc hr => exact .inr ⟨_, hc⟩
  | post he hq hv => obtain rfl | rfl := he <;> cases hn
  | awaken he hq hv => obtain rfl | rfl := he <;> cases hn
  | _ => cases hn

/-- Handlers of interrupts that call `V` one after the other. -/
theorem Kernel.later_interrupts {posts : List S} (hk : k.Placed)
    (hc : k.control = .running ∨ ∃ finishing, k.control = .sleeping finishing)
    (h : posts.foldlM (fun k s ↦ k.after (.interrupt s)) k = some k') :
    k.Later k' ∧ k'.currentThread = k.currentThread := by
  induction posts generalizing k with
  | nil =>
    cases h
    exact ⟨.refl hk, rfl⟩
  | cons s posts ih =>
    rw [List.foldlM_cons, Option.bind_eq_bind, Option.bind_eq_some_iff] at h
    obtain ⟨k₁, hafter, hrest⟩ := h
    have hm := moves_of_step hk (e := .interrupt s) hc (Kernel.step_of_after hafter)
    have hcontrol : k₁.control = k.control := by
      cases hm with
      | post he hq hv => rfl
      | awaken he hq hv => rfl
    obtain ⟨hlater, hcurrent⟩ := ih (hm.placed hk) (by rwa [hcontrol]) hrest
    exact ⟨(hm.later hk).trans hlater, hcurrent.trans hm.currentThread⟩

end kernel

namespace System

variable [DecidableEq S] [DecidableEq P]

/-! ## The invariant -/

/-- The program of the current thread is installed, and every suspended thread with a program will
put its registers back when it goes on. -/
structure Inv (w : System T S P) : Prop where
  placed : w.kernel.Placed
  installed : ∀ space, w.space w.kernel.currentThread = some space → w.Installed space
  created : ∀ t, w.space t ≠ none → w.kernel.status t ≠ .justCreated
  begun : ∀ t, w.space t ≠ none → w.kernel.Suspended t → w.kernel.resume t ≠ .begin

/-! ## One step -/

section step

variable {w w' : System T S P} {a : Action T S P}

/-- What does not touch the page table register or what threads have stored. -/
structure Alike (w w' : System T S P) : Prop where
  pageTable : w'.pageTable = w.pageTable
  pageTableSize : w'.pageTableSize = w.pageTableSize
  space : w'.space = w.space
  userRegisters : w'.userRegisters = w.userRegisters

omit [DecidableEq T] [DecidableEq S] in
private theorem alike_onMachine {x : Exec Unit} (hx : LeavesTable x) (h : w.onMachine x = some w') :
    w.Alike w' ∧ w'.kernel = w.kernel := by
  have hsize := hx w.machine.pageTableSize w.machine rfl
  rw [onMachine] at h
  cases hrun : x w.machine with
  | ok u m =>
    rw [hrun] at h hsize
    cases h
    exact ⟨⟨rfl, hsize, rfl, rfl⟩, rfl⟩
  | error stop m =>
    rw [hrun] at h hsize
    cases stop with
    | trap which =>
      cases h
      exact ⟨⟨rfl, hsize, rfl, rfl⟩, rfl⟩
    | fault f => cases h

private theorem step_kernel {e : Event T S} (hk : w.kernel.Placed) (ha : w.Allows (.kernel e))
    (h : w.step (.kernel e) = some w') :
    ∃ k, w.kernel.Moves e k ∧ w' = match w.kernel.nextThread e with
      | none => w.setKernel k
      | some n => (w.switch n).setKernel k := by
  rw [step, Option.bind_eq_bind, Option.bind_eq_some_iff] at h
  obtain ⟨k, hafter, h⟩ := h
  refine ⟨k, Threads.moves_of_step hk ha.1 (Kernel.step_of_after hafter), ?_⟩
  cases hnext : w.kernel.nextThread e with
  | none =>
    rw [hnext] at h
    cases h
    rfl
  | some n =>
    rw [hnext] at h
    cases h
    rfl

/-- Everything an action can do: it changes the registers and the memory only; the current thread
starts a program; or the processor goes to another thread. -/
inductive Moves (w : System T S P) (a : Action T S P) (w' : System T S P) : Prop
  | stays (hlater : w.kernel.Later w'.kernel)
      (hcurrent : w'.kernel.currentThread = w.kernel.currentThread) (halike : w.Alike w')
  | starts (space : Space P) (hkernel : w'.kernel = w.kernel)
      (hspace : w'.space = Function.update w.space w.kernel.currentThread (some space))
      (hinstalled : w'.Installed space) (huser : w'.userRegisters = w.userRegisters)
      (hawake : w.kernel.control = .running)
  | switches {e : Event T S} (n : T) (k : Kernel T S) (ha : a = .kernel e)
      (hnext : w.kernel.nextThread e = some n) (hmoves : w.kernel.Moves e k)
      (hw' : w' = (w.switch n).setKernel k)

theorem moves_of_step (hk : w.kernel.Placed) (ha : w.Allows a) (h : w.step a = some w') :
    w.Moves a w' := by
  cases a with
  | kernel e =>
    obtain ⟨k, hm, hw'⟩ := step_kernel hk ha h
    have hcurrent := hm.currentThread
    cases hnext : w.kernel.nextThread e with
    | none =>
      rw [hnext] at hw' hcurrent
      rw [hw']
      exact .stays (hm.later hk) hcurrent ⟨rfl, rfl, rfl, rfl⟩
    | some n =>
      rw [hnext] at hw'
      exact .switches n k rfl hnext hm hw'
  | interrupt posts =>
    rw [step, Option.bind_eq_bind, Option.bind_eq_some_iff] at h
    obtain ⟨w₁, hload, h⟩ := h
    obtain ⟨halike, hkernel⟩ := alike_onMachine (leavesTable_delayedLoad 0 0) hload
    rw [Option.bind_eq_bind, Option.bind_eq_some_iff] at h
    obtain ⟨k, hposts, h⟩ := h
    cases h
    rw [hkernel] at hposts
    obtain ⟨hlater, hcurrent⟩ := Kernel.later_interrupts hk ha hposts
    exact .stays hlater hcurrent
      ⟨halike.pageTable, halike.pageTableSize, halike.space, halike.userRegisters⟩
  | execute space =>
    cases h
    exact .starts space rfl rfl ⟨rfl, rfl⟩ rfl ha
  | instruction =>
    obtain ⟨halike, hkernel⟩ := alike_onMachine leavesTable_oneInstruction h
    rw [← hkernel] at hk
    exact .stays (by rw [← hkernel]; exact .refl hk) (by rw [hkernel]) halike
  | handler registers mainMemory =>
    cases h
    exact .stays (.refl hk) rfl ⟨rfl, rfl, rfl, rfl⟩

omit [DecidableEq S] [DecidableEq P] in
theorem inv_start {main : T} {initialValue : S → ℤ} (h : w.Starts main initialValue) : w.Inv := by
  refine ⟨?_, fun space hspace ↦ ?_, fun t ht ↦ absurd (h.space t) ht,
    fun t ht ↦ absurd (h.space t) ht⟩
  · rw [h.kernel]
    exact placed_init main initialValue
  · rw [h.space] at hspace
    cases hspace

omit [DecidableEq P] in
/-- The thread that gets the processor, if it has a program, has the rest of `Run` before it. -/
theorem Inv.resume_ne_begin (h : w.Inv) {e : Event T S} {k : Kernel T S} {n : T}
    (hm : w.kernel.Moves e k) (hnext : w.kernel.nextThread e = some n) (hn : w.space n ≠ none) :
    w.kernel.resume n ≠ .begin :=
  h.begun n hn (hm.suspended h.placed hnext)

omit [DecidableEq P] in
theorem Inv.step (h : w.Inv) (hm : w.Moves a w') : w'.Inv := by
  cases hm with
  | stays hlater hcurrent halike =>
    refine ⟨hlater.placed, fun space hspace ↦ ?_, fun t ht ↦ ?_, fun t ht ↦ ?_⟩
    · rw [halike.space, hcurrent] at hspace
      rw [Installed, halike.pageTable, halike.pageTableSize]
      exact h.installed space hspace
    · rw [halike.space] at ht
      exact hlater.created t (h.created t ht)
    · rw [halike.space] at ht
      exact hlater.begun t (h.created t ht) (h.begun t ht)
  | starts space hkernel hspace hinstalled huser hawake =>
    have hstatus := h.placed.status_current (by rw [hawake]; trivial)
    have hother : ∀ t, t ≠ w.kernel.currentThread → w'.space t = w.space t := by
      intro t ht
      rw [hspace, Function.update_of_ne ht]
    refine ⟨hkernel ▸ h.placed, fun sp hsp ↦ ?_, fun t ht ↦ ?_, fun t ht hs ↦ ?_⟩
    · rw [hspace, hkernel, Function.update_self] at hsp
      cases hsp
      exact hinstalled
    · rw [hkernel]
      by_cases hcur : t = w.kernel.currentThread
      · rw [hcur, hstatus]
        decide
      · exact h.created t (hother t hcur ▸ ht)
    · rw [hkernel] at hs ⊢
      rcases hs with hne | ⟨finishing, hsleep⟩
      · exact h.begun t (hother t hne ▸ ht) (.inl hne)
      · rw [hawake] at hsleep
        cases hsleep
  | switches n k ha hnext hmoves hw' =>
    have hlater := hmoves.later h.placed
    have hspaces : w'.space = w.space := by rw [hw']; exact switch_space w n
    have hkernel : w'.kernel = k := by rw [hw', setKernel]
    have hcurrent : w'.kernel.currentThread = n := by
      rw [hkernel, hmoves.currentThread, hnext, Option.getD_some]
    refine ⟨hkernel ▸ hlater.placed, fun space hspace ↦ ?_, fun t ht ↦ ?_, fun t ht ↦ ?_⟩
    · rw [hcurrent, hspaces] at hspace
      have hn := h.resume_ne_begin hmoves hnext (by rw [hspace]; exact Option.some_ne_none space)
      have hruns : (w.switch n).Runs space _ :=
        Holds.runs_switch ⟨by rw [leave_space, hspace], fun _ _ ↦ rfl⟩ hn
      rw [hw']
      exact hruns.installed
    · rw [hspaces] at ht
      rw [hkernel]
      exact hlater.created t (h.created t ht)
    · rw [hspaces] at ht
      rw [hkernel]
      exact hlater.begun t (h.created t ht) (h.begun t ht)

theorem Reachable.inv {main : T} {initialValue : S → ℤ} (h : Reachable main initialValue w) :
    w.Inv := by
  induction h with
  | start h => exact inv_start h
  | step hw ha hstep ih => exact ih.step (moves_of_step ih.placed ha hstep)

/-! ## Away from the processor -/

variable {t : T} {space : Space P} {registers : ℕ → Word}

omit [DecidableEq P] in
/-- A switch between any two threads, seen by a thread with a program that does not have the
processor after it, or gets it with the switch. -/
theorem Inv.holds_switch (h : w.Inv) {e : Event T S} {n : T} {k : Kernel T S}
    (hnext : w.kernel.nextThread e = some n) (hmoves : w.kernel.Moves e k)
    (ht : (w.leave w.kernel.currentThread).Holds t space registers) :
    ((w.switch n).setKernel k).Holds t space registers ∧
      (n = t → ((w.switch n).setKernel k).Runs space registers) := by
  have hstored := ht.switch n
  refine ⟨⟨hstored.space, hstored.registers⟩, ?_⟩
  rintro rfl
  have hspace := ht.space
  rw [leave_space] at hspace
  have hn := h.resume_ne_begin hmoves hnext (by rw [hspace]; exact Option.some_ne_none space)
  have hruns := ht.runs_switch hn
  exact ⟨hruns.installed, hruns.registers⟩

omit [DecidableEq P] in
/-- While other threads have the processor, a thread keeps what it has stored; when it gets the
processor, its program is there again. -/
theorem Holds.step (hinv : w.Inv) (h : w.Holds t space registers)
    (hne : w.kernel.currentThread ≠ t) (hm : w.Moves a w') :
    w'.Holds t space registers ∧ (w'.kernel.currentThread = t → w'.Runs space registers) := by
  cases hm with
  | stays hlater hcurrent halike =>
    refine ⟨⟨by rw [halike.space, h.space], fun i hi ↦ ?_⟩, fun ht ↦ absurd ht ?_⟩
    · rw [halike.userRegisters]
      exact h.registers i hi
    · rwa [hcurrent]
  | starts sp hkernel hspace hinstalled huser hawake =>
    refine ⟨⟨?_, fun i hi ↦ ?_⟩, fun ht ↦ absurd ht (hkernel ▸ hne)⟩
    · rw [hspace, Function.update_of_ne hne.symm, h.space]
    · rw [huser]
      exact h.registers i hi
  | switches n k ha hnext hmoves hw' =>
    have hboth := hinv.holds_switch hnext hmoves (h.leave hne.symm)
    rw [← hw'] at hboth
    refine ⟨hboth.1, fun ht ↦ hboth.2 ?_⟩
    rw [← ht, hw', setKernel, hmoves.currentThread, hnext, Option.getD_some]

theorem Returns.runs {w₀ : System T S P} (hret : Returns t w₀ w') (hinv : w₀.Inv)
    (h : w₀.Holds t space registers)
    (hruns : w₀.kernel.currentThread = t → w₀.Runs space registers) : w'.Runs space registers := by
  induction hret with
  | here ht => exact hruns ht
  | later hne ha hstep hrest ih =>
    have hm := moves_of_step hinv.placed ha hstep
    obtain ⟨hholds, hback⟩ := h.step hinv hne hm
    exact ih (hinv.step hm) hholds hback

end step

/-- **Context switches are transparent.** Take any system that a run can lead to whose current
thread runs a user program, and let that thread call `Scheduler::Run`. Whatever the other threads
and the interrupts do until the thread has the processor again, it then finds all registers of the
machine, the page table pointer and the size of the page table as they were when it called
`Run`. -/
theorem context_switch_transparent {main : T} {initialValue : S → ℤ} {w w₁ w' : System T S P}
    (hw : Reachable main initialValue w) (hspace : w.space w.kernel.currentThread ≠ none)
    {e : Event T S} (hrun : w.kernel.nextThread e ≠ none) (he : w.Allows (.kernel e))
    (hstep : w.step (.kernel e) = some w₁) (hreturn : Returns w.kernel.currentThread w₁ w') :
    (∀ i < numTotalRegs, w'.registers i = w.registers i) ∧ w'.pageTable = w.pageTable ∧
      w'.pageTableSize = w.pageTableSize := by
  have hinv := hw.inv
  obtain ⟨space, hspace⟩ := Option.ne_none_iff_exists'.mp hspace
  obtain ⟨n, hnext⟩ := Option.ne_none_iff_exists'.mp hrun
  have hinstalled := hinv.installed space hspace
  obtain ⟨k, hmoves, hw₁⟩ := step_kernel hinv.placed he hstep
  rw [hnext] at hw₁
  dsimp only at hw₁
  have hboth := hinv.holds_switch hnext hmoves (holds_leave hspace)
  rw [← hw₁] at hboth
  have hruns : w'.Runs space w.registers := by
    refine hreturn.runs (hinv.step (.switches n k rfl hnext hmoves hw₁)) hboth.1 fun ht ↦
      hboth.2 ?_
    rw [← ht, hw₁, setKernel, hmoves.currentThread, hnext, Option.getD_some]
  exact ⟨hruns.registers, hruns.installed.1.trans hinstalled.1.symm,
    hruns.installed.2.trans hinstalled.2.symm⟩

/-- Two threads, the first of which is about to start. -/
def twoThreads : System Bool Unit Bool where
  kernel := Kernel.init false fun _ ↦ 0
  registers := fun _ ↦ 0
  mainMemory := fun _ ↦ 0
  tlb := none
  pageTable := none
  pageTableSize := 0
  tables := fun _ _ ↦ ⟨0, 0, false, false, false, false⟩
  space := fun _ ↦ none
  userRegisters := fun _ _ ↦ 0

/-- The first thread starts a program of four pages, forks the other and yields. That one starts a
program of eight pages, is interrupted and yields, and the first finds its stack pointer and its
page table again. -/
theorem twoThreads_transparent :
    ∃ w' : System Bool Unit Bool, Reachable false (fun _ ↦ 0) w' ∧
      w'.registers stackReg = 496 ∧ w'.pageTable = some false ∧ w'.pageTableSize = 4 := by
  have h₀ : Reachable false (fun _ ↦ 0) twoThreads := .start ⟨rfl, fun _ ↦ rfl⟩
  have h₁ := h₀.step (a := .execute ⟨false, 4⟩) rfl rfl
  have h₂ := h₁.step (a := .kernel (.fork true)) ⟨⟨rfl, rfl⟩, fun _ h ↦ by cases h⟩ rfl
  have h₃ := h₂.step (a := .kernel .yield) ⟨rfl, fun _ h ↦ by cases h⟩ rfl
  have h₄ := h₃.step (a := .execute ⟨true, 8⟩) rfl rfl
  have h₅ := h₄.step (a := .interrupt []) (.inl rfl) rfl
  have h₆ := h₅.step (a := .kernel .yield) ⟨rfl, fun _ h ↦ by cases h⟩ rfl
  obtain ⟨hregisters, htable, hsize⟩ := context_switch_transparent h₂ (Option.some_ne_none _)
    (e := .yield) (Option.some_ne_none _) ⟨rfl, fun _ h ↦ by cases h⟩ rfl
    (.later (a := .execute ⟨true, 8⟩) (by decide) rfl rfl
      (.later (a := .interrupt []) (by decide) (.inl rfl) rfl
        (.later (a := .kernel .yield) (by decide) ⟨rfl, fun _ h ↦ by cases h⟩ rfl (.here rfl))))
  exact ⟨_, h₆, (hregisters stackReg (by decide)).trans rfl, htable, hsize⟩

end System

end Threads

end Nachos
