import Mathlib.Algebra.Group.Int.Defs
import Nachos.Lib.List
import Nachos.Program.Exec

/-!
# Threads, the scheduler and semaphores

One processor runs many threads. Every routine here turns interrupts off first, so it is a single
step; what can come between two steps is an interrupt handler, which may call `V`, or the timer,
which makes the current thread yield. Where a thread stands when it does not have the processor is
kept in `resume`: it was forked and has not begun, it is inside `Thread::Yield`, it is inside the
loop of `Semaphore::P`, or it has finished. `SWITCH` becomes: the next thread goes on from there.

`Thread::Sleep` looks for the next thread in a loop, idling while there is none; only interrupts can
end that. So a kernel is in one of three situations, its `control`: the current thread runs outside
the kernel, it is about to test the value in `P`, or it is in the loop of `Sleep`.

The threads `T` and the semaphores `S` are any types. How often a thread was deleted is kept along
for the statements; the calls that were made are the events of a run.
-/

namespace Nachos

namespace Threads

open Program

inductive ThreadStatus where
  | justCreated | running | ready | blocked
  deriving DecidableEq, Repr

/-- Why the kernel itself stops: a failed `ASSERT`, or an `int` that passed its largest value. -/
inductive Crash where
  | assertFailed
  | overflow
  deriving DecidableEq, Repr

/-- `class Semaphore`; `value` is an `int`. -/
structure Semaphore (T : Type) where
  value : ℤ
  queue : List T
  deriving DecidableEq, Repr

/-- `Semaphore::Semaphore`. -/
def Semaphore.new {T : Type} (initialValue : ℤ) : Semaphore T := ⟨initialValue, []⟩

/-- The largest `int`. -/
@[simp] abbrev intMax : ℤ := 2 ^ 31 - 1

/-- Where a thread goes on when it gets the processor. -/
inductive Resume (S : Type) where
  /-- At the start of its procedure, in `Thread::Begin`. -/
  | begin
  /-- In `Thread::Yield`. -/
  | yielded
  /-- In the loop of `P` on the semaphore. -/
  | slept (s : S)
  /-- Nowhere. -/
  | finished
  deriving DecidableEq, Repr

/-- What the current thread is doing. -/
inductive Control (S : Type) where
  /-- It executes code of its own, with interrupts on. -/
  | running
  /-- It is about to test the value in `P`, for the first time or after it was awakened. -/
  | testing (s : S) (awakened : Bool)
  /-- It is in the loop of `Thread::Sleep`. -/
  | sleeping (finishing : Bool)
  deriving DecidableEq, Repr

structure Kernel (T S : Type) where
  currentThread : T
  control : Control S
  status : T → ThreadStatus
  readyList : List T
  toBeDestroyed : Option T
  semaphore : S → Semaphore T
  resume : T → Resume S
  /-- Has the thread called `Finish`? -/
  finished : T → Bool
  /-- How often the thread was deleted. -/
  deletions : T → ℕ

/-- Code of the kernel. -/
abbrev Sched (T S : Type) := EStateM Crash (Kernel T S)

variable {T S : Type} [DecidableEq T] [DecidableEq S]

/-! ## Updates -/

section updates

variable (k : Kernel T S)

def Kernel.setStatus (t : T) (st : ThreadStatus) : Kernel T S :=
  { k with status := Function.update k.status t st }

def Kernel.setResume (t : T) (r : Resume S) : Kernel T S :=
  { k with resume := Function.update k.resume t r }

def Kernel.setSemaphore (s : S) (sem : Semaphore T) : Kernel T S :=
  { k with semaphore := Function.update k.semaphore s sem }

end updates

/-! ## The scheduler -/

/-- `Scheduler::ReadyToRun`. -/
def readyToRun (thread : T) : Sched T S Unit := do
  modify fun k ↦ k.setStatus thread .ready
  let k ← get
  match listAppend k.readyList thread with
  | none => throw .assertFailed
  | some l => set { k with readyList := l }

/-- `Scheduler::FindNextToRun`. -/
def findNextToRun : Sched T S (Option T) := do
  let k ← get
  match listRemoveFront k.readyList with
  | none => return none
  | some (thread, rest) =>
    set { k with readyList := rest }
    return some thread

/-- `Scheduler::CheckToBeDestroyed`, with the assertion of `Thread::~Thread`. -/
def checkToBeDestroyed : Sched T S Unit := do
  let k ← get
  match k.toBeDestroyed with
  | none => return
  | some thread =>
    if thread = k.currentThread then throw .assertFailed
    set { k with
      toBeDestroyed := none
      deletions := Function.update k.deletions thread (k.deletions thread + 1) }

/-- What follows `SWITCH` in the thread that gets the processor. -/
def goOn (thread : T) : Sched T S Unit := do
  let k ← get
  match k.resume thread with
  | .begin =>
    -- `Thread::Begin`
    checkToBeDestroyed
    modify fun k ↦ { k with control := .running }
  | .yielded =>
    checkToBeDestroyed
    modify fun k ↦ { k with control := .running }
  | .slept s =>
    checkToBeDestroyed
    modify fun k ↦ { k with control := .testing s true }
  | .finished => throw .assertFailed

/-- `Scheduler::Run`. The user registers and the address space are not part of this state. -/
def run (nextThread : T) (finishing : Bool) : Sched T S Unit := do
  let k ← get
  if finishing then
    if k.toBeDestroyed ≠ none then throw .assertFailed
    set { k with toBeDestroyed := some k.currentThread }
  modify fun k ↦ { k with currentThread := nextThread }.setStatus nextThread .running
  goOn nextThread

/-! ## Threads -/

/-- `Thread::Fork`. -/
def fork (thread : T) : Sched T S Unit := do
  modify fun k ↦ k.setResume thread .begin
  readyToRun thread

/-- `Thread::Yield`. -/
def yield : Sched T S Unit := do
  let nextThread ← findNextToRun
  match nextThread with
  | none => return
  | some nextThread =>
    let k ← get
    readyToRun k.currentThread
    modify fun k' ↦ k'.setResume k.currentThread .yielded
    run nextThread false

/-- `Thread::Sleep` up to its loop; the thread goes on at `goesOn` when it gets the
processor back. -/
def sleep (finishing : Bool) (goesOn : Resume S) : Sched T S Unit :=
  modify fun k ↦
    { (k.setStatus k.currentThread .blocked).setResume k.currentThread goesOn with
      control := .sleeping finishing }

/-- `Thread::Finish`. -/
def finish : Sched T S Unit := do
  modify fun k ↦ { k with finished := Function.update k.finished k.currentThread true }
  sleep true .finished

/-! ## Semaphores -/

/-- One pass through the loop of `Semaphore::P`, and what follows the loop. -/
def pTest (s : S) : Sched T S Unit := do
  let k ← get
  if (k.semaphore s).value = 0 then
    match listAppend (k.semaphore s).queue k.currentThread with
    | none => throw .assertFailed
    | some l =>
      set (k.setSemaphore s { k.semaphore s with queue := l })
      sleep false (.slept s)
  else
    set { k.setSemaphore s { k.semaphore s with value := (k.semaphore s).value - 1 } with
      control := .running }

/-- The `if` of `Semaphore::V`: make the first thread of the queue ready, if there is one. -/
def wakeFirst (s : S) : Sched T S Unit := do
  let k ← get
  match listRemoveFront (k.semaphore s).queue with
  | none => return
  | some (thread, rest) =>
    set (k.setSemaphore s { k.semaphore s with queue := rest })
    readyToRun thread

/-- `Semaphore::V`. -/
def v (s : S) : Sched T S Unit := do
  wakeFirst s
  let k ← get
  if (k.semaphore s).value = intMax then throw .overflow
  set (k.setSemaphore s { k.semaphore s with value := (k.semaphore s).value + 1 })

/-! ## Runs -/

inductive Event (T S : Type) where
  /-- The current thread forks `thread`. -/
  | fork (thread : T)
  /-- The current thread yields, by itself or because the timer made it. -/
  | yield
  /-- The current thread calls `P`. -/
  | callP (s : S)
  /-- The test of the value in `P`. -/
  | test
  /-- The current thread calls `V`. -/
  | callV (s : S)
  /-- An interrupt handler calls `V`. -/
  | interrupt (s : S)
  | finish
  /-- The loop of `Thread::Sleep` finds a thread. -/
  | dispatch
  deriving DecidableEq, Repr

/-- Can the event happen? A thread is forked once; interrupts come when they are on, or when the
loop of `Sleep` idles. -/
def Kernel.Allows (k : Kernel T S) : Event T S → Prop
  | .fork thread => k.control = .running ∧ k.status thread = .justCreated
  | .yield => k.control = .running
  | .callP _ => k.control = .running
  | .test => ∃ s awakened, k.control = .testing s awakened
  | .callV _ => k.control = .running
  | .interrupt _ => k.control = .running ∨ ∃ finishing, k.control = .sleeping finishing
  | .finish => k.control = .running
  | .dispatch => (∃ finishing, k.control = .sleeping finishing) ∧ k.readyList ≠ []

/-- What happens. -/
def step (e : Event T S) : Sched T S Unit := do
  let k ← get
  match e, k.control with
  | .fork thread, _ => fork thread
  | .yield, _ => yield
  | .callP s, _ => set { k with control := .testing s false }
  | .test, .testing s _ => pTest s
  | .callV s, _ => v s
  | .interrupt s, _ => v s
  | .finish, _ => finish
  | .dispatch, .sleeping finishing =>
    match ← findNextToRun with
    | none => return
    | some nextThread => run nextThread finishing
  | _, _ => return

/-- The kernel when its first thread starts. -/
def Kernel.init (main : T) (initialValue : S → ℤ) : Kernel T S where
  currentThread := main
  control := .running
  status := Function.update (fun _ ↦ .justCreated) main .running
  readyList := []
  toBeDestroyed := none
  semaphore := fun s ↦ .new (initialValue s)
  resume := fun _ ↦ .begin
  finished := fun _ ↦ false
  deletions := fun _ ↦ 0

/-- The kernels a run can lead to. -/
inductive Kernel.Reachable (main : T) (initialValue : S → ℤ) : Kernel T S → Prop
  | init : Kernel.Reachable main initialValue (Kernel.init main initialValue)
  | step {k k' : Kernel T S} {e : Event T S} (hk : Kernel.Reachable main initialValue k)
      (he : k.Allows e) (hstep : step e k = .ok () k') : Kernel.Reachable main initialValue k'

/-- The kernels a run can lead to, with the events of the run in their order. -/
inductive Kernel.Runs (main : T) (initialValue : S → ℤ) : List (Event T S) → Kernel T S → Prop
  | init : Kernel.Runs main initialValue [] (Kernel.init main initialValue)
  | step {events : List (Event T S)} {k k' : Kernel T S} {e : Event T S}
      (hk : Kernel.Runs main initialValue events k) (he : k.Allows e)
      (hstep : step e k = .ok () k') : Kernel.Runs main initialValue (events ++ [e]) k'

theorem Kernel.Runs.reachable {main : T} {initialValue : S → ℤ} {events : List (Event T S)}
    {k : Kernel T S} (h : Kernel.Runs main initialValue events k) :
    Kernel.Reachable main initialValue k := by
  induction h with
  | init => exact .init
  | step hk he hstep ih => exact ih.step he hstep

end Threads

end Nachos
