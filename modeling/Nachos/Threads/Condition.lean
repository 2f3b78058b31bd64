import Nachos.Threads.Lock

/-!
# Condition variables

A thread that waits on a condition makes a semaphore of its own, puts it on the queue of the
condition, releases the lock, waits on the semaphore, takes the lock again and deletes the
semaphore. A signal takes the first semaphore off the queue and posts it. Between releasing the lock
and waiting a waiter can be signalled; what keeps the signal from being lost is that the semaphore
remembers it. And what keeps a semaphore alive while it is posted is the lock: the waiter deletes it
under the lock that the signaller holds.

The threads are followed statement by statement, through `Acquire` and `Release` as well, and any
other thread may run between two statements. The address of a new semaphore is any free one, so an
address may be used again after it was deleted; to use it in between is a crash of its own.
-/

namespace Nachos

namespace Threads

open Program

variable {T W : Type}

/-- A semaphore made by `Condition::Wait`, with the thread that made it and the number of times it
was posted. -/
structure Waiter (T : Type) where
  semaphore : Semaphore T
  owner : T
  posts : ℕ

/-- A condition with its lock and the semaphores of its waiters. -/
structure Monitor (T W : Type) where
  lock : Lock T
  /-- `waitQueue` of the condition. -/
  waitQueue : List W
  heap : W → Option (Waiter T)
  /-- Every semaphore ever put on the queue, in order, and every one taken off. -/
  enqueued : List W
  removed : List W

/-- `Condition::Condition`, and a new lock. -/
def Monitor.new : Monitor T W := ⟨.new, [], fun _ ↦ none, [], []⟩

inductive MonitorCrash where
  | kernel (e : Crash)
  /-- A semaphore that was deleted is used. -/
  | deleted
  deriving DecidableEq, Repr

/-- Who called `Signal`. -/
inductive SignalCaller where
  | user
  | broadcast
  deriving DecidableEq, Repr

/-- Where a thread stands. -/
inductive CondStage (W : Type) where
  /-- In code of its own. -/
  | idle
  | waitCheck
  | waitNew
  | waitAppend (w : W)
  | waitRelease (w : W)
  /-- About to test the value in `P`. -/
  | waitTest (w : W)
  /-- In `P`, on the queue or awakened. -/
  | waitSleep (w : W)
  | waitAcquire (w : W)
  | waitDelete (w : W)
  | signalCheck (caller : SignalCaller)
  | signalTest (caller : SignalCaller)
  | signalRemove (caller : SignalCaller)
  | signalPost (caller : SignalCaller) (w : W)
  | broadcastTest

structure CondPlace (W : Type) where
  lock : LockPlace
  stage : CondStage W

/-- What a thread chooses: in code of its own, the call it makes; in `new`, the address it gets. -/
inductive CondChoice (W : Type) where
  /-- A statement of the lock's code. -/
  | lock
  | wait
  | signal
  | broadcast
  | address (w : W)

/-- Where `Signal` returns to. -/
def CondStage.afterSignal : SignalCaller → CondStage W
  | .user => .idle
  | .broadcast => .broadcastTest

namespace Monitor

variable [DecidableEq T] [DecidableEq W]

/-- A statement of the lock's code. -/
def lockTurn (s : Monitor T W) (t : T) (p : LockPlace) (next : LockPlace → CondStage W) :
    Turn MonitorCrash (Monitor T W) (CondPlace W) :=
  ((s.lock.turn t p).mapCrash .kernel).bind fun lock p' ↦
    .moved { s with lock := lock } ⟨p', next p'⟩

/-- A call of an operation of the condition. The lock is held: this is the rule for its use. -/
def call (s : Monitor T W) (place : CondPlace W) (stage : CondStage W) :
    Turn MonitorCrash (Monitor T W) (CondPlace W) :=
  if place.lock = .holding then .moved s ⟨place.lock, stage⟩ else .blocked

/-- `ASSERT(conditionLock->IsHeldByCurrentThread())`. -/
def assertHeld (s : Monitor T W) (t : T) (place : CondPlace W) (stage : CondStage W) :
    Turn MonitorCrash (Monitor T W) (CondPlace W) :=
  if s.lock.isHeldByCurrentThread t then .moved s ⟨place.lock, stage⟩
  else .crashed (.kernel .assertFailed)

def setWaiter (s : Monitor T W) (w : W) (x : Option (Waiter T)) : Monitor T W :=
  { s with heap := Function.update s.heap w x }

/-- The next statement of a thread. -/
def turn (t : T) (choice : CondChoice W) (s : Monitor T W) (place : CondPlace W) :
    Turn MonitorCrash (Monitor T W) (CondPlace W) :=
  match place.stage with
  | .idle =>
    match choice with
    | .lock => s.lockTurn t place.lock fun _ ↦ .idle
    | .wait => s.call place .waitCheck
    | .signal => s.call place (.signalCheck .user)
    | .broadcast => s.call place .broadcastTest
    | .address _ => .blocked
  -- `Condition::Wait`
  | .waitCheck => s.assertHeld t place .waitNew
  | .waitNew =>
    match choice with
    | .address w =>
      match s.heap w with
      | none => .moved (s.setWaiter w (some ⟨.new 0, t, 0⟩)) ⟨place.lock, .waitAppend w⟩
      | some _ => .blocked
    | _ => .blocked
  | .waitAppend w =>
    match listAppend s.waitQueue w with
    | none => .crashed (.kernel .assertFailed)
    | some l =>
      .moved { s with waitQueue := l, enqueued := s.enqueued ++ [w] } ⟨place.lock, .waitRelease w⟩
  | .waitRelease w =>
    s.lockTurn t place.lock fun p ↦ if p = .outside then .waitTest w else .waitRelease w
  | .waitTest w =>
    match s.heap w with
    | none => .crashed .deleted
    | some x =>
      (x.semaphore.p t (fun sem ↦ s.setWaiter w (some { x with semaphore := sem }))
        ⟨place.lock, .waitSleep w⟩ ⟨place.lock, .waitAcquire w⟩).mapCrash .kernel
  | .waitSleep w =>
    match s.heap w with
    | none => .crashed .deleted
    | some x =>
      (x.semaphore.pAgain t (fun sem ↦ s.setWaiter w (some { x with semaphore := sem }))
        ⟨place.lock, .waitSleep w⟩ ⟨place.lock, .waitAcquire w⟩).mapCrash .kernel
  | .waitAcquire w =>
    s.lockTurn t place.lock fun p ↦ if p = .holding then .waitDelete w else .waitAcquire w
  | .waitDelete w =>
    match s.heap w with
    | none => .crashed .deleted
    | some _ => .moved (s.setWaiter w none) ⟨place.lock, .idle⟩
  -- `Condition::Signal`
  | .signalCheck caller => s.assertHeld t place (.signalTest caller)
  | .signalTest caller =>
    if s.waitQueue = [] then .moved s ⟨place.lock, .afterSignal caller⟩
    else .moved s ⟨place.lock, .signalRemove caller⟩
  | .signalRemove caller =>
    match listRemoveFront s.waitQueue with
    | none => .crashed (.kernel .assertFailed)
    | some (w, rest) =>
      .moved { s with waitQueue := rest, removed := s.removed ++ [w] }
        ⟨place.lock, .signalPost caller w⟩
  | .signalPost caller w =>
    match s.heap w with
    | none => .crashed .deleted
    | some x =>
      (x.semaphore.v
        (fun sem ↦ s.setWaiter w (some { x with semaphore := sem, posts := x.posts + 1 }))
        ⟨place.lock, .afterSignal caller⟩).mapCrash .kernel
  -- `Condition::Broadcast`
  | .broadcastTest =>
    if s.waitQueue = [] then .moved s ⟨place.lock, .idle⟩
    else .moved s ⟨place.lock, .signalCheck .broadcast⟩

def start : Config T (Monitor T W) (CondPlace W) := ⟨.new, fun _ ↦ ⟨.outside, .idle⟩⟩

/-- Where a run can lead. -/
def Reachable (c : Config T (Monitor T W) (CondPlace W)) : Prop :=
  Reaches turn noOutside start c

/-! ## What a turn does -/

/-- The moves that change nothing but where a thread that holds the lock stands. -/
inductive Next (waitQueue : List W) : CondStage W → CondStage W → Prop
  | callWait : Next waitQueue .idle .waitCheck
  | callSignal : Next waitQueue .idle (.signalCheck .user)
  | callBroadcast : Next waitQueue .idle .broadcastTest
  | waitCheck : Next waitQueue .waitCheck .waitNew
  | signalCheck {caller : SignalCaller} :
      Next waitQueue (.signalCheck caller) (.signalTest caller)
  | signalNobody {caller : SignalCaller} (h : waitQueue = []) :
      Next waitQueue (.signalTest caller) (.afterSignal caller)
  | signalTest {caller : SignalCaller} (h : waitQueue ≠ []) :
      Next waitQueue (.signalTest caller) (.signalRemove caller)
  | broadcastDone (h : waitQueue = []) : Next waitQueue .broadcastTest .idle
  | broadcastTest (h : waitQueue ≠ []) : Next waitQueue .broadcastTest (.signalCheck .broadcast)

/-- The moves in the lock's code, from one stage to the next. -/
inductive LockStage : CondStage W → LockPlace → CondStage W → Prop
  | idle {p : LockPlace} : LockStage .idle p .idle
  | release {w : W} {p : LockPlace} (h : p ≠ .outside) :
      LockStage (.waitRelease w) p (.waitRelease w)
  | released {w : W} : LockStage (.waitRelease w) .outside (.waitTest w)
  | acquire {w : W} {p : LockPlace} (h : p ≠ .holding) :
      LockStage (.waitAcquire w) p (.waitAcquire w)
  | acquired {w : W} : LockStage (.waitAcquire w) .holding (.waitDelete w)

inductive Moves (t : T) (s : Monitor T W) (place : CondPlace W) : Monitor T W → CondPlace W → Prop
  | lock {lock : Lock T} {p : LockPlace} {stage : CondStage W}
      (hm : s.lock.Moves t place.lock lock p) (hs : LockStage place.stage p stage) :
      s.Moves t place { s with lock := lock } ⟨p, stage⟩
  | next {stage : CondStage W} (hs : Next s.waitQueue place.stage stage)
      (hl : place.stage = .idle → place.lock = .holding) :
      s.Moves t place s ⟨place.lock, stage⟩
  | new {w : W} (hs : place.stage = .waitNew) (hw : s.heap w = none) :
      s.Moves t place (s.setWaiter w (some ⟨.new 0, t, 0⟩)) ⟨place.lock, .waitAppend w⟩
  | append {w : W} (hs : place.stage = .waitAppend w) (hw : w ∉ s.waitQueue) :
      s.Moves t place
        { s with waitQueue := s.waitQueue ++ [w], enqueued := s.enqueued ++ [w] }
        ⟨place.lock, .waitRelease w⟩
  | sleep {w : W} {x : Waiter T} (hs : place.stage = .waitTest w ∨ place.stage = .waitSleep w)
      (hx : s.heap w = some x) (hv : x.semaphore.value = 0) (hq : t ∉ x.semaphore.queue) :
      s.Moves t place
        (s.setWaiter w (some { x with
          semaphore := { x.semaphore with queue := x.semaphore.queue ++ [t] } }))
        ⟨place.lock, .waitSleep w⟩
  | pass {w : W} {x : Waiter T} (hs : place.stage = .waitTest w ∨ place.stage = .waitSleep w)
      (hx : s.heap w = some x) (hv : x.semaphore.value ≠ 0) :
      s.Moves t place
        (s.setWaiter w (some { x with
          semaphore := { x.semaphore with value := x.semaphore.value - 1 } }))
        ⟨place.lock, .waitAcquire w⟩
  | delete {w : W} (hs : place.stage = .waitDelete w) :
      s.Moves t place (s.setWaiter w none) ⟨place.lock, .idle⟩
  | remove {caller : SignalCaller} {w : W} {rest : List W}
      (hs : place.stage = .signalRemove caller) (hq : s.waitQueue = w :: rest) :
      s.Moves t place { s with waitQueue := rest, removed := s.removed ++ [w] }
        ⟨place.lock, .signalPost caller w⟩
  | post {caller : SignalCaller} {w : W} {x : Waiter T}
      (hs : place.stage = .signalPost caller w) (hx : s.heap w = some x) :
      s.Moves t place
        (s.setWaiter w (some { x with
          semaphore := ⟨x.semaphore.value + 1, x.semaphore.queue.tail⟩
          posts := x.posts + 1 }))
        ⟨place.lock, .afterSignal caller⟩

section inversion

variable {t : T} {s s' : Monitor T W} {place place' : CondPlace W} {w : W}

theorem moves_of_lockTurn {next : LockPlace → CondStage W}
    (hnext : ∀ p, LockStage place.stage p (next p))
    (h : s.lockTurn t place.lock next = .moved s' place') : s.Moves t place s' place' := by
  obtain ⟨lock, p, hturn, hmoved⟩ := Turn.bind_moved h
  cases hmoved
  exact .lock (Lock.moves_of_turn (Turn.mapCrash_moved.mp hturn)) (hnext p)

omit [DecidableEq T] in
theorem moves_of_call {stage : CondStage W} (hs : Next s.waitQueue place.stage stage)
    (h : s.call place stage = .moved s' place') : s.Moves t place s' place' := by
  rw [call] at h
  by_cases hl : place.lock = .holding
  · rw [if_pos hl] at h
    cases h
    exact .next hs fun _ ↦ hl
  · rw [if_neg hl] at h
    cases h

private theorem moves_of_assertHeld {stage : CondStage W} (hs : Next s.waitQueue place.stage stage)
    (hne : place.stage ≠ .idle) (h : s.assertHeld t place stage = .moved s' place') :
    s.Moves t place s' place' := by
  rw [assertHeld] at h
  split at h
  · cases h
    exact .next hs fun heq ↦ absurd heq hne
  · cases h

omit [DecidableEq T] in
/-- A test of `IsEmpty` that decides where the thread goes on. -/
private theorem moves_of_isEmpty {stage stage' : CondStage W} (hne : place.stage ≠ .idle)
    (hnil : s.waitQueue = [] → Next s.waitQueue place.stage stage)
    (hcons : s.waitQueue ≠ [] → Next s.waitQueue place.stage stage')
    (h : (if s.waitQueue = [] then .moved s ⟨place.lock, stage⟩
      else .moved s ⟨place.lock, stage'⟩ : Turn MonitorCrash (Monitor T W) (CondPlace W))
        = .moved s' place') : s.Moves t place s' place' := by
  by_cases hq : s.waitQueue = []
  · rw [if_pos hq] at h
    cases h
    exact .next (hnil hq) fun heq ↦ absurd heq hne
  · rw [if_neg hq] at h
    cases h
    exact .next (hcons hq) fun heq ↦ absurd heq hne

omit [DecidableEq T] [DecidableEq W] in
/-- A semaphore that was deleted is not used in a turn that does not crash. -/
theorem alive_of_moved {k : Waiter T → Turn MonitorCrash (Monitor T W) (CondPlace W)}
    (h : (match s.heap w with
      | none => Turn.crashed MonitorCrash.deleted
      | some x => k x) = .moved s' place') : ∃ x, s.heap w = some x ∧ k x = .moved s' place' := by
  cases hx : s.heap w with
  | none =>
    rw [hx] at h
    cases h
  | some x =>
    rw [hx] at h
    exact ⟨x, rfl, h⟩

/-- The code of `P` of the waiter's semaphore, the first time and after a sleep. -/
theorem moves_of_p {x : Waiter T} (hs : place.stage = .waitTest w ∨ place.stage = .waitSleep w)
    (hx : s.heap w = some x)
    (h : x.semaphore.p t (fun sem ↦ s.setWaiter w (some { x with semaphore := sem }))
      ⟨place.lock, .waitSleep w⟩ ⟨place.lock, .waitAcquire w⟩ = .moved s' place') :
    s.Moves t place s' place' := by
  obtain ⟨hv, hq, rfl, rfl⟩ | ⟨hv, rfl, rfl⟩ := Semaphore.p_moved h
  · exact .sleep hs hx hv hq
  · exact .pass hs hx hv

/-- `Release` and `Acquire` take several turns; the last one goes on to the next statement. -/
private theorem moves_of_lockCall {stage stage' : CondStage W} {last : LockPlace}
    (hstay : ∀ p ≠ last, LockStage place.stage p stage)
    (hlast : LockStage place.stage last stage')
    (h : s.lockTurn t place.lock (fun p ↦ if p = last then stage' else stage) = .moved s' place') :
    s.Moves t place s' place' := by
  refine moves_of_lockTurn (fun p ↦ ?_) h
  by_cases hp : p = last
  · rw [if_pos hp, hp]
    exact hlast
  · rw [if_neg hp]
    exact hstay p hp

private theorem moves_of_idle {choice : CondChoice W} (hs : place.stage = .idle)
    (h : s.turn t choice place = .moved s' place') : s.Moves t place s' place' := by
  rw [turn.eq_def, hs] at h
  cases choice with
  | lock => exact moves_of_lockTurn (fun p ↦ hs ▸ .idle) h
  | wait => exact moves_of_call (hs ▸ .callWait) h
  | signal => exact moves_of_call (hs ▸ .callSignal) h
  | broadcast => exact moves_of_call (hs ▸ .callBroadcast) h
  | address w => cases h

private theorem moves_of_waitNew {choice : CondChoice W} (hs : place.stage = .waitNew)
    (h : s.turn t choice place = .moved s' place') : s.Moves t place s' place' := by
  rw [turn.eq_def, hs] at h
  cases choice with
  | address w =>
    dsimp only at h
    split at h
    · cases h
      exact .new hs ‹_›
    · cases h
  | lock => cases h
  | wait => cases h
  | signal => cases h
  | broadcast => cases h

private theorem moves_of_waitAppend {choice : CondChoice W} (hs : place.stage = .waitAppend w)
    (h : s.turn t choice place = .moved s' place') : s.Moves t place s' place' := by
  rw [turn.eq_def, hs] at h
  dsimp only at h
  by_cases hw : w ∈ s.waitQueue
  · rw [listAppend, if_pos hw] at h
    cases h
  · rw [listAppend_of_not_mem hw] at h
    cases h
    exact .append hs hw

private theorem moves_of_signalRemove {choice : CondChoice W} {caller : SignalCaller}
    (hs : place.stage = .signalRemove caller) (h : s.turn t choice place = .moved s' place') :
    s.Moves t place s' place' := by
  rw [turn.eq_def, hs] at h
  dsimp only at h
  cases hq : s.waitQueue with
  | nil =>
    rw [hq] at h
    cases h
  | cons w rest =>
    rw [hq] at h
    cases h
    exact .remove hs hq

theorem moves_of_turn {choice : CondChoice W} (h : s.turn t choice place = .moved s' place') :
    s.Moves t place s' place' := by
  have hturn := h
  rw [turn.eq_def] at h
  have hne : ∀ {stage : CondStage W}, place.stage = stage → stage ≠ .idle → place.stage ≠ .idle :=
    fun hs hne ↦ hs ▸ hne
  cases hs : place.stage with
  | idle => exact moves_of_idle hs hturn
  | waitCheck =>
    rw [hs] at h
    exact moves_of_assertHeld (hs ▸ .waitCheck) (hne hs nofun) h
  | waitNew => exact moves_of_waitNew hs hturn
  | waitAppend w => exact moves_of_waitAppend hs hturn
  | waitRelease w =>
    rw [hs] at h
    exact moves_of_lockCall (fun p hp ↦ hs ▸ .release hp) (hs ▸ .released) h
  | waitTest w =>
    rw [hs] at h
    obtain ⟨x, hx, h⟩ := alive_of_moved h
    exact moves_of_p (Or.inl hs) hx (Turn.mapCrash_moved.mp h)
  | waitSleep w =>
    rw [hs] at h
    obtain ⟨x, hx, h⟩ := alive_of_moved h
    -- woken up: `P` tests the value once more
    obtain ⟨-, h⟩ := Semaphore.pAgain_moved (Turn.mapCrash_moved.mp h)
    exact moves_of_p (Or.inr hs) hx h
  | waitAcquire w =>
    rw [hs] at h
    exact moves_of_lockCall (fun p hp ↦ hs ▸ .acquire hp) (hs ▸ .acquired) h
  | waitDelete w =>
    rw [hs] at h
    obtain ⟨x, hx, h⟩ := alive_of_moved h
    cases h
    exact .delete hs
  | signalCheck caller =>
    rw [hs] at h
    exact moves_of_assertHeld (hs ▸ .signalCheck) (hne hs nofun) h
  | signalTest caller =>
    rw [hs] at h
    exact moves_of_isEmpty (hne hs nofun) (hs ▸ .signalNobody) (hs ▸ .signalTest) h
  | signalRemove caller => exact moves_of_signalRemove hs hturn
  | signalPost caller w =>
    rw [hs] at h
    obtain ⟨x, hx, h⟩ := alive_of_moved h
    obtain ⟨rfl, rfl⟩ := Semaphore.v_moved (Turn.mapCrash_moved.mp h)
    exact .post hs hx
  | broadcastTest =>
    rw [hs] at h
    exact moves_of_isEmpty (hne hs nofun) (hs ▸ .broadcastDone) (hs ▸ .broadcastTest) h

end inversion

end Monitor

end Threads

end Nachos
