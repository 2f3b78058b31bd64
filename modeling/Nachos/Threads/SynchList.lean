import Nachos.Threads.Signals

/-!
# Synchronized lists

A list with a lock and a condition. `Append` puts an item at the end and signals; `RemoveFront`
waits while the list is empty. Every `Append` signals once, and a thread that was signalled has to
take the lock again before it looks at the list. By then the item may be gone, taken by a thread
that came later. No item is forgotten because, as long as anybody waits, there are at least as many
signalled threads on their way to the list as items in it.

An interrupt is taken only where `P` or `V` turns interrupts on again. So what `Append` does from
`List::Append` to the `V` in `Signal` is one turn, and so is what `RemoveFront` does from the test
`IsEmpty` to `List::RemoveFront`. Everywhere else the threads are followed statement by statement.
-/

namespace Nachos

namespace Threads

open Program

variable {T W α : Type}

/-! ## A call of `Signal` -/

namespace Monitor

variable [DecidableEq T] [DecidableEq W]

/-- `Condition::Signal`, up to the end of its `V`. -/
def signal (t : T) (m : Monitor T W) (place : CondPlace W) :
    Turn MonitorCrash (Monitor T W) (CondPlace W) :=
  (m.turn t .signal place).bind fun m place ↦
    (m.turn t .lock place).bind fun m place ↦
      (m.turn t .lock place).bind fun m place ↦
        match place.stage with
        | .idle => .moved m place
        | _ => (m.turn t .lock place).bind fun m place ↦ m.turn t .lock place

section signal

variable {m m' : Monitor T W} {f : T → CondPlace W} {t : T} {w : W} {place place' : CondPlace W}

theorem Inv.moves_at (h : m.Inv (Function.update f t place)) (hm : m.Moves t place m' place') :
    m'.Inv (Function.update f t place') := by
  have hself : Function.update f t place t = place := Function.update_self t place f
  have := h.moves (t := t) (hself.symm ▸ hm)
  rwa [Function.update_idem] at this

/-- The state in which `Signal` has found the queue as it is. -/
theorem Inv.signal_begin (h : m.Inv f) (ht : f t = ⟨.holding, .idle⟩) :
    m.Inv (Function.update f t ⟨.holding, .signalTest .user⟩) ∧
    m.turn t .signal ⟨.holding, .idle⟩ = .moved m ⟨.holding, .signalCheck .user⟩ ∧
    m.turn t .lock ⟨.holding, .signalCheck .user⟩ = .moved m ⟨.holding, .signalTest .user⟩ := by
  have h₀ : m.Inv (Function.update f t ⟨.holding, .idle⟩) := by
    rw [← ht, Function.update_eq_self]
    exact h
  have h₁ : m.Inv (Function.update f t ⟨.holding, .signalCheck .user⟩) :=
    h₀.moves_at (.next .callSignal fun _ ↦ rfl)
  have hheld := h₁.isHeld (t := t) (by rw [Function.update_self]; rfl)
  refine ⟨h₁.moves_at (.next .signalCheck nofun), rfl, ?_⟩
  exact if_pos hheld

theorem signal_nobody (h : m.Inv f) (ht : f t = ⟨.holding, .idle⟩) (hq : m.waitQueue = []) :
    m.signal t (f t) = .moved m (f t) := by
  obtain ⟨-, hcall, hcheck⟩ := h.signal_begin ht
  have htest : m.turn t .lock ⟨.holding, .signalTest .user⟩ = .moved m ⟨.holding, .idle⟩ :=
    if_pos hq
  rw [ht, signal, hcall]
  dsimp only [Turn.bind]
  rw [hcheck]
  dsimp only [Turn.bind]
  rw [htest]

/-- The first of the queue is posted. -/
def posted (m : Monitor T W) (w : W) (rest : List W) (x : Waiter T) : Monitor T W :=
  { m with waitQueue := rest, removed := m.removed ++ [w] }.setWaiter w (some x)

theorem signal_first (h : m.Inv f) (ht : f t = ⟨.holding, .idle⟩) {rest : List W}
    (hq : m.waitQueue = w :: rest) :
    ∃ x x', m.heap w = some x ∧ x.posts = 0 ∧ x'.owner = x.owner ∧ x'.posts = 1 ∧
      m.signal t (f t) = .moved (m.posted w rest x') (f t) ∧ (m.posted w rest x').Inv f := by
  obtain ⟨h₂, hcall, hcheck⟩ := h.signal_begin ht
  have hne : m.waitQueue ≠ [] := by
    rw [hq]
    exact List.cons_ne_nil w rest
  have htest : m.turn t .lock ⟨.holding, .signalTest .user⟩
      = .moved m ⟨.holding, .signalRemove .user⟩ := if_neg hne
  have h₃ : m.Inv (Function.update f t ⟨.holding, .signalRemove .user⟩) :=
    h₂.moves_at (.next (.signalTest hne) nofun)
  have hremove : m.turn t .lock ⟨.holding, .signalRemove .user⟩ = .moved
      { m with waitQueue := rest, removed := m.removed ++ [w] }
        ⟨.holding, .signalPost .user w⟩ := by
    rw [turn.eq_def]
    dsimp only
    rw [hq]
    rfl
  have h₄ := h₃.moves_at (.remove rfl hq)
  obtain ⟨x, hx, hposts, hpost⟩ := h₄.post_turn (t := t) (by rw [Function.update_self])
  obtain ⟨sem, hpost⟩ := hpost .lock
  rw [Function.update_self] at hpost
  refine ⟨x, { x with semaphore := sem, posts := 1 }, hx, hposts, rfl, rfl, ?_, ?_⟩
  · rw [ht, signal, hcall]
    dsimp only [Turn.bind]
    rw [hcheck]
    dsimp only [Turn.bind]
    rw [htest]
    dsimp only [Turn.bind]
    rw [hremove]
    exact hpost
  · have := h₄.moves_at (moves_of_turn hpost)
    rwa [CondStage.afterSignal, ← ht, Function.update_eq_self] at this

end signal

end Monitor

/-! ## The list -/

/-- `class SynchList`: `lock` and `listEmpty` are the monitor. -/
structure SynchList (T W α : Type) where
  monitor : Monitor T W
  list : List α
  /-- The items of the calls of `Append`, in the order in which these got the lock. Each item is
  noted with the thread that has made the call. -/
  acquired : List (T × α)
  appended : List (T × α)
  removed : List (T × α)

/-- `SynchList::SynchList`. -/
def SynchList.new : SynchList T W α := ⟨.new, [], [], [], []⟩

/-- Where a thread stands in `Append` or `RemoveFront`. -/
inductive ListStage (α : Type) where
  /-- In no call. -/
  | idle
  | appendAcquire (item : α)
  /-- It has the lock, or only its semaphore so far. -/
  | appendItem (item : α)
  | appendRelease
  | removeAcquire
  /-- About to test `IsEmpty`, for the first time or after `Wait`. -/
  | removeTest (waited : Bool)
  | removeWait
  | removeRelease (item : α)

structure ListPlace (W α : Type) where
  cond : CondPlace W
  stage : ListStage α

inductive ListChoice (W α : Type) where
  | append (item : α)
  | removeFront
  /-- The address of a new semaphore. -/
  | address (w : W)

/-- What the thread chooses in `Wait`. -/
def ListChoice.inWait : ListChoice W α → CondChoice W
  | .address w => .address w
  | _ => .lock

/-- Where the thread is after a statement of `Wait`. -/
def ListStage.afterWait : CondStage W → ListStage α
  | .idle => .removeTest true
  | _ => .removeWait

namespace SynchList

variable [DecidableEq T] [DecidableEq W] [DecidableEq α]

/-- A statement of the lock's code. -/
def lockTurn (s : SynchList T W α) (t : T) (place : ListPlace W α)
    (next : LockPlace → ListStage α) : Turn MonitorCrash (SynchList T W α) (ListPlace W α) :=
  (s.monitor.turn t .lock place.cond).bind fun m cond ↦
    .moved { s with monitor := m } ⟨cond, next cond.lock⟩

/-- The next turn of a thread. -/
def turn (t : T) (choice : ListChoice W α) (s : SynchList T W α) (place : ListPlace W α) :
    Turn MonitorCrash (SynchList T W α) (ListPlace W α) :=
  match place.stage with
  | .idle =>
    match choice with
    | .append item => .moved s ⟨place.cond, .appendAcquire item⟩
    | .removeFront => .moved s ⟨place.cond, .removeAcquire⟩
    | .address _ => .blocked
  -- `SynchList::Append`
  | .appendAcquire item =>
    (s.monitor.turn t .lock place.cond).bind fun m cond ↦
      if cond.lock = .passed then
        .moved { s with monitor := m, acquired := s.acquired ++ [(t, item)] }
          ⟨cond, .appendItem item⟩
      else .moved { s with monitor := m } ⟨cond, .appendAcquire item⟩
  | .appendItem item =>
    if place.cond.lock = .holding then
      match listAppend s.list item with
      | none => .crashed (.kernel .assertFailed)
      | some l =>
        (s.monitor.signal t place.cond).bind fun m cond ↦
          .moved { s with monitor := m, list := l, appended := s.appended ++ [(t, item)] }
            ⟨cond, .appendRelease⟩
    else s.lockTurn t place fun _ ↦ .appendItem item
  | .appendRelease => s.lockTurn t place fun p ↦ if p = .outside then .idle else .appendRelease
  -- `SynchList::RemoveFront`
  | .removeAcquire =>
    s.lockTurn t place fun p ↦ if p = .holding then .removeTest false else .removeAcquire
  | .removeTest _ =>
    if s.list = [] then
      (s.monitor.turn t .wait place.cond).bind fun m cond ↦
        .moved { s with monitor := m } ⟨cond, .removeWait⟩
    else
      match listRemoveFront s.list with
      | none => .crashed (.kernel .assertFailed)
      | some (item, rest) =>
        .moved { s with list := rest, removed := s.removed ++ [(t, item)] }
          ⟨place.cond, .removeRelease item⟩
  | .removeWait =>
    (s.monitor.turn t choice.inWait place.cond).bind fun m cond ↦
      .moved { s with monitor := m } ⟨cond, .afterWait cond.stage⟩
  | .removeRelease item =>
    s.lockTurn t place fun p ↦ if p = .outside then .idle else .removeRelease item

def start : Config T (SynchList T W α) (ListPlace W α) :=
  ⟨.new, fun _ ↦ ⟨⟨.outside, .idle⟩, .idle⟩⟩

/-! ## What a turn does -/

/-- The moves in the lock's code, from one stage to the next. -/
inductive LockStage : ListStage α → LockPlace → ListStage α → Prop
  | appendAcquire {item : α} {p : LockPlace} (h : p ≠ .passed) :
      LockStage (.appendAcquire item) p (.appendAcquire item)
  | appendItem {item : α} {p : LockPlace} : LockStage (.appendItem item) p (.appendItem item)
  | appendRelease {p : LockPlace} (h : p ≠ .outside) : LockStage .appendRelease p .appendRelease
  | appendReleased : LockStage .appendRelease .outside .idle
  | removeAcquire {p : LockPlace} (h : p ≠ .holding) : LockStage .removeAcquire p .removeAcquire
  | removeAcquired : LockStage .removeAcquire .holding (.removeTest false)
  | removeRelease {item : α} {p : LockPlace} (h : p ≠ .outside) :
      LockStage (.removeRelease item) p (.removeRelease item)
  | removeReleased {item : α} : LockStage (.removeRelease item) .outside .idle

inductive Moves (t : T) (s : SynchList T W α) (place : ListPlace W α) :
    SynchList T W α → ListPlace W α → Prop
  | call {stage : ListStage α} (hs : place.stage = .idle)
      (hnew : stage = .removeAcquire ∨ ∃ item, stage = .appendAcquire item) :
      s.Moves t place s ⟨place.cond, stage⟩
  | lock {m : Monitor T W} {cond : CondPlace W} {stage : ListStage α}
      (hm : s.monitor.turn t .lock place.cond = .moved m cond)
      (hs : LockStage place.stage cond.lock stage)
      (hl : ∀ item, place.stage = .appendItem item → place.cond.lock ≠ .holding) :
      s.Moves t place { s with monitor := m } ⟨cond, stage⟩
  | enter {m : Monitor T W} {cond : CondPlace W} {item : α}
      (hm : s.monitor.turn t .lock place.cond = .moved m cond)
      (hs : place.stage = .appendAcquire item) (hp : cond.lock = .passed) :
      s.Moves t place { s with monitor := m, acquired := s.acquired ++ [(t, item)] }
        ⟨cond, .appendItem item⟩
  | append {m : Monitor T W} {cond : CondPlace W} {item : α}
      (hs : place.stage = .appendItem item) (hl : place.cond.lock = .holding)
      (hm : s.monitor.signal t place.cond = .moved m cond) :
      s.Moves t place
        { s with monitor := m, list := s.list ++ [item], appended := s.appended ++ [(t, item)] }
        ⟨cond, .appendRelease⟩
  | wait {m : Monitor T W} {cond : CondPlace W} {waited : Bool}
      (hs : place.stage = .removeTest waited) (hl : s.list = [])
      (hm : s.monitor.turn t .wait place.cond = .moved m cond) :
      s.Moves t place { s with monitor := m } ⟨cond, .removeWait⟩
  | remove {waited : Bool} {item : α} {rest : List α}
      (hs : place.stage = .removeTest waited) (hl : s.list = item :: rest) :
      s.Moves t place { s with list := rest, removed := s.removed ++ [(t, item)] }
        ⟨place.cond, .removeRelease item⟩
  | waiting {m : Monitor T W} {cond : CondPlace W} {choice : CondChoice W}
      (hs : place.stage = .removeWait)
      (hm : s.monitor.turn t choice place.cond = .moved m cond) :
      s.Moves t place { s with monitor := m } ⟨cond, .afterWait cond.stage⟩

section inversion

variable {t : T} {s s' : SynchList T W α} {place place' : ListPlace W α}

omit [DecidableEq α] in
theorem moves_of_lockTurn {next : LockPlace → ListStage α}
    (hnext : ∀ p, LockStage place.stage p (next p))
    (hl : ∀ item, place.stage = .appendItem item → place.cond.lock ≠ .holding)
    (h : s.lockTurn t place next = .moved s' place') : s.Moves t place s' place' := by
  obtain ⟨m, cond, hm, hmoved⟩ := Turn.bind_moved h
  cases hmoved
  exact .lock hm (hnext cond.lock) hl

/-- The item is appended and `Signal` called in one turn. -/
private theorem moves_of_appendItem {choice : ListChoice W α} {item : α}
    (hs : place.stage = .appendItem item) (h : s.turn t choice place = .moved s' place') :
    s.Moves t place s' place' := by
  rw [turn.eq_def, hs] at h
  dsimp only at h
  by_cases hl : place.cond.lock = .holding
  · rw [if_pos hl] at h
    by_cases hitem : item ∈ s.list
    · rw [listAppend, if_pos hitem] at h
      cases h
    · rw [listAppend_of_not_mem hitem] at h
      obtain ⟨m, cond, hm, hmoved⟩ := Turn.bind_moved h
      cases hmoved
      exact .append hs hl hm
  · rw [if_neg hl] at h
    exact moves_of_lockTurn (fun p ↦ hs ▸ .appendItem) (fun _ _ ↦ hl) h

/-- The `while` around `Wait`, tested anew after each return. -/
private theorem moves_of_removeTest {choice : ListChoice W α} {waited : Bool}
    (hs : place.stage = .removeTest waited) (h : s.turn t choice place = .moved s' place') :
    s.Moves t place s' place' := by
  rw [turn.eq_def, hs] at h
  dsimp only at h
  cases hl : s.list with
  | nil =>
    rw [hl, if_pos rfl] at h
    obtain ⟨m, cond, hm, hmoved⟩ := Turn.bind_moved h
    cases hmoved
    rw [← hl]
    exact .wait hs hl hm
  | cons item rest =>
    rw [hl, if_neg (List.cons_ne_nil item rest)] at h
    cases h
    exact .remove hs hl

theorem moves_of_turn {choice : ListChoice W α} (h : s.turn t choice place = .moved s' place') :
    s.Moves t place s' place' := by
  cases hs : place.stage with
  | idle =>
    rw [turn.eq_def, hs] at h
    cases choice with
    | append item =>
      cases h
      exact .call hs (Or.inr ⟨item, rfl⟩)
    | removeFront =>
      cases h
      exact .call hs (Or.inl rfl)
    | address w => cases h
  | appendAcquire item =>
    rw [turn.eq_def, hs] at h
    obtain ⟨m, cond, hm, hmoved⟩ := Turn.bind_moved h
    by_cases hp : cond.lock = .passed
    · rw [if_pos hp] at hmoved
      cases hmoved
      exact .enter hm hs hp
    · rw [if_neg hp] at hmoved
      cases hmoved
      exact .lock hm (hs ▸ .appendAcquire hp) (fun _ heq ↦ by cases hs.symm.trans heq)
  | appendItem item => exact moves_of_appendItem hs h
  | appendRelease =>
    rw [turn.eq_def, hs] at h
    refine moves_of_lockTurn (fun p ↦ ?_) (fun _ heq ↦ by cases hs.symm.trans heq) h
    rw [hs]
    by_cases hp : p = .outside
    · rw [if_pos hp, hp]
      exact .appendReleased
    · rw [if_neg hp]
      exact .appendRelease hp
  | removeAcquire =>
    rw [turn.eq_def, hs] at h
    refine moves_of_lockTurn (fun p ↦ ?_) (fun _ heq ↦ by cases hs.symm.trans heq) h
    rw [hs]
    by_cases hp : p = .holding
    · rw [if_pos hp, hp]
      exact .removeAcquired
    · rw [if_neg hp]
      exact .removeAcquire hp
  | removeTest waited => exact moves_of_removeTest hs h
  | removeWait =>
    rw [turn.eq_def, hs] at h
    obtain ⟨m, cond, hm, hmoved⟩ := Turn.bind_moved h
    cases hmoved
    exact .waiting hs hm
  | removeRelease item =>
    rw [turn.eq_def, hs] at h
    refine moves_of_lockTurn (fun p ↦ ?_) (fun _ heq ↦ by cases hs.symm.trans heq) h
    rw [hs]
    by_cases hp : p = .outside
    · rw [if_pos hp, hp]
      exact .removeReleased
    · rw [if_neg hp]
      exact .removeRelease hp

end inversion

end SynchList

end Threads

end Nachos
