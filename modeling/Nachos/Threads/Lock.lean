import Nachos.Threads.Turns

/-!
# Locks

A lock is a semaphore with initial value one and a note of who holds it. The note is written after
`P` has returned and wiped before `V` is called, each time with interrupts on: between two
statements any other thread may run. The threads are followed statement by statement; a thread is
`inside` from the moment it takes the unit of the semaphore to the moment it gives it back.

The invariant `Lock.Inv` is about one lock and where each thread stands in its code. Whatever uses a
lock carries it along.
-/

namespace Nachos

namespace Threads

open Program

variable {T : Type}

/-- `class Lock`. -/
structure Lock (T : Type) where
  semaphore : Semaphore T
  lockHolder : Option T
  deriving DecidableEq, Repr

/-- `Lock::Lock`. -/
def Lock.new : Lock T := ⟨.new 1, none⟩

def Lock.withSemaphore (lock : Lock T) (sem : Semaphore T) : Lock T :=
  { lock with semaphore := sem }

/-- Where a thread stands. -/
inductive LockPlace where
  /-- It has not called `Acquire`. -/
  | outside
  /-- In `P`, about to test the value for the first time. -/
  | testing
  /-- In `P`, on the queue or awakened. -/
  | sleeping
  /-- `P` has returned and the holder is not noted yet. -/
  | passed
  /-- `Acquire` has returned. -/
  | holding
  /-- At the assertion of `Release`. -/
  | checking
  /-- About to wipe the note. -/
  | clearing
  /-- About to call `V`. -/
  | posting
  deriving DecidableEq, Repr

/-- Between the return of `P` and `V`. -/
def LockPlace.inside : LockPlace → Bool
  | .outside | .testing | .sleeping => false
  | .passed | .holding | .checking | .clearing | .posting => true

/-- Between noting the holder and wiping the note. -/
def LockPlace.noted : LockPlace → Bool
  | .holding | .checking | .clearing => true
  | .outside | .testing | .sleeping | .passed | .posting => false

theorem LockPlace.inside_of_noted {p : LockPlace} (h : p.noted = true) : p.inside = true := by
  cases p <;> first | rfl | cases h

section turn

variable [DecidableEq T]

/-- `Lock::IsHeldByCurrentThread`. -/
def Lock.isHeldByCurrentThread (lock : Lock T) (currentThread : T) : Bool :=
  lock.lockHolder = some currentThread

/-- The next statement of a thread: of `Lock::Acquire` for one that does not hold the lock, of
`Lock::Release` for one that does. A thread calls `Release` only after its own `Acquire`. -/
def Lock.turn (t : T) (lock : Lock T) : LockPlace → Turn Crash (Lock T) LockPlace
  | .outside => .moved lock .testing
  | .testing => lock.semaphore.p t lock.withSemaphore .sleeping .passed
  | .sleeping => lock.semaphore.pAgain t lock.withSemaphore .sleeping .passed
  | .passed => .moved { lock with lockHolder := some t } .holding
  | .holding => .moved lock .checking
  | .checking =>
    if lock.isHeldByCurrentThread t then .moved lock .clearing else .crashed .assertFailed
  | .clearing => .moved { lock with lockHolder := none } .posting
  | .posting => lock.semaphore.v lock.withSemaphore .outside

/-- What a turn does. -/
inductive Lock.Moves (t : T) (lock : Lock T) : LockPlace → Lock T → LockPlace → Prop
  | acquire : lock.Moves t .outside lock .testing
  | sleep {p : LockPlace} (hp : p = .testing ∨ p = .sleeping) (hv : lock.semaphore.value = 0)
      (hq : t ∉ lock.semaphore.queue) :
      lock.Moves t p (lock.withSemaphore
        { lock.semaphore with queue := lock.semaphore.queue ++ [t] }) .sleeping
  | pass {p : LockPlace} (hp : p = .testing ∨ p = .sleeping) (hv : lock.semaphore.value ≠ 0)
      (hq : p = .sleeping → t ∉ lock.semaphore.queue) :
      lock.Moves t p (lock.withSemaphore
        { lock.semaphore with value := lock.semaphore.value - 1 }) .passed
  | note : lock.Moves t .passed { lock with lockHolder := some t } .holding
  | release : lock.Moves t .holding lock .checking
  | check (h : lock.lockHolder = some t) : lock.Moves t .checking lock .clearing
  | clear : lock.Moves t .clearing { lock with lockHolder := none } .posting
  | post : lock.Moves t .posting (lock.withSemaphore
      ⟨lock.semaphore.value + 1, lock.semaphore.queue.tail⟩) .outside

variable {t : T} {lock lock' : Lock T} {p p' : LockPlace} {place : T → LockPlace}

theorem Lock.moves_of_turn (h : lock.turn t p = .moved lock' p') : lock.Moves t p lock' p' := by
  cases p with
  | outside =>
    cases h
    exact .acquire
  | testing =>
    obtain ⟨hv, hq, rfl, rfl⟩ | ⟨hv, rfl, rfl⟩ := Semaphore.p_moved h
    · exact .sleep (Or.inl rfl) hv hq
    · exact .pass (Or.inl rfl) hv nofun
  | sleeping =>
    obtain ⟨hnot, h⟩ := Semaphore.pAgain_moved h
    obtain ⟨hv, hq, rfl, rfl⟩ | ⟨hv, rfl, rfl⟩ := Semaphore.p_moved h
    · exact .sleep (Or.inr rfl) hv hq
    · exact .pass (Or.inr rfl) hv fun _ ↦ hnot
  | passed =>
    cases h
    exact .note
  | holding =>
    cases h
    exact .release
  | checking =>
    rw [turn, isHeldByCurrentThread] at h
    by_cases hheld : lock.lockHolder = some t
    · rw [if_pos (by simpa using hheld)] at h
      cases h
      exact .check hheld
    · rw [if_neg (by simpa using hheld)] at h
      cases h
  | clearing =>
    cases h
    exact .clear
  | posting =>
    obtain ⟨rfl, rfl⟩ := Semaphore.v_moved h
    exact .post

omit [DecidableEq T] in
/-- In `Acquire`, until it returns. -/
theorem Lock.Moves.entering (hm : lock.Moves t p lock' p') (hp : p.inside = false ∨ p = .passed)
    (hne : p' ≠ .holding) : p'.inside = false ∨ p' = .passed := by
  cases hm with
  | acquire => exact Or.inl rfl
  | sleep hp' hv hq => exact Or.inl rfl
  | pass hp' hv hq => exact Or.inr rfl
  | note => exact absurd rfl hne
  | release => rcases hp with hp | hp <;> cases hp
  | check hheld => rcases hp with hp | hp <;> cases hp
  | clear => rcases hp with hp | hp <;> cases hp
  | post => rcases hp with hp | hp <;> cases hp

omit [DecidableEq T] in
/-- In `Release`, until it returns. -/
theorem Lock.Moves.leaving (hm : lock.Moves t p lock' p') (hp : p.inside = true ∧ p ≠ .passed)
    (hne : p' ≠ .outside) : p'.inside = true ∧ p' ≠ .passed := by
  obtain ⟨hin, hnot⟩ := hp
  cases hm with
  | acquire => cases hin
  | sleep hp' hv hq => rcases hp' with rfl | rfl <;> cases hin
  | pass hp' hv hq => rcases hp' with rfl | rfl <;> cases hin
  | note => exact absurd rfl hnot
  | release => exact ⟨rfl, nofun⟩
  | check hheld => exact ⟨rfl, nofun⟩
  | clear => exact ⟨rfl, nofun⟩
  | post => exact absurd rfl hne

omit [DecidableEq T] in
theorem Lock.Moves.passed_of_holding (hm : lock.Moves t p lock' .holding) : p = .passed := by
  cases hm
  rfl

omit [DecidableEq T] in
theorem Lock.Moves.value_of_passed (h : lock.Moves t p lock' .passed) :
    lock.semaphore.value ≠ 0 := by
  cases h
  assumption

end turn

/-! ## The invariant -/

structure Lock.Inv (lock : Lock T) (place : T → LockPlace) : Prop where
  unique : ∀ t u, (place t).inside = true → (place u).inside = true → t = u
  taken : ∀ t, (place t).inside = true → lock.semaphore.value = 0
  free : (∀ t, (place t).inside = false) → lock.semaphore.value = 1
  holder_iff : ∀ t, lock.lockHolder = some t ↔ (place t).noted = true
  queued : ∀ t ∈ lock.semaphore.queue, place t = .sleeping
  queue_nodup : lock.semaphore.queue.Nodup

theorem Lock.inv_new : (Lock.new : Lock T).Inv fun _ ↦ .outside := by
  constructor <;> simp [Lock.new, Semaphore.new, LockPlace.inside, LockPlace.noted]

section inv

variable {t : T} {lock lock' : Lock T} {p : LockPlace} {place : T → LockPlace}

theorem Lock.Inv.nobody_of_value (h : lock.Inv place) (hv : lock.semaphore.value ≠ 0) (u : T) :
    (place u).inside = false := by
  cases hu : (place u).inside with
  | false => rfl
  | true => exact absurd (h.taken u hu) hv

/-- A thread that is not on its way into the lock is not on the queue. -/
theorem Lock.Inv.not_queued (h : lock.Inv place) (ht : place t ≠ .sleeping) :
    t ∉ lock.semaphore.queue := fun hmem ↦ ht (h.queued t hmem)

/-- While `t` is inside, nobody else is noted. -/
theorem Lock.Inv.not_noted (h : lock.Inv place) (ht : (place t).inside = true) {u : T}
    (hne : u ≠ t) : (place u).noted = false := by
  cases hu : (place u).noted with
  | false => rfl
  | true => exact absurd (h.unique u t (LockPlace.inside_of_noted hu) ht) hne

variable [DecidableEq T]

/-- A statement that neither takes nor gives back the unit. -/
theorem Lock.Inv.stay (h : lock.Inv place) (hp : p.inside = (place t).inside)
    (hvalue : lock'.semaphore.value = lock.semaphore.value)
    (hholder : ∀ u, lock'.lockHolder = some u ↔ (Function.update place t p u).noted = true)
    (hqueued : ∀ u ∈ lock'.semaphore.queue, Function.update place t p u = .sleeping)
    (hnodup : lock'.semaphore.queue.Nodup) : lock'.Inv (Function.update place t p) := by
  have hinside := view_update_same LockPlace.inside hp
  refine ⟨fun u w hu hw ↦ ?_, fun u hu ↦ ?_, fun hfree ↦ ?_, hholder, hqueued, hnodup⟩
  · rw [hinside] at hu hw
    exact h.unique u w hu hw
  · rw [hinside] at hu
    rw [hvalue]
    exact h.taken u hu
  · rw [hvalue]
    exact h.free fun u ↦ (hinside u).symm.trans (hfree u)

/-- The queue while a thread that is not on it moves. -/
theorem Lock.Inv.queued_update (h : lock.Inv place) (ht : t ∉ lock.semaphore.queue) :
    ∀ u ∈ lock.semaphore.queue, Function.update place t p u = .sleeping :=
  forall_mem_update (P := (· = .sleeping)) h.queued ht p

theorem Lock.Inv.noted_update (h : lock.Inv place) (hp : p.noted = (place t).noted) (u : T) :
    lock.lockHolder = some u ↔ (Function.update place t p u).noted = true := by
  rw [h.holder_iff, view_update_same LockPlace.noted hp]

/-- A statement that leaves the lock alone. -/
theorem Lock.Inv.quiet (h : lock.Inv place) (hinside : p.inside = (place t).inside)
    (hnoted : p.noted = (place t).noted) (ht : place t ≠ .sleeping) :
    lock.Inv (Function.update place t p) :=
  h.stay hinside rfl (h.noted_update hnoted) (h.queued_update (h.not_queued ht)) h.queue_nodup

theorem Lock.Inv.sleep (h : lock.Inv place) (ht : place t = .testing ∨ place t = .sleeping)
    (hq : t ∉ lock.semaphore.queue) :
    (lock.withSemaphore { lock.semaphore with queue := lock.semaphore.queue ++ [t] }).Inv
      (Function.update place t .sleeping) := by
  have hinside : LockPlace.inside .sleeping = (place t).inside := by
    rcases ht with ht | ht <;> simp [ht, LockPlace.inside]
  have hnoted : LockPlace.noted .sleeping = (place t).noted := by
    rcases ht with ht | ht <;> simp [ht, LockPlace.noted]
  refine h.stay hinside rfl (h.noted_update hnoted) (fun u hu ↦ ?_) ?_
  · rcases List.mem_append.mp hu with hu | hu
    · exact h.queued_update hq u hu
    · rw [List.mem_singleton.mp hu, Function.update_self]
  · exact List.Nodup.append h.queue_nodup (List.nodup_singleton t)
      (List.disjoint_singleton.mpr hq)

/-- The value was one, so nobody was inside. -/
theorem Lock.Inv.pass (h : lock.Inv place) (ht : place t = .testing ∨ place t = .sleeping)
    (hv : lock.semaphore.value ≠ 0) (hq : t ∉ lock.semaphore.queue) :
    (lock.withSemaphore { lock.semaphore with value := lock.semaphore.value - 1 }).Inv
      (Function.update place t .passed) := by
  have hnobody := h.nobody_of_value hv
  have hone := h.free hnobody
  have hnoted : LockPlace.noted .passed = (place t).noted := by
    rcases ht with ht | ht <;> simp [ht, LockPlace.noted]
  have honly : ∀ u, (Function.update place t .passed u).inside = true → u = t := by
    intro u hu
    by_contra hne
    rw [Function.update_of_ne hne, hnobody u] at hu
    cases hu
  refine ⟨fun u w hu hw ↦ ?_, fun u hu ↦ ?_, fun hfree ↦ ?_, h.noted_update hnoted,
    h.queued_update hq, h.queue_nodup⟩
  · rw [honly u hu, honly w hw]
  · exact (congrArg (· - 1) hone).trans (Int.sub_self 1)
  · have := hfree t
    rw [Function.update_self] at this
    cases this

/-- Only the holder is inside, and it leaves. -/
theorem Lock.Inv.post (h : lock.Inv place) (ht : place t = .posting) :
    (lock.withSemaphore ⟨lock.semaphore.value + 1, lock.semaphore.queue.tail⟩).Inv
      (Function.update place t .outside) := by
  have hin : (place t).inside = true := by
    rw [ht]
    rfl
  have hnobody : ∀ u, (Function.update place t .outside u).inside = false := by
    intro u
    by_cases hu : u = t
    · rw [hu, Function.update_self]
      rfl
    · rw [Function.update_of_ne hu]
      cases hiu : (place u).inside with
      | false => rfl
      | true => exact absurd (h.unique u t hiu hin) hu
  have hnoted : LockPlace.noted .outside = (place t).noted := by
    rw [ht]
    rfl
  have hnot := h.not_queued (t := t) (by rw [ht]; decide)
  refine ⟨fun u _ hu ↦ ?_, fun u hu ↦ ?_, fun _ ↦ ?_, h.noted_update hnoted, fun u hu ↦ ?_, ?_⟩
  · rw [hnobody u] at hu
    cases hu
  · rw [hnobody u] at hu
    cases hu
  · exact (congrArg (· + 1) (h.taken t hin)).trans (Int.zero_add 1)
  · exact h.queued_update hnot u (List.mem_of_mem_tail hu)
  · exact h.queue_nodup.sublist (List.tail_sublist _)

/-- The thread that is inside says who holds the lock. -/
theorem Lock.Inv.setHolder (h : lock.Inv place) (hin : (place t).inside = true)
    (ht : place t ≠ .sleeping) (hp : p.inside = true) {holder : Option T}
    (hholder : ∀ u, holder = some u ↔ u = t ∧ p.noted = true) :
    { lock with lockHolder := holder }.Inv (Function.update place t p) := by
  refine h.stay (hp.trans hin.symm) rfl (fun u ↦ ?_) (h.queued_update (h.not_queued ht))
    h.queue_nodup
  rw [hholder]
  by_cases hu : u = t
  · simp [hu]
  · simp [h.not_noted hin hu, hu]

theorem Lock.Inv.note (h : lock.Inv place) (ht : place t = .passed) :
    { lock with lockHolder := some t }.Inv (Function.update place t .holding) :=
  h.setHolder (by rw [ht]; rfl) (by rw [ht]; decide) rfl fun u ↦ by
    simp [LockPlace.noted, eq_comm]

theorem Lock.Inv.clear (h : lock.Inv place) (ht : place t = .clearing) :
    { lock with lockHolder := none }.Inv (Function.update place t .posting) :=
  h.setHolder (by rw [ht]; rfl) (by rw [ht]; decide) rfl fun u ↦ by
    simp [LockPlace.noted]

/-- Every statement keeps the invariant. -/
theorem Lock.Inv.moves (h : lock.Inv place) (hm : lock.Moves t (place t) lock' p) :
    lock'.Inv (Function.update place t p) := by
  generalize hpt : place t = pt at hm
  cases hm with
  | acquire => apply h.quiet <;> simp [hpt, LockPlace.inside, LockPlace.noted]
  | sleep hp hv hq => exact h.sleep (hpt ▸ hp) hq
  | pass hp hv hq =>
    refine h.pass (hpt ▸ hp) hv ?_
    rcases hp with rfl | rfl
    · exact h.not_queued (by rw [hpt]; decide)
    · exact hq rfl
  | note => exact h.note hpt
  | release => apply h.quiet <;> simp [hpt, LockPlace.inside, LockPlace.noted]
  | check hheld => apply h.quiet <;> simp [hpt, LockPlace.inside, LockPlace.noted]
  | clear => exact h.clear hpt
  | post => exact h.post hpt

/-- The assertions hold, and the value is nowhere near the largest `int`. -/
theorem Lock.Inv.not_crashed (h : lock.Inv place) (e : Crash) :
    lock.turn t (place t) ≠ .crashed e := by
  intro hc
  cases hpt : place t with
  | outside => rw [hpt] at hc; cases hc
  | testing =>
    rw [hpt] at hc
    exact h.not_queued (by rw [hpt]; decide) (Semaphore.p_crashed hc)
  | sleeping =>
    rw [hpt] at hc
    exact Semaphore.pAgain_not_crashed hc
  | passed => rw [hpt] at hc; cases hc
  | holding => rw [hpt] at hc; cases hc
  | checking =>
    have hheld := (h.holder_iff t).mpr (by rw [hpt]; rfl)
    rw [hpt, turn, isHeldByCurrentThread, hheld, if_pos (by simp)] at hc
    cases hc
  | clearing => rw [hpt] at hc; cases hc
  | posting =>
    have hzero := h.taken t (by rw [hpt]; rfl)
    rw [hpt] at hc
    have := Semaphore.v_crashed hc
    rw [hzero] at this
    revert this
    decide

/-! ## Every interleaving -/

/-- The threads before anyone has called `Acquire`. -/
def Lock.start : Config T (Lock T) LockPlace := ⟨.new, fun _ ↦ .outside⟩

/-- Where a run of the threads can lead; one of them has no choice but its next statement. -/
def Lock.Reachable (c : Config T (Lock T) LockPlace) : Prop :=
  Reaches (fun t (_ : Unit) ↦ Lock.turn t) noOutside Lock.start c

theorem Lock.inv_of_reachable {c : Config T (Lock T) LockPlace} (hc : Lock.Reachable c) :
    c.shared.Inv c.place :=
  hc.invariant Lock.Inv Lock.inv_new (fun _ _ _ _ _ _ h ht ↦ h.moves (moves_of_turn ht))
    fun _ _ _ _ h ↦ h.elim

/-- Mutual exclusion, in every interleaving of any number of threads. -/
theorem lock_mutual_exclusion {c : Config T (Lock T) LockPlace} (hc : Lock.Reachable c) :
    (∀ t u, (c.place t).inside = true → (c.place u).inside = true → t = u) ∧
    (∀ t, c.shared.lockHolder = some t → (c.place t).inside = true) ∧
    (∀ t, c.place t = .holding ∨ c.place t = .checking →
      c.shared.isHeldByCurrentThread t = true) ∧
    (∀ t e, c.shared.turn t (c.place t) ≠ .crashed e) ∧
    (c.shared.semaphore.value = 1 ↔ ∀ t, (c.place t).inside = false) ∧
    (c.shared.semaphore.value = 0 ∨ c.shared.semaphore.value = 1) := by
  have h := Lock.inv_of_reachable hc
  refine ⟨h.unique, fun t ht ↦ ?_, fun t ht ↦ ?_, fun t e ↦ h.not_crashed e, ?_, ?_⟩
  · exact LockPlace.inside_of_noted ((h.holder_iff t).mp ht)
  · have hnoted : (c.place t).noted = true := by
      rcases ht with ht | ht <;> rw [ht] <;> rfl
    simpa [Lock.isHeldByCurrentThread] using (h.holder_iff t).mpr hnoted
  · constructor
    · intro hone
      exact h.nobody_of_value (by rw [hone]; decide)
    · exact h.free
  · by_cases hv : c.shared.semaphore.value = 0
    · exact Or.inl hv
    · exact Or.inr (h.free (h.nobody_of_value hv))

end inv

/-- One thread holds the lock, another waits for it. -/
def Lock.contended : Config Bool (Lock Bool) LockPlace :=
  (Lock.start.follow (fun t (_ : Unit) ↦ Lock.turn t)
    [(true, ()), (true, ()), (false, ()), (true, ()), (false, ())]).get (by decide)

theorem lock_contended :
    Lock.contended.place true = .holding ∧ Lock.contended.place false = .sleeping ∧
    Lock.contended.shared.isHeldByCurrentThread true = true ∧
    Lock.contended.shared.semaphore.value ≠ 1 := by
  have hc : Lock.Reachable Lock.contended := Reaches.refl.follow (Option.some_get _).symm
  obtain ⟨-, -, hheld, -, hvalue, -⟩ := lock_mutual_exclusion hc
  refine ⟨by decide, by decide, hheld true (Or.inl (by decide)), fun hone ↦ ?_⟩
  exact Bool.noConfusion (hvalue.mp hone true)

end Threads

end Nachos
