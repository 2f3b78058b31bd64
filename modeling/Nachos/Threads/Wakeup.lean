import Nachos.Threads.Lock

/-!
# Locks do not get stuck

`Semaphore::V` takes one thread off the queue and leaves the unit to whoever tests the value first.
The thread that was awakened may find it gone and go back to the queue, and others may be on the
queue while the value is one. Still no wakeup is lost: while there is a unit and a queue, one of the
threads that were asleep is awake and has yet to test the value.
-/

namespace Nachos

namespace Threads

open Program

section semaphore

variable {T S L : Type} [DecidableEq T] {sem : Semaphore T} {t : T} {put : Semaphore T → S}
  {asleep through : L}

theorem Semaphore.p_of_ne_zero (hv : sem.value ≠ 0) :
    sem.p t put asleep through = .moved (put { sem with value := sem.value - 1 }) through := by
  rw [p, test_of_ne_zero hv]
  rfl

theorem Semaphore.pAgain_of_ne_zero (hv : sem.value ≠ 0) (ht : t ∉ sem.queue) :
    sem.pAgain t put asleep through = .moved (put { sem with value := sem.value - 1 }) through := by
  rw [pAgain, if_neg ht, p_of_ne_zero hv]

end semaphore

variable {T : Type} {t : T} {lock lock' : Lock T} {p : LockPlace} {place : T → LockPlace}

/-- If there is a unit and somebody is on the queue, somebody was awakened and is on its way. -/
def Lock.Awake (lock : Lock T) (place : T → LockPlace) : Prop :=
  lock.semaphore.value = 0 ∨ lock.semaphore.queue = [] ∨
    ∃ u, place u = .sleeping ∧ u ∉ lock.semaphore.queue

theorem Lock.awake_new : (Lock.new : Lock T).Awake fun _ ↦ .outside := .inr (.inl rfl)

variable [DecidableEq T]

/-- A thread that is not asleep goes on. -/
theorem Lock.Awake.quiet (h : lock.Awake place) (ht : place t ≠ .sleeping) :
    lock.Awake (Function.update place t p) := by
  rcases h with hzero | hempty | ⟨u, hu, hnot⟩
  · exact .inl hzero
  · exact .inr (.inl hempty)
  · have hne : u ≠ t := fun heq ↦ ht (heq ▸ hu)
    exact .inr (.inr ⟨u, by rw [Function.update_of_ne hne, hu], hnot⟩)

/-- The thread that gives the unit back wakes the first on the queue. -/
theorem Lock.Inv.awake_post (h : lock.Inv place) (ht : place t = .posting) :
    (lock.withSemaphore ⟨lock.semaphore.value + 1, lock.semaphore.queue.tail⟩).Awake
      (Function.update place t .outside) := by
  cases hqueue : lock.semaphore.queue with
  | nil => exact .inr (.inl rfl)
  | cons u rest =>
    have hu : place u = .sleeping := h.queued u (by rw [hqueue]; exact List.mem_cons_self)
    have hnodup := h.queue_nodup
    rw [hqueue, List.nodup_cons] at hnodup
    have hne : u ≠ t := by
      rintro rfl
      rw [hu] at ht
      cases ht
    exact .inr (.inr ⟨u, by rw [Function.update_of_ne hne, hu], hnodup.1⟩)

/-- Every statement keeps it. -/
theorem Lock.Inv.awake_moves (h : lock.Inv place) (ha : lock.Awake place)
    (hm : lock.Moves t (place t) lock' p) : lock'.Awake (Function.update place t p) := by
  generalize hpt : place t = pt at hm
  -- while a thread is inside there is no unit
  have hinside : pt.inside = true → lock.semaphore.value = 0 := fun hin ↦ h.taken t (hpt ▸ hin)
  cases hm with
  | acquire => exact ha.quiet (by rw [hpt]; decide)
  | sleep hp hv hq => exact .inl hv
  | pass hp hv hq =>
    have hone := h.free (h.nobody_of_value hv)
    left
    show lock.semaphore.value - 1 = 0
    rw [hone]
    rfl
  | note => exact .inl (hinside rfl)
  | release => exact .inl (hinside rfl)
  | check hheld => exact .inl (hinside rfl)
  | clear => exact .inl (hinside rfl)
  | post => exact h.awake_post hpt

/-- A thread that has the unit goes on. -/
theorem Lock.Inv.turn_of_inside (h : lock.Inv place) (hin : (place t).inside = true) :
    ∃ lock' p, lock.turn t (place t) = .moved lock' p := by
  cases hpt : place t with
  | outside | testing | sleeping =>
    rw [hpt] at hin
    cases hin
  | passed => exact ⟨_, _, rfl⟩
  | holding => exact ⟨_, _, rfl⟩
  | checking =>
    have hheld := (h.holder_iff t).mpr (by rw [hpt]; rfl)
    rw [turn, isHeldByCurrentThread, if_pos (by simpa using hheld)]
    exact ⟨_, _, rfl⟩
  | clearing => exact ⟨_, _, rfl⟩
  | posting =>
    have hzero : lock.semaphore.value = 0 := h.taken t hin
    rw [turn, Semaphore.v, Semaphore.post, hzero, if_neg (by decide)]
    exact ⟨_, _, rfl⟩

/-- When nobody has the unit, one of those who want it gets it at its next turn. -/
theorem Lock.Inv.turn_of_free (h : lock.Inv place) (ha : lock.Awake place)
    (hfree : ∀ u, (place u).inside = false) (ht : place t = .testing ∨ place t = .sleeping) :
    ∃ u lock', (place u = .testing ∨ place u = .sleeping) ∧
      lock.turn u (place u) = .moved lock' .passed := by
  have hone := h.free hfree
  have hv : lock.semaphore.value ≠ 0 := by
    rw [hone]
    decide
  -- a thread that tests the value now finds the unit
  have hpass : ∀ u, (place u = .testing ∨ place u = .sleeping ∧ u ∉ lock.semaphore.queue) →
      ∃ u lock', (place u = .testing ∨ place u = .sleeping) ∧
        lock.turn u (place u) = .moved lock' .passed := by
    rintro u (hu | ⟨hu, hnot⟩)
    · have hturn : lock.turn u .testing = .moved _ .passed := Semaphore.p_of_ne_zero hv
      exact ⟨u, _, .inl hu, hu ▸ hturn⟩
    · have hturn : lock.turn u .sleeping = .moved _ .passed := Semaphore.pAgain_of_ne_zero hv hnot
      exact ⟨u, _, .inr hu, hu ▸ hturn⟩
  rcases ht with ht | ht
  · exact hpass t (.inl ht)
  · rcases ha with hzero | hempty | ⟨u, hu⟩
    · exact absurd hzero hv
    · exact hpass t (.inr ⟨ht, by rw [hempty]; exact List.not_mem_nil⟩)
    · exact hpass u (.inr hu)

/-- **A lock does not get stuck.** In every interleaving, while some thread is anywhere between the
call of `Acquire` and the return of `Release`, one of them can go on. If nobody has the unit, one of
the threads in `Acquire` gets it when it next tests the value, whatever happened to the thread that
the last `Release` woke. -/
theorem lock_never_stuck {c : Config T (Lock T) LockPlace} (hc : Lock.Reachable c)
    (ht : c.place t ≠ .outside) :
    (∃ u lock' p, (c.place u).inside = true ∧ c.shared.turn u (c.place u) = .moved lock' p) ∨
      ∃ u lock', (c.place u = .testing ∨ c.place u = .sleeping) ∧
        c.shared.turn u (c.place u) = .moved lock' .passed := by
  obtain ⟨h, ha⟩ : c.shared.Inv c.place ∧ c.shared.Awake c.place := by
    refine hc.invariant (fun lock place ↦ lock.Inv place ∧ lock.Awake place)
      ⟨Lock.inv_new, Lock.awake_new⟩ ?_ fun _ _ _ _ hs ↦ hs.elim
    rintro lock place t i lock' p ⟨h, ha⟩ hturn
    have hm := Lock.moves_of_turn hturn
    exact ⟨h.moves hm, h.awake_moves ha hm⟩
  by_cases hin : ∃ u, (c.place u).inside = true
  · obtain ⟨u, hu⟩ := hin
    obtain ⟨lock', p, hturn⟩ := h.turn_of_inside hu
    exact .inl ⟨u, lock', p, hu, hturn⟩
  · have hfree : ∀ u, (c.place u).inside = false :=
      fun u ↦ eq_false_of_ne_true fun hu ↦ hin ⟨u, hu⟩
    have hout := hfree t
    have hwants : c.place t = .testing ∨ c.place t = .sleeping := by
      cases hpt : c.place t with
      | outside => exact absurd hpt ht
      | testing => exact .inl rfl
      | sleeping => exact .inr rfl
      | passed | holding | checking | clearing | posting =>
        rw [hpt] at hout
        cases hout
    exact .inr (h.turn_of_free ha hfree hwants)

theorem lock_never_stuck_contended :
    (∃ u lock' p, (Lock.contended.place u).inside = true ∧
        Lock.contended.shared.turn u (Lock.contended.place u) = .moved lock' p) ∨
      ∃ u lock', (Lock.contended.place u = .testing ∨ Lock.contended.place u = .sleeping) ∧
        Lock.contended.shared.turn u (Lock.contended.place u) = .moved lock' .passed := by
  have hc : Lock.Reachable Lock.contended := Reaches.refl.follow (Option.some_get _).symm
  exact lock_never_stuck (t := false) hc (by decide)

end Threads

end Nachos
