import Nachos.Program.Interleave
import Nachos.Threads.Placement

/-!
# Semaphores as threads see them

Each pass through the loop of `Semaphore::P`, and each `Semaphore::V`, runs with interrupts off. To
the threads that share a semaphore it is a single turn, and other threads may run before and after
it: this is what everything built on semaphores relies on. A thread that has put itself on the queue
gets no turn until it is taken off.

`Kernel.semaphore_turn` derives these turns from the model of the scheduler.
-/

namespace Nachos

namespace Threads

open Program

variable {T S L : Type} [DecidableEq T]

/-- One pass through the loop of `Semaphore::P` by the thread `t`, and whether it gets through. -/
def Semaphore.test (sem : Semaphore T) (t : T) : Except Crash (Semaphore T × Bool) :=
  if sem.value = 0 then
    match listAppend sem.queue t with
    | none => .error .assertFailed
    | some l => .ok ({ sem with queue := l }, false)
  else .ok ({ sem with value := sem.value - 1 }, true)

/-- `Semaphore::V`. -/
def Semaphore.post (sem : Semaphore T) : Except Crash (Semaphore T) :=
  if sem.value = intMax then .error .overflow else .ok ⟨sem.value + 1, sem.queue.tail⟩

/-- The turn of a thread in `P`. When the test fails it goes to the place `asleep`. -/
def Semaphore.p (sem : Semaphore T) (t : T) (put : Semaphore T → S) (asleep through : L) :
    Turn Crash S L :=
  match sem.test t with
  | .error e => .crashed e
  | .ok (sem', passes) => .moved (put sem') (if passes then through else asleep)

/-- The turn of a thread that is asleep in `P`. -/
def Semaphore.pAgain (sem : Semaphore T) (t : T) (put : Semaphore T → S) (asleep through : L) :
    Turn Crash S L :=
  if t ∈ sem.queue then .blocked else sem.p t put asleep through

/-- The turn of a thread that calls `V`. -/
def Semaphore.v (sem : Semaphore T) (put : Semaphore T → S) (next : L) : Turn Crash S L :=
  match sem.post with
  | .error e => .crashed e
  | .ok sem' => .moved (put sem') next

/-! ## What the turns come to -/

section turns

variable {sem : Semaphore T} {t : T} {put : Semaphore T → S} {asleep through next l : L} {s : S}
  {e : Crash}

theorem Semaphore.test_of_zero (hv : sem.value = 0) (ht : t ∉ sem.queue) :
    sem.test t = .ok ({ sem with queue := sem.queue ++ [t] }, false) := by
  rw [test, if_pos hv, listAppend_of_not_mem ht]

theorem Semaphore.test_of_ne_zero (hv : sem.value ≠ 0) :
    sem.test t = .ok ({ sem with value := sem.value - 1 }, true) := if_neg hv

/-- The thread joins the queue, or takes a unit. -/
theorem Semaphore.p_moved (h : sem.p t put asleep through = .moved s l) :
    (sem.value = 0 ∧ t ∉ sem.queue ∧ s = put { sem with queue := sem.queue ++ [t] } ∧ l = asleep) ∨
      (sem.value ≠ 0 ∧ s = put { sem with value := sem.value - 1 } ∧ l = through) := by
  by_cases hv : sem.value = 0
  · left
    by_cases ht : t ∈ sem.queue
    · rw [p, test, if_pos hv, listAppend, if_pos ht] at h
      cases h
    · rw [p, test_of_zero hv ht] at h
      cases h
      exact ⟨hv, ht, rfl, rfl⟩
  · right
    rw [p, test_of_ne_zero hv] at h
    cases h
    exact ⟨hv, rfl, rfl⟩

theorem Semaphore.p_crashed (h : sem.p t put asleep through = .crashed e) : t ∈ sem.queue := by
  by_contra ht
  by_cases hv : sem.value = 0
  · rw [p, test_of_zero hv ht] at h
    cases h
  · rw [p, test_of_ne_zero hv] at h
    cases h

theorem Semaphore.pAgain_moved (h : sem.pAgain t put asleep through = .moved s l) :
    t ∉ sem.queue ∧ sem.p t put asleep through = .moved s l := by
  rw [pAgain] at h
  by_cases ht : t ∈ sem.queue
  · rw [if_pos ht] at h
    cases h
  · rw [if_neg ht] at h
    exact ⟨ht, h⟩

theorem Semaphore.pAgain_not_crashed : sem.pAgain t put asleep through ≠ .crashed e := by
  intro h
  rw [pAgain] at h
  by_cases ht : t ∈ sem.queue
  · rw [if_pos ht] at h
    cases h
  · rw [if_neg ht] at h
    exact ht (p_crashed h)

omit [DecidableEq T] in
theorem Semaphore.v_moved (h : sem.v put next = .moved s l) :
    s = put ⟨sem.value + 1, sem.queue.tail⟩ ∧ l = next := by
  by_cases hv : sem.value = intMax
  · rw [v, post, if_pos hv] at h
    cases h
  · rw [v, post, if_neg hv] at h
    cases h
    exact ⟨rfl, rfl⟩

omit [DecidableEq T] in
theorem Semaphore.v_crashed (h : sem.v put next = .crashed e) : sem.value = intMax := by
  by_contra hv
  rw [v, post, if_neg hv] at h
  cases h

end turns

/-! ## The kernel takes these turns -/

section kernel

variable [DecidableEq S] {k k' : Kernel T S}

omit [DecidableEq S] in
theorem Kernel.Placed.current_not_queued (hk : k.Placed) {s : S} {awakened : Bool}
    (hc : k.control = .testing s awakened) (s' : S) :
    k.currentThread ∉ (k.semaphore s').queue := by
  have hawake : k.control.Awake := by
    rw [hc]
    trivial
  apply hk.not_queued_of_status
  rw [hk.status_current hawake]
  decide

omit [DecidableEq T] in
theorem setSemaphore_semaphore (s s' : S) (sem : Semaphore T) :
    (k.setSemaphore s sem).semaphore s' = if s' = s then sem else k.semaphore s' :=
  Function.update_apply k.semaphore s sem s'

theorem Kernel.Moves.turn (hk : k.Placed) {e : Event T S} (hm : k.Moves e k') (s : S) :
    k'.semaphore s = k.semaphore s ∨
    (k.currentThread ∉ (k.semaphore s).queue ∧
      ∃ passes, (k.semaphore s).test k.currentThread = .ok (k'.semaphore s, passes)) ∨
    (k.semaphore s).post = .ok (k'.semaphore s) := by
  cases hm with
  | fork hc hnew => exact Or.inl rfl
  | yieldAlone hc hr => exact Or.inl rfl
  | yield hc hr => exact Or.inl rfl
  | callP hc => exact Or.inl rfl
  | finish hc => exact Or.inl rfl
  | dispatch hc hr => exact Or.inl rfl
  | @sleep s' a hc hv =>
    have hnot := hk.current_not_queued hc
    have hsem : (k.fellAsleep s').semaphore s = _ := setSemaphore_semaphore s' s _
    by_cases hs : s = s'
    · subst hs
      right; left
      rw [hsem, if_pos rfl]
      exact ⟨hnot s, false, Semaphore.test_of_zero hv (hnot s)⟩
    · left
      rw [hsem, if_neg hs]
  | @pass s' a hc hv =>
    have hnot := hk.current_not_queued hc
    have hsem : (k.passed s').semaphore s = _ := setSemaphore_semaphore s' s _
    by_cases hs : s = s'
    · subst hs
      right; left
      rw [hsem, if_pos rfl]
      exact ⟨hnot s, true, Semaphore.test_of_ne_zero hv⟩
    · left
      rw [hsem, if_neg hs]
  | @post e s' he hq hv =>
    have hsem : (k.posted s').semaphore s = _ := setSemaphore_semaphore s' s _
    by_cases hs : s = s'
    · subst hs
      right; right
      rw [hsem, if_pos rfl, Semaphore.post, if_neg hv]
      simp [hq]
    · left
      rw [hsem, if_neg hs]
  | @awaken e s' t rest he hq hv =>
    have hfirst : (k.awakened s' t rest).semaphore s' = { k.semaphore s' with queue := rest } :=
      (setSemaphore_semaphore s' s' _).trans (if_pos rfl)
    have hsem : ((k.awakened s' t rest).posted s').semaphore s = _ := setSemaphore_semaphore s' s _
    by_cases hs : s = s'
    · subst hs
      right; right
      rw [hsem, if_pos rfl, hfirst, Semaphore.post, if_neg hv, hq]
      rfl
    · left
      rw [hsem, if_neg hs]
      exact (setSemaphore_semaphore s' s _).trans (if_neg hs)

/-- Whatever the kernel does, to each semaphore it is nothing, or a test by the current thread,
which is then not on the queue, or a `V`. -/
theorem Kernel.semaphore_turn {main : T} {initialValue : S → ℤ} {e : Event T S}
    (hk : Kernel.Reachable main initialValue k) (he : k.Allows e) (hstep : step e k = .ok () k')
    (s : S) :
    k'.semaphore s = k.semaphore s ∨
    (k.currentThread ∉ (k.semaphore s).queue ∧
      ∃ passes, (k.semaphore s).test k.currentThread = .ok (k'.semaphore s, passes)) ∨
    (k.semaphore s).post = .ok (k'.semaphore s) :=
  (moves_of_step (placed_of_reachable hk) he hstep).turn (placed_of_reachable hk) s

end kernel

end Threads

end Nachos
