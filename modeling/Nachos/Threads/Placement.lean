import Mathlib.Data.List.Nodup
import Nachos.Threads.Scheduler

/-!
# Every thread is in exactly one place

A thread that was forked and has not finished is the current one, or on the ready list, or on the
queue of one semaphore. `Kernel.Placed` says so, together with the bookkeeping of finished threads,
and each routine keeps it: a thread moves from one place to the next, and nothing else moves. The
difficult moment is `Thread::Sleep`. A thread in its loop has given up its place as the current
thread but still has the processor; an interrupt may put it on the ready list, and then it switches
to itself.
-/

namespace Nachos

namespace Threads

open Program

variable {T S : Type} [DecidableEq T]

/-! ## What each routine comes to -/

/-- `thread` put on the ready list. -/
def Kernel.readied (k : Kernel T S) (thread : T) : Kernel T S :=
  { k.setStatus thread .ready with readyList := k.readyList ++ [thread] }

theorem readyToRun_eq {k : Kernel T S} {thread : T} (h : thread ∉ k.readyList) :
    readyToRun thread k = .ok () (k.readied thread) := by
  have happend : listAppend (k.setStatus thread .ready).readyList thread
      = some (k.readyList ++ [thread]) := listAppend_of_not_mem h
  rw [readyToRun, bind_modify, bind_get, happend]
  rfl

/-- What a thread that gets the processor is doing then. -/
def Resume.control : Resume S → Control S
  | .slept s => .testing s true
  | _ => .running

/-- The processor given to `nextThread`, and the old thread deleted if it is finishing. -/
def Kernel.switched (k : Kernel T S) (nextThread : T) (finishing : Bool) : Kernel T S :=
  { k with
    currentThread := nextThread
    control := (k.resume nextThread).control
    status := Function.update k.status nextThread .running
    toBeDestroyed := none
    deletions := if finishing
      then Function.update k.deletions k.currentThread (k.deletions k.currentThread + 1)
      else k.deletions }

private theorem goOn_eq {k k' : Kernel T S} {thread : T} (hcheck : checkToBeDestroyed k = .ok () k')
    (hresume : k.resume thread ≠ .finished) :
    goOn thread k = .ok () { k' with control := (k.resume thread).control } := by
  rw [goOn, bind_get]
  cases hr : k.resume thread with
  | finished => exact absurd hr hresume
  | begin => exact bind_of_ok hcheck
  | yielded => exact bind_of_ok hcheck
  | slept s => exact bind_of_ok hcheck

private theorem checkToBeDestroyed_none {k : Kernel T S} (h : k.toBeDestroyed = none) :
    checkToBeDestroyed k = .ok () k := by
  rw [checkToBeDestroyed, bind_get, h]
  rfl

private theorem checkToBeDestroyed_some {k : Kernel T S} {thread : T}
    (h : k.toBeDestroyed = some thread) (hne : thread ≠ k.currentThread) :
    checkToBeDestroyed k = .ok () { k with
      toBeDestroyed := none
      deletions := Function.update k.deletions thread (k.deletions thread + 1) } := by
  rw [checkToBeDestroyed, bind_get, h]
  dsimp only
  rw [if_neg hne]
  rfl

theorem run_eq {k : Kernel T S} {nextThread : T} {finishing : Bool} (hd : k.toBeDestroyed = none)
    (hresume : k.resume nextThread ≠ .finished)
    (hne : finishing = true → k.currentThread ≠ nextThread) :
    run nextThread finishing k = .ok () (k.switched nextThread finishing) := by
  rw [run, bind_get]
  cases finishing with
  | false =>
    rw [if_neg Bool.false_ne_true]
    have hcheck : checkToBeDestroyed ({ k with currentThread := nextThread }.setStatus nextThread
        .running) = .ok () _ := checkToBeDestroyed_none hd
    refine (goOn_eq hcheck hresume).trans ?_
    simp only [Kernel.switched, Kernel.setStatus, hd, Bool.false_eq_true, if_false]
  | true =>
    rw [if_pos rfl]
    have hcheck : checkToBeDestroyed ({ k with
        currentThread := nextThread
        toBeDestroyed := some k.currentThread }.setStatus nextThread .running) = .ok () _ :=
      checkToBeDestroyed_some rfl (hne rfl)
    simp only [hd]
    refine (goOn_eq hcheck hresume).trans ?_
    simp only [Kernel.switched, Kernel.setStatus, if_true]

theorem Kernel.deletions_switched (k : Kernel T S) (nextThread : T) (finishing : Bool) (t : T) :
    (k.switched nextThread finishing).deletions t
      = k.deletions t + if finishing = true ∧ t = k.currentThread then 1 else 0 := by
  rw [Kernel.switched]
  cases finishing with
  | false => simp
  | true =>
    by_cases ht : t = k.currentThread
    · simp [ht]
    · simp [ht]

section states

variable (k : Kernel T S)

/-- The current thread put on the ready list and the processor given to `nextThread`. -/
def Kernel.yieldedTo (nextThread : T) (rest : List T) : Kernel T S :=
  ((({ k with readyList := rest }).readied k.currentThread).setResume k.currentThread
    .yielded).switched nextThread false

/-- The current thread finished, in the loop of `Thread::Sleep`. -/
def Kernel.ended : Kernel T S :=
  { ({ k with finished := Function.update k.finished k.currentThread true }.setStatus
      k.currentThread .blocked).setResume k.currentThread .finished with
    control := .sleeping true }

variable [DecidableEq S]

/-- The current thread on the queue of `s`, in the loop of `Thread::Sleep`. -/
def Kernel.fellAsleep (s : S) : Kernel T S :=
  { ((k.setSemaphore s { k.semaphore s with
      queue := (k.semaphore s).queue ++ [k.currentThread] }).setStatus k.currentThread
        .blocked).setResume k.currentThread (.slept s) with
    control := .sleeping false }

/-- The current thread out of `P`. -/
def Kernel.passed (s : S) : Kernel T S :=
  { k.setSemaphore s { k.semaphore s with value := (k.semaphore s).value - 1 } with
    control := .running }

/-- The first thread of the queue of `s` made ready. -/
def Kernel.awakened (s : S) (thread : T) (rest : List T) : Kernel T S :=
  (k.setSemaphore s { k.semaphore s with queue := rest }).readied thread

/-- The value of `s` incremented. -/
def Kernel.posted (s : S) : Kernel T S :=
  k.setSemaphore s { k.semaphore s with value := (k.semaphore s).value + 1 }

end states

/-! ## The invariant -/

/-- The current thread is executing, not in the loop of `Thread::Sleep`. -/
def Control.Awake : Control S → Prop
  | .sleeping _ => False
  | _ => True

/-- Where every thread is. -/
structure Kernel.Placed (k : Kernel T S) : Prop where
  ready_iff : ∀ t, t ∈ k.readyList ↔ k.status t = .ready
  ready_nodup : k.readyList.Nodup
  running_iff : ∀ t, k.status t = .running ↔ t = k.currentThread ∧ k.control.Awake
  queued : ∀ s, ∀ t ∈ (k.semaphore s).queue, k.status t = .blocked ∧ k.resume t = .slept s
  queue_nodup : ∀ s, (k.semaphore s).queue.Nodup
  blocked : ∀ t, k.status t = .blocked → k.finished t = true ∨ ∃ s, t ∈ (k.semaphore s).queue
  finished : ∀ t, k.finished t = true → k.status t = .blocked
  finished_iff : ∀ t, k.finished t = true ↔ k.resume t = .finished
  ending_iff : k.control = .sleeping true ↔ k.finished k.currentThread = true
  undestroyed : k.toBeDestroyed = none
  deletions : ∀ t, k.deletions t = if k.finished t = true ∧ t ≠ k.currentThread then 1 else 0

namespace Kernel.Placed

variable {k : Kernel T S} (h : k.Placed)

include h

theorem not_ready_of_status {t : T} (hst : k.status t ≠ .ready) : t ∉ k.readyList :=
  fun ht ↦ hst ((h.ready_iff t).mp ht)

theorem not_queued_of_status {t : T} (hst : k.status t ≠ .blocked) (s : S) :
    t ∉ (k.semaphore s).queue := fun ht ↦ hst (h.queued s t ht).1

theorem resume_ne_of_status {t : T} (hst : k.status t ≠ .blocked) : k.resume t ≠ .finished :=
  fun hr ↦ hst (h.finished t ((h.finished_iff t).mpr hr))

theorem not_finished_of_status {t : T} (hst : k.status t ≠ .blocked) : k.finished t = false := by
  cases hf : k.finished t with
  | false => rfl
  | true => exact absurd (h.finished t hf) hst

theorem status_current (hc : k.control.Awake) : k.status k.currentThread = .running :=
  (h.running_iff _).mpr ⟨rfl, hc⟩

/-- A thread that runs is not the first of those that are ready, nor any other of them. -/
theorem front_of_running (hc : k.control = .running) {n : T} {rest : List T}
    (hr : k.readyList = n :: rest) :
    k.status n = .ready ∧ k.status k.currentThread = .running ∧ n ≠ k.currentThread ∧
      k.currentThread ∉ rest := by
  have hn : k.status n = .ready := (h.ready_iff n).mp (by rw [hr]; exact List.mem_cons_self)
  have hcur := h.status_current (by rw [hc]; trivial)
  refine ⟨hn, hcur, fun heq ↦ ?_, fun hmem ↦ ?_⟩
  · rw [heq, hcur] at hn
    cases hn
  · refine h.not_ready_of_status (t := k.currentThread) (by rw [hcur]; decide) ?_
    rw [hr]
    exact List.mem_cons_of_mem _ hmem

end Kernel.Placed

theorem Resume.control_awake (r : Resume S) : r.control.Awake := by
  cases r <;> trivial

theorem Resume.control_ne_sleeping (r : Resume S) (finishing : Bool) :
    r.control ≠ .sleeping finishing := by
  cases r <;> simp [Resume.control]

theorem placed_init (main : T) (initialValue : S → ℤ) :
    (Kernel.init main initialValue : Kernel T S).Placed := by
  have hstatus : ∀ t, (Kernel.init main initialValue : Kernel T S).status t
      = if t = main then .running else .justCreated := by
    intro t
    exact Function.update_apply (fun _ ↦ ThreadStatus.justCreated) main .running t
  constructor
  · intro t
    rw [hstatus]
    split <;> simp [Kernel.init]
  · simp [Kernel.init]
  · intro t
    rw [hstatus]
    split <;> simp_all [Kernel.init, Control.Awake]
  · simp [Kernel.init, Semaphore.new]
  · simp [Kernel.init, Semaphore.new]
  · intro t
    rw [hstatus]
    split <;> simp
  · simp [Kernel.init]
  · simp [Kernel.init]
  · simp [Kernel.init]
  · rfl
  · simp [Kernel.init]

/-! ## The places

The invariant, thread by thread: one way for a thread to be in each place, and one for a thread that
stays where it was. -/

/-- What the invariant says of the thread `t`. -/
structure Kernel.PlacedAt (k : Kernel T S) (t : T) : Prop where
  ready_iff : t ∈ k.readyList ↔ k.status t = .ready
  running_iff : k.status t = .running ↔ t = k.currentThread ∧ k.control.Awake
  queued : ∀ s, t ∈ (k.semaphore s).queue → k.status t = .blocked ∧ k.resume t = .slept s
  blocked : k.status t = .blocked → k.finished t = true ∨ ∃ s, t ∈ (k.semaphore s).queue
  finished : k.finished t = true → k.status t = .blocked
  finished_iff : k.finished t = true ↔ k.resume t = .finished
  deletions : k.deletions t = if k.finished t = true ∧ t ≠ k.currentThread then 1 else 0

theorem Kernel.placed_of_at {k : Kernel T S} (hat : ∀ t, k.PlacedAt t) (hready : k.readyList.Nodup)
    (hqueue : ∀ s, (k.semaphore s).queue.Nodup)
    (hending : k.control = .sleeping true ↔ k.finished k.currentThread = true)
    (hdestroyed : k.toBeDestroyed = none) : k.Placed where
  ready_iff t := (hat t).ready_iff
  ready_nodup := hready
  running_iff t := (hat t).running_iff
  queued s t := (hat t).queued s
  queue_nodup := hqueue
  blocked t := (hat t).blocked
  finished t := (hat t).finished
  finished_iff t := (hat t).finished_iff
  ending_iff := hending
  undestroyed := hdestroyed
  deletions t := (hat t).deletions

namespace Kernel.PlacedAt

variable {k k' : Kernel T S} {t : T}

theorem of_ready (hstatus : k.status t = .ready) (hmem : t ∈ k.readyList)
    (hqueue : ∀ s, t ∉ (k.semaphore s).queue) (hrun : ¬ (t = k.currentThread ∧ k.control.Awake))
    (hfinished : k.finished t = false) (hresume : k.resume t ≠ .finished)
    (hdeletions : k.deletions t = 0) : k.PlacedAt t where
  ready_iff := iff_of_true hmem hstatus
  running_iff := iff_of_false (by rw [hstatus]; decide) hrun
  queued s ht := absurd ht (hqueue s)
  blocked hb := by
    rw [hstatus] at hb
    cases hb
  finished hf := by
    rw [hfinished] at hf
    cases hf
  finished_iff := iff_of_false (by rw [hfinished]; decide) hresume
  deletions := by rw [hdeletions, hfinished, if_neg (by simp)]

private theorem of_running (hstatus : k.status t = .running) (hcurrent : t = k.currentThread)
    (hawake : k.control.Awake) (hready : t ∉ k.readyList)
    (hqueue : ∀ s, t ∉ (k.semaphore s).queue) (hfinished : k.finished t = false)
    (hresume : k.resume t ≠ .finished) (hdeletions : k.deletions t = 0) : k.PlacedAt t where
  ready_iff := iff_of_false hready (by rw [hstatus]; decide)
  running_iff := iff_of_true hstatus ⟨hcurrent, hawake⟩
  queued s ht := absurd ht (hqueue s)
  blocked hb := by
    rw [hstatus] at hb
    cases hb
  finished hf := by
    rw [hfinished] at hf
    cases hf
  finished_iff := iff_of_false (by rw [hfinished]; decide) hresume
  deletions := by rw [hdeletions, hfinished, if_neg (by simp)]

private theorem of_slept {s : S} (hstatus : k.status t = .blocked) (hresume : k.resume t = .slept s)
    (hmem : t ∈ (k.semaphore s).queue) (honly : ∀ s', t ∈ (k.semaphore s').queue → s' = s)
    (hready : t ∉ k.readyList) (hrun : ¬ (t = k.currentThread ∧ k.control.Awake))
    (hfinished : k.finished t = false) (hdeletions : k.deletions t = 0) : k.PlacedAt t where
  ready_iff := iff_of_false hready (by rw [hstatus]; decide)
  running_iff := iff_of_false (by rw [hstatus]; decide) hrun
  queued s' ht := ⟨hstatus, by rw [honly s' ht, hresume]⟩
  blocked _ := Or.inr ⟨s, hmem⟩
  finished _ := hstatus
  finished_iff := iff_of_false (by rw [hfinished]; decide) (by rw [hresume]; nofun)
  deletions := by rw [hdeletions, hfinished, if_neg (by simp)]

private theorem of_finished (hstatus : k.status t = .blocked) (hfinished : k.finished t = true)
    (hresume : k.resume t = .finished) (hready : t ∉ k.readyList)
    (hqueue : ∀ s, t ∉ (k.semaphore s).queue) (hrun : ¬ (t = k.currentThread ∧ k.control.Awake))
    (hdeletions : k.deletions t = if t ≠ k.currentThread then 1 else 0) : k.PlacedAt t where
  ready_iff := iff_of_false hready (by rw [hstatus]; decide)
  running_iff := iff_of_false (by rw [hstatus]; decide) hrun
  queued s ht := absurd ht (hqueue s)
  blocked _ := Or.inl hfinished
  finished _ := hstatus
  finished_iff := iff_of_true hfinished hresume
  deletions := by simp only [hdeletions, hfinished, true_and]

/-- The thread stays; what it does not look at may change. -/
theorem same (h : k.PlacedAt t) (hstatus : k'.status t = k.status t)
    (hresume : k'.resume t = k.resume t) (hfinished : k'.finished t = k.finished t)
    (hready : t ∈ k'.readyList ↔ t ∈ k.readyList)
    (hqueue : ∀ s, t ∈ (k'.semaphore s).queue ↔ t ∈ (k.semaphore s).queue)
    (hrun : t = k'.currentThread ∧ k'.control.Awake ↔ t = k.currentThread ∧ k.control.Awake)
    (hdeletions : k'.deletions t = if k.finished t = true ∧ t ≠ k'.currentThread then 1 else 0) :
    k'.PlacedAt t where
  ready_iff := by rw [hready, hstatus, h.ready_iff]
  running_iff := by rw [hstatus, hrun, h.running_iff]
  queued s ht := by
    rw [hstatus, hresume]
    exact h.queued s ((hqueue s).mp ht)
  blocked hb := by
    rw [hstatus] at hb
    rw [hfinished]
    obtain hf | ⟨s, hs⟩ := h.blocked hb
    · exact Or.inl hf
    · exact Or.inr ⟨s, (hqueue s).mpr hs⟩
  finished hf := by
    rw [hfinished] at hf
    rw [hstatus]
    exact h.finished hf
  finished_iff := by rw [hfinished, hresume, h.finished_iff]
  deletions := by rw [hdeletions, hfinished]

end Kernel.PlacedAt

namespace Kernel.Placed

variable {k : Kernel T S} (h : k.Placed)

include h

theorem placedAt (t : T) : k.PlacedAt t :=
  ⟨h.ready_iff t, h.running_iff t, fun s ↦ h.queued s t, h.blocked t, h.finished t,
    h.finished_iff t, h.deletions t⟩

private theorem not_running_of_status {t : T} (hst : k.status t ≠ .running) :
    ¬ (t = k.currentThread ∧ k.control.Awake) := fun hrun ↦ hst ((h.running_iff t).mpr hrun)

theorem deletions_eq_zero {t : T} (hfinished : k.finished t = false) : k.deletions t = 0 := by
  rw [h.deletions, hfinished, if_neg (by simp)]

end Kernel.Placed

/-! ## The invariant is kept

A thread that moves was in its old place only, so it is in its new place only. -/

section placed
variable {k : Kernel T S} (h : k.Placed)
include h

private theorem placed_fork {t : T} (ht : k.status t = .justCreated) :
    ((k.setResume t .begin).readied t).Placed := by
  have hready := h.not_ready_of_status (t := t) (by rw [ht]; decide)
  have hfin := h.not_finished_of_status (t := t) (by rw [ht]; decide)
  refine Kernel.placed_of_at (fun u ↦ ?_) ?_ h.queue_nodup h.ending_iff h.undestroyed
  · by_cases hu : u = t
    · subst hu
      apply Kernel.PlacedAt.of_ready
      · exact Function.update_self ..
      · exact List.mem_append_right _ List.mem_cons_self
      · exact h.not_queued_of_status (by rw [ht]; decide)
      · exact h.not_running_of_status (by rw [ht]; decide)
      · exact hfin
      · simp [Kernel.readied, Kernel.setStatus, Kernel.setResume]
      · exact h.deletions_eq_zero hfin
    · apply (h.placedAt u).same
      · exact Function.update_of_ne hu ..
      · exact Function.update_of_ne hu ..
      · rfl
      · simp [Kernel.readied, Kernel.setStatus, Kernel.setResume, hu]
      · exact fun _ ↦ Iff.rfl
      · exact Iff.rfl
      · exact h.deletions u
  · exact h.ready_nodup.append (List.nodup_singleton t) (List.disjoint_singleton.mpr hready)

private theorem placed_yield (hc : k.control = .running) {n : T} {rest : List T}
    (hr : k.readyList = n :: rest) : (k.yieldedTo n rest).Placed := by
  -- three kinds of threads: the one switched to, the one that yields, the others
  obtain ⟨hn, hcur, hne, hnot⟩ := h.front_of_running hc hr
  have hnd := h.ready_nodup
  rw [hr, List.nodup_cons] at hnd
  have hfin := h.not_finished_of_status (t := k.currentThread) (by rw [hcur]; decide)
  have hnfin := h.not_finished_of_status (t := n) (by rw [hn]; decide)
  have hcontrol : (k.yieldedTo n rest).control = (k.resume n).control :=
    congrArg Resume.control (Function.update_of_ne hne ..)
  refine Kernel.placed_of_at (fun u ↦ ?_) ?_ h.queue_nodup ?_ rfl
  · by_cases hun : u = n
    · subst hun
      apply Kernel.PlacedAt.of_running
      · exact Function.update_self ..
      · rfl
      · rw [hcontrol]
        exact (k.resume u).control_awake
      · simp [Kernel.yieldedTo, Kernel.switched, Kernel.readied, Kernel.setStatus,
          Kernel.setResume, hnd.1, hne]
      · exact h.not_queued_of_status (by rw [hn]; decide)
      · exact hnfin
      · exact (Function.update_of_ne hne ..).trans_ne (h.resume_ne_of_status (by rw [hn]; decide))
      · exact h.deletions_eq_zero hnfin
    · by_cases huc : u = k.currentThread
      · subst huc
        apply Kernel.PlacedAt.of_ready
        · exact (Function.update_of_ne hun ..).trans (Function.update_self ..)
        · exact List.mem_append_right _ List.mem_cons_self
        · exact h.not_queued_of_status (by rw [hcur]; decide)
        · exact fun hrun ↦ hun hrun.1
        · exact hfin
        · exact (Function.update_self ..).trans_ne nofun
        · exact h.deletions_eq_zero hfin
      · apply (h.placedAt u).same
        · exact (Function.update_of_ne hun ..).trans (Function.update_of_ne huc ..)
        · exact Function.update_of_ne huc ..
        · rfl
        · simp [Kernel.yieldedTo, Kernel.switched, Kernel.readied, Kernel.setStatus,
            Kernel.setResume, hr, hun, huc]
        · exact fun _ ↦ Iff.rfl
        · exact iff_of_false (fun hrun ↦ hun hrun.1) fun hrun ↦ huc hrun.1
        · refine (h.deletions u).trans ?_
          simp [Kernel.yieldedTo, Kernel.switched, hun, huc]
  · exact hnd.2.append (List.nodup_singleton _) (List.disjoint_singleton.mpr hnot)
  · rw [hcontrol]
    refine iff_of_false ((k.resume n).control_ne_sleeping true) ?_
    exact Bool.not_eq_true _ ▸ hnfin

private theorem placed_dispatch {n : T} {rest : List T} {fin : Bool}
    (hc : k.control = .sleeping fin)
    (hr : k.readyList = n :: rest) : ({ k with readyList := rest }.switched n fin).Placed := by
  have hn : k.status n = .ready := (h.ready_iff n).mp (by rw [hr]; exact List.mem_cons_self)
  have hnd := h.ready_nodup
  rw [hr, List.nodup_cons] at hnd
  have hnfin := h.not_finished_of_status (t := n) (by rw [hn]; decide)
  have hasleep : ¬ k.control.Awake := by
    rw [hc]
    exact id
  -- the flag says whether the thread that goes to sleep has finished
  have hending : fin = k.finished k.currentThread := by
    have hiff := h.ending_iff
    rw [hc] at hiff
    cases fin with
    | false =>
      refine (Bool.eq_false_iff.mpr fun hf ↦ ?_).symm
      cases hiff.mpr hf
    | true => exact (hiff.mp rfl).symm
  -- the thread that is switched to deletes the one that has finished
  have hdeletions : ∀ u, ({ k with readyList := rest }.switched n fin).deletions u
      = if k.finished u = true ∧ u ≠ n then 1 else 0 := by
    intro u
    have hn' : k.finished u = true → u ≠ n := by
      rintro hf rfl
      rw [hnfin] at hf
      cases hf
    rw [Kernel.deletions_switched, hending]
    dsimp only
    rw [h.deletions]
    by_cases hf : k.finished u = true
    · by_cases huc : u = k.currentThread
      · simp [← huc, hf, hn' hf]
      · simp [huc, hf, hn' hf]
    · by_cases huc : u = k.currentThread
      · simp [← huc, hf]
      · simp [huc, hf]
  refine Kernel.placed_of_at (fun u ↦ ?_) hnd.2 h.queue_nodup ?_ rfl
  · by_cases hun : u = n
    · subst hun
      apply Kernel.PlacedAt.of_running
      · exact Function.update_self ..
      · rfl
      · exact (k.resume u).control_awake
      · exact hnd.1
      · exact h.not_queued_of_status (by rw [hn]; decide)
      · exact hnfin
      · exact h.resume_ne_of_status (by rw [hn]; decide)
      · exact (hdeletions u).trans (if_neg fun hd ↦ hd.2 rfl)
    · apply (h.placedAt u).same
      · exact Function.update_of_ne hun ..
      · rfl
      · rfl
      · simp [Kernel.switched, hr, hun]
      · exact fun _ ↦ Iff.rfl
      · exact iff_of_false (fun hrun ↦ hun hrun.1) fun hrun ↦ hasleep hrun.2
      · exact hdeletions u
  · refine iff_of_false ((k.resume n).control_ne_sleeping true) ?_
    exact Bool.not_eq_true _ ▸ hnfin

private theorem placed_fellAsleep [DecidableEq S] {s : S} {a : Bool}
    (hc : k.control = .testing s a) : (k.fellAsleep s).Placed := by
  have hcur := h.status_current (by rw [hc]; trivial)
  have hqueue := h.not_queued_of_status (t := k.currentThread) (by rw [hcur]; decide)
  have hfin := h.not_finished_of_status (t := k.currentThread) (by rw [hcur]; decide)
  have hother : ∀ s', s' ≠ s → (k.fellAsleep s).semaphore s' = k.semaphore s' :=
    fun s' hs' ↦ Function.update_of_ne hs' ..
  have hself : ((k.fellAsleep s).semaphore s).queue
      = (k.semaphore s).queue ++ [k.currentThread] := by
    simp [Kernel.fellAsleep, Kernel.setSemaphore, Kernel.setStatus, Kernel.setResume]
  refine Kernel.placed_of_at (fun u ↦ ?_) h.ready_nodup (fun s' ↦ ?_) ?_ h.undestroyed
  · by_cases hu : u = k.currentThread
    · subst hu
      apply Kernel.PlacedAt.of_slept (s := s)
      · exact Function.update_self ..
      · exact Function.update_self ..
      · rw [hself]
        exact List.mem_append_right _ List.mem_cons_self
      · intro s' hmem
        by_contra hs'
        rw [hother s' hs'] at hmem
        exact hqueue s' hmem
      · exact h.not_ready_of_status (by rw [hcur]; decide)
      · exact fun hrun ↦ hrun.2
      · exact hfin
      · exact h.deletions_eq_zero hfin
    · apply (h.placedAt u).same
      · exact Function.update_of_ne hu ..
      · exact Function.update_of_ne hu ..
      · rfl
      · exact Iff.rfl
      · intro s'
        by_cases hs' : s' = s
        · rw [hs', hself]
          simp [hu]
        · rw [hother s' hs']
      · exact iff_of_false (fun hrun ↦ hu hrun.1) fun hrun ↦ hu hrun.1
      · exact h.deletions u
  · by_cases hs' : s' = s
    · rw [hs', hself]
      exact (h.queue_nodup s).append (List.nodup_singleton _)
        (List.disjoint_singleton.mpr (hqueue s))
    · rw [hother s' hs']
      exact h.queue_nodup s'
  · refine iff_of_false nofun ?_
    exact Bool.not_eq_true _ ▸ hfin

private theorem placed_ended (hc : k.control = .running) : k.ended.Placed := by
  have hcur := h.status_current (by rw [hc]; trivial)
  refine Kernel.placed_of_at (fun u ↦ ?_) h.ready_nodup h.queue_nodup ?_ h.undestroyed
  · by_cases hu : u = k.currentThread
    · subst hu
      apply Kernel.PlacedAt.of_finished
      · exact Function.update_self ..
      · exact Function.update_self ..
      · exact Function.update_self ..
      · exact h.not_ready_of_status (by rw [hcur]; decide)
      · exact h.not_queued_of_status (by rw [hcur]; decide)
      · exact fun hrun ↦ hrun.2
      · refine (h.deletions_eq_zero (h.not_finished_of_status (by rw [hcur]; decide))).trans ?_
        exact (if_neg fun hne ↦ hne rfl).symm
    · apply (h.placedAt u).same
      · exact Function.update_of_ne hu ..
      · exact Function.update_of_ne hu ..
      · exact Function.update_of_ne hu ..
      · exact Iff.rfl
      · exact fun _ ↦ Iff.rfl
      · exact iff_of_false (fun hrun ↦ hu hrun.1) fun hrun ↦ hu hrun.1
      · exact h.deletions u
  · exact iff_of_true rfl (Function.update_self ..)

private theorem placed_awakened [DecidableEq S] {s : S} {t : T} {rest : List T}
    (hq : (k.semaphore s).queue = t :: rest) : (k.awakened s t rest).Placed := by
  obtain ⟨hblocked, hresume⟩ := h.queued s t (by rw [hq]; exact List.mem_cons_self)
  have hnd := h.queue_nodup s
  rw [hq, List.nodup_cons] at hnd
  have hready := h.not_ready_of_status (t := t) (by rw [hblocked]; decide)
  have hfin : k.finished t = false := by
    refine Bool.eq_false_iff.mpr fun hf ↦ ?_
    rw [h.finished_iff, hresume] at hf
    cases hf
  have hother : ∀ s', s' ≠ s → (k.awakened s t rest).semaphore s' = k.semaphore s' :=
    fun s' hs' ↦ Function.update_of_ne hs' ..
  have hself : ((k.awakened s t rest).semaphore s).queue = rest := by
    simp [Kernel.awakened, Kernel.readied, Kernel.setSemaphore, Kernel.setStatus]
  refine Kernel.placed_of_at (fun u ↦ ?_) ?_ (fun s' ↦ ?_) h.ending_iff h.undestroyed
  · by_cases hu : u = t
    · subst hu
      apply Kernel.PlacedAt.of_ready
      · exact Function.update_self ..
      · exact List.mem_append_right _ List.mem_cons_self
      · intro s'
        by_cases hs' : s' = s
        · rw [hs', hself]
          exact hnd.1
        · -- a thread sleeps in `P` of one semaphore
          rw [hother s' hs']
          intro hmem
          have hslept := (h.queued s' u hmem).2
          rw [hresume] at hslept
          cases hslept
          exact hs' rfl
      · exact h.not_running_of_status (by rw [hblocked]; decide)
      · exact hfin
      · exact hresume.trans_ne nofun
      · exact h.deletions_eq_zero hfin
    · apply (h.placedAt u).same
      · exact Function.update_of_ne hu ..
      · rfl
      · rfl
      · simp [Kernel.awakened, Kernel.readied, Kernel.setStatus, Kernel.setSemaphore, hu]
      · intro s'
        by_cases hs' : s' = s
        · rw [hs', hself, hq]
          simp [hu]
        · rw [hother s' hs']
      · exact Iff.rfl
      · exact h.deletions u
  · exact h.ready_nodup.append (List.nodup_singleton t) (List.disjoint_singleton.mpr hready)
  · by_cases hs' : s' = s
    · rw [hs', hself]
      exact hnd.2
    · rw [hother s' hs']
      exact h.queue_nodup s'

/-- Values and the control of an executing thread place nobody. -/
theorem placed_value {sem : S → Semaphore T} (hsem : ∀ s, (sem s).queue = (k.semaphore s).queue)
    {c : Control S} (hawake : c.Awake ↔ k.control.Awake)
    (hsleep : c = .sleeping true ↔ k.control = .sleeping true) :
    ({ k with semaphore := sem, control := c } : Kernel T S).Placed := by
  obtain ⟨h1, h2, h3, h4, h5, h6, h7, h8, h9, h10, h11⟩ := h
  refine ⟨h1, h2, ?_, ?_, ?_, ?_, h7, h8, hsleep.trans h9, h10, h11⟩
  · intro t
    rw [h3, hawake]
  · intro s t ht
    rw [hsem] at ht
    exact h4 s t ht
  · intro s
    rw [hsem]
    exact h5 s
  · intro t ht
    obtain hf | ⟨s, hs⟩ := h6 t ht
    · exact Or.inl hf
    · exact Or.inr ⟨s, by rwa [hsem]⟩

private theorem placed_passed [DecidableEq S] {s : S} {a : Bool} (hc : k.control = .testing s a) :
    (k.passed s).Placed := by
  refine placed_value h (fun s' ↦ ?_) ?_ ?_
  · simp only [Kernel.setSemaphore, Function.update_apply]
    split
    · rename_i heq
      rw [heq]
    · rfl
  · simp [hc, Control.Awake]
  · simp [hc]

private theorem placed_posted [DecidableEq S] (s : S) : (k.posted s).Placed := by
  refine placed_value h (fun s' ↦ ?_) Iff.rfl Iff.rfl
  simp only [Function.update_apply]
  split
  · rename_i heq
    rw [heq]
  · rfl

private theorem placed_callP (hc : k.control = .running) (s : S) :
    ({ k with control := .testing s false } : Kernel T S).Placed :=
  placed_value h (fun _ ↦ rfl) (by simp [hc, Control.Awake]) (by simp [hc])

end placed

/-! ## One step -/

/-- Everything an event can do to the kernel. -/
inductive Kernel.Moves [DecidableEq S] (k : Kernel T S) : Event T S → Kernel T S → Prop
  | fork {thread : T} (hc : k.control = .running) (hnew : k.status thread = .justCreated) :
      k.Moves (.fork thread) ((k.setResume thread .begin).readied thread)
  | yieldAlone (hc : k.control = .running) (hr : k.readyList = []) : k.Moves .yield k
  | yield {n : T} {rest : List T} (hc : k.control = .running) (hr : k.readyList = n :: rest) :
      k.Moves .yield (k.yieldedTo n rest)
  | callP {s : S} (hc : k.control = .running) :
      k.Moves (.callP s) { k with control := .testing s false }
  | sleep {s : S} {a : Bool} (hc : k.control = .testing s a) (hv : (k.semaphore s).value = 0) :
      k.Moves .test (k.fellAsleep s)
  | pass {s : S} {a : Bool} (hc : k.control = .testing s a) (hv : (k.semaphore s).value ≠ 0) :
      k.Moves .test (k.passed s)
  | post {e : Event T S} {s : S} (he : e = .callV s ∨ e = .interrupt s)
      (hq : (k.semaphore s).queue = []) (hv : (k.semaphore s).value ≠ intMax) :
      k.Moves e (k.posted s)
  | awaken {e : Event T S} {s : S} {t : T} {rest : List T} (he : e = .callV s ∨ e = .interrupt s)
      (hq : (k.semaphore s).queue = t :: rest) (hv : (k.semaphore s).value ≠ intMax) :
      k.Moves e ((k.awakened s t rest).posted s)
  | finish (hc : k.control = .running) : k.Moves .finish k.ended
  | dispatch {n : T} {rest : List T} {fin : Bool} (hc : k.control = .sleeping fin)
      (hr : k.readyList = n :: rest) :
      k.Moves .dispatch ({ k with readyList := rest }.switched n fin)

section step

variable [DecidableEq S] {k : Kernel T S}

theorem Kernel.Moves.placed {e : Event T S} {k' : Kernel T S} (hm : k.Moves e k') (h : k.Placed) :
    k'.Placed := by
  cases hm with
  | fork hc hnew => exact placed_fork h hnew
  | yieldAlone hc hr => exact h
  | yield hc hr => exact placed_yield h hc hr
  | callP hc => exact placed_callP h hc _
  | sleep hc hv => exact placed_fellAsleep h hc
  | pass hc hv => exact placed_passed h hc
  | post he hq hv => exact placed_posted h _
  | awaken he hq hv => exact placed_posted (placed_awakened h hq) _
  | finish hc => exact placed_ended h hc
  | dispatch hc hr => exact placed_dispatch h hc hr

/-- The step moves, or it is a `V` at the largest value. -/
def Kernel.Steps (k : Kernel T S) (e : Event T S) : Prop :=
  (∃ k', step e k = .ok () k' ∧ k.Moves e k') ∨ ∃ k', step e k = .error .overflow k'

private theorem v_of_wakeFirst {k₁ : Kernel T S} {s : S} (hw : wakeFirst s k = .ok () k₁) :
    v s k = if (k₁.semaphore s).value = intMax then .error .overflow k₁
      else .ok () (k₁.posted s) := by
  rw [v, bind_of_ok hw, bind_get]
  by_cases hv : (k₁.semaphore s).value = intMax
  · rw [if_pos hv, if_pos hv]
    rfl
  · rw [if_neg hv, if_neg hv]
    rfl

private theorem v_steps (h : k.Placed) {s : S} {e : Event T S}
    (he : e = .callV s ∨ e = .interrupt s) (hstep : step e k = v s k) : k.Steps e := by
  rw [Kernel.Steps, hstep]
  cases hq : (k.semaphore s).queue with
  | nil =>
    have hw : wakeFirst s k = .ok () k := by
      rw [wakeFirst, bind_get, hq]
      rfl
    rw [v_of_wakeFirst hw]
    by_cases hv : (k.semaphore s).value = intMax
    · rw [if_pos hv]
      exact Or.inr ⟨k, rfl⟩
    · rw [if_neg hv]
      exact Or.inl ⟨_, rfl, .post he hq hv⟩
  | cons t rest =>
    have ht : k.status t ≠ .ready := by
      rw [(h.queued s t (by rw [hq]; exact List.mem_cons_self)).1]
      decide
    have hw : wakeFirst s k = .ok () (k.awakened s t rest) := by
      rw [wakeFirst, bind_get, hq]
      exact readyToRun_eq (h.not_ready_of_status ht)
    have hvalue : ((k.awakened s t rest).semaphore s).value = (k.semaphore s).value := by
      simp [Kernel.awakened, Kernel.readied, Kernel.setStatus, Kernel.setSemaphore]
    rw [v_of_wakeFirst hw, hvalue]
    by_cases hv : (k.semaphore s).value = intMax
    · rw [if_pos hv]
      exact Or.inr ⟨_, rfl⟩
    · rw [if_neg hv]
      exact Or.inl ⟨_, rfl, .awaken he hq hv⟩

private theorem yield_steps (h : k.Placed) (hc : k.control = .running) : k.Steps .yield := by
  left
  have hstep : step .yield k = yield k := rfl
  rw [hstep, yield]
  cases hr : k.readyList with
  | nil =>
    refine ⟨k, ?_, .yieldAlone hc hr⟩
    have hfind : findNextToRun k = .ok none k := by
      rw [findNextToRun, bind_get, hr]
      rfl
    rw [bind_of_ok hfind]
    rfl
  | cons n rest =>
    refine ⟨k.yieldedTo n rest, ?_, .yield hc hr⟩
    have hfind : findNextToRun k = .ok (some n) { k with readyList := rest } := by
      rw [findNextToRun, bind_get, hr]
      rfl
    obtain ⟨hn, -, hne, hnot⟩ := h.front_of_running hc hr
    have hres : (Function.update k.resume k.currentThread Resume.yielded) n ≠ .finished := by
      rw [Function.update_of_ne hne]
      exact h.resume_ne_of_status (by rw [hn]; decide)
    have hrun : run n false ((({ k with readyList := rest }).readied k.currentThread).setResume
        k.currentThread .yielded) = .ok () (k.yieldedTo n rest) :=
      run_eq h.undestroyed hres fun hf ↦ absurd hf Bool.false_ne_true
    rw [bind_of_ok hfind]
    exact (bind_get _ _).trans ((bind_of_ok (readyToRun_eq hnot)).trans hrun)

private theorem dispatch_steps (h : k.Placed) {fin : Bool} (hc : k.control = .sleeping fin)
    (hr : k.readyList ≠ []) : k.Steps .dispatch := by
  left
  obtain ⟨n, rest, hlist⟩ := List.exists_cons_of_ne_nil hr
  refine ⟨{ k with readyList := rest }.switched n fin, ?_, .dispatch hc hlist⟩
  have hfind : findNextToRun k = .ok (some n) { k with readyList := rest } := by
    rw [findNextToRun, bind_get, hlist]
    rfl
  have hn : k.status n = .ready := (h.ready_iff n).mp (by rw [hlist]; exact List.mem_cons_self)
  have hres : k.resume n ≠ .finished := h.resume_ne_of_status (by rw [hn]; decide)
  rw [step, bind_get, hc]
  refine (bind_of_ok hfind).trans (run_eq h.undestroyed hres fun hf heq ↦ ?_)
  -- a finishing thread is not on the ready list
  rw [hf] at hc
  have hblocked := h.finished _ (h.ending_iff.mp hc)
  rw [show k.currentThread = n from heq, hn] at hblocked
  cases hblocked

/-- No assertion of the kernel fails: every event moves the kernel, or is a `V` that takes an `int`
past its largest value. -/
private theorem steps_of_allows (h : k.Placed) {e : Event T S} (he : k.Allows e) : k.Steps e := by
  cases e with
  | fork thread =>
    have hne : k.status thread ≠ .ready := by
      rw [he.2]
      decide
    exact Or.inl ⟨_, readyToRun_eq (h.not_ready_of_status hne), .fork he.1 he.2⟩
  | yield => exact yield_steps h he
  | callP s => exact Or.inl ⟨_, rfl, .callP he⟩
  | test =>
    obtain ⟨s, a, hc⟩ := he
    have hstep : step .test k = pTest s k := by
      rw [step, bind_get, hc]
    have hcur := h.status_current (by rw [hc]; trivial)
    left
    rw [hstep, pTest, bind_get]
    by_cases hv : (k.semaphore s).value = 0
    · rw [if_pos hv, listAppend_of_not_mem (h.not_queued_of_status (by rw [hcur]; decide) s)]
      exact ⟨_, rfl, .sleep hc hv⟩
    · rw [if_neg hv]
      exact ⟨_, rfl, .pass hc hv⟩
  | callV s => exact v_steps h (Or.inl rfl) rfl
  | interrupt s => exact v_steps h (Or.inr rfl) rfl
  | finish => exact Or.inl ⟨_, rfl, .finish he⟩
  | dispatch =>
    obtain ⟨⟨fin, hc⟩, hr⟩ := he
    exact dispatch_steps h hc hr

theorem moves_of_step (h : k.Placed) {e : Event T S} (he : k.Allows e) {k' : Kernel T S}
    (hstep : step e k = .ok () k') : k.Moves e k' := by
  obtain ⟨k₁, hok, hm⟩ | ⟨k₁, herr⟩ := steps_of_allows h he
  · rw [hstep] at hok
    cases hok
    exact hm
  · rw [hstep] at herr
    cases herr

theorem placed_of_reachable {main : T} {initialValue : S → ℤ}
    (hk : Kernel.Reachable main initialValue k) : k.Placed := by
  induction hk with
  | init => exact placed_init main initialValue
  | step hk he hstep ih => exact (moves_of_step ih he hstep).placed ih

/-- Wherever a run has led: no assertion fails at the next event, and no thread was deleted twice or
while it has the processor. When moreover the current thread is executing outside `Thread::Sleep`
and `Scheduler::Run`, it is the one running thread, each ready thread is on the ready list once,
each blocked thread that is not finishing is on one queue once, and each finished thread is nowhere
and deleted. -/
theorem thread_placement {main : T} {initialValue : S → ℤ}
    (hk : Kernel.Reachable main initialValue k) :
    (∀ e, k.Allows e → ∀ k', step e k ≠ .error .assertFailed k') ∧
    (∀ t, k.deletions t ≤ 1 ∧ (0 < k.deletions t → t ≠ k.currentThread)) ∧
    (k.control.Awake →
      (∀ t, k.status t = .running ↔ t = k.currentThread) ∧
      (∀ t, k.status t = .ready → k.readyList.count t = 1) ∧
      (∀ t, k.status t = .blocked → k.finished t = false →
        ∃ s, (k.semaphore s).queue.count t = 1 ∧ ∀ s', t ∈ (k.semaphore s').queue → s' = s) ∧
      (∀ t, k.finished t = true →
        t ∉ k.readyList ∧ (∀ s, t ∉ (k.semaphore s).queue) ∧ k.deletions t = 1) ∧
      k.toBeDestroyed = none) := by
  have h := placed_of_reachable hk
  refine ⟨fun e he k' herr ↦ ?_, fun t ↦ ?_, fun hc ↦ ⟨fun t ↦ ?_, fun t ht ↦ ?_, fun t ht hf ↦ ?_,
    fun t hf ↦ ⟨?_, fun s hs ↦ ?_, ?_⟩, h.undestroyed⟩⟩
  · obtain ⟨_, hok, -⟩ | ⟨_, hover⟩ := steps_of_allows h he
    · rw [herr] at hok
      cases hok
    · rw [herr] at hover
      cases hover
  · rw [h.deletions]
    split
    · rename_i hdel
      exact ⟨Nat.le_refl 1, fun _ ↦ hdel.2⟩
    · exact ⟨Nat.zero_le 1, fun hpos ↦ absurd hpos (Nat.lt_irrefl 0)⟩
  · rw [h.running_iff]
    exact and_iff_left hc
  · exact List.count_eq_one_of_mem h.ready_nodup ((h.ready_iff t).mpr ht)
  · obtain hfin | ⟨s, hs⟩ := h.blocked t ht
    · rw [hf] at hfin
      cases hfin
    · refine ⟨s, List.count_eq_one_of_mem (h.queue_nodup s) hs, fun s' hs' ↦ ?_⟩
      have hslept := (h.queued s' t hs').2
      rw [(h.queued s t hs).2] at hslept
      cases hslept
      rfl
  · exact h.not_ready_of_status (by rw [h.finished t hf]; decide)
  · have hslept := (h.queued s t hs).2
    rw [(h.finished_iff t).mp hf] at hslept
    cases hslept
  · have hne : t ≠ k.currentThread := by
      rintro rfl
      rw [h.ending_iff.mpr hf] at hc
      exact hc
    rw [h.deletions, if_pos ⟨hf, hne⟩]

end step

/-- A thread forks another and sleeps on a semaphore; the other one finishes. Nobody has the
processor until an interrupt makes the first one ready, which deletes the other. -/
theorem finished_placed :
    ∃ k : Kernel Bool Unit, Kernel.Reachable true (fun _ ↦ 0) k ∧ k.control = .testing () true ∧
      (∀ t, k.status t = .running ↔ t = k.currentThread) ∧ false ∉ k.readyList ∧
      k.deletions false = 1 := by
  have h0 : Kernel.Reachable true (fun _ ↦ 0) (Kernel.init true fun _ ↦ 0 : Kernel Bool Unit) :=
    .init
  have h1 := h0.step (e := .fork false) ⟨rfl, rfl⟩ rfl
  have h2 := h1.step (e := .callP ()) rfl rfl
  have h3 := h2.step (e := .test) ⟨(), false, rfl⟩ rfl
  have h4 := h3.step (e := .dispatch) ⟨⟨false, rfl⟩, List.cons_ne_nil _ _⟩ rfl
  have h5 := h4.step (e := .finish) rfl rfl
  have h6 := h5.step (e := .interrupt ()) (Or.inr ⟨true, rfl⟩) rfl
  have h7 := h6.step (e := .dispatch) ⟨⟨true, rfl⟩, List.cons_ne_nil _ _⟩ rfl
  obtain ⟨hrunning, -, -, hfinished, -⟩ := (thread_placement h7).2.2 trivial
  exact ⟨_, h7, rfl, hrunning, (hfinished false rfl).1, (hfinished false rfl).2.2⟩

end Threads

end Nachos
