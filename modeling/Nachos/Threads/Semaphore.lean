import Nachos.Threads.Placement

/-!
# Semaphores lose no wakeup

`V` wakes the first thread of the queue and increments the value; the thread it woke has to test the
value again when it gets the processor, and by then another thread may have taken the unit. So a
positive value and a thread on the queue can be seen together. What keeps the queued threads from
waiting for nothing is that for each unit there is a thread on its way to test the value:
`Kernel.inTransit` counts those that `V` took off the queue and that have not tested again, and as
long as somebody is queued the value never exceeds it.

The calls are counted where they are made, in the events of the run. A call of `V` is one step, so
it has come back; of the calls of `P` those have come back whose thread is not in `P` any more.
-/

namespace Nachos

namespace Threads

variable {T S : Type} [DecidableEq S]

/-- The thread will go on in the loop of `P` on `s`. -/
def Resume.isSleptOn (s : S) : Resume S → Bool
  | .slept s' => decide (s' = s)
  | _ => false

/-- The current thread was awakened and is about to test the value of `s` again. -/
def Control.isRetesting (s : S) : Control S → Bool
  | .testing s' true => decide (s' = s)
  | _ => false

/-- The threads that `V` has taken off the queue of `s` and that have not tested the value again:
they are on the ready list, or one has the processor. -/
def Kernel.inTransit (k : Kernel T S) (s : S) : ℕ :=
  k.readyList.countP (fun t ↦ (k.resume t).isSleptOn s) + (k.control.isRetesting s).toNat

/-- The current thread is about to test the value of `s` for the first time in its call. -/
def Control.isTesting (s : S) : Control S → Bool
  | .testing s' false => decide (s' = s)
  | _ => false

/-- The threads that are in `P` on `s`: queued, on their way to the value, or about to test it for
the first time. -/
def Kernel.inP (k : Kernel T S) (s : S) : ℕ :=
  (k.semaphore s).queue.length + k.inTransit s + (k.control.isTesting s).toNat

/-- A thread or an interrupt handler calls `V` on `s`. -/
def Event.isV (s : S) : Event T S → Bool
  | .callV s' | .interrupt s' => decide (s' = s)
  | _ => false

/-- A thread calls `P` on `s`. -/
def Event.isP (s : S) : Event T S → Bool
  | .callP s' => decide (s' = s)
  | _ => false

/-- What the calls of an event come to, if those of `P` were back at once. -/
def Event.balance (s : S) (e : Event T S) : ℤ := (e.isV s).toNat - (e.isP s).toNat

/-- What holds of the value of `s`; `v₀` would be the value if nobody were in `P`. -/
structure Kernel.Balanced (v₀ : ℤ) (k : Kernel T S) (s : S) : Prop where
  nonneg : 0 ≤ (k.semaphore s).value
  count : (k.semaphore s).value = v₀ + k.inP s
  transit : (k.semaphore s).queue ≠ [] → (k.semaphore s).value ≤ k.inTransit s

private theorem balanced_init [DecidableEq T] (main : T) {initialValue : S → ℤ} {s : S}
    (h : 0 ≤ initialValue s) :
    (Kernel.init main initialValue : Kernel T S).Balanced (initialValue s) s := by
  refine ⟨h, ?_, fun hq ↦ absurd rfl hq⟩
  simp [Kernel.init, Semaphore.new, Kernel.inP, Kernel.inTransit, Control.isRetesting,
    Control.isTesting]

section moves

variable {v₀ : ℤ} {k : Kernel T S} {s : S}

/-- Only the semaphore `s` and the threads on their way to it matter. -/
theorem Kernel.Balanced.congr (h : k.Balanced v₀ s) {k' : Kernel T S}
    (hsem : k'.semaphore s = k.semaphore s) (htransit : k'.inTransit s = k.inTransit s)
    (htesting : k'.control.isTesting s = k.control.isTesting s) : k'.Balanced v₀ s := by
  have hin : k'.inP s = k.inP s := by
    rw [Kernel.inP, Kernel.inP, hsem, htransit, htesting]
  refine ⟨?_, ?_, fun hq ↦ ?_⟩
  · rw [hsem]
    exact h.nonneg
  · rw [hsem, hin]
    exact h.count
  · rw [hsem] at hq ⊢
    rw [htransit]
    exact h.transit hq

/-- A thread that gets the processor is not about to test for the first time. -/
theorem Resume.control_isTesting (r : Resume S) (s : S) :
    r.control.isTesting s = false := by
  cases r <;> rfl

/-- A thread that tests the value is counted once among those in `P`. -/
private theorem testing_toNat (a : Bool) :
    ((Control.testing s a).isRetesting s).toNat
      + ((Control.testing s a).isTesting s).toNat = 1 := by
  cases a <;> simp [Control.isRetesting, Control.isTesting]

/-- The test of another semaphore does not count. -/
private theorem testing_of_ne {s' : S} (hs : s ≠ s') (a : Bool) :
    (Control.testing s' a).isRetesting s = false ∧ (Control.testing s' a).isTesting s = false := by
  cases a <;> simp [Control.isRetesting, Control.isTesting, Ne.symm hs]

/-- Moving a thread that is not on the ready list moves nobody who is. -/
theorem countP_setResume [DecidableEq T] {t : T} {l : List T} (ht : t ∉ l)
    (resume : T → Resume S) (r : Resume S) (s : S) :
    l.countP (fun t' ↦ (Function.update resume t r t').isSleptOn s)
      = l.countP (fun t' ↦ (resume t').isSleptOn s) := by
  refine List.countP_congr fun t' ht' ↦ ?_
  have hne : t' ≠ t := fun heq ↦ ht (heq ▸ ht')
  rw [Function.update_of_ne hne]

/-- The thread that gets the processor was on its way to `s` before, and is now. -/
private theorem transit_switched {n : T} {rest : List T} (resume : T → Resume S) (s : S) :
    rest.countP (fun t ↦ (resume t).isSleptOn s) + ((resume n).control.isRetesting s).toNat
      = (n :: rest).countP (fun t ↦ (resume t).isSleptOn s) := by
  have hsame : (resume n).control.isRetesting s = (resume n).isSleptOn s := by
    cases resume n <;> rfl
  rw [List.countP_cons, hsame]
  cases (resume n).isSleptOn s <;> rfl

/-- A thread that takes a unit was in transit, or the unit was not promised to anybody. -/
private theorem balanced_passed (h : k.Balanced v₀ s) {s' : S} {a : Bool}
    (hc : k.control = .testing s' a)
    (hv : (k.semaphore s').value ≠ 0) : (k.passed s').Balanced v₀ s := by
  by_cases hs : s = s'
  · subst hs
    have hsem : (k.passed s).semaphore s
        = { k.semaphore s with value := (k.semaphore s).value - 1 } :=
      Function.update_self ..
    have hone := testing_toNat (s := s) a
    have htransit : k.inTransit s
        = (k.passed s).inTransit s + ((Control.testing s a).isRetesting s).toNat := by
      simp only [Kernel.inTransit, hc]
      rfl
    have hin : k.inP s = (k.passed s).inP s + 1 := by
      simp only [Kernel.inP, hsem, hc, htransit]
      change _ = _ + _ + 0 + 1
      omega
    have hnonneg := h.nonneg
    have hcount := h.count
    refine ⟨?_, ?_, fun hq ↦ ?_⟩
    · rw [hsem]
      change 0 ≤ (k.semaphore s).value - 1
      omega
    · rw [hsem]
      change (k.semaphore s).value - 1 = _
      rw [hin] at hcount
      omega
    · rw [hsem] at hq ⊢
      have := h.transit hq
      change (k.semaphore s).value - 1 ≤ _
      omega
  · obtain ⟨hretesting, htesting⟩ := testing_of_ne hs a
    refine h.congr (Function.update_of_ne hs _ _) ?_ ?_
    · rw [Kernel.inTransit, Kernel.inTransit, hc, hretesting]
      rfl
    · rw [hc, htesting]
      rfl

/-- `V` with nobody queued. -/
private theorem balanced_posted (h : k.Balanced v₀ s) {s' : S} (hq : (k.semaphore s').queue = []) :
    (k.posted s').Balanced (v₀ + (decide (s' = s)).toNat) s := by
  by_cases hs : s = s'
  · subst hs
    have hsem : (k.posted s).semaphore s
        = { k.semaphore s with value := (k.semaphore s).value + 1 } :=
      Function.update_self ..
    have hin : (k.posted s).inP s = k.inP s := by
      rw [Kernel.inP, hsem]
      rfl
    have hnonneg := h.nonneg
    have hcount := h.count
    refine ⟨?_, ?_, fun hne ↦ ?_⟩
    · rw [hsem]
      exact Int.le_add_one hnonneg
    · rw [hsem, hin, decide_eq_true rfl]
      change (k.semaphore s).value + 1 = v₀ + 1 + _
      omega
    · rw [hsem] at hne
      exact absurd hq hne
  · rw [decide_eq_false (Ne.symm hs), Bool.toNat_false, Int.natCast_zero, Int.add_zero]
    exact h.congr (Function.update_of_ne hs _ _) rfl rfl

/-- A call of `P`. -/
private theorem balanced_callP (h : k.Balanced v₀ s) {s' : S} (hc : k.control = .running) :
    ({ k with control := .testing s' false } : Kernel T S).Balanced
      (v₀ - (decide (s' = s)).toNat) s := by
  have hsame : ({ k with control := .testing s' false } : Kernel T S).inTransit s
      = k.inTransit s := by
    simp [Kernel.inTransit, Control.isRetesting, hc]
  have hin : ({ k with control := .testing s' false } : Kernel T S).inP s
      = k.inP s + (decide (s' = s)).toNat := by
    rw [Kernel.inP, Kernel.inP, hsame, hc]
    rfl
  have hcount := h.count
  refine ⟨h.nonneg, ?_, fun hq ↦ ?_⟩
  · rw [hin]
    change (k.semaphore s).value = _
    omega
  · rw [hsame]
    exact h.transit hq

variable [DecidableEq T]

private theorem balanced_fork (hp : k.Placed) (h : k.Balanced v₀ s) {t : T}
    (ht : k.status t = .justCreated) :
    ((k.setResume t .begin).readied t).Balanced v₀ s := by
  have hnot := hp.not_ready_of_status (t := t) (by rw [ht]; decide)
  refine h.congr rfl ?_ rfl
  simp only [Kernel.inTransit, Kernel.readied, Kernel.setResume, Kernel.setStatus,
    List.countP_append, countP_setResume hnot]
  simp [Resume.isSleptOn]

private theorem balanced_yieldedTo (hp : k.Placed) (h : k.Balanced v₀ s) (hc : k.control = .running)
    {n : T} {rest : List T} (hr : k.readyList = n :: rest) :
    (k.yieldedTo n rest).Balanced v₀ s := by
  have hcur := hp.status_current (by rw [hc]; trivial)
  have hnot := hp.not_ready_of_status (t := k.currentThread) (by rw [hcur]; decide)
  rw [hr, List.mem_cons, not_or] at hnot
  refine h.congr rfl ?_ ?_
  swap
  · rw [hc]
    exact Resume.control_isTesting _ s
  simp only [Kernel.inTransit, Kernel.yieldedTo, Kernel.switched, Kernel.readied,
    Kernel.setResume, Kernel.setStatus, List.countP_append, countP_setResume hnot.2, hr, hc,
    Function.update_of_ne (Ne.symm hnot.1)]
  rw [← transit_switched k.resume s]
  simp [Resume.isSleptOn, Control.isRetesting]

private theorem balanced_dispatch (h : k.Balanced v₀ s) {fin : Bool}
    (hc : k.control = .sleeping fin) {n : T} {rest : List T} (hr : k.readyList = n :: rest) :
    ({ k with readyList := rest }.switched n fin).Balanced v₀ s := by
  refine h.congr rfl ?_ ?_
  swap
  · rw [hc]
    exact Resume.control_isTesting _ s
  simp only [Kernel.inTransit, Kernel.switched, hr, hc]
  rw [← transit_switched k.resume s]
  simp [Control.isRetesting]

private theorem balanced_ended (hp : k.Placed) (h : k.Balanced v₀ s) (hc : k.control = .running) :
    k.ended.Balanced v₀ s := by
  have hcur := hp.status_current (by rw [hc]; trivial)
  have hnot := hp.not_ready_of_status (t := k.currentThread) (by rw [hcur]; decide)
  refine h.congr rfl ?_ (by rw [hc]; rfl)
  simp only [Kernel.inTransit, Kernel.ended, Kernel.setResume, Kernel.setStatus,
    countP_setResume hnot, hc]
  rfl

/-- A thread goes to sleep on `s` only when the value is zero. -/
private theorem balanced_fellAsleep (hp : k.Placed) (h : k.Balanced v₀ s) {s' : S} {a : Bool}
    (hc : k.control = .testing s' a) (hv : (k.semaphore s').value = 0) :
    (k.fellAsleep s').Balanced v₀ s := by
  have hcur := hp.status_current (by rw [hc]; trivial)
  have hnot := hp.not_ready_of_status (t := k.currentThread) (by rw [hcur]; decide)
  have htransit : k.inTransit s
      = (k.fellAsleep s').inTransit s + ((Control.testing s' a).isRetesting s).toNat := by
    simp only [Kernel.inTransit, Kernel.fellAsleep, Kernel.setResume, Kernel.setStatus,
      Kernel.setSemaphore, countP_setResume hnot, hc, Control.isRetesting, Bool.toNat_false,
      Nat.add_zero]
  by_cases hs : s = s'
  · subst hs
    have hsem : (k.fellAsleep s).semaphore s
        = { k.semaphore s with queue := (k.semaphore s).queue ++ [k.currentThread] } :=
      Function.update_self ..
    -- it is one more on the queue, and does not test any more
    have hin : (k.fellAsleep s).inP s = k.inP s := by
      have hone := testing_toNat (s := s) a
      simp only [Kernel.inP, hsem, hc, htransit, List.length_append, List.length_singleton]
      change _ + 0 = _
      omega
    refine ⟨?_, ?_, fun _ ↦ ?_⟩
    · rw [hsem]
      exact h.nonneg
    · rw [hsem, hin]
      exact h.count
    · rw [hsem]
      change (k.semaphore s).value ≤ _
      rw [hv]
      exact Int.natCast_nonneg _
  · obtain ⟨hretesting, htesting⟩ := testing_of_ne hs a
    refine h.congr (Function.update_of_ne hs _ _) ?_ ?_
    · rw [htransit, hretesting]
      rfl
    · rw [hc, htesting]
      rfl

/-- `V` with somebody queued: one more unit, and one more thread on its way. -/
private theorem balanced_awakened (hp : k.Placed) (h : k.Balanced v₀ s) {s' : S} {t : T}
    {rest : List T} (hq : (k.semaphore s').queue = t :: rest) :
    ((k.awakened s' t rest).posted s').Balanced (v₀ + (decide (s' = s)).toNat) s := by
  have ht := (hp.queued s' t (by rw [hq]; exact List.mem_cons_self)).2
  have htransit : ((k.awakened s' t rest).posted s').inTransit s
      = k.inTransit s + if s' = s then 1 else 0 := by
    simp only [Kernel.inTransit, Kernel.posted, Kernel.awakened, Kernel.readied,
      Kernel.setStatus, Kernel.setSemaphore, List.countP_append, List.countP_singleton, ht,
      Resume.isSleptOn, decide_eq_true_eq]
    omega
  by_cases hs : s = s'
  · subst hs
    have hsem : ((k.awakened s t rest).posted s).semaphore s
        = ⟨(k.semaphore s).value + 1, rest⟩ := by
      simp [Kernel.posted, Kernel.awakened, Kernel.readied, Kernel.setStatus, Kernel.setSemaphore]
    rw [if_pos rfl] at htransit
    -- it has gone from the queue to those in transit
    have hin : ((k.awakened s t rest).posted s).inP s = k.inP s := by
      have hmoved : rest.length + (k.inTransit s + 1) = rest.length + 1 + k.inTransit s := by omega
      rw [Kernel.inP, Kernel.inP, hsem, htransit, hq, List.length_cons, ← hmoved]
      rfl
    have hnonneg := h.nonneg
    have hcount := h.count
    refine ⟨?_, ?_, fun _ ↦ ?_⟩
    · rw [hsem]
      exact Int.le_add_one hnonneg
    · rw [hsem, hin, decide_eq_true rfl]
      change (k.semaphore s).value + 1 = v₀ + 1 + _
      omega
    · have := h.transit (by rw [hq]; exact List.cons_ne_nil _ _)
      rw [hsem, htransit]
      change (k.semaphore s).value + 1 ≤ _
      omega
  · rw [decide_eq_false (Ne.symm hs), Bool.toNat_false, Int.natCast_zero, Int.add_zero]
    refine h.congr ?_ ?_ rfl
    · simp only [Kernel.posted, Kernel.awakened, Kernel.readied, Kernel.setStatus,
        Kernel.setSemaphore]
      rw [Function.update_of_ne hs, Function.update_of_ne hs]
    · rw [htransit, if_neg (Ne.symm hs), Nat.add_zero]

omit [DecidableEq T] in
private theorem balance_of_v {e : Event T S} {s' : S} (he : e = .callV s' ∨ e = .interrupt s') :
    e.balance s = (decide (s' = s)).toNat := by
  rcases he with rfl | rfl <;> simp [Event.balance, Event.isV, Event.isP]

theorem Kernel.Moves.balanced {e : Event T S} {k' : Kernel T S} (hm : k.Moves e k') (hp : k.Placed)
    (h : k.Balanced v₀ s) : k'.Balanced (v₀ + e.balance s) s := by
  -- the events that are no calls leave the balance alone
  have hnone (e : Event T S) (hv : e.isV s = false) (hp : e.isP s = false) :
      v₀ + e.balance s = v₀ := by
    rw [Event.balance, hv, hp]
    exact Int.add_zero v₀
  cases hm with
  | fork hc hnew =>
    rw [hnone _ rfl rfl]
    exact balanced_fork hp h hnew
  | yieldAlone hc hr =>
    rw [hnone _ rfl rfl]
    exact h
  | yield hc hr =>
    rw [hnone _ rfl rfl]
    exact balanced_yieldedTo hp h hc hr
  | @callP s' hc =>
    have hcall : v₀ + (Event.callP s' : Event T S).balance s = v₀ - (decide (s' = s)).toNat := by
      change v₀ + (0 - ((decide (s' = s)).toNat : ℤ)) = _
      omega
    rw [hcall]
    exact balanced_callP h hc
  | sleep hc hv =>
    rw [hnone _ rfl rfl]
    exact balanced_fellAsleep hp h hc hv
  | pass hc hv =>
    rw [hnone _ rfl rfl]
    exact balanced_passed h hc hv
  | post he hq hv =>
    rw [balance_of_v he]
    exact balanced_posted h hq
  | awaken he hq hv =>
    rw [balance_of_v he]
    exact balanced_awakened hp h hq
  | finish hc =>
    rw [hnone _ rfl rfl]
    exact balanced_ended hp h hc
  | dispatch hc hr =>
    rw [hnone _ rfl rfl]
    exact balanced_dispatch h hc hr

end moves

/-! ## Every run -/

/-- The calls of `V` on `s` among the events. -/
def callsOfV (events : List (Event T S)) (s : S) : ℕ := events.countP (Event.isV s)

/-- The calls of `P` on `s` among the events. -/
def callsOfP (events : List (Event T S)) (s : S) : ℕ := events.countP (Event.isP s)

private theorem balanced_of_runs [DecidableEq T] {main : T} {initialValue : S → ℤ}
    {events : List (Event T S)} {k : Kernel T S} (hk : Kernel.Runs main initialValue events k)
    {s : S} (h0 : 0 ≤ initialValue s) :
    k.Balanced (initialValue s + callsOfV events s - callsOfP events s) s := by
  induction hk with
  | init =>
    have := balanced_init main h0
    rwa [← Int.add_zero (initialValue s), ← Int.sub_zero (initialValue s + 0)] at this
  | @step events k k' e hk he hstep ih =>
    have hp := placed_of_reachable hk.reachable
    have hmoved := (moves_of_step hp he hstep).balanced hp ih
    have hsum : initialValue s + callsOfV (events ++ [e]) s - callsOfP (events ++ [e]) s
        = initialValue s + callsOfV events s - callsOfP events s + e.balance s := by
      simp only [callsOfV, callsOfP, List.countP_append, List.countP_singleton, Event.balance]
      cases e.isV s <;> cases e.isP s <;> simp <;> omega
    rw [hsum]
    exact hmoved

/-- In every run: the value of a semaphore that started at zero or above stays so and is the initial
value plus the `V`s that were called minus the `P`s that have come back, those that were called and
whose thread is not in `P` any more; a queued thread is blocked and queued once; and while somebody
is queued the value is at most the number of threads that `V` has taken off the queue and that have
not tested it again. -/
theorem semaphore_safety [DecidableEq T] {main : T} {initialValue : S → ℤ}
    {events : List (Event T S)} {k : Kernel T S} (hk : Kernel.Runs main initialValue events k)
    {s : S} (h0 : 0 ≤ initialValue s) :
    0 ≤ (k.semaphore s).value ∧
    (k.semaphore s).value
      = initialValue s + callsOfV events s - (callsOfP events s - k.inP s) ∧
    (∀ t ∈ (k.semaphore s).queue,
      k.status t = .blocked ∧ (k.semaphore s).queue.count t = 1) ∧
    ((k.semaphore s).queue ≠ [] → (k.semaphore s).value ≤ k.inTransit s) := by
  have hp := placed_of_reachable hk.reachable
  have hb := balanced_of_runs hk h0
  refine ⟨hb.nonneg, ?_, fun t ht ↦ ⟨(hp.queued s t ht).1, ?_⟩, hb.transit⟩
  · rw [hb.count]
    omega
  · exact List.count_eq_one_of_mem (hp.queue_nodup s) ht

/-- Three threads. The second one sleeps in `P`; the third one posts the semaphore and takes the
unit itself before the second one gets the processor, which then sleeps again. -/
def overtaken : List (Event (Fin 3) Unit) :=
  [.fork 1, .fork 2, .yield, .callP (), .test, .dispatch, .callV (), .callP (), .test, .yield,
    .yield, .test]

theorem semaphore_safety_overtaken :
    ∃ k : Kernel (Fin 3) Unit, Kernel.Runs 0 (fun _ ↦ 0) overtaken k ∧
      (k.semaphore ()).queue = [1] ∧ k.inP () = 1 ∧
      (k.semaphore ()).value = (0 : ℤ) + 1 - (2 - 1) := by
  have h0 : Kernel.Runs 0 (fun _ ↦ 0) [] (Kernel.init 0 fun _ ↦ 0 : Kernel (Fin 3) Unit) := .init
  have h1 := h0.step (e := .fork 1) ⟨rfl, rfl⟩ rfl
  have h2 := h1.step (e := .fork 2) ⟨rfl, rfl⟩ rfl
  have h3 := h2.step (e := .yield) rfl rfl
  have h4 := h3.step (e := .callP ()) rfl rfl
  have h5 := h4.step (e := .test) ⟨(), false, rfl⟩ rfl
  have h6 := h5.step (e := .dispatch) ⟨⟨false, rfl⟩, List.cons_ne_nil _ _⟩ rfl
  have h7 := h6.step (e := .callV ()) rfl rfl
  have h8 := h7.step (e := .callP ()) rfl rfl
  have h9 := h8.step (e := .test) ⟨(), false, rfl⟩ rfl
  have h10 := h9.step (e := .yield) rfl rfl
  have h11 := h10.step (e := .yield) rfl rfl
  have h12 := h11.step (e := .test) ⟨(), true, rfl⟩ rfl
  exact ⟨_, h12, rfl, rfl, (semaphore_safety h12 (Int.le_refl 0)).2.1⟩

end Threads

end Nachos
