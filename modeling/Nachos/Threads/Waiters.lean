import Nachos.Threads.Condition

/-!
# The semaphores of the waiters

What holds of every semaphore made by `Condition::Wait`, from its creation to its deletion. It is on
the queue, or selected by a signaller that holds the lock, exactly as long as it was put on the
queue and not posted; it is posted at most once; its value is the number of posts until the owner
has passed `P`; and only the owner is ever on its own queue. `Monitor.Waiters` says this for all of
them, with the order of the queue, and every statement of every thread keeps it.
-/

namespace Nachos

namespace Threads

open Program

variable {T W : Type}

/-! ## The invariant -/

namespace CondStage

/-- The semaphore that the thread has made and not deleted. -/
def own : CondStage W → Option W
  | .waitAppend w | .waitRelease w | .waitTest w | .waitSleep w | .waitAcquire w | .waitDelete w =>
    some w
  | _ => none

/-- Not put on the queue yet. -/
def fresh : CondStage W → Bool
  | .waitAppend _ => true
  | _ => false

def asleep : CondStage W → Bool
  | .waitSleep _ => true
  | _ => false

/-- Past `P`. -/
def passed : CondStage W → Bool
  | .waitAcquire _ | .waitDelete _ => true
  | _ => false

/-- The semaphore that the thread has taken off the queue and is about to post. -/
def selecting : CondStage W → Option W
  | .signalPost _ w => some w
  | _ => none

/-- The thread found somebody on the queue and has not taken it off. -/
def expects : CondStage W → Bool
  | .signalCheck .broadcast | .signalTest .broadcast | .signalRemove _ => true
  | _ => false

/-- The thread is in a part of an operation that needs the lock. -/
def critical : CondStage W → Bool
  | .idle | .waitRelease _ | .waitTest _ | .waitSleep _ | .waitAcquire _ => false
  | _ => true

private theorem critical_of_expects {stage : CondStage W} (h : stage.expects = true) :
    stage.critical = true := by
  cases stage <;> first | rfl | cases h

private theorem critical_of_selecting {stage : CondStage W} {w : W} (h : stage.selecting = some w) :
    stage.critical = true := by
  cases stage <;> first | rfl | cases h

end CondStage

/-- The stage and the place in the lock's code agree. -/
def CondPlace.Coherent (place : CondPlace W) : Prop :=
  match place.stage with
  | .idle => True
  | .waitRelease _ => place.lock.inside = true ∧ place.lock ≠ .passed
  | .waitTest _ | .waitSleep _ => place.lock = .outside
  | .waitAcquire _ => place.lock.inside = false ∨ place.lock = .passed
  | _ => place.lock = .holding

namespace Monitor

/-- What holds of the semaphore `w`, whose owner is at `stage`. `selected` is the semaphore that was
taken off the queue and is not posted yet, with the thread that will post it. -/
structure WaiterOk (s : Monitor T W) (selected : Option (T × W)) (stage : CondStage W) (w : W)
    (x : Waiter T) : Prop where
  posts_le : x.posts ≤ 1
  fresh : stage.fresh = true → x.posts = 0
  passed : stage.passed = true → x.posts = 1
  value : x.semaphore.value = if stage.passed then 0 else (x.posts : ℤ)
  queue : x.semaphore.queue = if stage.asleep = true ∧ x.posts = 0 then [x.owner] else []
  waiting_iff : (w ∈ s.waitQueue ∨ ∃ t, selected = some (t, w)) ↔
    x.posts = 0 ∧ stage.fresh = false

/-- What holds of the condition, given the stages `g` of the threads. -/
structure Waiters (s : Monitor T W) (g : T → CondStage W) (selected : Option (T × W)) : Prop where
  selecting_iff : ∀ t w, (g t).selecting = some w ↔ selected = some (t, w)
  own_iff : ∀ t w, (g t).own = some w ↔ ∃ x, s.heap w = some x ∧ x.owner = t
  ok : ∀ w x, s.heap w = some x → s.WaiterOk selected (g x.owner) w x
  queue_alive : ∀ w ∈ s.waitQueue, ∃ x, s.heap w = some x
  queue_nodup : s.waitQueue.Nodup
  selected_alive : ∀ t w, selected = some (t, w) → (∃ x, s.heap w = some x) ∧ w ∉ s.waitQueue
  expects : ∀ t, (g t).expects = true → s.waitQueue ≠ []
  order : s.enqueued = s.removed ++ s.waitQueue

structure Inv (s : Monitor T W) (f : T → CondPlace W) : Prop where
  lock : s.lock.Inv fun t ↦ (f t).lock
  coherent : ∀ t, (f t).Coherent
  waiters : ∃ selected, s.Waiters (fun t ↦ (f t).stage) selected

end Monitor

/-! ## Moves that leave the semaphores alone -/

/-- The two stages mean the same for the semaphore of the thread. -/
structure CondStage.Same (stage stage' : CondStage W) : Prop where
  own : stage'.own = stage.own
  selecting : stage'.selecting = stage.selecting
  passed : stage'.passed = stage.passed
  asleep : stage'.asleep = stage.asleep
  fresh : stage'.fresh = stage.fresh

namespace Monitor

variable {s : Monitor T W} {g : T → CondStage W} {selected : Option (T × W)} {t : T} {w : W}
  {x : Waiter T} {stage stage' : CondStage W} {waitQueue : List W} {p : LockPlace}

theorem Next.same (h : Next waitQueue stage stage') : stage.Same stage' := by
  cases h with
  | @signalNobody caller hq => cases caller <;> exact ⟨rfl, rfl, rfl, rfl, rfl⟩
  | _ => exact ⟨rfl, rfl, rfl, rfl, rfl⟩

theorem Next.expects (h : Next waitQueue stage stage') (he : stage'.expects = true) :
    waitQueue ≠ [] ∨ stage.expects = true := by
  cases h with
  | callWait => cases he
  | callSignal => cases he
  | callBroadcast => cases he
  | waitCheck => cases he
  | @signalCheck caller =>
    cases caller with
    | user => cases he
    | broadcast => exact Or.inr rfl
  | @signalNobody caller hq =>
    cases caller with
    | user => cases he
    | broadcast => cases he
  | signalTest hq => exact Or.inl hq
  | broadcastDone hq => cases he
  | broadcastTest hq => exact Or.inl hq

theorem LockStage.same (h : LockStage stage p stage') : stage.Same stage' := by
  cases h <;> exact ⟨rfl, rfl, rfl, rfl, rfl⟩

theorem LockStage.expects (h : LockStage stage p stage') : stage'.expects = false := by
  cases h <;> rfl

theorem WaiterOk.congr {s' : Monitor T W} {selected' : Option (T × W)}
    (h : s.WaiterOk selected stage w x) (hpassed : stage'.passed = stage.passed)
    (hasleep : stage'.asleep = stage.asleep) (hfresh : stage'.fresh = stage.fresh)
    (hwaiting : (w ∈ s'.waitQueue ∨ ∃ t, selected' = some (t, w)) ↔
      (w ∈ s.waitQueue ∨ ∃ t, selected = some (t, w))) :
    s'.WaiterOk selected' stage' w x := by
  refine ⟨h.posts_le, ?_, ?_, ?_, ?_, ?_⟩
  · rw [hfresh]
    exact h.fresh
  · rw [hpassed]
    exact h.passed
  · rw [hpassed]
    exact h.value
  · rw [hasleep]
    exact h.queue
  · rw [hwaiting, hfresh]
    exact h.waiting_iff

/-- The lock is not looked at. -/
theorem Waiters.withLock (h : s.Waiters g selected) (lock : Lock T) :
    { s with lock := lock }.Waiters g selected :=
  ⟨h.selecting_iff, h.own_iff, fun w x hx ↦ (h.ok w x hx).congr rfl rfl rfl Iff.rfl, h.queue_alive,
    h.queue_nodup, h.selected_alive, h.expects, h.order⟩

theorem Waiters.owner_ne (h : s.Waiters g selected) (hx : s.heap w = some x)
    (ht : (g t).own ≠ some w) : x.owner ≠ t :=
  fun heq ↦ ht ((h.own_iff t w).mpr ⟨x, hx, heq⟩)

theorem Waiters.owner_of_own (h : s.Waiters g selected) (ht : (g t).own = some w)
    (hx : s.heap w = some x) : x.owner = t := by
  obtain ⟨y, hy, hyo⟩ := (h.own_iff t w).mp ht
  rw [Option.some.inj (hx.symm.trans hy), hyo]

theorem Waiters.ok_of_own (h : s.Waiters g selected) (ht : (g t).own = some w)
    (hx : s.heap w = some x) : s.WaiterOk selected (g t) w x := by
  have hok := h.ok w x hx
  rwa [h.owner_of_own ht hx] at hok

/-- A thread in `P` of its semaphore. -/
theorem own_of_testing (h : stage = .waitTest w ∨ stage = .waitSleep w) :
    stage.own = some w ∧ stage.selecting = none := by
  rcases h with rfl | rfl
  · exact ⟨rfl, rfl⟩
  · exact ⟨rfl, rfl⟩

/-- The owner of a semaphore that is on the queue or selected has put it there. -/
theorem Waiters.not_fresh_of_mem (h : s.Waiters g selected) (hw : w ∈ s.waitQueue) :
    ∃ x, s.heap w = some x ∧ (g x.owner).fresh = false := by
  obtain ⟨x, hx⟩ := h.queue_alive w hw
  exact ⟨x, hx, ((h.ok w x hx).waiting_iff.mp (Or.inl hw)).2⟩

variable [DecidableEq T]

/-- A thread moves from one stage to another with the same meaning. -/
theorem Waiters.quiet (h : s.Waiters g selected) (hsame : (g t).Same stage)
    (hexpects : stage.expects = true → s.waitQueue ≠ []) :
    s.Waiters (Function.update g t stage) selected := by
  constructor
  · intro u w
    rw [view_update_same CondStage.selecting hsame.selecting]
    exact h.selecting_iff u w
  · intro u w
    rw [view_update_same CondStage.own hsame.own]
    exact h.own_iff u w
  · intro w x hx
    exact (h.ok w x hx).congr (view_update_same CondStage.passed hsame.passed _)
      (view_update_same CondStage.asleep hsame.asleep _)
      (view_update_same CondStage.fresh hsame.fresh _) Iff.rfl
  · exact h.queue_alive
  · exact h.queue_nodup
  · exact h.selected_alive
  · exact (Function.forall_update_iff g fun _ st ↦ st.expects = true → s.waitQueue ≠ []).mpr
      ⟨hexpects, fun u _ ↦ h.expects u⟩
  · exact h.order

theorem Waiters.next (h : s.Waiters g selected) (hs : Next s.waitQueue (g t) stage) :
    s.Waiters (Function.update g t stage) selected := by
  refine h.quiet hs.same fun he ↦ ?_
  rcases hs.expects he with hq | he
  · exact hq
  · exact h.expects t he

theorem Waiters.lockStage (h : s.Waiters g selected) (hs : LockStage (g t) p stage) :
    s.Waiters (Function.update g t stage) selected := by
  refine h.quiet hs.same fun he ↦ ?_
  rw [hs.expects] at he
  cases he

/-! ## Moves that make, post or delete a semaphore -/

variable [DecidableEq W]

omit [DecidableEq T] in
theorem setWaiter_heap (s : Monitor T W) (w w' : W) (x : Option (Waiter T)) :
    (s.setWaiter w x).heap w' = if w' = w then x else s.heap w' :=
  Function.update_apply s.heap w x w'

omit [DecidableEq T] in
theorem heap_eq_some_setWaiter {w' : W} {x x' : Waiter T}
    (h : (s.setWaiter w (some x)).heap w' = some x') :
    w' = w ∧ x' = x ∨ w' ≠ w ∧ s.heap w' = some x' := by
  rw [setWaiter_heap] at h
  split at h
  · cases h
    exact Or.inl ⟨‹_›, rfl⟩
  · exact Or.inr ⟨‹_›, h⟩

theorem Waiters.new (h : s.Waiters g selected) (ht : g t = .waitNew) (hw : s.heap w = none) :
    (s.setWaiter w (some ⟨.new 0, t, 0⟩)).Waiters (Function.update g t (.waitAppend w))
      selected := by
  have hown : ∀ w', (g t).own ≠ some w' := by
    intro w'
    rw [ht]
    nofun
  -- the address was free, so nobody has it
  have hne : ∀ w' x, s.heap w' = some x → w' ≠ w := by
    rintro w' x hx rfl
    rw [hw] at hx
    cases hx
  have hkeep : ∀ w' x, s.heap w' = some x →
      (s.setWaiter w (some ⟨.new 0, t, 0⟩)).heap w' = some x := by
    intro w' x hx
    rw [setWaiter_heap, if_neg (hne w' x hx)]
    exact hx
  have hstage : ∀ w' x, s.heap w' = some x →
      Function.update g t (.waitAppend w) x.owner = g x.owner := fun w' x hx ↦
    Function.update_of_ne (h.owner_ne hx (hown w')) _ _
  constructor
  · intro u w'
    rw [view_update_same CondStage.selecting (by rw [ht]; rfl)]
    exact h.selecting_iff u w'
  · intro u w'
    by_cases hu : u = t
    · subst hu
      rw [Function.update_self]
      constructor
      · intro heq
        cases heq
        exact ⟨_, (setWaiter_heap _ _ _ _).trans (if_pos rfl), rfl⟩
      · rintro ⟨x, hx, hxo⟩
        rcases heap_eq_some_setWaiter hx with ⟨rfl, -⟩ | ⟨-, hx⟩
        · rfl
        · exact absurd hxo (h.owner_ne hx (hown w'))
    · rw [Function.update_of_ne hu, h.own_iff]
      constructor
      · rintro ⟨x, hx, hxo⟩
        exact ⟨x, hkeep w' x hx, hxo⟩
      · rintro ⟨x, hx, hxo⟩
        rcases heap_eq_some_setWaiter hx with ⟨-, rfl⟩ | ⟨-, hx⟩
        · exact absurd hxo.symm hu
        · exact ⟨x, hx, hxo⟩
  · intro w' x hx
    rcases heap_eq_some_setWaiter hx with ⟨rfl, rfl⟩ | ⟨-, hx⟩
    · rw [Function.update_self]
      refine ⟨Nat.zero_le 1, fun _ ↦ rfl, nofun, rfl, rfl, iff_of_false ?_ nofun⟩
      rintro (hq | ⟨u, hu⟩)
      · obtain ⟨x, hx⟩ := h.queue_alive w' hq
        exact hne w' x hx rfl
      · obtain ⟨⟨x, hx⟩, -⟩ := h.selected_alive u w' hu
        exact hne w' x hx rfl
    · rw [hstage w' x hx]
      exact (h.ok w' x hx).congr rfl rfl rfl Iff.rfl
  · intro w' hq
    obtain ⟨x, hx⟩ := h.queue_alive w' hq
    exact ⟨x, hkeep w' x hx⟩
  · exact h.queue_nodup
  · intro u w' hu
    obtain ⟨⟨x, hx⟩, hq⟩ := h.selected_alive u w' hu
    exact ⟨⟨x, hkeep w' x hx⟩, hq⟩
  · intro u
    rw [view_update_same CondStage.expects (by rw [ht]; rfl)]
    exact h.expects u
  · exact h.order

theorem Waiters.append (h : s.Waiters g selected) (ht : g t = .waitAppend w)
    (hw : w ∉ s.waitQueue) :
    { s with waitQueue := s.waitQueue ++ [w], enqueued := s.enqueued ++ [w] }.Waiters
      (Function.update g t (.waitRelease w)) selected := by
  obtain ⟨x, hx, hxo⟩ := (h.own_iff t w).mp (by rw [ht]; rfl)
  have hok := h.ok w x hx
  rw [hxo, ht] at hok
  -- a semaphore that is not on the queue yet is not selected
  have hnot : ¬∃ u, selected = some (u, w) := fun hu ↦
    Bool.noConfusion (hok.waiting_iff.mp (Or.inr hu)).2
  constructor
  · intro u w'
    rw [view_update_same CondStage.selecting (by rw [ht]; rfl)]
    exact h.selecting_iff u w'
  · intro u w'
    rw [view_update_same CondStage.own (by rw [ht]; rfl)]
    exact h.own_iff u w'
  · intro w' x' hx'
    by_cases hw' : w' = w
    · subst hw'
      have heq : x' = x := Option.some.inj (hx'.symm.trans hx)
      subst heq
      rw [hxo, Function.update_self]
      refine ⟨hok.posts_le, nofun, nofun, hok.value, hok.queue, iff_of_true ?_ ?_⟩
      · exact Or.inl (List.mem_append_right _ (List.mem_singleton_self _))
      · exact ⟨hok.fresh rfl, rfl⟩
    · have hne := h.owner_ne (t := t) hx'
        (by rw [ht]; exact fun heq ↦ hw' (Option.some.inj heq).symm)
      rw [Function.update_of_ne hne]
      refine (h.ok w' x' hx').congr rfl rfl rfl ?_
      simp [hw']
  · intro w' hw'
    rcases List.mem_append.mp hw' with hw' | hw'
    · exact h.queue_alive w' hw'
    · rw [List.mem_singleton.mp hw']
      exact ⟨x, hx⟩
  · exact List.Nodup.append h.queue_nodup (List.nodup_singleton w) (List.disjoint_singleton.mpr hw)
  · intro u w' hu
    refine ⟨(h.selected_alive u w' hu).1, fun hmem ↦ ?_⟩
    rcases List.mem_append.mp hmem with hmem | hmem
    · exact (h.selected_alive u w' hu).2 hmem
    · rw [List.mem_singleton.mp hmem] at hu
      exact hnot ⟨u, hu⟩
  · intro u _
    exact List.append_ne_nil_of_right_ne_nil _ (List.cons_ne_nil w [])
  · rw [h.order, List.append_assoc]

/-- A semaphore changes, as its owner or whoever posts it moves. -/
theorem Waiters.replace (h : s.Waiters g selected) {x' : Waiter T} {selected' : Option (T × W)}
    (hx : s.heap w = some x) (howner : x'.owner = x.owner) (hown : stage.own = (g t).own)
    (hselecting : ∀ u w', (Function.update g t stage u).selecting = some w' ↔
      selected' = some (u, w'))
    (hsub : ∀ u w', selected' = some (u, w') → selected = some (u, w'))
    (hok : s.WaiterOk selected' (Function.update g t stage x.owner) w x')
    (hother : ∀ w' x'', w' ≠ w → s.heap w' = some x'' →
      s.WaiterOk selected' (Function.update g t stage x''.owner) w' x'')
    (hexpects : stage.expects = false) :
    (s.setWaiter w (some x')).Waiters (Function.update g t stage) selected' := by
  -- the same semaphores are alive as before, with the same owners
  have hkeep : ∀ w' y, s.heap w' = some y →
      ∃ y', (s.setWaiter w (some x')).heap w' = some y' ∧ y'.owner = y.owner := by
    intro w' y hy
    rw [setWaiter_heap]
    by_cases hw : w' = w
    · rw [if_pos hw]
      rw [hw, hx] at hy
      cases hy
      exact ⟨x', rfl, howner⟩
    · rw [if_neg hw]
      exact ⟨y, hy, rfl⟩
  constructor
  · exact hselecting
  · intro u w'
    rw [view_update_same CondStage.own hown, h.own_iff]
    constructor
    · rintro ⟨y, hy, hyo⟩
      obtain ⟨y', hy', ho⟩ := hkeep w' y hy
      exact ⟨y', hy', ho.trans hyo⟩
    · rintro ⟨y, hy, hyo⟩
      rcases heap_eq_some_setWaiter hy with ⟨rfl, rfl⟩ | ⟨-, hy⟩
      · exact ⟨x, hx, howner.symm.trans hyo⟩
      · exact ⟨y, hy, hyo⟩
  · intro w' y hy
    rcases heap_eq_some_setWaiter hy with ⟨rfl, rfl⟩ | ⟨hne, hy⟩
    · rw [howner]
      exact hok.congr rfl rfl rfl Iff.rfl
    · exact (hother w' y hne hy).congr rfl rfl rfl Iff.rfl
  · intro w' hw'
    obtain ⟨y, hy⟩ := h.queue_alive w' hw'
    obtain ⟨y', hy', -⟩ := hkeep w' y hy
    exact ⟨y', hy'⟩
  · exact h.queue_nodup
  · intro u w' hu
    obtain ⟨⟨y, hy⟩, hq⟩ := h.selected_alive u w' (hsub u w' hu)
    obtain ⟨y', hy', -⟩ := hkeep w' y hy
    exact ⟨⟨y', hy'⟩, hq⟩
  · exact (Function.forall_update_iff g fun _ st ↦ st.expects = true → s.waitQueue ≠ []).mpr
      ⟨fun he ↦ (Bool.false_ne_true (hexpects.symm.trans he)).elim, fun u _ ↦ h.expects u⟩
  · exact h.order

/-- A semaphore changes as its owner moves within `Wait`. -/
theorem Waiters.replaceOwn (h : s.Waiters g selected) {x' : Waiter T} (hx : s.heap w = some x)
    (ht : (g t).own = some w) (howner : x'.owner = x.owner) (hown : stage.own = some w)
    (hstage : stage.selecting = none ∧ stage.expects = false)
    (hselecting : (g t).selecting = none)
    (hok : s.WaiterOk selected stage w x') :
    (s.setWaiter w (some x')).Waiters (Function.update g t stage) selected := by
  have hxo := h.owner_of_own ht hx
  refine h.replace hx howner (hown.trans ht.symm) (fun u w' ↦ ?_) (fun _ _ hu ↦ hu) ?_
    (fun w' x'' hne hx'' ↦ ?_) hstage.2
  · rw [view_update_same CondStage.selecting (hstage.1.trans hselecting.symm)]
    exact h.selecting_iff u w'
  · rw [hxo, Function.update_self]
    exact hok
  · have hother := h.owner_ne (t := t) hx'' (by
      rw [ht]
      exact fun heq ↦ hne (Option.some.inj heq).symm)
    rw [Function.update_of_ne hother]
    exact h.ok w' x'' hx''

/-- The thread joins the queue of its semaphore, which has not been posted. -/
theorem Waiters.sleep (h : s.Waiters g selected) (ht : g t = .waitTest w ∨ g t = .waitSleep w)
    (hx : s.heap w = some x) (hv : x.semaphore.value = 0) (hq : t ∉ x.semaphore.queue) :
    (s.setWaiter w (some { x with
      semaphore := { x.semaphore with queue := x.semaphore.queue ++ [t] } })).Waiters
      (Function.update g t (.waitSleep w)) selected := by
  obtain ⟨hown, hselecting⟩ := own_of_testing ht
  have hxo := h.owner_of_own hown hx
  have hok := h.ok_of_own hown hx
  have hposts : x.posts = 0 := by
    have := hok.value
    rcases ht with ht | ht <;> simpa [ht, hv, CondStage.passed, eq_comm] using this
  have hqueue : x.semaphore.queue = [] := by
    have := hok.queue
    rcases ht with ht | ht
    · simpa [ht, CondStage.asleep] using this
    · -- a thread that is asleep and was not posted is on the queue already
      rw [ht, if_pos ⟨rfl, hposts⟩, hxo] at this
      rw [this] at hq
      exact absurd (List.mem_singleton_self t) hq
  refine h.replaceOwn hx hown rfl rfl ⟨rfl, rfl⟩ hselecting ?_
  refine ⟨hok.posts_le, nofun, nofun, ?_, ?_, ?_⟩
  · rw [hv, hposts]
    rfl
  · rw [hqueue, if_pos ⟨rfl, hposts⟩, hxo]
    rfl
  · have := hok.waiting_iff
    rcases ht with ht | ht <;> (rw [ht] at this; exact this)

/-- The thread passes `P`: its semaphore was posted. -/
theorem Waiters.pass (h : s.Waiters g selected) (ht : g t = .waitTest w ∨ g t = .waitSleep w)
    (hx : s.heap w = some x) (hv : x.semaphore.value ≠ 0) :
    (s.setWaiter w (some { x with
      semaphore := { x.semaphore with value := x.semaphore.value - 1 } })).Waiters
      (Function.update g t (.waitAcquire w)) selected := by
  obtain ⟨hown, hselecting⟩ := own_of_testing ht
  have hok := h.ok_of_own hown hx
  have hvalue : x.semaphore.value = x.posts := by
    have := hok.value
    rcases ht with ht | ht <;> simpa [ht, CondStage.passed] using this
  have hposts : x.posts = 1 := by
    have := hok.posts_le
    omega
  refine h.replaceOwn hx hown rfl rfl ⟨rfl, rfl⟩ hselecting ?_
  refine ⟨hok.posts_le, nofun, fun _ ↦ hposts, ?_, ?_, ?_⟩
  · rw [hvalue, hposts]
    rfl
  · have := hok.queue
    rw [if_neg (by omega)] at this
    rw [this, if_neg (by rintro ⟨h, -⟩; cases h)]
  · have := hok.waiting_iff
    rcases ht with ht | ht <;> (rw [ht] at this; exact this)

/-- The one that was selected is posted. -/
theorem Waiters.post {caller : SignalCaller} (h : s.Waiters g selected)
    (ht : g t = .signalPost caller w) (hx : s.heap w = some x) :
    (s.setWaiter w (some { x with
      semaphore := ⟨x.semaphore.value + 1, x.semaphore.queue.tail⟩
      posts := x.posts + 1 })).Waiters
      (Function.update g t (.afterSignal caller)) none := by
  have hselected : selected = some (t, w) := (h.selecting_iff t w).mp (by rw [ht]; rfl)
  have hok := h.ok w x hx
  -- so it was not posted before, and its owner is still in `P`
  obtain ⟨hposts, hnotfresh⟩ := hok.waiting_iff.mp (Or.inr ⟨t, hselected⟩)
  have hnotpassed : (g x.owner).passed = false := by
    cases hp : (g x.owner).passed with
    | false => rfl
    | true =>
      rw [hok.passed hp] at hposts
      cases hposts
  -- the thread in `Signal` owns no semaphore
  have hother : x.owner ≠ t := by
    rintro heq
    have := (h.own_iff t w).mpr ⟨x, hx, heq⟩
    rw [ht] at this
    cases this
  have hafter : (CondStage.afterSignal caller : CondStage W).own = none ∧
      (CondStage.afterSignal caller : CondStage W).selecting = none ∧
      (CondStage.afterSignal caller : CondStage W).expects = false := by
    cases caller <;> exact ⟨rfl, rfl, rfl⟩
  refine h.replace hx rfl ?_ (fun u w' ↦ ?_) nofun ?_ (fun w' x'' hne hx'' ↦ ?_) hafter.2.2
  · rw [ht, hafter.1]
    rfl
  · refine iff_of_false (fun hu ↦ ?_) nofun
    by_cases heq : u = t
    · rw [heq, Function.update_self, hafter.2.1] at hu
      cases hu
    · rw [Function.update_of_ne heq, h.selecting_iff, hselected] at hu
      cases hu
      exact heq rfl
  · rw [Function.update_of_ne hother]
    refine ⟨Nat.le_of_eq (congrArg (· + 1) hposts), ?_, ?_, ?_, ?_, ?_⟩
    · rw [hnotfresh]
      nofun
    · rw [hnotpassed]
      nofun
    · have := hok.value
      rw [hnotpassed, hposts] at this
      rw [this, hposts, hnotpassed]
      rfl
    · -- at most the owner was on the queue
      have htail : x.semaphore.queue.tail = [] := by
        rw [hok.queue]
        split <;> rfl
      exact htail.trans (if_neg fun h ↦ Nat.succ_ne_zero x.posts h.2).symm
    · refine iff_of_false ?_ fun h ↦ Nat.succ_ne_zero x.posts h.1
      rintro (hq | ⟨u, hu⟩)
      · exact (h.selected_alive t w hselected).2 hq
      · cases hu
  · have hnot : x''.owner ≠ t := by
      rintro heq
      have := (h.own_iff t w').mpr ⟨x'', hx'', heq⟩
      rw [ht] at this
      cases this
    rw [Function.update_of_ne hnot]
    refine (h.ok w' x'' hx'').congr rfl rfl rfl ?_
    simp [hselected, Ne.symm hne]

/-- The semaphore was posted, so nobody is about to use it. -/
theorem Waiters.delete (h : s.Waiters g selected) (ht : g t = .waitDelete w) :
    (s.setWaiter w none).Waiters (Function.update g t .idle) selected := by
  obtain ⟨x, hx, hxo⟩ := (h.own_iff t w).mp (by rw [ht]; rfl)
  have hok := h.ok w x hx
  rw [hxo, ht] at hok
  -- its owner has passed `P`, so it was posted and nobody is to post it again
  have hwaiting : ¬(w ∈ s.waitQueue ∨ ∃ u, selected = some (u, w)) := by
    intro hw
    have := (hok.waiting_iff.mp hw).1
    rw [hok.passed rfl] at this
    cases this
  have hkeep : ∀ w' y, w' ≠ w → s.heap w' = some y → (s.setWaiter w none).heap w' = some y := by
    intro w' y hne hy
    rw [setWaiter_heap, if_neg hne]
    exact hy
  have hback : ∀ w' y, (s.setWaiter w none).heap w' = some y → w' ≠ w ∧ s.heap w' = some y := by
    intro w' y hy
    rw [setWaiter_heap] at hy
    split at hy
    · cases hy
    · exact ⟨‹_›, hy⟩
  have hstage : ∀ w' y, w' ≠ w → s.heap w' = some y →
      Function.update g t .idle y.owner = g y.owner := by
    intro w' y hne hy
    have hother := h.owner_ne (t := t) hy (by
      rw [ht]
      exact fun heq ↦ hne (Option.some.inj heq).symm)
    exact Function.update_of_ne hother _ _
  constructor
  · intro u w'
    rw [view_update_same CondStage.selecting (by rw [ht]; rfl)]
    exact h.selecting_iff u w'
  · intro u w'
    by_cases hu : u = t
    · subst hu
      rw [Function.update_self]
      refine iff_of_false nofun ?_
      rintro ⟨y, hy, hyo⟩
      obtain ⟨hne, hy⟩ := hback w' y hy
      have := (h.own_iff u w').mpr ⟨y, hy, hyo⟩
      rw [ht] at this
      exact hne (Option.some.inj this).symm
    · rw [Function.update_of_ne hu, h.own_iff]
      constructor
      · rintro ⟨y, hy, hyo⟩
        refine ⟨y, hkeep w' y ?_ hy, hyo⟩
        rintro rfl
        rw [hx] at hy
        cases hy
        exact hu (hyo.symm.trans hxo)
      · rintro ⟨y, hy, hyo⟩
        exact ⟨y, (hback w' y hy).2, hyo⟩
  · intro w' y hy
    obtain ⟨hne, hy⟩ := hback w' y hy
    rw [hstage w' y hne hy]
    exact (h.ok w' y hy).congr rfl rfl rfl Iff.rfl
  · intro w' hw'
    obtain ⟨y, hy⟩ := h.queue_alive w' hw'
    refine ⟨y, hkeep w' y ?_ hy⟩
    rintro rfl
    exact hwaiting (Or.inl hw')
  · exact h.queue_nodup
  · intro u w' hu
    obtain ⟨⟨y, hy⟩, hq⟩ := h.selected_alive u w' hu
    refine ⟨⟨y, hkeep w' y ?_ hy⟩, hq⟩
    rintro rfl
    exact hwaiting (Or.inr ⟨u, hu⟩)
  · intro u
    rw [view_update_same CondStage.expects (by rw [ht]; rfl)]
    exact h.expects u
  · exact h.order

omit [DecidableEq W] in
/-- The first of the queue is selected. -/
theorem Waiters.remove {caller : SignalCaller} {rest : List W} (h : s.Waiters g none)
    (ht : g t = .signalRemove caller) (hq : s.waitQueue = w :: rest)
    (honly : ∀ u, (g u).critical = true → u = t) :
    { s with waitQueue := rest, removed := s.removed ++ [w] }.Waiters
      (Function.update g t (.signalPost caller w)) (some (t, w)) := by
  have hnodup := h.queue_nodup
  rw [hq, List.nodup_cons] at hnodup
  have hrest : ∀ w' ∈ rest, w' ∈ s.waitQueue := by
    intro w' hw'
    rw [hq]
    exact List.mem_cons_of_mem _ hw'
  constructor
  · intro u w'
    by_cases hu : u = t
    · rw [hu, Function.update_self]
      constructor
      · intro heq
        cases heq
        rfl
      · intro heq
        cases heq
        rfl
    · rw [Function.update_of_ne hu, h.selecting_iff]
      refine iff_of_false nofun fun heq ↦ ?_
      cases heq
      exact hu rfl
  · intro u w'
    rw [view_update_same CondStage.own (by rw [ht]; rfl)]
    exact h.own_iff u w'
  · intro w' y hy
    refine (h.ok w' y hy).congr ?_ ?_ ?_ ?_
    · exact view_update_same CondStage.passed (by rw [ht]; rfl) _
    · exact view_update_same CondStage.asleep (by rw [ht]; rfl) _
    · exact view_update_same CondStage.fresh (by rw [ht]; rfl) _
    · -- on the queue before, or now selected
      rw [hq]
      constructor
      · rintro (hw' | ⟨u, hu⟩)
        · exact Or.inl (List.mem_cons_of_mem _ hw')
        · cases hu
          exact Or.inl List.mem_cons_self
      · rintro (hw' | ⟨u, hu⟩)
        · rcases List.mem_cons.mp hw' with rfl | hw'
          · exact Or.inr ⟨t, rfl⟩
          · exact Or.inl hw'
        · cases hu
  · exact fun w' hw' ↦ h.queue_alive w' (hrest w' hw')
  · exact hnodup.2
  · intro u w' hu
    cases hu
    refine ⟨h.queue_alive w ?_, hnodup.1⟩
    rw [hq]
    exact List.mem_cons_self
  · -- the queue may be empty now, but whoever found it nonempty is `t`
    intro u hu
    by_cases hut : u = t
    · rw [hut, Function.update_self] at hu
      cases hu
    · rw [Function.update_of_ne hut] at hu
      exact absurd (honly u (CondStage.critical_of_expects hu)) hut
  · rw [h.order, hq, List.append_assoc]
    rfl

/-! ## Every turn keeps the invariant -/

section inv

variable {s' : Monitor T W} {f : T → CondPlace W} {place : CondPlace W}

omit [DecidableEq T] [DecidableEq W] in
theorem holding_of_critical (h : place.Coherent) (hc : place.stage.critical = true) :
    place.lock = .holding := by
  rw [CondPlace.Coherent] at h
  cases hs : place.stage <;> simp only [hs, CondStage.critical, Bool.false_eq_true] at h hc <;>
    exact h

omit [DecidableEq W] in
private theorem coherent_of_holding (hs : stage.critical = true ∨ stage = .idle) :
    CondPlace.Coherent ⟨.holding, stage⟩ := by
  cases stage <;> first | rfl | trivial | (rcases hs with hs | hs <;> cases hs)

omit [DecidableEq W] in
theorem Next.critical (h : Next waitQueue stage stage') :
    (stage.critical = true ∨ stage = .idle) ∧ (stage'.critical = true ∨ stage' = .idle) := by
  cases h with
  | @signalNobody caller hq =>
    cases caller with
    | user => exact ⟨Or.inl rfl, Or.inr rfl⟩
    | broadcast => exact ⟨Or.inl rfl, Or.inl rfl⟩
  | callWait => exact ⟨Or.inr rfl, Or.inl rfl⟩
  | callSignal => exact ⟨Or.inr rfl, Or.inl rfl⟩
  | callBroadcast => exact ⟨Or.inr rfl, Or.inl rfl⟩
  | waitCheck => exact ⟨Or.inl rfl, Or.inl rfl⟩
  | signalCheck => exact ⟨Or.inl rfl, Or.inl rfl⟩
  | signalTest hq => exact ⟨Or.inl rfl, Or.inl rfl⟩
  | broadcastDone hq => exact ⟨Or.inl rfl, Or.inr rfl⟩
  | broadcastTest hq => exact ⟨Or.inl rfl, Or.inl rfl⟩

omit [DecidableEq T] [DecidableEq W] in
theorem coherent_of_lockStage {lock : Lock T} (h : place.Coherent)
    (hm : s.lock.Moves t place.lock lock p) (hs : LockStage place.stage p stage) :
    CondPlace.Coherent ⟨p, stage⟩ := by
  obtain ⟨pl, st⟩ := place
  dsimp only at hm hs
  cases hs with
  | idle => trivial
  | release hp => exact hm.leaving h hp
  | released => rfl
  | acquire hp => exact hm.entering h hp
  | acquired => rfl

omit [DecidableEq T] [DecidableEq W] in
/-- One thread at a time is in a part that needs the lock. -/
theorem Inv.only (h : s.Inv f) (ht : (f t).stage.critical = true) (u : T)
    (hu : (f u).stage.critical = true) : u = t := by
  refine h.lock.unique u t ?_ ?_
  · rw [holding_of_critical (h.coherent u) hu]
    rfl
  · rw [holding_of_critical (h.coherent t) ht]
    rfl

omit [DecidableEq T] [DecidableEq W] in
/-- `P` is called between the release and the second `Acquire`. -/
theorem Inv.outside_of_testing (h : s.Inv f)
    (hs : (f t).stage = .waitTest w ∨ (f t).stage = .waitSleep w) : (f t).lock = .outside := by
  have hc := h.coherent t
  rw [CondPlace.Coherent] at hc
  rcases hs with hs | hs <;> simpa only [hs] using hc

omit [DecidableEq T] [DecidableEq W] in
/-- Whoever had selected a semaphore would hold the lock. -/
theorem Inv.selected_none (h : s.Inv f) (hw : s.Waiters (fun u ↦ (f u).stage) selected)
    (ht : (f t).stage.critical = true) (hs : (f t).stage.selecting = none) : selected = none := by
  cases hsel : selected with
  | none => rfl
  | some uw =>
    have hu := (hw.selecting_iff uw.1 uw.2).mpr hsel
    have heq := h.only ht uw.1 (CondStage.critical_of_selecting hu)
    rw [heq, hs] at hu
    cases hu

omit [DecidableEq W] in
theorem Inv.coherent_update (h : s.Inv f) (hp : place.Coherent) (u : T) :
    (Function.update f t place u).Coherent :=
  (Function.forall_update_iff f fun _ p ↦ p.Coherent).mpr ⟨hp, fun u _ ↦ h.coherent u⟩ u

omit [DecidableEq W] in
/-- A thread moves outside the lock's code. -/
theorem Inv.moveStage (h : s.Inv f) (hlock : s'.lock = s.lock)
    (hp : CondPlace.Coherent ⟨(f t).lock, stage⟩)
    (hw : s'.Waiters (Function.update (fun u ↦ (f u).stage) t stage) selected) :
    s'.Inv (Function.update f t ⟨(f t).lock, stage⟩) := by
  refine ⟨?_, h.coherent_update hp, selected, ?_⟩
  · rw [hlock, view_update CondPlace.lock, Function.update_eq_self]
    exact h.lock
  · rw [view_update CondPlace.stage]
    exact hw

theorem Inv.moves (h : s.Inv f) (hm : s.Moves t (f t) s' place) :
    s'.Inv (Function.update f t place) := by
  obtain ⟨selected, hw⟩ := h.waiters
  have hholding : (f t).stage.critical = true → (f t).lock = .holding :=
    holding_of_critical (h.coherent t)
  cases hm with
  | lock hm hs =>
    refine ⟨?_, h.coherent_update (coherent_of_lockStage (h.coherent t) hm hs), selected, ?_⟩
    · rw [view_update CondPlace.lock]
      exact h.lock.moves hm
    · rw [view_update CondPlace.stage]
      exact (hw.lockStage hs).withLock _
  | next hs hl =>
    have hheld : (f t).lock = .holding := by
      rcases hs.critical.1 with hc | hidle
      · exact hholding hc
      · exact hl hidle
    refine h.moveStage rfl ?_ (hw.next hs)
    rw [hheld]
    exact coherent_of_holding hs.critical.2
  | new hs hfree =>
    have hheld := hholding (by rw [hs]; rfl)
    exact h.moveStage rfl hheld (hw.new hs hfree)
  | append hs hnot =>
    have hheld := hholding (by rw [hs]; rfl)
    refine h.moveStage rfl ?_ (hw.append hs hnot)
    rw [hheld]
    exact ⟨rfl, nofun⟩
  | sleep hs hx hv hq =>
    exact h.moveStage rfl (h.outside_of_testing hs) (hw.sleep hs hx hv hq)
  | pass hs hx hv =>
    refine h.moveStage rfl ?_ (hw.pass hs hx hv)
    rw [h.outside_of_testing hs]
    exact Or.inl rfl
  | delete hs => exact h.moveStage rfl trivial (hw.delete hs)
  | @remove caller w rest hs hq =>
    have hcritical : (f t).stage.critical = true := by
      rw [hs]
      rfl
    obtain rfl := h.selected_none hw hcritical (by rw [hs]; rfl)
    exact h.moveStage rfl (hholding hcritical) (hw.remove hs hq (h.only hcritical))
  | @post caller w x hs hx =>
    have hheld := hholding (by rw [hs]; rfl)
    refine h.moveStage rfl ?_ (hw.post hs hx)
    rw [hheld]
    exact coherent_of_holding (by cases caller; exacts [Or.inr rfl, Or.inl rfl])

omit [DecidableEq T] [DecidableEq W] in
theorem inv_start : (start : Config T (Monitor T W) (CondPlace W)).shared.Inv start.place := by
  refine ⟨Lock.inv_new, fun _ ↦ trivial, none, ?_⟩
  constructor <;> simp [start, new, CondStage.selecting, CondStage.own, CondStage.expects]

theorem inv_of_reachable {c : Config T (Monitor T W) (CondPlace W)} (hc : Reachable c) :
    c.shared.Inv c.place :=
  hc.invariant Inv inv_start (fun _ _ _ _ _ _ h ht ↦ h.moves (moves_of_turn ht))
    fun _ _ _ _ h ↦ h.elim

end inv

end Monitor

end Threads

end Nachos
