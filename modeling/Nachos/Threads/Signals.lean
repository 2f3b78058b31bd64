import Nachos.Program.Calls
import Nachos.Threads.Waiters

/-!
# Condition variables lose no signal

What the invariant of the waiters gives, for whole calls in the middle of everything else. `Signal`
takes the one that has waited longest off the queue and posts it, once, and does nothing if nobody
waits. `Broadcast` does so with everybody who waited when it was called. Nobody else can change the
queue or post in the meantime, because the lock is held, so each turn brings the caller closer to
the end: `rank` counts the turns it still needs. Whatever the other threads do, after that many
turns it has returned.

`Wait` puts a semaphore of its own on the queue, and returns only when that was posted and the lock
is held. A waiter that was posted does not block, even if it had not called `P` yet. No semaphore is
used after it was deleted.
-/

namespace Nachos

namespace Threads

open Program

variable {T W : Type} [DecidableEq T] [DecidableEq W]

/-- The call that the thread is in. -/
def CondStage.signalling : CondStage W → Option SignalCaller
  | .signalCheck caller | .signalTest caller | .signalRemove caller | .signalPost caller _ =>
    some caller
  | .broadcastTest => some .broadcast
  | _ => none

omit [DecidableEq W] in
theorem CondStage.critical_of_signalling {stage : CondStage W} {caller : SignalCaller}
    (h : stage.signalling = some caller) : stage.critical = true := by
  cases stage <;> first | rfl | cases h

namespace Monitor

section turns

variable {s s' : Monitor T W} {f : T → CondPlace W} {t u : T} {w : W} {x : Waiter T}
  {place : CondPlace W}

omit [DecidableEq W] in
theorem Inv.lockTurn_not_crashed (h : s.Inv f) {next : LockPlace → CondStage W}
    {e : MonitorCrash} : s.lockTurn t (f t).lock next ≠ .crashed e := by
  intro hc
  rcases Turn.bind_crashed hc with hc | ⟨lock, p, -, hc⟩
  · obtain ⟨e', hc⟩ := Turn.mapCrash_crashed hc
    exact h.lock.not_crashed e' hc
  · cases hc

omit [DecidableEq T] [DecidableEq W] in
theorem call_not_crashed {stage : CondStage W} {e : MonitorCrash} :
    s.call place stage ≠ .crashed e := by
  intro hc
  rw [call] at hc
  split at hc <;> cases hc

omit [DecidableEq W] in
theorem Inv.isHeld (h : s.Inv f) (ht : (f t).stage.critical = true) :
    s.lock.isHeldByCurrentThread t = true := by
  have hnoted : (f t).lock.noted = true := by
    rw [holding_of_critical (h.coherent t) ht]
    rfl
  simpa [Lock.isHeldByCurrentThread] using (h.lock.holder_iff t).mpr hnoted

omit [DecidableEq W] in
theorem Inv.assertHeld (h : s.Inv f) (ht : (f t).stage.critical = true) (stage : CondStage W) :
    s.assertHeld t (f t) stage = .moved s ⟨(f t).lock, stage⟩ :=
  if_pos (h.isHeld ht)

omit [DecidableEq T] [DecidableEq W] in
theorem Inv.own_alive (h : s.Inv f) (hw : (f t).stage.own = some w) :
    ∃ x, s.heap w = some x ∧ x.owner = t := by
  obtain ⟨selected, hws⟩ := h.waiters
  exact (hws.own_iff t w).mp hw

theorem Inv.remove_turn (h : s.Inv f) {caller : SignalCaller}
    (ht : (f t).stage = .signalRemove caller) :
    ∃ w rest, s.waitQueue = w :: rest ∧ ∀ choice, s.turn t choice (f t) =
      .moved { s with waitQueue := rest, removed := s.removed ++ [w] }
        ⟨(f t).lock, .signalPost caller w⟩ := by
  obtain ⟨selected, hw⟩ := h.waiters
  obtain ⟨w, rest, hq⟩ := List.exists_cons_of_ne_nil (hw.expects t (by rw [ht]; rfl))
  refine ⟨w, rest, hq, fun choice ↦ ?_⟩
  rw [turn.eq_def, ht]
  dsimp only
  rw [hq]
  rfl

theorem Inv.post_turn (h : s.Inv f) {caller : SignalCaller}
    (ht : (f t).stage = .signalPost caller w) :
    ∃ x, s.heap w = some x ∧ x.posts = 0 ∧ ∀ choice, ∃ sem, s.turn t choice (f t) =
      .moved (s.setWaiter w (some { x with semaphore := sem, posts := 1 }))
        ⟨(f t).lock, .afterSignal caller⟩ := by
  obtain ⟨selected, hw⟩ := h.waiters
  have hselected := (hw.selecting_iff t w).mp (by rw [ht]; rfl)
  obtain ⟨⟨x, hx⟩, -⟩ := hw.selected_alive t w hselected
  have hok := hw.ok w x hx
  have hposts := (hok.waiting_iff.mp (Or.inr ⟨t, hselected⟩)).1
  have hvalue : x.semaphore.value = 0 := by
    rw [hok.value, hposts]
    split <;> rfl
  refine ⟨x, hx, hposts, fun choice ↦ ⟨⟨x.semaphore.value + 1, x.semaphore.queue.tail⟩, ?_⟩⟩
  rw [turn.eq_def, ht]
  dsimp only
  rw [hx]
  dsimp only
  rw [Semaphore.v, Semaphore.post, if_neg (by rw [hvalue]; decide), hposts]
  rfl

/-- A waiter whose semaphore was posted goes through `P`. -/
theorem Inv.posted_turn (h : s.Inv f)
    (ht : (f t).stage = .waitTest w ∨ (f t).stage = .waitSleep w) (hx : s.heap w = some x)
    (hposts : x.posts = 1) (choice : CondChoice W) :
    ∃ s', s.turn t choice (f t) = .moved s' ⟨(f t).lock, .waitAcquire w⟩ := by
  obtain ⟨selected, hw⟩ := h.waiters
  have hok := hw.ok_of_own (own_of_testing ht).1 hx
  have hvalue : x.semaphore.value ≠ 0 := by
    have hv := hok.value
    rcases ht with ht | ht <;> simp [ht, hposts, CondStage.passed] at hv <;> omega
  have hqueue : t ∉ x.semaphore.queue := by
    rw [hok.queue, if_neg (by rw [hposts]; simp)]
    exact List.not_mem_nil
  refine ⟨s.setWaiter w (some { x with
    semaphore := { x.semaphore with value := x.semaphore.value - 1 } }), ?_⟩
  rcases ht with ht | ht
  · rw [turn.eq_def, ht]
    dsimp only
    rw [hx]
    dsimp only
    rw [Semaphore.p, Semaphore.test_of_ne_zero hvalue]
    rfl
  · rw [turn.eq_def, ht]
    dsimp only
    rw [hx]
    dsimp only
    rw [Semaphore.pAgain, if_neg hqueue, Semaphore.p, Semaphore.test_of_ne_zero hvalue]
    rfl

theorem Inv.delete_turn (h : s.Inv f) (ht : (f t).stage = .waitDelete w) :
    ∃ x, s.heap w = some x ∧ x.owner = t ∧ x.posts = 1 ∧
      s.lock.isHeldByCurrentThread t = true ∧ ∀ choice, s.turn t choice (f t) =
        .moved (s.setWaiter w none) ⟨.holding, .idle⟩ := by
  obtain ⟨selected, hw⟩ := h.waiters
  obtain ⟨x, hx, hxo⟩ := (hw.own_iff t w).mp (by rw [ht]; rfl)
  have hok := hw.ok w x hx
  rw [hxo, ht] at hok
  have hcritical : (f t).stage.critical = true := by
    rw [ht]
    rfl
  refine ⟨x, hx, hxo, hok.passed rfl, h.isHeld hcritical, fun choice ↦ ?_⟩
  rw [turn.eq_def, ht]
  dsimp only
  rw [hx, holding_of_critical (h.coherent t) hcritical]

omit [DecidableEq T] [DecidableEq W] in
/-- A new semaphore is not on the list, where only its owner could have put it. -/
theorem Inv.not_mem_waitQueue (h : s.Inv f) (ht : (f t).stage = .waitAppend w) :
    w ∉ s.waitQueue := by
  obtain ⟨selected, hw⟩ := h.waiters
  obtain ⟨x, hx, hxo⟩ := h.own_alive (t := t) (w := w) (by rw [ht]; rfl)
  intro hmem
  obtain ⟨y, hy, hfresh⟩ := hw.not_fresh_of_mem hmem
  rw [hx] at hy
  cases hy
  rw [hxo, ht] at hfresh
  cases hfresh

omit [DecidableEq T] [DecidableEq W] in
/-- Only the owner waits on a semaphore, so before its `P` the queue is empty. -/
theorem Inv.queue_eq_nil (h : s.Inv f) (ht : (f t).stage = .waitTest w) :
    ∃ x, s.heap w = some x ∧ x.semaphore.queue = [] := by
  obtain ⟨selected, hw⟩ := h.waiters
  obtain ⟨x, hx, hxo⟩ := h.own_alive (t := t) (w := w) (by rw [ht]; rfl)
  have hqueue := (hw.ok w x hx).queue
  rw [hxo, ht, if_neg (by simp [CondStage.asleep])] at hqueue
  exact ⟨x, hx, hqueue⟩

/-- No assertion fails, no semaphore overflows, and none is used after it was deleted. -/
theorem Inv.not_crashed (h : s.Inv f) (choice : CondChoice W) (e : MonitorCrash) :
    s.turn t choice (f t) ≠ .crashed e := by
  intro hc
  cases hs : (f t).stage with
  | idle =>
    rw [turn.eq_def, hs] at hc
    cases choice with
    | lock => exact h.lockTurn_not_crashed hc
    | wait => exact call_not_crashed hc
    | signal => exact call_not_crashed hc
    | broadcast => exact call_not_crashed hc
    | address w => cases hc
  | waitCheck =>
    rw [turn.eq_def, hs] at hc
    dsimp only at hc
    rw [h.assertHeld (by rw [hs]; rfl)] at hc
    cases hc
  | waitNew =>
    rw [turn.eq_def, hs] at hc
    cases choice with
    | address w => dsimp only at hc; split at hc <;> cases hc
    | lock => cases hc
    | wait => cases hc
    | signal => cases hc
    | broadcast => cases hc
  | waitAppend w =>
    -- `Append` asserts that the semaphore is not on the list
    rw [turn.eq_def, hs] at hc
    dsimp only at hc
    rw [listAppend_of_not_mem (h.not_mem_waitQueue hs)] at hc
    cases hc
  | waitRelease w =>
    rw [turn.eq_def, hs] at hc
    exact h.lockTurn_not_crashed hc
  | waitTest w =>
    obtain ⟨x, hx, hqueue⟩ := h.queue_eq_nil hs
    rw [turn.eq_def, hs] at hc
    dsimp only at hc
    rw [hx] at hc
    obtain ⟨e', hc⟩ := Turn.mapCrash_crashed hc
    have hmem := Semaphore.p_crashed hc
    rw [hqueue] at hmem
    cases hmem
  | waitSleep w =>
    obtain ⟨x, hx, hxo⟩ := h.own_alive (t := t) (w := w) (by rw [hs]; rfl)
    rw [turn.eq_def, hs] at hc
    dsimp only at hc
    rw [hx] at hc
    obtain ⟨e', hc⟩ := Turn.mapCrash_crashed hc
    exact Semaphore.pAgain_not_crashed hc
  | waitAcquire w =>
    rw [turn.eq_def, hs] at hc
    exact h.lockTurn_not_crashed hc
  | waitDelete w =>
    obtain ⟨x, -, -, -, -, hturn⟩ := h.delete_turn hs
    rw [hturn] at hc
    cases hc
  | signalCheck caller =>
    rw [turn.eq_def, hs] at hc
    dsimp only at hc
    rw [h.assertHeld (by rw [hs]; rfl)] at hc
    cases hc
  | signalTest caller =>
    rw [turn.eq_def, hs] at hc
    dsimp only at hc
    split at hc <;> cases hc
  | signalRemove caller =>
    obtain ⟨w, rest, -, hturn⟩ := h.remove_turn hs
    rw [hturn] at hc
    cases hc
  | signalPost caller w =>
    obtain ⟨x, -, -, hturn⟩ := h.post_turn hs
    obtain ⟨sem, hturn⟩ := hturn choice
    rw [hturn] at hc
    cases hc
  | broadcastTest =>
    rw [turn.eq_def, hs] at hc
    dsimp only at hc
    split at hc <;> cases hc

end turns

/-! ## What other threads leave alone -/

section other

variable {s s' : Monitor T W} {f : T → CondPlace W} {t u : T} {w : W} {place : CondPlace W}

omit [DecidableEq T] in
/-- Nobody else changes the queue while a thread is in a part that needs the lock. -/
theorem Inv.waitQueue_of_other (h : s.Inv f) (ht : (f t).stage.critical = true) (hu : u ≠ t)
    (hm : s.Moves u (f u) s' place) : s'.waitQueue = s.waitQueue := by
  cases hm with
  | lock hm hs => rfl
  | next hs hl => rfl
  | new hs hw => rfl
  | append hs hw => exact absurd (h.only ht u (by rw [hs]; rfl)) hu
  | sleep hs hx hv hq => rfl
  | pass hs hx hv => rfl
  | delete hs => rfl
  | remove hs hq => exact absurd (h.only ht u (by rw [hs]; rfl)) hu
  | post hs hx => rfl

/-- How often the semaphore was posted, while it exists. -/
def posts (s : Monitor T W) (w : W) : Option ℕ := (s.heap w).map Waiter.posts

omit [DecidableEq T] in
private theorem posts_setWaiter (s : Monitor T W) (w w' : W) (x : Waiter T) :
    (s.setWaiter w (some x)).posts w' = if w' = w then some x.posts else s.posts w' := by
  rw [posts, setWaiter_heap]
  split <;> rfl

omit [DecidableEq T] in
/-- `P` does not post. -/
private theorem posts_setWaiter_same {x y : Waiter T} (hx : s.heap w = some x)
    (hy : y.posts = x.posts) : (s.setWaiter w (some y)).posts = s.posts := by
  funext w'
  rw [posts_setWaiter]
  split
  · subst_vars
    rw [posts, hx, hy]
    rfl
  · rfl

omit [DecidableEq T] in
/-- Nobody else makes, posts or deletes a semaphore. -/
theorem Inv.posts_of_other (h : s.Inv f) (ht : (f t).stage.critical = true) (hu : u ≠ t)
    (hm : s.Moves u (f u) s' place) : s'.posts = s.posts := by
  cases hm with
  | lock hm hs => rfl
  | next hs hl => rfl
  | new hs hw => exact absurd (h.only ht u (by rw [hs]; rfl)) hu
  | append hs hw => rfl
  | sleep hs hx hv hq => exact posts_setWaiter_same hx rfl
  | pass hs hx hv => exact posts_setWaiter_same hx rfl
  | delete hs => exact absurd (h.only ht u (by rw [hs]; rfl)) hu
  | remove hs hq => rfl
  | post hs hx => exact absurd (h.only ht u (by rw [hs]; rfl)) hu

omit [DecidableEq T] in
/-- Nobody else touches a semaphore that its owner has not put on the queue yet. -/
theorem Inv.heap_of_other (h : s.Inv f) (ht : (f t).stage = .waitAppend w) (hu : u ≠ t)
    (hm : s.Moves u (f u) s' place) : s'.heap w = s.heap w := by
  have hcritical : (f t).stage.critical = true := by
    rw [ht]
    rfl
  have hown : ∀ {w'}, (f u).stage.own = some w' → w ≠ w' := by
    rintro w' hw' rfl
    obtain ⟨x, hx, hxo⟩ := h.own_alive hw'
    obtain ⟨y, hy, hyo⟩ := h.own_alive (t := t) (w := w) (by rw [ht]; rfl)
    rw [hx] at hy
    cases hy
    exact hu (hxo.symm.trans hyo)
  cases hm with
  | lock hm hs => rfl
  | next hs hl => rfl
  | new hs hw => exact absurd (h.only hcritical u (by rw [hs]; rfl)) hu
  | append hs hw => rfl
  | sleep hs hx hv hq => exact Function.update_of_ne (hown (own_of_testing hs).1) _ _
  | pass hs hx hv => exact Function.update_of_ne (hown (own_of_testing hs).1) _ _
  | delete hs => exact absurd (h.only hcritical u (by rw [hs]; rfl)) hu
  | remove hs hq => rfl
  | post hs hx => exact absurd (h.only hcritical u (by rw [hs]; rfl)) hu

end other

/-! ## Signal and Broadcast -/

/-- From `s` to `s'` each semaphore of `ws` was posted once, and no other one. -/
def PostsOnce (s : Monitor T W) (ws : List W) (s' : Monitor T W) : Prop :=
  ∀ w, s'.posts w = (s.posts w).map (· + if w ∈ ws then 1 else 0)

/-- The turns that a thread in `Signal` or `Broadcast` needs before it returns. -/
def rank (s : Monitor T W) : CondStage W → ℕ
  | .broadcastTest => 5 * s.waitQueue.length + 1
  | .signalCheck .broadcast => 5 * s.waitQueue.length
  | .signalTest .broadcast => 5 * s.waitQueue.length - 1
  | .signalRemove .broadcast => 5 * s.waitQueue.length - 2
  | .signalPost .broadcast _ => 5 * s.waitQueue.length + 2
  | .signalCheck .user => 4
  | .signalTest .user => 3
  | .signalRemove .user => 2
  | .signalPost .user _ => 1
  | _ => 0

section signal

variable {s₀ s s' : Monitor T W} {f : T → CondPlace W} {t u : T} {w : W} {x : Waiter T}
  {place : CondPlace W} {stage : CondStage W} {caller : SignalCaller} {gone : List W}

omit [DecidableEq T] in
theorem PostsOnce.nil (s : Monitor T W) : s.PostsOnce [] s := by
  intro w
  simp

omit [DecidableEq T] in
theorem PostsOnce.congr (h : s₀.PostsOnce gone s) (hs : s'.posts = s.posts) :
    s₀.PostsOnce gone s' := by
  intro w
  rw [hs]
  exact h w

omit [DecidableEq T] in
/-- One more is posted. -/
theorem PostsOnce.post (h : s₀.PostsOnce gone s) (hw : w ∉ gone) (hx : s.heap w = some x)
    {y : Waiter T} (hy : y.posts = x.posts + 1) :
    s₀.PostsOnce (gone ++ [w]) (s.setWaiter w (some y)) := by
  intro w'
  have hold := h w'
  rw [posts_setWaiter]
  by_cases hw' : w' = w
  · subst hw'
    rw [if_neg hw, posts, hx] at hold
    rw [if_pos rfl, if_pos (by simp), hy]
    cases hp : s₀.posts w' with
    | none =>
      rw [hp] at hold
      cases hold
    | some n =>
      rw [hp] at hold
      cases hold
      rfl
  · have hmem : w' ∈ gone ++ [w] ↔ w' ∈ gone := by simp [hw']
    simp only [if_neg hw', hmem]
    exact hold

omit [DecidableEq T] [DecidableEq W] in
theorem Inv.rank_pos (h : s.Inv f) (ht : (f t).stage.signalling = some caller) :
    0 < s.rank (f t).stage := by
  obtain ⟨selected, hw⟩ := h.waiters
  have hlength : (f t).stage.expects = true → 0 < s.waitQueue.length := fun he ↦
    List.length_pos_of_ne_nil (hw.expects t he)
  cases hs : (f t).stage with
  | broadcastTest => exact Nat.succ_pos _
  | signalPost caller w => cases caller <;> exact Nat.succ_pos _
  | signalCheck caller =>
    cases caller with
    | user => exact Nat.succ_pos _
    | broadcast =>
      have := hlength (by rw [hs]; rfl)
      rw [rank]
      omega
  | signalTest caller =>
    cases caller with
    | user => exact Nat.succ_pos _
    | broadcast =>
      have := hlength (by rw [hs]; rfl)
      rw [rank]
      omega
  | signalRemove caller =>
    cases caller with
    | user => exact Nat.succ_pos _
    | broadcast =>
      have := hlength (by rw [hs]; rfl)
      rw [rank]
      omega
  | _ =>
    rw [hs] at ht
    cases ht

/-- A thread that called `Signal` or `Broadcast` in the state `s₀` is at `stage`: some of those that
waited then are off the queue, and all but one that is selected were posted. -/
structure Posting (s₀ : Monitor T W) (caller : SignalCaller) (s : Monitor T W)
    (stage : CondStage W) : Prop where
  signalling : stage.signalling = some caller
  nodup : s₀.waitQueue.Nodup
  gone : ∃ gone, s₀.waitQueue = gone ++ stage.selecting.toList ++ s.waitQueue ∧
    s₀.PostsOnce gone s ∧ (caller = .user → gone = [])

/-- What a call of `Signal`, or one of `Broadcast`, has done. -/
def Signalled (s₀ : Monitor T W) : SignalCaller → Monitor T W → Prop
  | .user, s =>
    s.waitQueue = s₀.waitQueue.tail ∧ s₀.PostsOnce (s₀.waitQueue.take 1) s
  | .broadcast, s => s.waitQueue = [] ∧ s₀.PostsOnce s₀.waitQueue s

omit [DecidableEq T] in
/-- It finds nobody on the queue and returns. -/
theorem Posting.done (h : s₀.Posting caller s stage) (hs : stage.selecting = none)
    (hq : s.waitQueue = []) : s₀.Signalled caller s := by
  obtain ⟨gone, hgone, honce, huser⟩ := h.gone
  rw [hs, hq, Option.toList_none, List.append_nil, List.append_nil] at hgone
  cases caller with
  | user =>
    rw [huser rfl] at hgone honce
    rw [Signalled, hq, hgone]
    exact ⟨rfl, honce⟩
  | broadcast =>
    rw [Signalled, hgone]
    exact ⟨hq, honce⟩

omit [DecidableEq T] in
/-- The stage is another one, with the same meaning. -/
theorem Posting.quiet (h : s₀.Posting caller s stage) {stage' : CondStage W}
    (hs : stage'.signalling = some caller) (hselecting : stage'.selecting = stage.selecting) :
    s₀.Posting caller s stage' :=
  ⟨hs, h.nodup, by rw [hselecting]; exact h.gone⟩

omit [DecidableEq T] in
theorem Posting.remove (h : s₀.Posting caller s (.signalRemove caller)) {rest : List W}
    (hq : s.waitQueue = w :: rest) :
    s₀.Posting caller { s with waitQueue := rest, removed := s.removed ++ [w] }
      (.signalPost caller w) := by
  obtain ⟨gone, hgone, honce, huser⟩ := h.gone
  refine ⟨rfl, h.nodup, gone, ?_, honce, huser⟩
  rw [hgone, hq]
  simp [CondStage.selecting]

omit [DecidableEq T] in
/-- The one that was selected is posted: `Signal` is done, `Broadcast` looks at the queue again. -/
theorem Posting.post (h : s₀.Posting caller s (.signalPost caller w)) (hx : s.heap w = some x)
    (y : Waiter T) (hy : y.posts = x.posts + 1) :
    (caller = .user ∧ s₀.Signalled .user (s.setWaiter w (some y))) ∨
      (caller = .broadcast ∧ s₀.Posting .broadcast (s.setWaiter w (some y)) .broadcastTest) := by
  obtain ⟨gone, hgone, honce, huser⟩ := h.gone
  have hnodup := h.nodup
  rw [hgone, CondStage.selecting, Option.toList_some] at hnodup
  have hnot : w ∉ gone := by
    have hdisjoint := (List.nodup_append.mp (List.nodup_append.mp hnodup).1).2.2
    intro hmem
    exact hdisjoint w hmem w (List.mem_singleton_self w) rfl
  have hpost := honce.post hnot hx hy
  cases caller with
  | user =>
    rw [huser rfl] at hgone hpost
    refine Or.inl ⟨rfl, ?_⟩
    rw [Signalled, hgone]
    exact ⟨rfl, hpost⟩
  | broadcast =>
    refine Or.inr ⟨rfl, rfl, h.nodup, gone ++ [w], ?_, hpost, fun hcaller ↦ ?_⟩
    · rw [hgone]
      simp [CondStage.selecting, setWaiter]
    · cases hcaller

omit [DecidableEq T] in
/-- A turn of the thread: it returns, or comes closer to that. -/
theorem Inv.posting_turn (h : s.Inv f) (hp : s₀.Posting caller s (f t).stage)
    (hm : s.Moves t (f t) s' place) :
    (place = ⟨.holding, .idle⟩ ∧ s₀.Signalled caller s') ∨
      (s₀.Posting caller s' place.stage ∧ s'.rank place.stage < s.rank (f t).stage) := by
  have hpos := h.rank_pos hp.signalling
  have hheld := holding_of_critical (h.coherent t) (CondStage.critical_of_signalling hp.signalling)
  generalize hst : (f t).stage = stage at hp hpos
  have hsignalling := hp.signalling
  cases hm with
  | lock hm hs =>
    rw [hst] at hs
    cases hs <;> cases hsignalling
  | next hs hl =>
    rw [hst] at hs
    cases hs with
    | callWait => cases hsignalling
    | callSignal => cases hsignalling
    | callBroadcast => cases hsignalling
    | waitCheck => cases hsignalling
    | signalCheck =>
      refine Or.inr ⟨hp.quiet hsignalling rfl, ?_⟩
      cases hsignalling
      cases caller <;> simp only [rank] at hpos ⊢ <;> omega
    | signalNobody hq =>
      cases hsignalling
      cases caller with
      | user =>
        rw [hheld]
        exact Or.inl ⟨rfl, hp.done rfl hq⟩
      | broadcast =>
        -- `Broadcast` saw a nonempty queue and holds the lock since
        simp [rank, hq] at hpos
    | signalTest hq =>
      refine Or.inr ⟨hp.quiet hsignalling rfl, ?_⟩
      cases hsignalling
      have := List.length_pos_of_ne_nil hq
      cases caller <;> simp only [rank] at hpos ⊢ <;> omega
    | broadcastDone hq =>
      cases hsignalling
      rw [hheld]
      exact Or.inl ⟨rfl, hp.done rfl hq⟩
    | broadcastTest hq =>
      refine Or.inr ⟨hp.quiet hsignalling rfl, ?_⟩
      simp only [rank]
      omega
  | new hs hw =>
    rw [← hst, hs] at hsignalling
    cases hsignalling
  | append hs hw =>
    rw [← hst, hs] at hsignalling
    cases hsignalling
  | sleep hs hx hv hq =>
    rcases hs with hs | hs <;> (rw [← hst, hs] at hsignalling; cases hsignalling)
  | pass hs hx hv =>
    rcases hs with hs | hs <;> (rw [← hst, hs] at hsignalling; cases hsignalling)
  | delete hs =>
    rw [← hst, hs] at hsignalling
    cases hsignalling
  | remove hs hq =>
    rw [hst] at hs
    subst hs
    cases hsignalling
    refine Or.inr ⟨hp.remove hq, ?_⟩
    cases caller <;> simp only [rank, hq, List.length_cons] at hpos ⊢ <;> omega
  | @post _ w x hs hx =>
    rw [hst] at hs
    subst hs
    cases hsignalling
    rcases hp.post hx ⟨⟨x.semaphore.value + 1, x.semaphore.queue.tail⟩, x.owner, x.posts + 1⟩
      rfl with ⟨rfl, hdone⟩ | ⟨rfl, hnext⟩
    · rw [hheld]
      exact Or.inl ⟨rfl, hdone⟩
    · refine Or.inr ⟨hnext, ?_⟩
      simp only [rank, CondStage.afterSignal, setWaiter]
      omega

omit [DecidableEq T] in
theorem Inv.posting_other (h : s.Inv f) (hp : s₀.Posting caller s (f t).stage) (hu : u ≠ t)
    (hm : s.Moves u (f u) s' place) :
    s₀.Posting caller s' (f t).stage ∧ s'.rank (f t).stage = s.rank (f t).stage := by
  have hcritical := CondStage.critical_of_signalling hp.signalling
  have hqueue := h.waitQueue_of_other hcritical hu hm
  constructor
  · obtain ⟨gone, hgone, honce, huser⟩ := hp.gone
    have hposts := honce.congr (h.posts_of_other hcritical hu hm)
    refine ⟨hp.signalling, hp.nodup, gone, ?_, hposts, huser⟩
    rw [hqueue]
    exact hgone
  · cases (f t).stage <;> simp only [rank, hqueue]

/-- A thread in `Signal` or `Broadcast` can always go on. -/
theorem Inv.signalling_moves (h : s.Inv f) (ht : (f t).stage.signalling = some caller)
    (choice : CondChoice W) : ∃ s' place, s.turn t choice (f t) = .moved s' place := by
  cases hs : (f t).stage with
  | signalCheck caller =>
    rw [turn.eq_def, hs]
    exact ⟨s, _, h.assertHeld (by rw [hs]; rfl) _⟩
  | signalTest caller =>
    rw [turn.eq_def, hs]
    dsimp only
    split <;> exact ⟨s, _, rfl⟩
  | signalRemove caller =>
    obtain ⟨w, rest, -, hturn⟩ := h.remove_turn hs
    exact ⟨_, _, hturn choice⟩
  | signalPost caller w =>
    obtain ⟨x, -, -, hturn⟩ := h.post_turn hs
    obtain ⟨sem, hturn⟩ := hturn choice
    exact ⟨_, _, hturn⟩
  | broadcastTest =>
    rw [turn.eq_def, hs]
    dsimp only
    split <;> exact ⟨s, _, rfl⟩
  | _ =>
    rw [hs] at ht
    cases ht

end signal

section calls

variable {c : Config T (Monitor T W) (CondPlace W)} {t : T}

/-- A call of `Signal` or `Broadcast` comes back, whatever the schedule. -/
private theorem completes_of_signalling (caller : SignalCaller) (choice : CondChoice W)
    (stage : CondStage W) (hc : Reachable c) (ht : c.place t = ⟨.holding, .idle⟩)
    (hcall : c.shared.turn t choice ⟨.holding, .idle⟩ = .moved c.shared ⟨.holding, stage⟩)
    (hstage : stage.signalling = some caller) (hselecting : stage.selecting = none) :
    c.Completes turn t choice (c.shared.rank stage) fun c' ↦
      c'.place t = ⟨.holding, .idle⟩ ∧ c.shared.Signalled caller c'.shared := by
  obtain ⟨selected, hw⟩ := (inv_of_reachable hc).waiters
  rw [← ht] at hcall
  refine ⟨c.shared, ⟨.holding, stage⟩, hcall, fun schedule c' hfollow ↦ ?_⟩
  have hplace := c.move_self t c.shared ⟨.holding, stage⟩
  have hfirst : c.shared.Posting caller c.shared stage := by
    refine ⟨hstage, hw.queue_nodup, [], ?_, .nil _, fun _ ↦ rfl⟩
    rw [hselecting]
    rfl
  -- the rank bounds the turns that are left
  have hrule := Config.passes_of_rank (t := t)
    (P := fun n c' ↦ Reachable c' ∧ c.shared.Posting caller c'.shared (c'.place t).stage ∧
      c'.shared.rank (c'.place t).stage ≤ n)
    (Q := fun c' ↦ c'.place t = ⟨.holding, .idle⟩ ∧ c.shared.Signalled caller c'.shared)
    (fun c' h ↦ Nat.not_le_of_lt ((inv_of_reachable h.1).rank_pos h.2.1.signalling) h.2.2)
    (fun n c' i s l h hturn ↦ ?_) (fun n c' u i s l hu h hturn ↦ ?_)
    (n := c.shared.rank stage) ⟨hc.turn hcall, ?_, ?_⟩ hfollow
  · rcases hrule with hpasses | ⟨hlt, m, hreach, hposting, -⟩
    · exact Or.inl hpasses
    · exact Or.inr ⟨hlt, (inv_of_reachable hreach).signalling_moves hposting.signalling⟩
  · obtain ⟨hreach, hposting, hrank⟩ := h
    rw [Config.move_self]
    have hmoves := (inv_of_reachable hreach).posting_turn hposting (moves_of_turn hturn)
    rcases hmoves with hdone | ⟨hp, hlt⟩
    · exact Or.inl hdone
    · exact Or.inr ⟨n, Nat.le_refl n, hreach.turn hturn, hp,
        Nat.le_of_lt_succ (Nat.lt_of_lt_of_le hlt hrank)⟩
  · obtain ⟨hreach, hposting, hrank⟩ := h
    rw [Config.move_of_ne _ (Ne.symm hu)]
    obtain ⟨hp, heq⟩ := (inv_of_reachable hreach).posting_other hposting hu (moves_of_turn hturn)
    refine ⟨hreach.turn hturn, hp, ?_⟩
    change s.rank _ ≤ n
    rw [heq]
    exact hrank
  · rw [hplace]
    exact hfirst
  · rw [hplace]
    exact Nat.le_refl _

end calls

/-! ## Wait -/

/-- A thread that called `Wait` when `queue` was waiting and has not put its semaphore there. The
number is that of the turns it needs for that. -/
inductive Joining (queue : List W) (s : Monitor T W) (t : T) : ℕ → CondStage W → Prop
  | check (hq : s.waitQueue = queue) : s.Joining queue t 3 .waitCheck
  | new (hq : s.waitQueue = queue) : s.Joining queue t 2 .waitNew
  | append {w : W} (hq : s.waitQueue = queue) (hx : s.heap w = some ⟨.new 0, t, 0⟩) :
      s.Joining queue t 1 (.waitAppend w)

section wait

variable {s s' : Monitor T W} {f : T → CondPlace W} {t u : T} {w : W} {place : CondPlace W}
  {queue : List W} {n : ℕ} {stage : CondStage W}

omit [DecidableEq T] [DecidableEq W] in
theorem Joining.critical (h : s.Joining queue t n stage) : stage.critical = true := by
  cases h <;> rfl

omit [DecidableEq T] in
theorem Joining.turn (h : s.Joining queue t (n + 1) (f t).stage) (hm : s.Moves t (f t) s' place) :
    (∃ w, place.stage = .waitRelease w ∧ s'.waitQueue = queue ++ [w] ∧
      s'.heap w = some ⟨.new 0, t, 0⟩) ∨ s'.Joining queue t n place.stage := by
  generalize hst : (f t).stage = stage at h
  cases hm with
  | lock hm hs =>
    rw [hst] at hs
    cases hs <;> cases h
  | next hs hl =>
    rw [hst] at hs
    cases hs with
    | waitCheck =>
      cases h with
      | check hq => exact Or.inr (.new hq)
    | _ => cases h
  | @new w hs hw =>
    rw [hst] at hs
    subst hs
    cases h with
    | new hq =>
      refine Or.inr (.append hq ?_)
      rw [setWaiter_heap, if_pos rfl]
  | append hs hw =>
    rw [hst] at hs
    subst hs
    cases h with
    | append hq hx => exact Or.inl ⟨_, rfl, congrArg (· ++ _) hq, hx⟩
  | sleep hs hx hv hq => rcases hs with hs | hs <;> (rw [hst] at hs; subst hs; cases h)
  | pass hs hx hv => rcases hs with hs | hs <;> (rw [hst] at hs; subst hs; cases h)
  | delete hs =>
    rw [hst] at hs
    subst hs
    cases h
  | remove hs hq =>
    rw [hst] at hs
    subst hs
    cases h
  | post hs hx =>
    rw [hst] at hs
    subst hs
    cases h

omit [DecidableEq T] in
theorem Inv.joining_other (h : s.Inv f) (hj : s.Joining queue t n (f t).stage) (hu : u ≠ t)
    (hm : s.Moves u (f u) s' place) : s'.Joining queue t n (f t).stage := by
  have hqueue := h.waitQueue_of_other hj.critical hu hm
  generalize hst : (f t).stage = stage at hj
  cases hj with
  | check hq => exact .check (hqueue.trans hq)
  | new hq => exact .new (hqueue.trans hq)
  | append hq hx => exact .append (hqueue.trans hq) ((h.heap_of_other hst hu hm).trans hx)

omit [DecidableEq T] in
/-- A thread keeps its semaphore until it deletes it. -/
private theorem own_of_moves (ht : (f t).stage.own = some w) (hm : s.Moves t (f t) s' place) :
    place.stage.own = some w ∨ (f t).stage = .waitDelete w := by
  generalize hst : (f t).stage = stage at ht
  cases hm with
  | lock hm hs =>
    rw [hst] at hs
    exact Or.inl (hs.same.own.trans ht)
  | next hs hl =>
    rw [hst] at hs
    exact Or.inl (hs.same.own.trans ht)
  | new hs hw =>
    rw [hst] at hs
    subst hs
    cases ht
  | append hs hw =>
    rw [hst] at hs
    subst hs
    exact Or.inl ht
  | sleep hs hx hv hq => rcases hs with hs | hs <;> (rw [hst] at hs; subst hs; exact Or.inl ht)
  | pass hs hx hv => rcases hs with hs | hs <;> (rw [hst] at hs; subst hs; exact Or.inl ht)
  | delete hs =>
    rw [hst] at hs
    subst hs
    cases ht
    exact Or.inr rfl
  | remove hs hq =>
    rw [hst] at hs
    subst hs
    cases ht
  | post hs hx =>
    rw [hst] at hs
    subst hs
    cases ht

end wait

section waitCalls

variable {c c' : Config T (Monitor T W) (CondPlace W)} {t : T} {w : W}
  {schedule : List (T × CondChoice W)}

/-- A call of `Wait` puts a new semaphore of the caller at the end of the queue. -/
private theorem wait_joins (hc : Reachable c) (ht : c.place t = ⟨.holding, .idle⟩) :
    ∃ s l, c.shared.turn t .wait (c.place t) = .moved s l ∧
      ∀ schedule c', (c.move t s l).follow turn schedule = some c' →
        3 ≤ schedule.countP (fun choice ↦ choice.1 = t) →
        (c.move t s l).Passes turn schedule fun c₁ ↦ ∃ w, (c₁.place t).stage = .waitRelease w ∧
          c₁.shared.waitQueue = c.shared.waitQueue ++ [w] ∧
          c₁.shared.heap w = some ⟨.new 0, t, 0⟩ := by
  have hcall : c.shared.turn t .wait (c.place t) = .moved c.shared ⟨.holding, .waitCheck⟩ := by
    rw [ht]
    rfl
  refine ⟨c.shared, ⟨.holding, .waitCheck⟩, hcall, fun schedule c' hfollow hturns ↦ ?_⟩
  have hplace := c.move_self t c.shared ⟨.holding, .waitCheck⟩
  have hrule := Config.passes_of_rank (t := t)
    (P := fun n c' ↦ Reachable c' ∧
      c'.shared.Joining c.shared.waitQueue t n (c'.place t).stage)
    (Q := fun c₁ ↦ ∃ w, (c₁.place t).stage = .waitRelease w ∧
      c₁.shared.waitQueue = c.shared.waitQueue ++ [w] ∧ c₁.shared.heap w = some ⟨.new 0, t, 0⟩)
    (fun c' h ↦ nomatch h.2) (fun n c' i s l h hturn ↦ ?_) (fun n c' u i s l hu h hturn ↦ ?_)
    (n := 3) ⟨hc.turn hcall, by rw [hplace]; exact .check rfl⟩ hfollow
  · rcases hrule with hpasses | ⟨hlt, -⟩
    · exact hpasses
    · exact absurd hturns (Nat.not_le_of_lt hlt)
  · rw [Config.move_self]
    rcases h.2.turn (moves_of_turn hturn) with hdone | hj
    · exact Or.inl hdone
    · exact Or.inr ⟨n, Nat.le_refl n, h.1.turn hturn, hj⟩
  · rw [Config.move_of_ne _ (Ne.symm hu)]
    exact ⟨h.1.turn hturn, (inv_of_reachable h.1).joining_other h.2 hu (moves_of_turn hturn)⟩

/-- A thread whose semaphore exists no more has come to the end of `Wait`. -/
private theorem wait_returns (hc : Reachable c) (ht : (c.place t).stage.own = some w)
    (hfollow : c.follow turn schedule = some c') (hleft : (c'.place t).stage.own ≠ some w) :
    c.Passes turn schedule fun c₁ ↦ (c₁.place t).stage = .waitDelete w ∧
      c₁.shared.posts w = some 1 ∧ c₁.shared.lock.isHeldByCurrentThread t = true := by
  refine Config.passes_of_left (t := t)
    (P := fun c' ↦ Reachable c' ∧ (c'.place t).stage.own = some w)
    (fun c' i s l h hturn ↦ ?_) (fun c' u i s l hu h hturn ↦ ?_) ⟨hc, ht⟩ hfollow
    (fun h ↦ hleft h.2)
  · rcases own_of_moves h.2 (moves_of_turn hturn) with hown | hdelete
    · exact Or.inl ⟨h.1.turn hturn, by rw [Config.move_self]; exact hown⟩
    · obtain ⟨x, hx, -, hposts, hheld, -⟩ := (inv_of_reachable h.1).delete_turn hdelete
      refine Or.inr ⟨hdelete, ?_, hheld⟩
      rw [posts, hx, ← hposts]
      rfl
  · refine ⟨h.1.turn hturn, ?_⟩
    rw [Config.move_of_ne _ (Ne.symm hu)]
    exact h.2

end waitCalls

/-! ## Every interleaving -/

/-- What can be relied on in the configuration `c`. -/
structure LosesNoSignal (c : Config T (Monitor T W) (CondPlace W)) : Prop where
  /-- No assertion fails, and no semaphore is posted or waited on after it was deleted. -/
  noCrash : ∀ t choice e, c.shared.turn t choice (c.place t) ≠ .crashed e
  /-- On the queue are those that were put on it and not taken off, the longest-waiting one
  first. -/
  fifo : c.shared.enqueued = c.shared.removed ++ c.shared.waitQueue
  /-- Whoever is on the queue was not posted. -/
  waiting : ∀ w ∈ c.shared.waitQueue, c.shared.posts w = some 0
  once : ∀ w x, c.shared.heap w = some x → x.posts ≤ 1
  /-- A post stays in the semaphore until its owner has passed `P`. -/
  value : ∀ w x, c.shared.heap w = some x →
    x.semaphore.value = if (c.place x.owner).stage.passed then 0 else (x.posts : ℤ)
  /-- A call of `Signal` comes back after four turns, whatever the other threads do. It has taken
  the first one off the queue and posted it, once, and posted no other; nothing if nobody waited. -/
  signal : ∀ t, c.place t = ⟨.holding, .idle⟩ → c.Completes turn t .signal 4 fun c' ↦
    c'.place t = ⟨.holding, .idle⟩ ∧ c'.shared.waitQueue = c.shared.waitQueue.tail ∧
      c.shared.PostsOnce (c.shared.waitQueue.take 1) c'.shared
  /-- A call of `Broadcast` comes back, and has posted everybody who waited when it was made. -/
  broadcast : ∀ t, c.place t = ⟨.holding, .idle⟩ →
    c.Completes turn t .broadcast (5 * c.shared.waitQueue.length + 1) fun c' ↦
      c'.place t = ⟨.holding, .idle⟩ ∧ c'.shared.waitQueue = [] ∧
        c.shared.PostsOnce c.shared.waitQueue c'.shared
  /-- `Signal` checks the lock and, when nobody waits, returns; nothing has changed. -/
  check : ∀ t caller choice, (c.place t).stage = .signalCheck caller →
    c.shared.turn t choice (c.place t) = .moved c.shared ⟨(c.place t).lock, .signalTest caller⟩
  nobody : ∀ t choice, (c.place t).stage = .signalTest .user → c.shared.waitQueue = [] →
    c.shared.turn t choice (c.place t) = .moved c.shared ⟨(c.place t).lock, .idle⟩
  /-- When somebody waits it takes the first one off the queue, -/
  select : ∀ t caller, (c.place t).stage = .signalRemove caller →
    ∃ w rest, c.shared.waitQueue = w :: rest ∧ ∀ choice, c.shared.turn t choice (c.place t) =
      .moved { c.shared with waitQueue := rest, removed := c.shared.removed ++ [w] }
        ⟨(c.place t).lock, .signalPost caller w⟩
  /-- and posts its semaphore, which was not posted before. -/
  post : ∀ t caller w, (c.place t).stage = .signalPost caller w →
    ∃ x, c.shared.heap w = some x ∧ x.posts = 0 ∧ ∀ choice, ∃ sem,
      c.shared.turn t choice (c.place t) =
        .moved (c.shared.setWaiter w (some { x with semaphore := sem, posts := 1 }))
          ⟨(c.place t).lock, .afterSignal caller⟩
  /-- Meanwhile nobody else changes the queue. -/
  undisturbed : ∀ t u choice s place, (c.place t).stage.critical = true → u ≠ t →
    c.shared.turn u choice (c.place u) = .moved s place → s.waitQueue = c.shared.waitQueue
  /-- A call of `Wait` puts a new semaphore of the caller at the end of the queue, with its third
  turn. -/
  wait : ∀ t, c.place t = ⟨.holding, .idle⟩ →
    ∃ s l, c.shared.turn t .wait (c.place t) = .moved s l ∧
      ∀ schedule c', (c.move t s l).follow turn schedule = some c' →
        3 ≤ schedule.countP (fun choice ↦ choice.1 = t) →
        (c.move t s l).Passes turn schedule fun c₁ ↦ ∃ w, (c₁.place t).stage = .waitRelease w ∧
          c₁.shared.waitQueue = c.shared.waitQueue ++ [w] ∧
          c₁.shared.heap w = some ⟨.new 0, t, 0⟩
  /-- A waiter that was posted does not block in `P`, whether it had called it or not. -/
  posted : ∀ t w x choice, (c.place t).stage = .waitTest w ∨ (c.place t).stage = .waitSleep w →
    c.shared.heap w = some x → x.posts = 1 →
    ∃ s, c.shared.turn t choice (c.place t) = .moved s ⟨(c.place t).lock, .waitAcquire w⟩
  /-- A thread comes out of `Wait` only by the last statement, with its own semaphore posted and
  with the lock. -/
  leaves : ∀ t w, (c.place t).stage.own = some w → ∀ schedule c',
    c.follow turn schedule = some c' → (c'.place t).stage.own ≠ some w →
    c.Passes turn schedule fun c₁ ↦ (c₁.place t).stage = .waitDelete w ∧
      c₁.shared.posts w = some 1 ∧ c₁.shared.lock.isHeldByCurrentThread t = true
  returns : ∀ t w, (c.place t).stage = .waitDelete w →
    ∃ x, c.shared.heap w = some x ∧ x.owner = t ∧ x.posts = 1 ∧
      c.shared.lock.isHeldByCurrentThread t = true ∧ ∀ choice,
        c.shared.turn t choice (c.place t) = .moved (c.shared.setWaiter w none) ⟨.holding, .idle⟩

theorem condition_loses_no_signal {c : Config T (Monitor T W) (CondPlace W)} (hc : Reachable c) :
    LosesNoSignal c := by
  have h := inv_of_reachable hc
  obtain ⟨selected, hw⟩ := h.waiters
  constructor
  · exact fun t choice e ↦ h.not_crashed choice e
  · exact hw.order
  · intro w hmem
    obtain ⟨x, hx⟩ := hw.queue_alive w hmem
    have hposts := ((hw.ok w x hx).waiting_iff.mp (Or.inl hmem)).1
    rw [posts, hx, ← hposts]
    rfl
  · exact fun w x hx ↦ (hw.ok w x hx).posts_le
  · exact fun w x hx ↦ (hw.ok w x hx).value
  · exact fun t ht ↦ completes_of_signalling .user .signal (.signalCheck .user) hc ht rfl rfl rfl
  · exact fun t ht ↦ completes_of_signalling .broadcast .broadcast .broadcastTest hc ht rfl rfl rfl
  · intro t caller choice ht
    rw [turn.eq_def, ht]
    exact h.assertHeld (by rw [ht]; rfl) _
  · intro t choice ht hq
    rw [turn.eq_def, ht]
    dsimp only
    rw [if_pos hq]
    rfl
  · exact fun t caller ht ↦ h.remove_turn ht
  · exact fun t caller w ht ↦ h.post_turn ht
  · exact fun t u choice s place ht hu hturn ↦ h.waitQueue_of_other ht hu (moves_of_turn hturn)
  · exact fun t ht ↦ wait_joins hc ht
  · exact fun t w x choice ht hx hposts ↦ h.posted_turn ht hx hposts choice
  · exact fun t w ht schedule c' ↦ wait_returns hc ht
  · exact fun t w ht ↦ h.delete_turn ht

/-- The turns of a thread that takes the lock and then does as `choices` says. -/
def holdTurns (t : ℕ) (choices : List (CondChoice ℕ)) : List (ℕ × CondChoice ℕ) :=
  List.replicate 3 (t, .lock) ++ choices.map fun choice ↦ (t, choice)

/-- The turns of a thread that waits, up to `P`. -/
def waitTurns (t : ℕ) (w : ℕ) : List (ℕ × CondChoice ℕ) :=
  holdTurns t [.wait, .lock, .address w, .lock, .lock, .lock, .lock, .lock]

/-- Two threads wait; then the third one signals. -/
def signalSchedule : List (ℕ × CondChoice ℕ) :=
  waitTurns 0 0 ++ waitTurns 1 1 ++ holdTurns 2 [.signal, .lock, .lock, .lock, .lock]

def signalled : Config ℕ (Monitor ℕ ℕ) (CondPlace ℕ) :=
  (start.follow turn signalSchedule).get (by decide +kernel)

/-- The first one goes through `P`, which it had not called; a second signal would be for the other
one. -/
theorem signalled_not_blocked : signalled.shared.waitQueue = [1] ∧
    (∃ s, signalled.shared.turn 0 .lock (signalled.place 0) = .moved s ⟨.outside, .waitAcquire 0⟩) ∧
    signalled.Completes turn 2 .signal 4 fun c ↦ c.place 2 = ⟨.holding, .idle⟩ ∧
      c.shared.waitQueue = signalled.shared.waitQueue.tail ∧
        signalled.shared.PostsOnce (signalled.shared.waitQueue.take 1) c.shared := by
  have hc : Reachable signalled := Reaches.refl.follow (Option.some_get _).symm
  have hsignalled := condition_loses_no_signal hc
  refine ⟨by decide +kernel, ?_, hsignalled.signal 2 rfl⟩
  exact hsignalled.posted 0 0 ⟨⟨1, []⟩, 0, 1⟩ .lock (Or.inl rfl) rfl rfl

end Monitor

end Threads

end Nachos
