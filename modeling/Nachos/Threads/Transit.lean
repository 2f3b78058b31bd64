import Nachos.Program.Calls
import Nachos.Threads.SynchList

/-!
# Items and signalled threads

A synchronized list is a queue: what was removed, followed by what is on the list, is what was
appended, in the order in which the calls of `Append` got the lock. What was asked for and what was
given back is noted beside the list (`Runs`): each thread has appended the items of its calls of
`Append`, and its calls of `RemoveFront` have come back with the items that it removed.

The other half is that nobody waits beside an item. A thread is signalled from the `V` of some
`Signal` until it tests `IsEmpty` again. `SynchList.Inv.transit` has a signalled thread for each
item while the queue of the condition is not empty. `Append` adds an item and a signalled thread; a
thread that removes an item without having been signalled leaves one too many; and a thread joins
the queue only when the list is empty.
-/

namespace Nachos

namespace Threads

open Program

variable {T W α : Type}

/-! ## The invariant -/

/-- The thread is in `Wait`. -/
def CondStage.inWait : CondStage W → Bool
  | .waitCheck | .waitNew | .waitAppend _ | .waitRelease _ | .waitTest _ | .waitSleep _
  | .waitAcquire _ | .waitDelete _ => true
  | _ => false

/-- The thread is in `Wait` and its semaphore is not on the queue yet. -/
def CondStage.joining : CondStage W → Bool
  | .waitCheck | .waitNew | .waitAppend _ => true
  | _ => false

theorem CondStage.critical_of_joining {stage : CondStage W} (h : stage.joining = true) :
    stage.critical = true := by
  cases stage <;> first | rfl | cases h

/-- The thread is in `Append`. -/
def ListStage.appending : ListStage α → Bool
  | .appendAcquire _ | .appendItem _ | .appendRelease => true
  | _ => false

/-- The thread is in `RemoveFront`. -/
def ListStage.removing : ListStage α → Bool
  | .removeAcquire | .removeTest _ | .removeWait | .removeRelease _ => true
  | _ => false

/-- The item that a thread with the lock is about to append. -/
def ListStage.item : ListStage α → Option α
  | .appendItem item => some item
  | _ => none

/-- The stage of the call and the place in the code of lock and condition agree. -/
def ListPlace.Coherent (place : ListPlace W α) : Prop :=
  match place.stage with
  | .idle => place.cond.stage = .idle ∧ place.cond.lock = .outside
  | .appendAcquire _ => place.cond.stage = .idle ∧ place.cond.lock.inside = false
  | .appendItem _ => place.cond.stage = .idle ∧
      (place.cond.lock = .passed ∨ place.cond.lock = .holding)
  | .appendRelease | .removeRelease _ => place.cond.stage = .idle ∧
      place.cond.lock.inside = true ∧ place.cond.lock ≠ .passed
  | .removeAcquire => place.cond.stage = .idle ∧
      (place.cond.lock.inside = false ∨ place.cond.lock = .passed)
  | .removeTest _ => place.cond.stage = .idle ∧ place.cond.lock = .holding
  | .removeWait => place.cond.stage.inWait = true

/-- The semaphore of a thread at `stage` was posted. -/
def Monitor.Posted (m : Monitor T W) (stage : CondStage W) : Prop :=
  ∃ w x, stage.own = some w ∧ m.heap w = some x ∧ x.posts = 1

namespace SynchList

/-- The thread was signalled and has not tested `IsEmpty` again. -/
def Signalled (s : SynchList T W α) (place : ListPlace W α) : Prop :=
  place.stage = .removeTest true ∨ s.monitor.Posted place.cond.stage

/-- At most one thread has the lock for an `Append` and has not appended its item. -/
def Entering (f : T → ListPlace W α) (appended acquired : List (T × α)) : Prop :=
  ∃ entering : Option (T × α),
    (∀ t item, (f t).stage.item = some item ↔ entering = some (t, item)) ∧
      acquired = appended ++ entering.toList

structure Inv (s : SynchList T W α) (f : T → ListPlace W α) : Prop where
  monitor : s.monitor.Inv fun t ↦ (f t).cond
  coherent : ∀ t, (f t).Coherent
  order : s.appended.map Prod.snd = s.removed.map Prod.snd ++ s.list
  entering : Entering f s.appended s.acquired
  /-- Who is about to wait has found the list empty. -/
  joining : ∀ t, (f t).cond.stage.joining = true → s.list = []
  /-- While somebody waits, there is a signalled thread for each item. -/
  transit : ∃ l : List T, l.Nodup ∧ (∀ t ∈ l, s.Signalled (f t)) ∧
    (s.monitor.waitQueue ≠ [] → s.list.length ≤ l.length)

end SynchList

/-! ## What the monitor does for the list -/

namespace Monitor

variable [DecidableEq T] [DecidableEq W] {m m' : Monitor T W} {f : T → CondPlace W} {t u : T}
  {w : W} {x : Waiter T} {place place' : CondPlace W}

omit [DecidableEq T] in
/-- A semaphore keeps its posts until its owner deletes it. -/
theorem Moves.posts_le (hm : m.Moves t place m' place') (hx : m.heap w = some x) :
    (∃ x', m'.heap w = some x' ∧ x.posts ≤ x'.posts) ∨
      place.stage = .waitDelete w ∧ place'.stage = .idle := by
  have hset : ∀ (w' : W) (y y' : Waiter T), m.heap w' = some y → y.posts ≤ y'.posts →
      ∃ x', (m.setWaiter w' (some y')).heap w = some x' ∧ x.posts ≤ x'.posts := by
    intro w' y y' hy hle
    rw [setWaiter_heap]
    by_cases hw : w = w'
    · rw [← hw, hx] at hy
      cases hy
      exact ⟨y', if_pos hw, hle⟩
    · exact ⟨x, (if_neg hw).trans hx, Nat.le_refl _⟩
  cases hm with
  | lock hm hs => exact Or.inl ⟨x, hx, Nat.le_refl _⟩
  | next hs hl => exact Or.inl ⟨x, hx, Nat.le_refl _⟩
  | append hs hq => exact Or.inl ⟨x, hx, Nat.le_refl _⟩
  | remove hs hq => exact Or.inl ⟨x, hx, Nat.le_refl _⟩
  | @new w' hs hfree =>
    have hne : w ≠ w' := by
      rintro rfl
      rw [hfree] at hx
      cases hx
    exact Or.inl ⟨x, by rw [setWaiter_heap, if_neg hne, hx], Nat.le_refl _⟩
  | sleep hs hy hv hq => exact Or.inl (hset _ _ _ hy (Nat.le_refl _))
  | pass hs hy hv => exact Or.inl (hset _ _ _ hy (Nat.le_refl _))
  | post hs hy => exact Or.inl (hset _ _ _ hy (Nat.le_succ _))
  | @delete w' hs =>
    by_cases hw : w = w'
    · exact Or.inr ⟨hw ▸ hs, rfl⟩
    · exact Or.inl ⟨x, by rw [setWaiter_heap, if_neg hw, hx], Nat.le_refl _⟩

omit [DecidableEq T] in
/-- A thread has its semaphore until `Wait` returns. -/
theorem Moves.own (hm : m.Moves t place m' place') (hown : place.stage.own = some w) :
    place'.stage.own = some w ∨ place'.stage = .idle := by
  cases hm with
  | lock hm hs => exact Or.inl (hs.same.own.trans hown)
  | next hs hl => exact Or.inl (hs.same.own.trans hown)
  | append hs hq =>
    rw [hs] at hown
    exact Or.inl hown
  | sleep hs hy hv hq => rcases hs with hs | hs <;> (rw [hs] at hown; exact Or.inl hown)
  | pass hs hy hv => rcases hs with hs | hs <;> (rw [hs] at hown; exact Or.inl hown)
  | delete hs => exact Or.inr rfl
  | new hs hfree =>
    rw [hs] at hown
    cases hown
  | remove hs hq =>
    rw [hs] at hown
    cases hown
  | post hs hy =>
    rw [hs] at hown
    cases hown

/-- What was posted stays posted, unless its owner returns from `Wait`. -/
theorem Inv.posted (h : m.Inv f) (hm : m.Moves t (f t) m' place)
    (hp : m.Posted (f u).stage) :
    m'.Posted (Function.update f t place u).stage ∨ u = t ∧ place.stage = .idle := by
  obtain ⟨w, x, hown, hx, hposts⟩ := hp
  obtain ⟨selected, hw⟩ := (h.moves hm).waiters
  have hkept : ∀ x', m'.heap w = some x' → x.posts ≤ x'.posts → x'.posts = 1 := by
    intro x' hx' hle
    exact Nat.le_antisymm (hw.ok w x' hx').posts_le (hposts ▸ hle)
  by_cases hu : u = t
  · subst hu
    rw [Function.update_self]
    rcases hm.own hown with hown' | hidle
    · rcases hm.posts_le hx with ⟨x', hx', hle⟩ | ⟨-, hidle⟩
      · exact Or.inl ⟨w, x', hown', hx', hkept x' hx' hle⟩
      · exact Or.inr ⟨rfl, hidle⟩
    · exact Or.inr ⟨rfl, hidle⟩
  · rw [Function.update_of_ne hu]
    rcases hm.posts_le hx with ⟨x', hx', hle⟩ | ⟨hdelete, -⟩
    · exact Or.inl ⟨w, x', hown, hx', hkept x' hx' hle⟩
    · -- nobody deletes a semaphore but its owner
      obtain ⟨y, hy, hyu⟩ := h.own_alive hown
      obtain ⟨z, hz, hzt⟩ := h.own_alive (t := t) (w := w) (by rw [hdelete]; rfl)
      rw [hy] at hz
      cases hz
      exact absurd (hyu.symm.trans hzt) hu

omit [DecidableEq T] in
/-- A statement of `Wait` changes the queue only where it puts a semaphore on it, and the last one
is under the lock. -/
theorem Moves.inWait (hm : m.Moves t place m' place') (hs : place.stage.inWait = true) :
    (place'.stage.inWait = true ∨
      place'.stage = .idle ∧ place'.lock = place.lock ∧ place.stage.critical = true) ∧
    (place'.stage.joining = true → place.stage.joining = true) ∧
    (m'.waitQueue = m.waitQueue ∨ place.stage.joining = true) := by
  cases hm with
  | lock hm hs' =>
    generalize place.stage = stage at hs hs'
    cases hs' with
    | idle => cases hs
    | release hp => exact ⟨Or.inl rfl, nofun, Or.inl rfl⟩
    | released => exact ⟨Or.inl rfl, nofun, Or.inl rfl⟩
    | acquire hp => exact ⟨Or.inl rfl, nofun, Or.inl rfl⟩
    | acquired => exact ⟨Or.inl rfl, nofun, Or.inl rfl⟩
  | next hs' hl =>
    generalize place.stage = stage at hs hs'
    cases hs' with
    | waitCheck => exact ⟨Or.inl rfl, fun _ ↦ rfl, Or.inl rfl⟩
    | _ => cases hs
  | new hs' hfree => exact ⟨Or.inl rfl, fun _ ↦ by rw [hs']; rfl, Or.inl rfl⟩
  | append hs' hq => exact ⟨Or.inl rfl, nofun, Or.inr (by rw [hs']; rfl)⟩
  | sleep hs' hx hv hq => exact ⟨Or.inl rfl, nofun, Or.inl rfl⟩
  | pass hs' hx hv => exact ⟨Or.inl rfl, nofun, Or.inl rfl⟩
  | delete hs' => exact ⟨Or.inr ⟨rfl, rfl, by rw [hs']; rfl⟩, nofun, Or.inl rfl⟩
  | remove hs' hq =>
    rw [hs'] at hs
    cases hs
  | post hs' hx =>
    rw [hs'] at hs
    cases hs

/-- In code of its own a thread may go on with the lock's code. -/
private theorem lock_of_idle (hidle : place.stage = .idle)
    (h : m.turn t .lock place = .moved m' place') :
    ∃ lock p, m' = { m with lock := lock } ∧ place' = ⟨p, .idle⟩ ∧
      m.lock.Moves t place.lock lock p := by
  rw [turn.eq_def, hidle] at h
  obtain ⟨lock, p, hturn, hmoved⟩ := Turn.bind_moved h
  cases hmoved
  exact ⟨lock, p, rfl, rfl, Lock.moves_of_turn (Turn.mapCrash_moved.mp hturn)⟩

omit [DecidableEq T] [DecidableEq W] in
theorem not_posted_of_own {stage : CondStage W} (h : stage.own = none) : ¬ m.Posted stage := by
  rintro ⟨w, x, hown, -⟩
  rw [h] at hown
  cases hown

end Monitor

/-! ## Moves that leave the list alone -/

namespace SynchList

section moves

variable {s : SynchList T W α} {f : T → ListPlace W α} {t u : T} {m : Monitor T W}
  {place : ListPlace W α}

theorem coherent_of_lockStage {lock lock' : Lock T} {p : LockPlace} {stage : ListStage α}
    (h : place.Coherent) (hm : lock.Moves t place.cond.lock lock' p)
    (hs : LockStage place.stage p stage)
    (hl : ∀ item, place.stage = .appendItem item → place.cond.lock ≠ .holding) :
    ListPlace.Coherent (W := W) ⟨⟨p, .idle⟩, stage⟩ := by
  obtain ⟨⟨pl, st⟩, stage₀⟩ := place
  dsimp only at hm hs hl
  cases hs with
  | appendAcquire hp =>
    have hin : pl.inside = false := h.2
    have hne : p ≠ .holding := by
      rintro rfl
      rw [hm.passed_of_holding] at hin
      cases hin
    rcases hm.entering (Or.inl hin) hne with hout | hpassed
    · exact ⟨rfl, hout⟩
    · exact absurd hpassed hp
  | appendItem =>
    rcases h.2 with hpassed | hholding
    · have hpl : pl = .passed := hpassed
      subst hpl
      cases hm with
      | sleep hp hv hq => rcases hp with hp | hp <;> cases hp
      | pass hp hv hq => rcases hp with hp | hp <;> cases hp
      | note => exact ⟨rfl, Or.inr rfl⟩
    · exact absurd hholding (hl _ rfl)
  | appendRelease hp => exact ⟨rfl, hm.leaving h.2 hp⟩
  | appendReleased => exact ⟨rfl, rfl⟩
  | removeAcquire hp => exact ⟨rfl, hm.entering h.2 hp⟩
  | removeAcquired => exact ⟨rfl, rfl⟩
  | removeRelease hp => exact ⟨rfl, hm.leaving h.2 hp⟩
  | removeReleased => exact ⟨rfl, rfl⟩

theorem LockStage.cond_idle {p : LockPlace} {stage : ListStage α}
    (hs : LockStage place.stage p stage) (h : place.Coherent) : place.cond.stage = .idle := by
  obtain ⟨cond, stage₀⟩ := place
  dsimp only at hs
  cases hs <;> exact h.1

theorem LockStage.item {p : LockPlace} {stage stage' : ListStage α}
    (hs : LockStage stage p stage') : stage'.item = stage.item := by
  cases hs <;> rfl

variable [DecidableEq T]

/-- A move that leaves the list alone. -/
theorem Inv.stay (h : s.Inv f) {acquired : List (T × α)}
    (hmonitor : m.Inv fun u ↦ (Function.update f t place u).cond)
    (hposted : ∀ u, s.monitor.Posted (f u).cond.stage →
      m.Posted (Function.update f t place u).cond.stage ∨ u = t ∧ place.stage = .removeTest true)
    (hcoherent : place.Coherent)
    (hentering : Entering (Function.update f t place) s.appended acquired)
    (hjoining : place.cond.stage.joining = true → s.list = [])
    (hqueue : m.waitQueue ≠ [] → s.list ≠ [] → s.monitor.waitQueue ≠ [])
    (htest : (f t).stage = .removeTest true → s.list = []) :
    { s with monitor := m, acquired := acquired }.Inv (Function.update f t place) := by
  constructor
  · exact hmonitor
  · exact (Function.forall_update_iff f fun _ p ↦ p.Coherent).mpr
      ⟨hcoherent, fun u _ ↦ h.coherent u⟩
  · exact h.order
  · exact hentering
  · exact (Function.forall_update_iff f fun _ p ↦ p.cond.stage.joining = true → s.list = []).mpr
      ⟨hjoining, fun u _ ↦ h.joining u⟩
  · by_cases hl : s.list = []
    · refine ⟨[], List.nodup_nil, nofun, fun _ ↦ ?_⟩
      exact Nat.le_of_eq (congrArg List.length hl)
    · obtain ⟨l, hnodup, hsignalled, hlength⟩ := h.transit
      refine ⟨l, hnodup, fun u hu ↦ ?_, fun hq ↦ hlength (hqueue hq hl)⟩
      rcases hsignalled u hu with hstage | hp
      · have hne : u ≠ t := fun heq ↦ hl (htest (heq ▸ hstage))
        left
        rw [Function.update_of_ne hne]
        exact hstage
      · rcases hposted u hp with hp | ⟨rfl, hstage⟩
        · exact Or.inr hp
        · left
          rw [Function.update_self]
          exact hstage

theorem Inv.entering_same (h : s.Inv f) (hitem : place.stage.item = (f t).stage.item) :
    Entering (Function.update f t place) s.appended s.acquired := by
  obtain ⟨entering, hiff, hacquired⟩ := h.entering
  refine ⟨entering, fun u item ↦ ?_, hacquired⟩
  rw [view_update_same (fun p : ListPlace W α ↦ p.stage.item) hitem]
  exact hiff u item

variable [DecidableEq W]

/-- The same when the thread goes on in the code of lock and condition. -/
theorem Inv.stay_moves (h : s.Inv f) {acquired : List (T × α)}
    (hm : s.monitor.Moves t (f t).cond m place.cond)
    (hreturn : s.monitor.Posted (f t).cond.stage → place.cond.stage = .idle →
      place.stage = .removeTest true)
    (hcoherent : place.Coherent)
    (hentering : Entering (Function.update f t place) s.appended acquired)
    (hjoining : place.cond.stage.joining = true → s.list = [])
    (hqueue : m.waitQueue ≠ [] → s.list ≠ [] → s.monitor.waitQueue ≠ [])
    (htest : (f t).stage = .removeTest true → s.list = []) :
    { s with monitor := m, acquired := acquired }.Inv (Function.update f t place) := by
  have hcond := view_update ListPlace.cond f t place
  refine h.stay ?_ (fun u hp ↦ ?_) hcoherent hentering hjoining hqueue htest
  · rw [hcond]
    exact h.monitor.moves hm
  · rw [congrFun hcond u]
    rcases h.monitor.posted hm hp with hp' | ⟨rfl, hidle⟩
    · exact Or.inl hp'
    · exact Or.inr ⟨rfl, hreturn hp hidle⟩

/-! ## The moves -/

/-- Nobody else has the lock when a thread takes it. -/
theorem Inv.enter (h : s.Inv f) {cond : CondPlace W} {item : α}
    (hm : s.monitor.turn t .lock (f t).cond = .moved m cond)
    (hs : (f t).stage = .appendAcquire item) (hp : cond.lock = .passed) :
    { s with monitor := m, acquired := s.acquired ++ [(t, item)] }.Inv
      (Function.update f t ⟨cond, .appendItem item⟩) := by
  have hcoherent := h.coherent t
  rw [ListPlace.Coherent, hs] at hcoherent
  obtain ⟨lock, p, rfl, rfl, hlock⟩ := Monitor.lock_of_idle hcoherent.1 hm
  dsimp only at hp
  subst hp
  have hnobody := h.monitor.lock.nobody_of_value hlock.value_of_passed
  -- so no item is between its `Acquire` and the list
  have hnone : ∀ u, (f u).stage.item = none := by
    intro u
    have hc := h.coherent u
    have hout := hnobody u
    rw [ListPlace.Coherent] at hc
    cases hu : (f u).stage with
    | appendItem item =>
      rw [hu] at hc
      rcases hc.2 with hc | hc <;> (rw [hc] at hout; cases hout)
    | _ => rfl
  refine h.stay_moves (Monitor.moves_of_turn hm) (fun hposted ↦ ?_) ⟨rfl, Or.inl rfl⟩ ?_ nofun
    (fun hq _ ↦ hq) (fun heq ↦ by cases hs.symm.trans heq)
  · exact absurd hposted (Monitor.not_posted_of_own (by rw [hcoherent.1]; rfl))
  · obtain ⟨entering, hiff, hacquired⟩ := h.entering
    have hentering : entering = none := by
      cases he : entering with
      | none => rfl
      | some e =>
        have := (hiff e.1 e.2).mpr he
        rw [hnone] at this
        cases this
    refine ⟨some (t, item), fun u item' ↦ ?_, ?_⟩
    · by_cases hu : u = t
      · rw [hu, Function.update_self]
        simp [ListStage.item]
      · rw [Function.update_of_ne hu, hnone]
        simp [Ne.symm hu]
    · rw [hacquired, hentering]
      simp

/-- `Wait` is called when the list is empty. -/
theorem Inv.wait (h : s.Inv f) {cond : CondPlace W} {waited : Bool}
    (hs : (f t).stage = .removeTest waited) (hl : s.list = [])
    (hm : s.monitor.turn t .wait (f t).cond = .moved m cond) :
    { s with monitor := m }.Inv (Function.update f t ⟨cond, .removeWait⟩) := by
  have hcoherent := h.coherent t
  rw [ListPlace.Coherent, hs] at hcoherent
  have hmoves := Monitor.moves_of_turn hm
  have hcond : (f t).cond = ⟨.holding, .idle⟩ := by
    rw [← hcoherent.1, ← hcoherent.2]
  rw [hcond] at hm
  cases hm
  refine h.stay_moves hmoves (fun _ ↦ nofun) rfl (h.entering_same ?_) (fun _ ↦ hl)
    (fun hq _ ↦ hq) (fun _ ↦ hl)
  rw [hs]
  rfl

theorem Inv.waiting (h : s.Inv f) {cond : CondPlace W} {choice : CondChoice W}
    (hs : (f t).stage = .removeWait)
    (hm : s.monitor.turn t choice (f t).cond = .moved m cond) :
    { s with monitor := m }.Inv (Function.update f t ⟨cond, .afterWait cond.stage⟩) := by
  have hcoherent := h.coherent t
  rw [ListPlace.Coherent, hs] at hcoherent
  have hmoves := Monitor.moves_of_turn hm
  obtain ⟨hstage, hjoining, hqueue⟩ := hmoves.inWait hcoherent
  refine h.stay_moves hmoves (fun _ hidle ↦ ?_) ?_ (h.entering_same ?_) ?_ (fun hq hne ↦ ?_)
    (fun heq ↦ by cases hs.symm.trans heq)
  · dsimp only at hidle ⊢
    rw [hidle]
    rfl
  · rcases hstage with hin | ⟨hidle, hlock, hcritical⟩
    · have hstage : (ListStage.afterWait cond.stage : ListStage α) = .removeWait := by
        cases hc : cond.stage with
        | idle =>
          rw [hc] at hin
          cases hin
        | _ => rfl
      rw [ListPlace.Coherent, hstage]
      exact hin
    · rw [ListPlace.Coherent, hidle]
      exact ⟨rfl, hlock.trans (Monitor.holding_of_critical (h.monitor.coherent t) hcritical)⟩
  · rw [hs]
    cases cond.stage <;> rfl
  · exact fun hj ↦ h.joining t (hjoining hj)
  · rcases hqueue with hsame | hj
    · rwa [← hsame]
    · exact absurd (h.joining t hj) hne

omit [DecidableEq W] in
theorem Inv.call (h : s.Inv f) {stage : ListStage α} (hs : (f t).stage = .idle)
    (hnew : stage = .removeAcquire ∨ ∃ item, stage = .appendAcquire item) :
    s.Inv (Function.update f t ⟨(f t).cond, stage⟩) := by
  have hcoherent := h.coherent t
  rw [ListPlace.Coherent, hs] at hcoherent
  have hcond : ∀ u, (Function.update f t ⟨(f t).cond, stage⟩ u).cond = (f u).cond :=
    view_update_same ListPlace.cond rfl
  refine h.stay (m := s.monitor) ?_ (fun u hp ↦ Or.inl ?_) ?_ (h.entering_same ?_) (h.joining t)
    (fun hq _ ↦ hq) (fun heq ↦ by cases hs.symm.trans heq)
  · simp only [hcond]
    exact h.monitor
  · rwa [hcond]
  · rw [ListPlace.Coherent]
    rcases hnew with rfl | ⟨item, rfl⟩
    · exact ⟨hcoherent.1, Or.inl (by rw [hcoherent.2]; rfl)⟩
    · exact ⟨hcoherent.1, by rw [hcoherent.2]; rfl⟩
  · rw [hs]
    rcases hnew with rfl | ⟨item, rfl⟩ <;> rfl

theorem Inv.lock (h : s.Inv f) {cond : CondPlace W} {stage : ListStage α}
    (hm : s.monitor.turn t .lock (f t).cond = .moved m cond)
    (hs : LockStage (f t).stage cond.lock stage)
    (hl : ∀ item, (f t).stage = .appendItem item → (f t).cond.lock ≠ .holding) :
    { s with monitor := m }.Inv (Function.update f t ⟨cond, stage⟩) := by
  have hidle := hs.cond_idle (h.coherent t)
  obtain ⟨lock, p, rfl, rfl, hlock⟩ := Monitor.lock_of_idle hidle hm
  refine h.stay_moves (Monitor.moves_of_turn hm) (fun hposted ↦ ?_)
    (coherent_of_lockStage (h.coherent t) hlock hs hl) (h.entering_same hs.item) nofun
    (fun hq _ ↦ hq) fun htest ↦ ?_
  · exact absurd hposted (Monitor.not_posted_of_own (by rw [hidle]; rfl))
  · rw [htest] at hs
    cases hs

omit [DecidableEq T] [DecidableEq W] in
/-- One thread at a time is between `Acquire` and `Release`. -/
theorem Inv.only (h : s.Inv f) (ht : (f t).cond.lock.inside = true)
    (hu : (f u).cond.stage.critical = true) : u = t := by
  refine h.monitor.lock.unique u t ?_ ht
  rw [Monitor.holding_of_critical (h.monitor.coherent u) hu]
  rfl

omit [DecidableEq W] in
/-- A thread removes the first item. If it was signalled, there is one signalled thread less. -/
theorem Inv.remove (h : s.Inv f) {waited : Bool} {item : α} {rest : List α}
    (hs : (f t).stage = .removeTest waited) (hl : s.list = item :: rest) :
    { s with list := rest, removed := s.removed ++ [(t, item)] }.Inv
      (Function.update f t ⟨(f t).cond, .removeRelease item⟩) := by
  have hcoherent := h.coherent t
  rw [ListPlace.Coherent, hs] at hcoherent
  have hcond : ∀ u, (Function.update f t ⟨(f t).cond, .removeRelease item⟩ u).cond = (f u).cond :=
    view_update_same ListPlace.cond rfl
  constructor
  · simp only [hcond]
    exact h.monitor
  · refine (Function.forall_update_iff f fun _ p ↦ p.Coherent).mpr ⟨?_, fun u _ ↦ h.coherent u⟩
    refine ⟨hcoherent.1, ?_, ?_⟩ <;> rw [hcoherent.2]
    · rfl
    · nofun
  · change s.appended.map Prod.snd = (s.removed ++ [(t, item)]).map Prod.snd ++ rest
    rw [h.order, hl, List.map_append, List.append_assoc]
    rfl
  · exact h.entering_same (by rw [hs]; rfl)
  · intro u hu
    rw [hcond] at hu
    rw [h.joining u hu] at hl
    cases hl
  · obtain ⟨l, hnodup, hsignalled, hlength⟩ := h.transit
    refine ⟨l.erase t, hnodup.erase t, fun u hu ↦ ?_, fun hq ↦ ?_⟩
    · obtain ⟨hne, hmem⟩ := (hnodup.mem_erase_iff).mp hu
      rw [Function.update_of_ne hne]
      exact hsignalled u hmem
    · have hle : (item :: rest).length ≤ l.length := hl ▸ hlength hq
      have := List.length_erase (a := t) (l := l)
      rw [List.length_cons] at hle
      change rest.length ≤ (l.erase t).length
      split at this <;> omega

omit [DecidableEq T] [DecidableEq W] in
/-- Who is on the queue was not signalled. -/
theorem Inv.not_signalled (h : s.Inv f) {w : W} (hw : w ∈ s.monitor.waitQueue)
    (hown : (f u).cond.stage.own = some w) : ¬ s.Signalled (f u) := by
  obtain ⟨selected, hws⟩ := h.monitor.waiters
  rintro (hs | ⟨w', x, hown', hx, hposts⟩)
  · have hcoherent := h.coherent u
    rw [ListPlace.Coherent, hs] at hcoherent
    rw [hcoherent.1] at hown
    cases hown
  · rw [hown] at hown'
    cases hown'
    have hzero := ((hws.ok w x hx).waiting_iff.mp (Or.inl hw)).1
    rw [hposts] at hzero
    cases hzero

theorem Inv.signal_moved (h : s.Inv f) (ht : (f t).cond = ⟨.holding, .idle⟩) :
    ∃ m, s.monitor.signal t (f t).cond = .moved m (f t).cond := by
  cases hq : s.monitor.waitQueue with
  | nil => exact ⟨_, Monitor.signal_nobody (f := fun u ↦ (f u).cond) h.monitor ht hq⟩
  | cons w rest =>
    obtain ⟨x, x', -, -, -, -, hsignal, -⟩ :=
      Monitor.signal_first (f := fun u ↦ (f u).cond) h.monitor ht hq
    exact ⟨_, hsignal⟩

/-- With the item to be appended there is one item more, and the first of the queue, if anybody
waits, becomes a signalled thread. -/
theorem Inv.signal (h : s.Inv f) {cond : CondPlace W} (ht : (f t).cond = ⟨.holding, .idle⟩)
    (hs : (f t).stage ≠ .removeTest true)
    (hm : s.monitor.signal t (f t).cond = .moved m cond) :
    cond = (f t).cond ∧ m.Inv (fun u ↦ (f u).cond) ∧
    ∃ l : List T, l.Nodup ∧ (∀ u ∈ l, u ≠ t ∧ { s with monitor := m }.Signalled (f u)) ∧
      (m.waitQueue ≠ [] → s.list.length + 1 ≤ l.length) := by
  -- the thread that signals is not one of those on their way to the list
  have hnot : ¬ s.Signalled (f t) := by
    rintro (hstage | hposted)
    · exact hs hstage
    · exact Monitor.not_posted_of_own (by rw [ht]; rfl) hposted
  cases hq : s.monitor.waitQueue with
  | nil =>
    rw [Monitor.signal_nobody (f := fun u ↦ (f u).cond) h.monitor ht hq] at hm
    cases hm
    exact ⟨rfl, h.monitor, [], List.nodup_nil, nofun, fun hne ↦ absurd hq hne⟩
  | cons w rest =>
    obtain ⟨x, x', hx, hposts, hxo, hposts', hsignal, hinv⟩ :=
      Monitor.signal_first (f := fun u ↦ (f u).cond) h.monitor ht hq
    rw [hsignal] at hm
    cases hm
    refine ⟨rfl, hinv, ?_⟩
    have hheap : ∀ w', (s.monitor.posted w rest x').heap w'
        = if w' = w then some x' else s.monitor.heap w' := fun w' ↦
      Monitor.setWaiter_heap _ w w' _
    obtain ⟨selected, hws⟩ := h.monitor.waiters
    have hown : (f x.owner).cond.stage.own = some w := (hws.own_iff x.owner w).mpr ⟨x, hx, rfl⟩
    obtain ⟨l, hnodup, hsignalled, hlength⟩ := h.transit
    -- the owner of the first semaphore was still waiting, so it makes one more
    have hfirst : x.owner ∉ l := fun hmem ↦
      h.not_signalled (by rw [hq]; exact List.mem_cons_self) hown (hsignalled _ hmem)
    refine ⟨x.owner :: l, List.nodup_cons.mpr ⟨hfirst, hnodup⟩, fun u hu ↦ ?_, fun _ ↦ ?_⟩
    · rcases List.mem_cons.mp hu with rfl | hu
      · refine ⟨fun heq ↦ ?_, Or.inr ⟨w, x', hown, (hheap w).trans (if_pos rfl), hposts'⟩⟩
        rw [heq, ht] at hown
        cases hown
      · refine ⟨fun heq ↦ hnot (heq ▸ hsignalled u hu), ?_⟩
        rcases hsignalled u hu with hstage | ⟨w', y, hown', hy, hyposts⟩
        · exact Or.inl hstage
        · have hne : w' ≠ w := by
            rintro rfl
            rw [hx] at hy
            cases hy
            rw [hposts] at hyposts
            cases hyposts
          exact Or.inr ⟨w', y, hown', (hheap w').trans ((if_neg hne).trans hy), hyposts⟩
    · exact Nat.succ_le_succ (hlength (by rw [hq]; exact List.cons_ne_nil w rest))

/-- A thread appends its item and signals. -/
theorem Inv.append (h : s.Inv f) {cond : CondPlace W} {item : α}
    (hs : (f t).stage = .appendItem item) (hl : (f t).cond.lock = .holding)
    (hm : s.monitor.signal t (f t).cond = .moved m cond) :
    { s with monitor := m, list := s.list ++ [item], appended := s.appended ++ [(t, item)] }.Inv
      (Function.update f t ⟨cond, .appendRelease⟩) := by
  have hcoherent := h.coherent t
  rw [ListPlace.Coherent, hs] at hcoherent
  have ht : (f t).cond = ⟨.holding, .idle⟩ := by
    rw [← hcoherent.1, ← hl]
  obtain ⟨rfl, hmonitor, l, hnodup, hsignalled, hlength⟩ :=
    h.signal ht (fun heq ↦ by cases hs.symm.trans heq) hm
  have hcond : ∀ u, (Function.update f t ⟨(f t).cond, .appendRelease⟩ u).cond = (f u).cond :=
    view_update_same ListPlace.cond rfl
  constructor
  · simp only [hcond]
    exact hmonitor
  · refine (Function.forall_update_iff f fun _ p ↦ p.Coherent).mpr ⟨?_, fun u _ ↦ h.coherent u⟩
    refine ⟨hcoherent.1, ?_, ?_⟩ <;> rw [hl]
    · rfl
    · nofun
  · change (s.appended ++ [(t, item)]).map Prod.snd
      = s.removed.map Prod.snd ++ (s.list ++ [item])
    rw [List.map_append, h.order, List.append_assoc]
    rfl
  · obtain ⟨entering, hiff, hacquired⟩ := h.entering
    have hentering := (hiff t item).mp (by rw [hs]; rfl)
    refine ⟨none, fun u item' ↦ ?_, ?_⟩
    · refine ⟨fun hu ↦ ?_, nofun⟩
      by_cases hne : u = t
      · rw [hne, Function.update_self] at hu
        cases hu
      · rw [Function.update_of_ne hne, hiff, hentering] at hu
        cases hu
        exact absurd rfl hne
    · rw [hacquired, hentering]
      simp
  · intro u hu
    rw [hcond] at hu
    -- a thread about to join the queue has the lock, and `t` has it
    have heq : u = t := h.only (by rw [hl]; rfl) (CondStage.critical_of_joining hu)
    rw [heq, ht] at hu
    cases hu
  · refine ⟨l, hnodup, fun u hu ↦ ?_, fun hq ↦ ?_⟩
    · rw [Function.update_of_ne (hsignalled u hu).1]
      exact (hsignalled u hu).2
    · change (s.list ++ [item]).length ≤ l.length
      rw [List.length_append]
      exact hlength hq

theorem Inv.moves {s' : SynchList T W α} (h : s.Inv f) (hm : s.Moves t (f t) s' place) :
    s'.Inv (Function.update f t place) := by
  cases hm with
  | call hs hnew => exact h.call hs hnew
  | lock hm hs hl => exact h.lock hm hs hl
  | enter hm hs hp => exact h.enter hm hs hp
  | append hs hl hm => exact h.append hs hl hm
  | wait hs hl hm => exact h.wait hs hl hm
  | remove hs hl => exact h.remove hs hl
  | waiting hs hm => exact h.waiting hs hm

/-! ## Every interleaving -/

omit [DecidableEq T] [DecidableEq W] in
theorem inv_start :
    (start : Config T (SynchList T W α) (ListPlace W α)).shared.Inv start.place := by
  refine ⟨Monitor.inv_start, fun _ ↦ ⟨rfl, rfl⟩, rfl, ⟨none, fun _ _ ↦ ?_, rfl⟩, nofun, [],
    List.nodup_nil, nofun, fun _ ↦ Nat.zero_le _⟩
  exact ⟨nofun, nofun⟩

variable [DecidableEq α]

omit [DecidableEq α] in
theorem Inv.lockTurn_not_crashed (h : s.Inv f) {next : LockPlace → ListStage α}
    {e : MonitorCrash} : s.lockTurn t (f t) next ≠ .crashed e := by
  intro hc
  rcases Turn.bind_crashed hc with hc | ⟨m, cond, -, hc⟩
  · exact h.monitor.not_crashed .lock e hc
  · cases hc

/-- The only assertion that can fail is that an item is not on the list already. -/
theorem Inv.mem_of_crashed (h : s.Inv f) {choice : ListChoice W α} {e : MonitorCrash}
    (hc : s.turn t choice (f t) = .crashed e) :
    ∃ item, (f t).stage = .appendItem item ∧ item ∈ s.list := by
  have hcoherent := h.coherent t
  rw [ListPlace.Coherent] at hcoherent
  rw [turn.eq_def] at hc
  cases hs : (f t).stage with
  | idle =>
    rw [hs] at hc
    cases choice <;> cases hc
  | appendAcquire item =>
    rw [hs] at hc
    rcases Turn.bind_crashed hc with hc | ⟨m, cond, -, hc⟩
    · exact absurd hc (h.monitor.not_crashed .lock e)
    · split at hc <;> cases hc
  | appendItem item =>
    rw [hs] at hc hcoherent
    dsimp only at hc
    by_cases hl : (f t).cond.lock = .holding
    · rw [if_pos hl] at hc
      by_cases hitem : item ∈ s.list
      · exact ⟨item, rfl, hitem⟩
      · rw [listAppend_of_not_mem hitem] at hc
        obtain ⟨m, hm⟩ := h.signal_moved (t := t) (by rw [← hcoherent.1, ← hl])
        rw [hm] at hc
        cases hc
    · rw [if_neg hl] at hc
      exact absurd hc h.lockTurn_not_crashed
  | appendRelease =>
    rw [hs] at hc
    exact absurd hc h.lockTurn_not_crashed
  | removeAcquire =>
    rw [hs] at hc
    exact absurd hc h.lockTurn_not_crashed
  | removeTest waited =>
    rw [hs] at hc
    dsimp only at hc
    cases hl : s.list with
    | nil =>
      rw [hl, if_pos rfl] at hc
      rcases Turn.bind_crashed hc with hc | ⟨m, cond, -, hc⟩
      · exact absurd hc (h.monitor.not_crashed .wait e)
      · cases hc
    | cons item rest =>
      rw [hl, if_neg (List.cons_ne_nil item rest)] at hc
      cases hc
  | removeWait =>
    rw [hs] at hc
    rcases Turn.bind_crashed hc with hc | ⟨m, cond, -, hc⟩
    · exact absurd hc (h.monitor.not_crashed choice.inWait e)
    · cases hc
  | removeRelease item =>
    rw [hs] at hc
    exact absurd hc h.lockTurn_not_crashed

/-- A signalled thread is not held up in `P`. -/
theorem Inv.signalled_turn (h : s.Inv f) {w : W} (ht : s.Signalled (f t))
    (hstage : (f t).cond.stage = .waitTest w ∨ (f t).cond.stage = .waitSleep w)
    (choice : ListChoice W α) : ∃ s' place', s.turn t choice (f t) = .moved s' place' := by
  have hown : (f t).cond.stage.own = some w := by
    rcases hstage with hstage | hstage <;> (rw [hstage]; rfl)
  have hwait : (f t).stage = .removeWait := by
    have hcoherent := h.coherent t
    rw [ListPlace.Coherent] at hcoherent
    cases hs : (f t).stage with
    | removeWait => rfl
    | _ =>
      rw [hs] at hcoherent
      rw [hcoherent.1] at hown
      cases hown
  rcases ht with htest | ⟨w', x, hown', hx, hposts⟩
  · rw [hwait] at htest
    cases htest
  · rw [hown] at hown'
    cases hown'
    obtain ⟨m, hm⟩ := h.monitor.posted_turn hstage hx hposts choice.inWait
    rw [turn.eq_def, hwait]
    dsimp only
    rw [hm]
    exact ⟨_, _, rfl⟩

end moves

/-! ## The calls -/

/-- What the stages mean for the call that a thread is in: an `Append` has an item to append, and a
`RemoveFront` comes back with one. -/
def callSpec : CallSpec (ListPlace W α) (ListChoice W α) α α where
  idle place :=
    match place.stage with
    | .idle => true
    | _ => false
  given
    | .append item => some item
    | .removeFront | .address _ => none
  outstanding place :=
    match place.stage with
    | .appendAcquire item | .appendItem item => some item
    | _ => none
  hand place :=
    match place.stage with
    | .removeRelease item => some item
    | _ => none
  inCall choice place :=
    match choice with
    | .append _ => place.stage.appending = true
    | .removeFront => place.stage.removing = true
    | .address _ => False
  answers choice result :=
    match choice with
    | .append _ => result = none
    | .removeFront => ∃ item, result = some item
    | .address _ => False
  idle_empty place hidle := by
    cases hs : place.stage <;> simp [hs] at hidle ⊢

section calls

variable [DecidableEq T] [DecidableEq W] [DecidableEq α] {t : T} {s s' : SynchList T W α}
  {place place' : ListPlace W α}

omit [DecidableEq T] [DecidableEq W] [DecidableEq α] in
/-- A thread goes on in its call. -/
theorem turns_inside {choice : ListChoice W α} {entries gets : List α}
    (hl : callSpec.idle place = false) (hl' : callSpec.idle place' = false)
    (happending : place'.stage.appending = place.stage.appending)
    (hremoving : place'.stage.removing = place.stage.removing)
    (hentries : entries ++ (callSpec.outstanding place').toList
      = (callSpec.outstanding place).toList)
    (hgets : (callSpec.hand place').toList = (callSpec.hand place).toList ++ gets) :
    callSpec.Turns choice place entries gets place' := by
  refine .inside hl hl' (fun j hj ↦ ?_) hentries hgets
  cases j with
  | append item => exact happending.trans hj
  | removeFront => exact hremoving.trans hj
  | address w => exact hj.elim

omit [DecidableEq T] [DecidableEq W] [DecidableEq α] in
theorem LockStage.turns {cond : CondPlace W} {stage : ListStage α} {choice : ListChoice W α}
    (hs : LockStage place.stage cond.lock stage) :
    callSpec.Turns choice place [] [] ⟨cond, stage⟩ := by
  obtain ⟨cond₀, stage₀⟩ := place
  dsimp only at hs
  generalize cond.lock = p at hs
  cases hs with
  | appendReleased =>
    refine .leave rfl rfl rfl rfl rfl fun j hj ↦ ?_
    cases j with
    | append item => rfl
    | removeFront => cases hj
    | address w => exact hj.elim
  | removeReleased =>
    refine .leave rfl rfl rfl rfl rfl fun j hj ↦ ?_
    cases j with
    | append item => cases hj
    | removeFront => exact ⟨_, rfl⟩
    | address w => exact hj.elim
  | appendAcquire hp => exact turns_inside rfl rfl rfl rfl rfl rfl
  | appendItem => exact turns_inside rfl rfl rfl rfl rfl rfl
  | appendRelease hp => exact turns_inside rfl rfl rfl rfl rfl rfl
  | removeAcquire hp => exact turns_inside rfl rfl rfl rfl rfl rfl
  | removeAcquired => exact turns_inside rfl rfl rfl rfl rfl rfl
  | removeRelease hp => exact turns_inside rfl rfl rfl rfl rfl rfl

omit [DecidableEq T] [DecidableEq W] [DecidableEq α] in
private theorem turns_of_call {choice : ListChoice W α} (hs : place.stage = .idle)
    (hnew : choice = .removeFront ∧ place' = ⟨place.cond, .removeAcquire⟩ ∨
      ∃ item, choice = .append item ∧ place' = ⟨place.cond, .appendAcquire item⟩) :
    callSpec.Turns choice place [] [] place' := by
  have hidle : callSpec.idle place = true := by simp [callSpec, hs]
  rcases hnew with ⟨rfl, rfl⟩ | ⟨item, rfl, rfl⟩
  · exact .enter hidle rfl rfl rfl rfl rfl rfl
  · exact .enter hidle rfl rfl rfl rfl rfl rfl

/-- What a turn means for the call that the thread is in. -/
theorem turns_of_turn {choice : ListChoice W α} (h : s.turn t choice place = .moved s' place') :
    ∃ entries gets, callSpec.Turns choice place entries gets place' ∧
      s'.appended = s.appended ++ entries.map (fun a ↦ (t, a)) ∧
      s'.removed = s.removed ++ gets.map fun a ↦ (t, a) := by
  have hsame : s'.appended = s.appended → s'.removed = s.removed →
      callSpec.Turns choice place [] [] place' →
      ∃ entries gets, callSpec.Turns choice place entries gets place' ∧
        s'.appended = s.appended ++ entries.map (fun a ↦ (t, a)) ∧
        s'.removed = s.removed ++ gets.map fun a ↦ (t, a) := by
    intro happended hremoved hturns
    exact ⟨[], [], hturns, by simp [happended], by simp [hremoved]⟩
  have hmoves := moves_of_turn h
  cases hmoves with
  | call hs hnew =>
    -- which call it is depends on the choice
    rw [turn.eq_def, hs] at h
    cases choice with
    | append item =>
      cases h
      exact hsame rfl rfl (turns_of_call hs (Or.inr ⟨item, rfl, rfl⟩))
    | removeFront =>
      cases h
      exact hsame rfl rfl (turns_of_call hs (Or.inl ⟨rfl, rfl⟩))
    | address w => cases h
  | lock hm hs hl => exact hsame rfl rfl hs.turns
  | enter hm hs hp =>
    obtain ⟨cond, stage⟩ := place
    cases hs
    exact hsame rfl rfl (turns_inside rfl rfl rfl rfl rfl rfl)
  | @append m cond item hs hl hm =>
    obtain ⟨cond₀, stage⟩ := place
    cases hs
    exact ⟨[item], [], turns_inside rfl rfl rfl rfl rfl rfl, rfl, (List.append_nil _).symm⟩
  | wait hs hl hm =>
    obtain ⟨cond, stage⟩ := place
    cases hs
    exact hsame rfl rfl (turns_inside rfl rfl rfl rfl rfl rfl)
  | @remove waited item rest hs hl =>
    obtain ⟨cond, stage⟩ := place
    cases hs
    exact ⟨[], [item], turns_inside rfl rfl rfl rfl rfl rfl, (List.append_nil _).symm, rfl⟩
  | @waiting m cond choice' hs hm =>
    obtain ⟨cond₀, stage⟩ := place
    cases hs
    obtain ⟨lock, stage⟩ := cond
    cases stage <;> exact hsame rfl rfl (turns_inside rfl rfl rfl rfl rfl rfl)

end calls

/-! ## Every run -/

/-- A configuration with a record of the calls of each thread, and of what they came back with. -/
abbrev ListConfig (T W α : Type) :=
  Config T (SynchList T W α) (Noted (ListPlace W α) (ListChoice W α) (Option α))

/-- Where a run can lead. -/
def Runs [DecidableEq T] [DecidableEq W] [DecidableEq α] (c : ListConfig T W α) : Prop :=
  Reaches (noting callSpec.idle callSpec.hand turn) noOutside start.noted c

/-- What can be relied on in the configuration `c`, when `calls` are the calls of the threads. -/
structure IsQueue [DecidableEq T] [DecidableEq W] [DecidableEq α]
    (c : Config T (SynchList T W α) (ListPlace W α))
    (calls : T → Calls (ListChoice W α) (Option α)) : Prop where
  /-- Nothing is lost or duplicated: what was removed comes first, what is on the list follows. -/
  order : c.shared.appended.map Prod.snd = c.shared.removed.map Prod.snd ++ c.shared.list
  /-- Each thread has appended the items of the calls of `Append` that it has made, in order. The
  item of the call it is in may be outstanding. -/
  appends : ∀ t, entriesOf c.shared.appended t ++ (callSpec.outstanding (c.place t)).toList =
    (calls t).made.filterMap callSpec.given
  /-- Each thread has removed the items that its calls came back with, in order, and the one in its
  hands. -/
  removes : ∀ t, entriesOf c.shared.removed t =
    (calls t).back.filterMap Prod.snd ++ (callSpec.hand (c.place t)).toList
  /-- Every `RemoveFront` that came back has come back with an item. -/
  returns : ∀ t, ∀ e ∈ (calls t).back, callSpec.answers e.1 e.2
  /-- A thread is in a call from the time when it makes it until it comes back. -/
  current : ∀ t, (calls t).current = none ↔ (c.place t).stage = .idle
  /-- Items are appended in the order in which the calls of `Append` got the lock; the item of the
  last one may be outstanding. -/
  acquired : ∃ outstanding : List (T × α), outstanding.length ≤ 1 ∧
    c.shared.acquired = c.shared.appended ++ outstanding
  removed : c.shared.removed.map Prod.snd <+: c.shared.acquired.map Prod.snd
  /-- No assertion fails, unless an item is appended that is on the list; so `List::RemoveFront` is
  never called on an empty list. -/
  crash : ∀ t choice e, c.shared.turn t choice (c.place t) = .crashed e →
    ∃ item, (c.place t).stage = .appendItem item ∧ item ∈ c.shared.list
  /-- A thread that finds the list not empty returns the first item. -/
  remove : ∀ t waited choice, (c.place t).stage = .removeTest waited → c.shared.list ≠ [] →
    ∃ item rest, c.shared.list = item :: rest ∧ c.shared.turn t choice (c.place t) =
      .moved { c.shared with list := rest, removed := c.shared.removed ++ [(t, item)] }
        ⟨(c.place t).cond, .removeRelease item⟩
  /-- While anybody waits, there are as many signalled threads as items. -/
  transit : c.shared.monitor.waitQueue ≠ [] → ∃ l : List T, l.Nodup ∧
    (∀ t ∈ l, c.shared.Signalled (c.place t)) ∧ c.shared.list.length ≤ l.length
  /-- So a thread that waits for its signal does not wait beside an item that nobody else takes. -/
  alone : ∀ u w, (c.place u).cond.stage.own = some w → w ∈ c.shared.monitor.waitQueue →
    c.shared.list ≠ [] → ∃ t, t ≠ u ∧ c.shared.Signalled (c.place t)
  awake : ∀ t w choice, c.shared.Signalled (c.place t) →
    (c.place t).cond.stage = .waitTest w ∨ (c.place t).cond.stage = .waitSleep w →
    ∃ s place, c.shared.turn t choice (c.place t) = .moved s place

theorem kept_of_runs [DecidableEq T] [DecidableEq W] [DecidableEq α] {c : ListConfig T W α}
    (hc : Runs c) : c.shared.Inv c.plain.place ∧ ∀ t,
      callSpec.Kept (entriesOf c.shared.appended t) (entriesOf c.shared.removed t) (c.calls t)
        (c.plain.place t) := by
  refine CallSpec.kept_of_reaches Inv appended removed ⟨inv_start, rfl, rfl, fun _ ↦ rfl⟩ ?_
    (fun _ _ _ _ h ↦ h.elim) hc
  intro s f t choice s' place h hturn
  exact ⟨h.moves (moves_of_turn hturn), turns_of_turn hturn⟩

theorem synchList_isQueue [DecidableEq T] [DecidableEq W] [DecidableEq α] {c : ListConfig T W α}
    (hc : Runs c) : IsQueue c.plain c.calls := by
  obtain ⟨h, hkept⟩ := kept_of_runs hc
  obtain ⟨entering, -, hacquired⟩ := h.entering
  obtain ⟨l, hnodup, hsignalled, hlength⟩ := h.transit
  constructor
  · exact h.order
  · exact fun t ↦ (hkept t).entered
  · exact fun t ↦ (hkept t).handed
  · exact fun t ↦ (hkept t).answered
  · intro t
    constructor
    · intro hnone
      by_contra hne
      have hbusy : callSpec.idle (c.plain.place t) = false := by
        cases hs : (c.plain.place t).stage <;> simp_all [callSpec]
      obtain ⟨i, hi, -⟩ := (hkept t).inCall hbusy
      rw [hnone] at hi
      cases hi
    · intro hidle
      exact (hkept t).idle (by simp [callSpec, hidle])
  · exact ⟨entering.toList, by cases entering <;> simp, hacquired⟩
  · rw [Config.plain, hacquired, List.map_append, h.order, List.append_assoc]
    exact List.prefix_append _ _
  · exact fun t choice e hcrash ↦ h.mem_of_crashed hcrash
  · intro t waited choice ht hne
    obtain ⟨item, rest, hl⟩ := List.exists_cons_of_ne_nil hne
    refine ⟨item, rest, hl, ?_⟩
    rw [turn.eq_def, ht]
    dsimp only
    rw [if_neg hne, hl]
    rfl
  · exact fun hq ↦ ⟨l, hnodup, hsignalled, hlength hq⟩
  · intro u w hown hw hne
    have hlt : 0 < l.length :=
      Nat.lt_of_lt_of_le (List.length_pos_of_ne_nil hne) (hlength (List.ne_nil_of_mem hw))
    have hmem := List.getElem_mem hlt
    exact ⟨l[0], fun heq ↦ h.not_signalled hw hown (heq ▸ hsignalled _ hmem), hsignalled _ hmem⟩
  · exact fun t w choice hsig hstage ↦ h.signalled_turn hsig hstage choice

/-- The thread `t` finds the list empty and waits, on the semaphore `w`. -/
def waitTurns (t : ℕ) (w : ℕ) : List (ℕ × ListChoice ℕ ℕ) :=
  List.replicate 6 (t, .removeFront) ++ (t, .address w) :: List.replicate 6 (t, .removeFront)

/-- Two threads wait. A third appends an item, which wakes up the first; that removes the item and
waits again. The third thread appends another item. -/
def appendSchedule : List (ℕ × ListChoice ℕ ℕ) :=
  waitTurns 0 0 ++ (waitTurns 1 1 ++ List.replicate 9 (2, .append 7)) ++
    List.replicate 10 (0, .removeFront) ++ (waitTurns 0 0 ++ List.replicate 5 (2, .append 8))

def signalled : ListConfig ℕ ℕ ℕ :=
  (start.noted.follow (noting callSpec.idle callSpec.hand turn) appendSchedule).get
    (by decide +kernel)

theorem signalled_transit : signalled.shared.list = [8] ∧
    (signalled.calls 0).back.map Prod.snd = [some 7] ∧
    IsQueue signalled.plain signalled.calls ∧
    ∃ t, t ≠ 0 ∧ signalled.shared.Signalled (signalled.plain.place t) := by
  have hc : Runs signalled := Reaches.refl.follow (Option.some_get _).symm
  have hqueue := synchList_isQueue hc
  have hlist : signalled.shared.list = [8] := by decide +kernel
  refine ⟨hlist, by decide +kernel, hqueue,
    hqueue.alone 0 0 (by decide +kernel) (by decide +kernel) ?_⟩
  change signalled.shared.list ≠ []
  rw [hlist]
  exact List.cons_ne_nil 8 []

end SynchList

end Threads

end Nachos
