import Mathlib.Data.Nat.Notation
import Nachos.Lib.List
import Nachos.Program.Exec

/-!
# The simulated clock and the interrupts that wait for it

Devices ask for an interrupt some ticks from now; the requests wait in a sorted list. Time passes
when interrupts are enabled and when a user instruction is executed, and it jumps ahead when the
machine idles. Each time `CheckIfDue` fires what is due: it takes the first interrupt off the list
and calls its handler, until the first one left is in the future. Handlers may schedule new
interrupts while this goes on. They are all in the future, so each lands behind whatever is still to
be fired, and the loop fires exactly the interrupts that were due when it began.

What a handler does besides is the business of the rest of the kernel, the `world`; a handler is any
function on it. A handler runs with interrupts off and cannot make time pass. Clock values are
natural numbers: the counters are taken to stay below `2³¹`.

The loop is given a number of rounds; as many as there are interrupts waiting is enough.
-/

namespace Nachos

namespace Interrupts

open Program

inductive IntStatus where
  | intOff | intOn
  deriving DecidableEq, Repr

inductive MachineStatus where
  | idleMode | systemMode | userMode
  deriving DecidableEq, Repr

/-- Why the simulation stops: a failed `ASSERT`, the end of a program with nothing left to wait for,
or (of the model only) a loop that took too many rounds. -/
inductive Stopped where
  | assertFailed
  | halted
  | outOfRounds
  deriving DecidableEq, Repr

/-- `class PendingInterrupt`. The object is told from others by the number of the call of `Schedule`
that made it. -/
structure PendingInterrupt (H : Type) where
  callOnInterrupt : H
  when : ℕ
  number : ℕ
  deriving DecidableEq, Repr

/-- `PendingCompare`. -/
def pendingCompare {H : Type} (x y : PendingInterrupt H) : ℤ :=
  if x.when < y.when then -1 else if y.when < x.when then 1 else 0

/-- What a handler does: to the world, to the list of interrupts (the calls of `Schedule` it makes,
in order), and whether it asks for a context switch. Devices schedule ahead of time. -/
structure Handlers (H W : Type) where
  callBack : H → W → W × List (H × ℤ) × Bool
  ahead : ∀ h w, ∀ request ∈ (callBack h w).2.1, 0 < request.2

/-- `class Interrupt`, the counters of `class Statistics` that it advances, and a record of what was
fired and when. -/
structure State (H W : Type) where
  level : IntStatus
  pending : List (PendingInterrupt H)
  inHandler : Bool
  yieldOnReturn : Bool
  status : MachineStatus
  totalTicks : ℕ
  idleTicks : ℕ
  systemTicks : ℕ
  userTicks : ℕ
  world : W
  /-- The number of calls of `Schedule` so far. -/
  scheduled : ℕ
  fired : List (PendingInterrupt H × ℕ)

@[simp] abbrev userTick : ℕ := 1

@[simp] abbrev systemTick : ℕ := 10

variable {H W : Type} [DecidableEq H]

abbrev Sim (H W : Type) := EStateM Stopped (State H W)

/-- `Interrupt::Schedule`. -/
def schedule (toCall : H) (fromNow : ℤ) : Sim H W Unit := do
  let s ← get
  let toOccur : PendingInterrupt H := ⟨toCall, (s.totalTicks + fromNow).toNat, s.scheduled⟩
  if ¬0 < fromNow then throw .assertFailed
  match sortedListInsert pendingCompare s.pending toOccur with
  | none => throw .assertFailed
  | some l => set { s with pending := l, scheduled := s.scheduled + 1 }

/-- The calls of `Schedule` a handler makes. -/
def scheduleAll : List (H × ℤ) → Sim H W Unit
  | [] => pure ()
  | (toCall, fromNow) :: rest => do
    schedule toCall fromNow
    scheduleAll rest

variable (handlers : Handlers H W)

/-- The body of the loop in `CheckIfDue`: pull the first interrupt off the list and call its
handler. -/
def fireFront : Sim H W Unit := do
  let s ← get
  match listRemoveFront s.pending with
  | none => throw .assertFailed
  | some (next, rest) =>
    let (world, requests, yields) := handlers.callBack next.callOnInterrupt s.world
    set { s with
      pending := rest
      fired := s.fired ++ [(next, s.totalTicks)]
      world := world
      yieldOnReturn := s.yieldOnReturn || yields }
    scheduleAll requests

/-- The loop in `CheckIfDue`. -/
def fireLoop : ℕ → Sim H W Unit
  | 0 => throw .outOfRounds
  | rounds + 1 => do
    fireFront handlers
    let s ← get
    match s.pending with
    | [] => return
    | front :: _ => if front.when ≤ s.totalTicks then fireLoop rounds else return

/-- The part of `CheckIfDue` that invokes the handlers. -/
def invokeHandlers (rounds : ℕ) : Sim H W Bool := do
  modify fun s ↦ { s with inHandler := true }
  fireLoop handlers rounds
  modify fun s ↦ { s with inHandler := false }
  return true

/-- `Interrupt::CheckIfDue`. The load that the machine has in flight, completed before the handlers
run, is not part of this state. -/
def checkIfDue (rounds : ℕ) (advanceClock : Bool) : Sim H W Bool := do
  let s ← get
  if s.level ≠ .intOff then throw .assertFailed
  match s.pending with
  | [] => return false
  | next :: _ =>
    if s.totalTicks < next.when then
      if ¬advanceClock then return false
      set { s with
        idleTicks := s.idleTicks + (next.when - s.totalTicks)
        totalTicks := next.when }
    invokeHandlers handlers rounds

omit [DecidableEq H] in
/-- The first part of `Interrupt::OneTick`: simulated time advances, and interrupts are turned
off. -/
def State.tick (s : State H W) : State H W :=
  if s.status = .systemMode then
    { s with
      totalTicks := s.totalTicks + systemTick
      systemTicks := s.systemTicks + systemTick
      level := .intOff }
  else
    { s with
      totalTicks := s.totalTicks + userTick
      userTicks := s.userTicks + userTick
      level := .intOff }

/-- `Interrupt::OneTick`, up to the call of `Yield`. -/
def oneTick : Sim H W Unit := do
  modify State.tick
  let s ← get
  let _ ← checkIfDue handlers s.pending.length false
  modify fun s ↦ { s with level := .intOn }
  let s ← get
  if s.yieldOnReturn then set { s with yieldOnReturn := false, status := .systemMode }

/-- `Interrupt::SetLevel`. -/
def setLevel (now : IntStatus) : Sim H W Unit := do
  let s ← get
  if ¬(now = .intOff ∨ s.inHandler = false) then throw .assertFailed
  set { s with level := now }
  if now = .intOn ∧ s.level = .intOff then oneTick handlers

/-- `Interrupt::Idle`. -/
def idle : Sim H W Unit := do
  modify fun s ↦ { s with status := .idleMode }
  let s ← get
  if ← checkIfDue handlers s.pending.length true then
    modify fun s ↦ { s with status := .systemMode }
  else throw .halted

/-! ## Runs -/

inductive Event (H W : Type) where
  /-- A device outside a handler schedules an interrupt. -/
  | schedule (toCall : H) (fromNow : ℤ)
  | setLevel (now : IntStatus)
  /-- A user instruction was executed. -/
  | oneTick
  | idle
  | setStatus (status : MachineStatus)
  /-- The kernel changes the world. -/
  | work (world : W)

/-- Can the event happen? Devices schedule ahead of time, and only a thread that has turned
interrupts off idles. -/
def State.Allows (s : State H W) : Event H W → Prop
  | .schedule _ fromNow => 0 < fromNow
  | .idle => s.level = .intOff
  | _ => True

def step : Event H W → Sim H W Unit
  | .schedule toCall fromNow => schedule toCall fromNow
  | .setLevel now => setLevel handlers now
  | .oneTick => oneTick handlers
  | .idle => idle handlers
  | .setStatus status => modify fun s ↦ { s with status := status }
  | .work world => modify fun s ↦ { s with world := world }

/-- The constructors of `Interrupt` and `Statistics`. -/
def State.init (world : W) : State H W where
  level := .intOff
  pending := []
  inHandler := false
  yieldOnReturn := false
  status := .systemMode
  totalTicks := 0
  idleTicks := 0
  systemTicks := 0
  userTicks := 0
  world := world
  scheduled := 0
  fired := []

/-- `s'` can be reached from `s`. -/
inductive Reaches (s : State H W) : State H W → Prop
  | refl : Reaches s s
  | step {s₁ s₂ : State H W} {e : Event H W} (h : Reaches s s₁) (he : s₁.Allows e)
      (hstep : step handlers e s₁ = .ok () s₂) : Reaches s s₂

/-! ## The invariant -/

/-- `p` fires before `q`: at an earlier time, or scheduled earlier for the same time. -/
def Before (p q : PendingInterrupt H) : Prop :=
  p.when < q.when ∨ p.when = q.when ∧ p.number < q.number

structure State.Inv (s : State H W) : Prop where
  sorted : s.pending.Pairwise Before
  numbers : (s.pending.map fun p ↦ p.number).Nodup
  number_lt : ∀ p ∈ s.pending, p.number < s.scheduled
  fired_lt : ∀ f ∈ s.fired, f.1.number < s.scheduled
  fired_late : ∀ f ∈ s.fired, f.1.when ≤ f.2
  fired_once : (s.fired.map fun f ↦ f.1.number).Nodup
  fired_gone : ∀ f ∈ s.fired, ∀ p ∈ s.pending, f.1.number ≠ p.number
  ticks : s.totalTicks = s.idleTicks + s.systemTicks + s.userTicks

omit [DecidableEq H] in
theorem inv_init (world : W) : (State.init world : State H W).Inv := by
  constructor <;> simp [State.init]

omit [DecidableEq H] in
/-- The invariant speaks about the list, the record and the clock only. -/
theorem State.Inv.of_eq {s s' : State H W} (hs : s.Inv) (hpending : s'.pending = s.pending)
    (hscheduled : s'.scheduled = s.scheduled) (hfired : s'.fired = s.fired)
    (hticks : s'.totalTicks = s'.idleTicks + s'.systemTicks + s'.userTicks) : s'.Inv := by
  constructor
  · rw [hpending]
    exact hs.sorted
  · rw [hpending]
    exact hs.numbers
  · rw [hpending, hscheduled]
    exact hs.number_lt
  · rw [hfired, hscheduled]
    exact hs.fired_lt
  · rw [hfired]
    exact hs.fired_late
  · rw [hfired]
    exact hs.fired_once
  · rw [hfired, hpending]
    exact hs.fired_gone
  · exact hticks

section fire

omit [DecidableEq H] in
theorem Before.trans {p q r : PendingInterrupt H} (h : Before p q) (h' : Before q r) :
    Before p r := by
  rw [Before] at *
  omega

omit [DecidableEq H] in
theorem pendingCompare_neg_iff {p q : PendingInterrupt H} :
    pendingCompare p q < 0 ↔ p.when < q.when := by
  rw [pendingCompare]
  split
  · simp_all
  · split <;> simp_all

variable {s : State H W}

/-- The interrupt a call of `Schedule` makes. -/
def State.newInterrupt (s : State H W) (toCall : H) (fromNow : ℤ) : PendingInterrupt H :=
  ⟨toCall, (s.totalTicks + fromNow).toNat, s.scheduled⟩

/-- The state after a call of `Schedule`. -/
def State.withScheduled (s : State H W) (toCall : H) (fromNow : ℤ) : State H W :=
  { s with
    pending := insertSorted pendingCompare (s.newInterrupt toCall fromNow) s.pending
    scheduled := s.scheduled + 1 }

theorem schedule_eq (hs : s.Inv) {toCall : H} {fromNow : ℤ} (h : 0 < fromNow) :
    schedule toCall fromNow s = .ok () (s.withScheduled toCall fromNow) := by
  have hnew : s.newInterrupt toCall fromNow ∉ s.pending := by
    intro hmem
    exact absurd (hs.number_lt _ hmem) (Nat.lt_irrefl s.scheduled)
  rw [schedule, bind_get, if_neg (not_not.mpr h)]
  change (match sortedListInsert pendingCompare s.pending (s.newInterrupt toCall fromNow) with
    | none => throw Stopped.assertFailed
    | some l => set { s with pending := l, scheduled := s.scheduled + 1 } : Sim H W Unit) s = _
  rw [sortedListInsert, if_neg hnew]
  rfl

omit [DecidableEq H] in
theorem inv_withScheduled (hs : s.Inv) (toCall : H) (fromNow : ℤ) :
    (s.withScheduled toCall fromNow).Inv := by
  have hnumber : (s.newInterrupt toCall fromNow).number = s.scheduled := rfl
  constructor
  · -- the new interrupt has the highest number, so it belongs behind those of its own time
    refine pairwise_insertSorted (fun _ _ _ h h' ↦ h.trans h') hs.sorted (fun x hx hlt ↦ ?_)
      fun x hx hge ↦ ?_
    · exact Or.inl (pendingCompare_neg_iff.mp hlt)
    · have hlt := hs.number_lt x hx
      rw [pendingCompare_neg_iff] at hge
      rw [Before]
      omega
  · have hperm := (perm_insertSorted pendingCompare (s.newInterrupt toCall fromNow)
      s.pending).map fun p ↦ p.number
    refine hperm.nodup_iff.mpr (List.nodup_cons.mpr ⟨fun hmem ↦ ?_, hs.numbers⟩)
    obtain ⟨p, hp, heq⟩ := List.mem_map.mp hmem
    exact Nat.ne_of_lt (hs.number_lt p hp) heq
  · intro p hp
    change p.number < s.scheduled + 1
    rcases mem_insertSorted.mp hp with rfl | hp
    · rw [hnumber]
      omega
    · have := hs.number_lt p hp
      omega
  · intro f hf
    change f.1.number < s.scheduled + 1
    have := hs.fired_lt f hf
    omega
  · exact hs.fired_late
  · exact hs.fired_once
  · intro f hf p hp
    rcases mem_insertSorted.mp hp with rfl | hp
    · rw [hnumber]
      exact Nat.ne_of_lt (hs.fired_lt f hf)
    · exact hs.fired_gone f hf p hp
  · exact hs.ticks

/-- The interrupts `due` are to be fired now, the others later. -/
structure State.Splits (s : State H W) (due later : List (PendingInterrupt H)) : Prop where
  eq : s.pending = due ++ later
  due_le : ∀ p ∈ due, p.when ≤ s.totalTicks
  lt_later : ∀ p ∈ later, s.totalTicks < p.when

/-- The clock, the status and the interrupt level are as they were. -/
structure State.SameClock (s s' : State H W) : Prop where
  level : s'.level = s.level
  status : s'.status = s.status
  totalTicks : s'.totalTicks = s.totalTicks
  idleTicks : s'.idleTicks = s.idleTicks
  systemTicks : s'.systemTicks = s.systemTicks
  userTicks : s'.userTicks = s.userTicks

omit [DecidableEq H] in
theorem State.SameClock.trans {s s' s'' : State H W} (h : s.SameClock s') (h' : s'.SameClock s'') :
    s.SameClock s'' :=
  ⟨h'.level.trans h.level, h'.status.trans h.status,
    h'.totalTicks.trans h.totalTicks, h'.idleTicks.trans h.idleTicks,
    h'.systemTicks.trans h.systemTicks, h'.userTicks.trans h.userTicks⟩

omit [DecidableEq H] in
/-- A new interrupt lands behind everything that is due. -/
private theorem splits_withScheduled {due later : List (PendingInterrupt H)}
    (h : s.Splits due later) {toCall : H} {fromNow : ℤ} (hpos : 0 < fromNow) :
    (s.withScheduled toCall fromNow).Splits due
      (insertSorted pendingCompare (s.newInterrupt toCall fromNow) later) := by
  have hnew : s.totalTicks < (s.newInterrupt toCall fromNow).when := by
    simp only [State.newInterrupt]
    omega
  refine ⟨?_, h.due_le, fun p hp ↦ ?_⟩
  · change insertSorted _ _ s.pending = _
    rw [h.eq]
    refine insertSorted_append fun x hx ↦ ?_
    have := h.due_le x hx
    rw [pendingCompare_neg_iff]
    omega
  · rcases mem_insertSorted.mp hp with rfl | hp
    · exact hnew
    · exact h.lt_later p hp

/-- The calls of `Schedule` made by a handler leave what is still due in front. -/
theorem scheduleAll_spec {due later : List (PendingInterrupt H)} {requests : List (H × ℤ)}
    (hs : s.Inv) (hsplit : s.Splits due later) (hpos : ∀ request ∈ requests, 0 < request.2) :
    ∃ s' later', scheduleAll requests s = .ok () s' ∧ s'.Inv ∧ s'.Splits due later' ∧
      s.SameClock s' ∧ s'.fired = s.fired ∧ s'.world = s.world ∧ ∀ p ∈ later, p ∈ later' := by
  induction requests generalizing s later with
  | nil =>
    exact ⟨s, later, rfl, hs, hsplit, ⟨rfl, rfl, rfl, rfl, rfl, rfl⟩, rfl, rfl, fun _ h ↦ h⟩
  | cons request rest ih =>
    have hfirst := hpos request List.mem_cons_self
    obtain ⟨s', later', hrun, hs', hsplit', hclock, hfired, hworld, hsub⟩ :=
      ih (inv_withScheduled hs request.1 request.2) (splits_withScheduled hsplit hfirst)
        fun r hr ↦ hpos r (List.mem_cons_of_mem _ hr)
    refine ⟨s', later', ?_, hs', hsplit', ?_, hfired, hworld, fun p hp ↦ ?_⟩
    · exact (bind_of_ok (schedule_eq hs hfirst)).trans hrun
    · have hfirst : s.SameClock (s.withScheduled request.1 request.2) :=
        ⟨rfl, rfl, rfl, rfl, rfl, rfl⟩
      exact hfirst.trans hclock
    · exact hsub p (mem_insertSorted.mpr (Or.inr hp))

/-- The state in which the handler of `next` schedules. -/
def State.withFired (handlers : Handlers H W) (s : State H W) (next : PendingInterrupt H)
    (rest : List (PendingInterrupt H)) : State H W :=
  { s with
    pending := rest
    fired := s.fired ++ [(next, s.totalTicks)]
    world := (handlers.callBack next.callOnInterrupt s.world).1
    yieldOnReturn := s.yieldOnReturn || (handlers.callBack next.callOnInterrupt s.world).2.2 }

omit [DecidableEq H] in
theorem inv_withFired (hs : s.Inv) {next : PendingInterrupt H} {rest : List (PendingInterrupt H)}
    (hp : s.pending = next :: rest) (hdue : next.when ≤ s.totalTicks) :
    (s.withFired handlers next rest).Inv := by
  have hsorted := hs.sorted
  rw [hp, List.pairwise_cons] at hsorted
  have hnumbers := hs.numbers
  rw [hp, List.map_cons, List.nodup_cons] at hnumbers
  have hmem : next ∈ s.pending := by
    rw [hp]
    exact List.mem_cons_self
  have hrest : ∀ p ∈ rest, p ∈ s.pending := by
    intro p hpr
    rw [hp]
    exact List.mem_cons_of_mem _ hpr
  constructor
  · exact hsorted.2
  · exact hnumbers.2
  · exact fun p hpr ↦ hs.number_lt p (hrest p hpr)
  · intro f hf
    rcases List.mem_append.mp hf with hf | hf
    · exact hs.fired_lt f hf
    · rw [List.mem_singleton.mp hf]
      exact hs.number_lt next hmem
  · intro f hf
    rcases List.mem_append.mp hf with hf | hf
    · exact hs.fired_late f hf
    · rw [List.mem_singleton.mp hf]
      exact hdue
  · change ((s.fired ++ [(next, s.totalTicks)]).map fun f ↦ f.1.number).Nodup
    rw [List.map_append, List.nodup_append]
    refine ⟨hs.fired_once, List.pairwise_singleton _ _, fun a ha b hb ↦ ?_⟩
    obtain ⟨f, hf, rfl⟩ := List.mem_map.mp ha
    rw [List.mem_singleton.mp hb]
    exact hs.fired_gone f hf next hmem
  · intro f hf p hpr
    rcases List.mem_append.mp hf with hf | hf
    · exact hs.fired_gone f hf p (hrest p hpr)
    · -- two interrupts on the list have different numbers
      rw [List.mem_singleton.mp hf]
      intro heq
      exact hnumbers.1 (List.mem_map.mpr ⟨p, hpr, heq.symm⟩)
  · exact hs.ticks

/-- The world after the handlers of `due` were called in turn. -/
def called (handlers : Handlers H W) (world : W) (due : List (PendingInterrupt H)) : W :=
  due.foldl (fun world p ↦ (handlers.callBack p.callOnInterrupt world).1) world

private theorem fireFront_spec {next : PendingInterrupt H} {due later : List (PendingInterrupt H)}
    (hs : s.Inv) (hsplit : s.Splits (next :: due) later) :
    ∃ s' later', fireFront handlers s = .ok () s' ∧ s'.Inv ∧ s'.Splits due later' ∧
      s.SameClock s' ∧ s'.fired = s.fired ++ [(next, s.totalTicks)] ∧
      s'.world = called handlers s.world [next] ∧ ∀ p ∈ later, p ∈ later' := by
  have heq : s.pending = next :: (due ++ later) := hsplit.eq
  have hfired := inv_withFired handlers hs heq
    (hsplit.due_le next List.mem_cons_self)
  have hsplit' : (s.withFired handlers next (due ++ later)).Splits due later :=
    ⟨rfl, fun p hp ↦ hsplit.due_le p (List.mem_cons_of_mem _ hp), hsplit.lt_later⟩
  obtain ⟨s', later', hrun, hs', hafter, hclock, hrecord, hworld, hsub⟩ :=
    scheduleAll_spec hfired hsplit' (handlers.ahead next.callOnInterrupt s.world)
  have hfirst : s.SameClock (s.withFired handlers next (due ++ later)) :=
    ⟨rfl, rfl, rfl, rfl, rfl, rfl⟩
  refine ⟨s', later', ?_, hs', hafter, hfirst.trans hclock, hrecord, hworld, hsub⟩
  rw [fireFront, bind_get, heq]
  exact hrun

/-- The loop fires what was due when it began, one interrupt each round. -/
private theorem fireLoop_spec {next : PendingInterrupt H} {due later : List (PendingInterrupt H)}
    (hs : s.Inv) (hsplit : s.Splits (next :: due) later) :
    ∃ s', (∀ rounds, due.length < rounds → fireLoop handlers rounds s = .ok () s') ∧ s'.Inv ∧
      s'.Splits [] s'.pending ∧ s.SameClock s' ∧
      s'.fired = s.fired ++ (next :: due).map (·, s.totalTicks) ∧
      s'.world = called handlers s.world (next :: due) ∧ ∀ p ∈ later, p ∈ s'.pending := by
  induction due generalizing s next later with
  | nil =>
    obtain ⟨s', later', hrun, hs', hsplit', hclock, hfired, hworld, hsub⟩ :=
      fireFront_spec handlers hs hsplit
    have hpending : s'.pending = later' := hsplit'.eq
    rw [← hpending] at hsplit' hsub
    refine ⟨s', fun rounds hrounds ↦ ?_, hs', hsplit', hclock, hfired, hworld, hsub⟩
    obtain ⟨n, rfl⟩ := Nat.exists_eq_succ_of_ne_zero (Nat.ne_of_gt hrounds)
    rw [fireLoop, bind_of_ok hrun, bind_get]
    cases hfront : s'.pending with
    | nil => rfl
    | cons front rest =>
      -- whatever the handlers have scheduled is in the future
      have hlt := hsplit'.lt_later front (by rw [hfront]; exact List.mem_cons_self)
      exact congrFun (if_neg (Nat.not_le.mpr hlt)) s'
  | cons second due ih =>
    obtain ⟨s₁, later₁, hrun, hs₁, hsplit₁, hclock₁, hfired₁, hworld₁, hsub₁⟩ :=
      fireFront_spec handlers hs hsplit
    obtain ⟨s', hloop, hs', hsplit', hclock, hfired, hworld, hsub⟩ := ih hs₁ hsplit₁
    refine ⟨s', fun rounds hrounds ↦ ?_, hs', hsplit', hclock₁.trans hclock, ?_, ?_,
      fun p hp ↦ hsub p (hsub₁ p hp)⟩
    · obtain ⟨n, rfl⟩ := Nat.exists_eq_succ_of_ne_zero (Nat.ne_of_gt (Nat.zero_lt_of_lt hrounds))
      have hfront : s₁.pending = second :: (due ++ later₁) := hsplit₁.eq
      have hle := hsplit₁.due_le second List.mem_cons_self
      rw [fireLoop, bind_of_ok hrun, bind_get, hfront]
      refine (congrFun (if_pos hle) s₁).trans (hloop n ?_)
      rw [List.length_cons] at hrounds
      omega
    · rw [hfired, hfired₁, hclock₁.totalTicks, List.append_assoc]
      rfl
    · rw [hworld, hworld₁]
      rfl

end fire

/-! ## One check -/

/-- The interrupts due at `time`. -/
def State.due (s : State H W) (time : ℕ) : List (PendingInterrupt H) :=
  s.pending.filter fun p ↦ p.when ≤ time

/-- The time when `CheckIfDue` looks: if nothing is due the clock may first move on to the first
interrupt. -/
def State.checkTime (s : State H W) (advanceClock : Bool) : ℕ :=
  match s.pending with
  | [] => s.totalTicks
  | next :: _ =>
    if advanceClock ∧ s.totalTicks < next.when then next.when else s.totalTicks

/-- What a call of `CheckIfDue` that returned `result` did. -/
structure State.Checked (s : State H W) (advanceClock result : Bool) (s' : State H W) : Prop where
  totalTicks : s'.totalTicks = s.checkTime advanceClock
  fired : s'.fired = s.fired ++ (s.due (s.checkTime advanceClock)).map (·, s.checkTime advanceClock)
  world : s'.world = called handlers s.world (s.due (s.checkTime advanceClock))
  inOrder : (s.due (s.checkTime advanceClock)).Pairwise Before
  sorted : s'.pending.Pairwise Before
  future : ∀ p ∈ s'.pending, s'.totalTicks < p.when
  kept : ∀ p ∈ s.pending, s.checkTime advanceClock < p.when → p ∈ s'.pending
  result_iff : result = true ↔ s.due (s.checkTime advanceClock) ≠ []

section check

variable {s : State H W}

omit [DecidableEq H] in
theorem splits_due (hs : s.Inv) :
    s.Splits (s.due s.totalTicks) (s.pending.filter fun p ↦ ¬p.when ≤ s.totalTicks) := by
  refine ⟨?_, fun p hp ↦ ?_, fun p hp ↦ ?_⟩
  · have hsorted := hs.sorted
    rw [State.due]
    generalize s.pending = l at hsorted
    -- in a sorted list, what is due comes first
    induction l with
    | nil => rfl
    | cons first rest ih =>
      obtain ⟨hfirst, hrest⟩ := List.pairwise_cons.mp hsorted
      by_cases h : first.when ≤ s.totalTicks
      · simpa [h] using ih hrest
      · have hlate : ∀ p ∈ rest, s.totalTicks < p.when := by
          intro p hp
          have := hfirst p hp
          rw [Before] at this
          omega
        have hnone : rest.filter (fun p ↦ decide (p.when ≤ s.totalTicks)) = [] := by
          rw [List.filter_eq_nil_iff]
          intro p hp
          simpa using hlate p hp
        have hall : rest.filter (fun p ↦ decide ¬p.when ≤ s.totalTicks) = rest := by
          rw [List.filter_eq_self]
          intro p hp
          simpa using hlate p hp
        rw [List.filter_cons_of_neg (by simpa using h), hnone, List.nil_append,
          List.filter_cons_of_pos (by simpa using h), hall]
  · simpa using (List.mem_filter.mp hp).2
  · simpa using (List.mem_filter.mp hp).2

private theorem invokeHandlers_spec (hs : s.Inv) (hdue : s.due s.totalTicks ≠ []) :
    ∃ s', (∀ rounds, s.pending.length ≤ rounds → invokeHandlers handlers rounds s = .ok true s') ∧
      s'.Inv ∧ s.SameClock s' ∧ (∀ p ∈ s'.pending, s'.totalTicks < p.when) ∧
      s'.fired = s.fired ++ (s.due s.totalTicks).map (·, s.totalTicks) ∧
      s'.world = called handlers s.world (s.due s.totalTicks) ∧
      ∀ p ∈ s.pending, s.totalTicks < p.when → p ∈ s'.pending := by
  obtain ⟨next, due, heq⟩ := List.exists_cons_of_ne_nil hdue
  have hsplit := splits_due hs
  have hlength : due.length < s.pending.length := by
    have := congrArg List.length hsplit.eq
    rw [heq, List.length_append, List.length_cons] at this
    omega
  rw [heq] at hsplit ⊢
  let s₁ : State H W := { s with inHandler := true }
  have hs₁ : s₁.Inv := hs.of_eq rfl rfl rfl hs.ticks
  have hsplit₁ : s₁.Splits (next :: due) _ := ⟨hsplit.eq, hsplit.due_le, hsplit.lt_later⟩
  obtain ⟨s₂, hloop, hs₂, hsplit₂, hclock, hfired, hworld, hsub⟩ :=
    fireLoop_spec handlers hs₁ hsplit₁
  refine ⟨{ s₂ with inHandler := false }, fun rounds hrounds ↦ ?_,
    hs₂.of_eq rfl rfl rfl hs₂.ticks, ?_, hsplit₂.lt_later, hfired, hworld, fun p hp hlt ↦ ?_⟩
  · rw [invokeHandlers, bind_modify, bind_of_ok (hloop rounds (by omega))]
    rfl
  · exact ⟨hclock.level, hclock.status, hclock.totalTicks, hclock.idleTicks, hclock.systemTicks,
      hclock.userTicks⟩
  · refine hsub p (List.mem_filter.mpr ⟨hp, ?_⟩)
    simpa using hlt

omit [DecidableEq H] in
theorem State.Inv.front_le (hs : s.Inv) {next : PendingInterrupt H}
    {rest : List (PendingInterrupt H)} (heq : s.pending = next :: rest) :
    ∀ p ∈ s.pending, next.when ≤ p.when := by
  have hsorted := hs.sorted
  rw [heq, List.pairwise_cons] at hsorted
  rw [heq]
  intro p hp
  rcases List.mem_cons.mp hp with rfl | hp
  · exact Nat.le_refl _
  · have := hsorted.1 p hp
    rw [Before] at this
    omega

omit [DecidableEq H] in
theorem due_ne_nil {time : ℕ} {p : PendingInterrupt H} (hp : p ∈ s.pending) (hle : p.when ≤ time) :
    s.due time ≠ [] :=
  List.ne_nil_of_mem (List.mem_filter.mpr ⟨hp, decide_eq_true hle⟩)

omit [DecidableEq H] in
/-- Nothing is due, and the clock stays. -/
private theorem checked_of_future (hs : s.Inv) {advanceClock : Bool}
    (htime : s.checkTime advanceClock = s.totalTicks)
    (hfuture : ∀ p ∈ s.pending, s.totalTicks < p.when) :
    s.Checked handlers advanceClock false s := by
  have hnone : s.due (s.checkTime advanceClock) = [] := by
    rw [htime, State.due, List.filter_eq_nil_iff]
    intro p hp
    simpa using hfuture p hp
  constructor
  · exact htime.symm
  · rw [hnone]
    exact (List.append_nil _).symm
  · rw [hnone]
    rfl
  · rw [hnone]
    exact List.Pairwise.nil
  · exact hs.sorted
  · exact hfuture
  · exact fun p hp _ ↦ hp
  · simp [hnone]

/-- Something is due once the clock shows the time of the check. -/
private theorem checked_of_due {s₁ : State H W} {advanceClock : Bool} {p : PendingInterrupt H}
    (hs : s₁.Inv) (hpending : s₁.pending = s.pending) (hrecord : s₁.fired = s.fired)
    (hw : s₁.world = s.world) (htime : s₁.totalTicks = s.checkTime advanceClock)
    (hp : p ∈ s.pending) (hle : p.when ≤ s₁.totalTicks) :
    ∃ s', (∀ rounds, s.pending.length ≤ rounds → invokeHandlers handlers rounds s₁ = .ok true s') ∧
      s'.Inv ∧ s.Checked handlers advanceClock true s' := by
  have hdue : s₁.due s₁.totalTicks = s.due (s.checkTime advanceClock) := by
    rw [htime, State.due, hpending, State.due]
  have hne : s.due (s.checkTime advanceClock) ≠ [] := due_ne_nil hp (htime ▸ hle)
  obtain ⟨s', hfire, hs', hclock, hfuture, hfired, hworld, hkept⟩ :=
    invokeHandlers_spec handlers hs (by rw [hdue]; exact hne)
  rw [hpending] at hfire hkept
  rw [hdue, hrecord, htime] at hfired
  rw [hdue, hw] at hworld
  rw [htime] at hkept
  refine ⟨s', hfire, hs', ?_⟩
  constructor
  · rw [hclock.totalTicks, htime]
  · exact hfired
  · exact hworld
  · rw [← hdue]
    exact hs.sorted.filter _
  · exact hs'.sorted
  · exact hfuture
  · exact hkept
  · exact iff_of_true rfl hne

theorem checkIfDue_spec (hs : s.Inv) (hlevel : s.level = .intOff) (advanceClock : Bool) :
    ∃ result s', (∀ rounds, s.pending.length ≤ rounds →
        checkIfDue handlers rounds advanceClock s = .ok result s') ∧
      s'.Inv ∧ s.Checked handlers advanceClock result s' ∧ s.totalTicks ≤ s'.totalTicks := by
  cases hpending : s.pending with
  | nil =>
    refine ⟨false, s, fun rounds _ ↦ ?_, hs, checked_of_future handlers hs ?_ ?_, Nat.le_refl _⟩
    · rw [checkIfDue, bind_get, if_neg (not_not.mpr hlevel), hpending]
      rfl
    · rw [State.checkTime, hpending]
    · simp [hpending]
  | cons next rest =>
    have hmem : next ∈ s.pending := by
      rw [hpending]
      exact List.mem_cons_self
    have hfront := hs.front_le hpending
    have hrun : ∀ rounds, checkIfDue handlers rounds advanceClock s =
        (do
          if s.totalTicks < next.when then
            if ¬advanceClock then return false
            set { s with
              idleTicks := s.idleTicks + (next.when - s.totalTicks)
              totalTicks := next.when }
          invokeHandlers handlers rounds : Sim H W Bool) s := by
      intro rounds
      rw [checkIfDue, bind_get, if_neg (not_not.mpr hlevel), hpending]
    by_cases hlate : s.totalTicks < next.when
    · cases advanceClock with
      | false =>
        refine ⟨false, s, fun rounds _ ↦ ?_, hs, checked_of_future handlers hs ?_ ?_,
          Nat.le_refl _⟩
        · rw [hrun, if_pos hlate]
          rfl
        · simp [State.checkTime, hpending]
        · exact fun p hp ↦ Nat.lt_of_lt_of_le hlate (hfront p hp)
      | true =>
        -- the clock moves on to the first interrupt, which is then due
        let s₁ : State H W := { s with
          idleTicks := s.idleTicks + (next.when - s.totalTicks), totalTicks := next.when }
        have hticks : s₁.totalTicks = s₁.idleTicks + s₁.systemTicks + s₁.userTicks := by
          change next.when =
            s.idleTicks + (next.when - s.totalTicks) + s.systemTicks + s.userTicks
          have := hs.ticks
          omega
        have htime : s₁.totalTicks = s.checkTime true := by
          simp [State.checkTime, hpending, hlate, s₁]
        have hs₁ : s₁.Inv := hs.of_eq rfl rfl rfl hticks
        obtain ⟨s', hfire, hs', hchecked⟩ :=
          checked_of_due (s := s) handlers hs₁ rfl rfl rfl htime hmem (Nat.le_refl next.when)
        refine ⟨true, s', fun rounds hrounds ↦ ?_, hs', hchecked, ?_⟩
        · rw [hrun, if_pos hlate]
          rw [← hpending] at hrounds
          exact hfire rounds hrounds
        · rw [hchecked.totalTicks, ← htime]
          exact Nat.le_of_lt hlate
    · have htime : s.totalTicks = s.checkTime advanceClock := by
        simp [State.checkTime, hpending, hlate]
      obtain ⟨s', hfire, hs', hchecked⟩ :=
        checked_of_due handlers hs rfl rfl rfl htime hmem (Nat.le_of_not_lt hlate)
      refine ⟨true, s', fun rounds hrounds ↦ ?_, hs', hchecked, ?_⟩
      · rw [hrun, if_neg hlate]
        rw [← hpending] at hrounds
        exact hfire rounds hrounds
      · exact Nat.le_of_eq (htime.trans hchecked.totalTicks.symm)

end check

/-! ## Every run -/

section runs

variable {handlers} {s s' : State H W}

omit [DecidableEq H] in
theorem inv_tick (hs : s.Inv) : s.tick.Inv := by
  have hticks := hs.ticks
  rw [State.tick]
  split
  · refine hs.of_eq rfl rfl rfl ?_
    simp only [systemTick]
    omega
  · refine hs.of_eq rfl rfl rfl ?_
    simp only [userTick]
    omega

omit [DecidableEq H] in
theorem tick_level : s.tick.level = .intOff := by
  rw [State.tick]
  split <;> rfl

omit [DecidableEq H] in
theorem tick_totalTicks : s.totalTicks ≤ s.tick.totalTicks := by
  rw [State.tick]
  split
  · exact Nat.le_add_right _ _
  · exact Nat.le_add_right _ _

/-- What a step from `s` may lead to. -/
structure State.Goes (s s' : State H W) : Prop where
  inv : s'.Inv
  totalTicks : s.totalTicks ≤ s'.totalTicks

private theorem goes_oneTick (hs : s.Inv) (h : oneTick handlers s = .ok () s') : s.Goes s' := by
  obtain ⟨result, s₁, hrun, hs₁, -, hle⟩ :=
    checkIfDue_spec handlers (inv_tick hs) tick_level false
  have hticks := Nat.le_trans tick_totalTicks hle
  rw [oneTick, bind_modify, bind_get, bind_of_ok (hrun _ (Nat.le_refl _)), bind_modify,
    bind_get] at h
  by_cases hyield : s₁.yieldOnReturn = true
  · rw [if_pos hyield] at h
    cases h
    exact ⟨hs₁.of_eq rfl rfl rfl hs₁.ticks, hticks⟩
  · rw [if_neg hyield] at h
    cases h
    exact ⟨hs₁.of_eq rfl rfl rfl hs₁.ticks, hticks⟩

private theorem goes_setLevel {now : IntStatus} (hs : s.Inv)
    (h : setLevel handlers now s = .ok () s') : s.Goes s' := by
  rw [setLevel, bind_get] at h
  by_cases hassert : now = .intOff ∨ s.inHandler = false
  · have hs₁ : State.Inv { s with level := now } := hs.of_eq rfl rfl rfl hs.ticks
    rw [if_neg (not_not.mpr hassert)] at h
    replace h : (if now = .intOn ∧ s.level = .intOff then oneTick handlers else pure ())
      { s with level := now } = .ok () s' := h
    by_cases hon : now = .intOn ∧ s.level = .intOff
    · rw [if_pos hon] at h
      have := goes_oneTick hs₁ h
      exact ⟨this.inv, this.totalTicks⟩
    · rw [if_neg hon] at h
      cases h
      exact ⟨hs₁, Nat.le_refl _⟩
  · rw [if_pos hassert] at h
    cases h

private theorem goes_idle (hs : s.Inv) (hlevel : s.level = .intOff)
    (h : idle handlers s = .ok () s') : s.Goes s' := by
  have hs₁ : State.Inv { s with status := .idleMode } := hs.of_eq rfl rfl rfl hs.ticks
  obtain ⟨result, s₂, hrun, hs₂, -, hle⟩ := checkIfDue_spec handlers hs₁ hlevel true
  rw [idle, bind_modify, bind_get, bind_of_ok (hrun _ (Nat.le_refl _))] at h
  cases result with
  | false => cases h
  | true =>
    cases h
    exact ⟨hs₂.of_eq rfl rfl rfl hs₂.ticks, hle⟩

private theorem goes_step {e : Event H W} (hs : s.Inv) (he : s.Allows e)
    (h : step handlers e s = .ok () s') : s.Goes s' := by
  cases e with
  | schedule toCall fromNow =>
    have := (schedule_eq hs he).symm.trans h
    cases this
    exact ⟨inv_withScheduled hs toCall fromNow, Nat.le_refl _⟩
  | setLevel now => exact goes_setLevel hs h
  | oneTick => exact goes_oneTick hs h
  | idle => exact goes_idle hs he h
  | setStatus status =>
    cases h
    exact ⟨hs.of_eq rfl rfl rfl hs.ticks, Nat.le_refl _⟩
  | work world =>
    cases h
    exact ⟨hs.of_eq rfl rfl rfl hs.ticks, Nat.le_refl _⟩

theorem goes_reaches (hs : s.Inv) (h : Reaches handlers s s') : s.Goes s' := by
  induction h with
  | refl => exact ⟨hs, Nat.le_refl _⟩
  | step _ he hstep ih =>
    have := goes_step ih.inv he hstep
    exact ⟨this.inv, Nat.le_trans ih.totalTicks this.totalTicks⟩

end runs

/-- The states in which `CheckIfDue` may be called in a run: interrupts are off, or `OneTick` has
turned them off. -/
inductive Checkable (world : W) : State H W → Prop
  | off {s : State H W} (h : Reaches handlers (.init world) s) (hlevel : s.level = .intOff) :
      Checkable world s
  | tick {s : State H W} (h : Reaches handlers (.init world) s) : Checkable world s.tick

/-- In every run: `CheckIfDue` returns (one round of its loop for each interrupt waiting is enough),
having fired what was due, in order and nothing else; over the run, no interrupt fires early or
twice, time does not go back, and the clock is the sum of its three counters. -/
theorem interrupt_queue (world : W) :
    (∀ s, Checkable handlers world s → ∀ advanceClock, ∃ result s',
      (∀ rounds, s.pending.length ≤ rounds →
        checkIfDue handlers rounds advanceClock s = .ok result s') ∧
      s.Checked handlers advanceClock result s') ∧
    ∀ s, Reaches handlers (.init world) s →
      (∀ f ∈ s.fired, f.1.when ≤ f.2) ∧
      (s.fired.map fun f ↦ f.1.number).Nodup ∧
      (∀ s', Reaches handlers s s' → s.totalTicks ≤ s'.totalTicks) ∧
      s.totalTicks = s.idleTicks + s.systemTicks + s.userTicks := by
  refine ⟨fun s hs advanceClock ↦ ?_, fun s hs ↦ ?_⟩
  · have hinv : s.Inv ∧ s.level = .intOff := by
      cases hs with
      | off h hlevel => exact ⟨(goes_reaches (inv_init world) h).inv, hlevel⟩
      | tick h => exact ⟨inv_tick (goes_reaches (inv_init world) h).inv, tick_level⟩
    obtain ⟨result, s', hrun, -, hchecked, -⟩ :=
      checkIfDue_spec handlers hinv.1 hinv.2 advanceClock
    exact ⟨result, s', hrun, hchecked⟩
  · have hinv := (goes_reaches (inv_init world) hs).inv
    exact ⟨hinv.fired_late, hinv.fired_once, fun s' h ↦ (goes_reaches hinv h).totalTicks,
      hinv.ticks⟩

/-- `Timer::CallBack` of a timer that is not random: the alarm asks for a context switch and the
next interrupt is set, `TimerTicks` from now. -/
def timer : Handlers Unit Unit where
  callBack _ world := (world, [((), 100)], true)
  ahead := by simp

/-- The machine once the timer is set. -/
def timerSet : State Unit Unit := (State.init ()).withScheduled () 100

theorem timerSet_checked : timerSet.due (timerSet.checkTime true) = [⟨(), 100, 0⟩] ∧
    (∃ result s', (∀ rounds, 1 ≤ rounds →
        checkIfDue timer rounds true timerSet = .ok result s') ∧
      timerSet.Checked timer true result s') ∧
    (timerSet.fired.map fun f ↦ f.1.number).Nodup := by
  have hreach : Reaches timer (.init ()) timerSet :=
    Reaches.step (e := .schedule () 100) Reaches.refl (by decide : (0 : ℤ) < 100)
      (schedule_eq (inv_init ()) (by decide))
  obtain ⟨hcheck, hrun⟩ := interrupt_queue timer ()
  exact ⟨by decide, hcheck timerSet (.off hreach rfl) true, (hrun timerSet hreach).2.1⟩

end Interrupts

end Nachos
