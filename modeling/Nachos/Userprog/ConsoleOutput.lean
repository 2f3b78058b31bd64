import Nachos.Basic
import Nachos.Threads.Wakeup

/-!
# The synchronous display

The display takes one character at a time and says with an interrupt, some ticks later, that it is
ready for the next; it stops the machine if it is given one before. `SynchConsoleOutput::PutChar`
holds a lock from before the character is given to the display until the interrupt has come.
`PutString` calls it for one character after the other, and gives the lock back in between, so that
the strings of two threads may be mixed on the display.

`log` has the thread of each character, and `asked` what each thread was given to put; they are not
in the source. The host is taken to write what it is asked to write.
-/

namespace Nachos

open Program Threads

variable {T : Type}

/-- `class SynchConsoleOutput` with its `ConsoleOutput`. -/
structure ConsoleOutput (T : Type) where
  lock : Lock T
  waitFor : Semaphore T
  putBusy : Bool
  /-- How many interrupts are scheduled. -/
  scheduled : ℕ
  display : List Byte
  numConsoleCharsWritten : Word
  log : List (T × Byte)
  asked : T → List Byte

/-- Where a thread stands in `SynchConsoleOutput::PutString`. -/
inductive OutputStage where
  /-- In no call. -/
  | idle
  | acquiring (ch : Byte) (rest : List Byte)
  /-- About to call `ConsoleOutput::PutChar`. -/
  | putting (ch : Byte) (rest : List Byte)
  /-- About to test the value in `P`. -/
  | waiting (rest : List Byte)
  | sleeping (rest : List Byte)
  | releasing (rest : List Byte)
  deriving DecidableEq, Repr

structure OutputPlace where
  lock : LockPlace
  stage : OutputStage
  deriving DecidableEq, Repr

namespace OutputStage

/-- The loop of `PutString`, with the characters that are left. -/
def next : List Byte → OutputStage
  | [] => .idle
  | ch :: rest => .acquiring ch rest

/-- What has yet to be given to the display. -/
def rest : OutputStage → List Byte
  | .idle => []
  | .acquiring ch rest | .putting ch rest => ch :: rest
  | .waiting rest | .sleeping rest | .releasing rest => rest

/-- The character was given to the display, and the thread waits for the interrupt. -/
def waits : OutputStage → Bool
  | .waiting _ | .sleeping _ => true
  | .idle | .acquiring _ _ | .putting _ _ | .releasing _ => false

def sleeps : OutputStage → Bool
  | .sleeping _ => true
  | .idle | .acquiring _ _ | .putting _ _ | .waiting _ | .releasing _ => false

@[simp] theorem rest_next (text : List Byte) : (next text).rest = text := by cases text <;> rfl

@[simp] theorem waits_next (text : List Byte) : (next text).waits = false := by cases text <;> rfl

end OutputStage

/-- The stage and the place in the code of the lock agree. -/
def OutputPlace.Coherent (place : OutputPlace) : Prop :=
  match place.stage with
  | .idle => place.lock = .outside
  | .acquiring _ _ => place.lock.inside = false ∨ place.lock = .passed
  | .putting _ _ | .waiting _ | .sleeping _ => place.lock = .holding
  | .releasing _ => place.lock.inside = true ∧ place.lock ≠ .passed

theorem OutputPlace.coherent_next (text : List Byte) :
    OutputPlace.Coherent ⟨.outside, .next text⟩ := by
  cases text with
  | nil => rfl
  | cons ch rest => exact .inl rfl

namespace ConsoleOutput

/-- `SynchConsoleOutput::SynchConsoleOutput` and `ConsoleOutput::ConsoleOutput`. -/
def new : ConsoleOutput T where
  lock := .new
  waitFor := .new 0
  putBusy := false
  scheduled := 0
  display := []
  numConsoleCharsWritten := 0
  log := []
  asked := fun _ ↦ []

/-- `ConsoleOutput::PutChar`, called by the thread `t`. -/
def putChar (s : ConsoleOutput T) (t : T) (ch : Byte) : Except Crash (ConsoleOutput T) :=
  if s.putBusy then .error .assertFailed
  else
    .ok { s with
      display := s.display ++ [ch]
      putBusy := true
      scheduled := s.scheduled + 1
      log := s.log ++ [(t, ch)] }

/-- `ConsoleOutput::CallBack` and `SynchConsoleOutput::CallBack`. -/
def callBack (s : ConsoleOutput T) : Except Crash (ConsoleOutput T) :=
  match s.waitFor.post with
  | .error e => .error e
  | .ok sem =>
    .ok { s with
      putBusy := false
      numConsoleCharsWritten := s.numConsoleCharsWritten + 1
      waitFor := sem }

/-- An interrupt that was scheduled. -/
def Interrupt (s s' : ConsoleOutput T) : Prop :=
  0 < s.scheduled ∧ { s with scheduled := s.scheduled - 1 }.callBack = .ok s'

/-- What the thread `t` has put on the display. -/
def putBy [DecidableEq T] (s : ConsoleOutput T) (t : T) : List Byte :=
  (s.log.filter fun entry ↦ entry.1 = t).map Prod.snd

section turn

variable [DecidableEq T]

/-- A statement of the lock's code. -/
def lockTurn (s : ConsoleOutput T) (t : T) (place : LockPlace) (stage : LockPlace → OutputStage) :
    Turn Crash (ConsoleOutput T) OutputPlace :=
  (s.lock.turn t place).bind fun lock place' ↦ .moved { s with lock := lock } ⟨place', stage place'⟩

/-- The next statement of a thread; one that is in no call begins `PutString` with `text`. -/
def turn (t : T) (text : List Byte) (s : ConsoleOutput T) (place : OutputPlace) :
    Turn Crash (ConsoleOutput T) OutputPlace :=
  match place.stage with
  | .idle =>
    .moved { s with asked := Function.update s.asked t (s.asked t ++ text) }
      ⟨place.lock, .next text⟩
  | .acquiring ch rest =>
    s.lockTurn t place.lock fun p ↦ if p = .holding then .putting ch rest else .acquiring ch rest
  | .putting ch rest =>
    match s.putChar t ch with
    | .error e => .crashed e
    | .ok s' => .moved s' ⟨place.lock, .waiting rest⟩
  | .waiting rest =>
    s.waitFor.p t (fun sem ↦ { s with waitFor := sem }) ⟨place.lock, .sleeping rest⟩
      ⟨place.lock, .releasing rest⟩
  | .sleeping rest =>
    s.waitFor.pAgain t (fun sem ↦ { s with waitFor := sem }) ⟨place.lock, .sleeping rest⟩
      ⟨place.lock, .releasing rest⟩
  | .releasing rest =>
    s.lockTurn t place.lock fun p ↦ if p = .outside then .next rest else .releasing rest

end turn

def start : Config T (ConsoleOutput T) OutputPlace := ⟨.new, fun _ ↦ ⟨.outside, .idle⟩⟩

/-- Where a run can lead. -/
def Reachable [DecidableEq T] (c : Config T (ConsoleOutput T) OutputPlace) : Prop :=
  Reaches turn Interrupt start c

/-! ## What the display owes -/

/-- The display has served the threads well so far. Each thread's characters are on it in their
order, and what is missing is what its call has yet to put; nothing else is there, and every
character but the one whose interrupt has yet to come is counted. No assertion fails at any turn or
interrupt, and while some thread is in a call, an interrupt is to come or one of the threads can go
on. -/
structure Serves [DecidableEq T] (c : Config T (ConsoleOutput T) OutputPlace) : Prop where
  order : ∀ t, c.shared.putBy t ++ (c.place t).stage.rest = c.shared.asked t
  display : c.shared.display = c.shared.log.map Prod.snd
  written : c.shared.numConsoleCharsWritten + BitVec.ofNat 32 c.shared.scheduled =
    BitVec.ofNat 32 c.shared.display.length
  scheduled : c.shared.scheduled ≤ 1
  turns : ∀ t text e, c.shared.turn t text (c.place t) ≠ .crashed e
  interrupts : 0 < c.shared.scheduled → ∃ s', c.shared.Interrupt s'
  live : ∀ t, (c.place t).stage ≠ .idle → 0 < c.shared.scheduled ∨
    ∃ u s' place, (c.place u).stage ≠ .idle ∧ c.shared.turn u [] (c.place u) = .moved s' place

/-! ## The invariant -/

/-- What holds of the stages `g` of the threads. The thread `writer` waits for its interrupt: that
is scheduled, or the semaphore has its unit. -/
structure Stages [DecidableEq T] (s : ConsoleOutput T) (g : T → OutputStage) (writer : Option T) :
    Prop where
  waits_iff : ∀ t, (g t).waits = true ↔ writer = some t
  nonneg : 0 ≤ s.waitFor.value
  value : s.waitFor.value + s.scheduled = if writer.isSome then 1 else 0
  busy : s.putBusy = decide (0 < s.scheduled)
  queued : s.waitFor.queue = [] ∨
    s.waitFor.value = 0 ∧ ∃ t, s.waitFor.queue = [t] ∧ (g t).sleeps = true
  display : s.display = s.log.map Prod.snd
  written : s.numConsoleCharsWritten + BitVec.ofNat 32 s.scheduled =
    BitVec.ofNat 32 s.display.length
  asked : ∀ t, s.putBy t ++ (g t).rest = s.asked t

structure Inv [DecidableEq T] (s : ConsoleOutput T) (f : T → OutputPlace) : Prop where
  lock : s.lock.Inv fun t ↦ (f t).lock
  awake : s.lock.Awake fun t ↦ (f t).lock
  coherent : ∀ t, (f t).Coherent
  stages : ∃ writer, s.Stages (fun t ↦ (f t).stage) writer

section stages

variable [DecidableEq T] {s s' : ConsoleOutput T} {g : T → OutputStage} {writer : Option T} {t : T}
  {stage : OutputStage} {ch : Byte} {rest : List Byte}

private theorem stages_new : (new : ConsoleOutput T).Stages (fun _ ↦ .idle) none where
  waits_iff t := iff_of_false (fun h ↦ by cases h) fun h ↦ by cases h
  nonneg := Int.le_refl 0
  value := rfl
  busy := rfl
  queued := .inl rfl
  display := rfl
  written := rfl
  asked _ := rfl

/-- The lock is not looked at. -/
theorem Stages.withLock (h : s.Stages g writer) (lock : Lock T) :
    { s with lock := lock }.Stages g writer :=
  ⟨h.waits_iff, h.nonneg, h.value, h.busy, h.queued, h.display, h.written, h.asked⟩

theorem Stages.not_queued (h : s.Stages g writer) (ht : (g t).sleeps = false) :
    t ∉ s.waitFor.queue := by
  intro hmem
  rcases h.queued with hnil | ⟨-, u, hu, hsleeps⟩
  · rw [hnil] at hmem
    cases hmem
  · rw [hu, List.mem_singleton] at hmem
    rw [hmem, hsleeps] at ht
    cases ht

/-- The queue while a thread that is not on it moves. -/
theorem Stages.queued_update (h : s.Stages g writer) (ht : t ∉ s.waitFor.queue) :
    s.waitFor.queue = [] ∨ s.waitFor.value = 0 ∧
      ∃ u, s.waitFor.queue = [u] ∧ (Function.update g t stage u).sleeps = true := by
  rcases h.queued with hnil | ⟨hzero, u, hu, hsleeps⟩
  · exact .inl hnil
  · have hne : u ≠ t := by
      rintro rfl
      exact ht (by rw [hu]; exact List.mem_singleton_self u)
    exact .inr ⟨hzero, u, hu, by rwa [Function.update_of_ne hne]⟩

/-- A thread goes on, and nobody is asked for anything and nothing is put. -/
theorem Stages.asked_update (h : s.Stages g writer) (hrest : stage.rest = (g t).rest) (u : T) :
    s.putBy u ++ (Function.update g t stage u).rest = s.asked u := by
  rw [view_update_same OutputStage.rest hrest]
  exact h.asked u

/-- A statement of the lock's code. -/
theorem Stages.stay (h : s.Stages g writer) (hwaits : stage.waits = (g t).waits)
    (hrest : stage.rest = (g t).rest) (ht : (g t).sleeps = false) :
    s.Stages (Function.update g t stage) writer where
  waits_iff u := by
    rw [view_update_same OutputStage.waits hwaits]
    exact h.waits_iff u
  nonneg := h.nonneg
  value := h.value
  busy := h.busy
  queued := h.queued_update (h.not_queued ht)
  display := h.display
  written := h.written
  asked := h.asked_update hrest

/-- A thread begins `PutString`. -/
theorem Stages.begin (h : s.Stages g writer) (ht : g t = .idle) (text : List Byte) :
    { s with asked := Function.update s.asked t (s.asked t ++ text) }.Stages
      (Function.update g t (.next text)) writer where
  waits_iff u := by
    have hwaits : (OutputStage.next text).waits = (g t).waits := by
      rw [ht, OutputStage.waits_next]
      rfl
    rw [view_update_same OutputStage.waits hwaits]
    exact h.waits_iff u
  nonneg := h.nonneg
  value := h.value
  busy := h.busy
  queued := h.queued_update (h.not_queued (by rw [ht]; rfl))
  display := h.display
  written := h.written
  asked u := by
    have hasked := h.asked u
    show s.putBy u ++ _ = Function.update s.asked t (s.asked t ++ text) u
    by_cases hu : u = t
    · subst hu
      rw [ht, OutputStage.rest, List.append_nil] at hasked
      rw [Function.update_self, Function.update_self, OutputStage.rest_next, hasked]
    · rwa [Function.update_of_ne hu, Function.update_of_ne hu]

/-- A thread gives its character to the display. -/
theorem Stages.put (h : s.Stages g none) (ht : g t = .putting ch rest) :
    ∃ s', s.putChar t ch = .ok s' ∧ s'.lock = s.lock ∧
      s'.Stages (Function.update g t (.waiting rest)) (some t) := by
  have hvalue : s.waitFor.value + s.scheduled = 0 := h.value
  have hnonneg := h.nonneg
  have hscheduled : s.scheduled = 0 := by omega
  have hbusy : s.putBusy = false := by
    rw [h.busy, hscheduled]
    rfl
  rw [putChar, hbusy]
  refine ⟨_, rfl, rfl, ?_⟩
  constructor
  · intro u
    by_cases hu : u = t
    · rw [hu, Function.update_self]
      exact iff_of_true rfl rfl
    · rw [Function.update_of_ne hu, h.waits_iff]
      exact iff_of_false (fun heq ↦ by cases heq) fun heq ↦ hu (Option.some.inj heq).symm
  · exact hnonneg
  · show s.waitFor.value + ((s.scheduled + 1 : ℕ) : ℤ) = 1
    omega
  · rw [hscheduled]
    rfl
  · exact h.queued_update (h.not_queued (by rw [ht]; rfl))
  · rw [h.display, List.map_append]
    rfl
  · have hwritten := h.written
    rw [hscheduled] at hwritten ⊢
    rw [List.length_append, BitVec.ofNat_add s.display.length, ← hwritten]
    simp
  · intro u
    have hasked := h.asked u
    rw [putBy] at hasked
    rw [putBy, List.filter_append, List.map_append]
    by_cases hu : u = t
    · rw [hu, ht] at hasked
      rw [hu, Function.update_self, ← hasked, List.append_assoc]
      simp [OutputStage.rest]
    · rw [Function.update_of_ne hu, ← hasked]
      simp [Ne.symm hu]

/-- The thread that waits joins the queue. -/
theorem Stages.sleep (h : s.Stages g writer) (ht : (g t).waits = true) (hv : s.waitFor.value = 0)
    (hnot : t ∉ s.waitFor.queue) (hrest : rest = (g t).rest) :
    { s with waitFor := { s.waitFor with queue := s.waitFor.queue ++ [t] } }.Stages
      (Function.update g t (.sleeping rest)) writer where
  waits_iff u := by
    rw [view_update_same OutputStage.waits
      (show (OutputStage.sleeping rest).waits = _ from ht.symm)]
    exact h.waits_iff u
  nonneg := h.nonneg
  value := h.value
  busy := h.busy
  queued := by
    refine .inr ⟨hv, t, ?_, by rw [Function.update_self]; rfl⟩
    rcases h.queued with hnil | ⟨-, u, hu, hsleeps⟩
    · rw [hnil]
      rfl
    · -- there is one writer, and a thread on the queue would be it
      have huw : (g u).waits = true := by
        cases hg : g u with
        | sleeping rest => rfl
        | idle | acquiring _ _ | putting _ _ | waiting _ | releasing _ =>
          rw [hg] at hsleeps
          cases hsleeps
      have heq : u = t := by
        have hsome := ((h.waits_iff u).mp huw).symm.trans ((h.waits_iff t).mp ht)
        exact Option.some.inj hsome
      rw [hu, heq] at hnot
      exact absurd (List.mem_singleton_self t) hnot
  display := h.display
  written := h.written
  asked := h.asked_update hrest

/-- The thread that waits takes the unit that was meant for it. -/
theorem Stages.pass (h : s.Stages g writer) (ht : (g t).waits = true) (hv : s.waitFor.value ≠ 0)
    (hrest : rest = (g t).rest) :
    { s with waitFor := { s.waitFor with value := s.waitFor.value - 1 } }.Stages
      (Function.update g t (.releasing rest)) none := by
  obtain rfl := (h.waits_iff t).mp ht
  have hvalue : s.waitFor.value + s.scheduled = 1 := h.value
  have hnonneg := h.nonneg
  have hnil : s.waitFor.queue = [] := by
    rcases h.queued with hnil | ⟨hzero, -⟩
    · exact hnil
    · exact absurd hzero hv
  constructor
  · intro u
    refine iff_of_false (fun hu ↦ ?_) fun heq ↦ by cases heq
    by_cases hut : u = t
    · rw [hut, Function.update_self] at hu
      cases hu
    · rw [Function.update_of_ne hut] at hu
      exact hut (Option.some.inj ((h.waits_iff u).mp hu)).symm
  · show 0 ≤ s.waitFor.value - 1
    omega
  · show s.waitFor.value - 1 + s.scheduled = 0
    omega
  · exact h.busy
  · exact .inl hnil
  · exact h.display
  · exact h.written
  · exact h.asked_update hrest

/-- An interrupt finds the value 0, and it is the only one. -/
theorem Stages.callBack (h : s.Stages g writer) (hscheduled : 0 < s.scheduled) :
    ∃ s', { s with scheduled := s.scheduled - 1 }.callBack = .ok s' ∧ s'.lock = s.lock ∧
      s'.Stages g writer := by
  have hnonneg := h.nonneg
  have hone : s.waitFor.value = 0 ∧ s.scheduled = 1 ∧ writer.isSome = true := by
    cases writer with
    | none =>
      have hvalue : s.waitFor.value + s.scheduled = 0 := h.value
      omega
    | some u =>
      have hvalue : s.waitFor.value + s.scheduled = 1 := h.value
      exact ⟨by omega, by omega, rfl⟩
  obtain ⟨hzero, hsched, hsome⟩ := hone
  have hpost : s.waitFor.post = .ok ⟨1, s.waitFor.queue.tail⟩ := by
    rw [Semaphore.post, hzero, if_neg (by decide)]
    rfl
  rw [ConsoleOutput.callBack, hpost]
  refine ⟨_, rfl, rfl, h.waits_iff, Int.one_nonneg, ?_, ?_, ?_, h.display, ?_, h.asked⟩
  · rw [hsome, hsched]
    rfl
  · rw [hsched]
    rfl
  · rcases h.queued with hnil | ⟨-, u, hu, -⟩
    · exact .inl (by rw [hnil]; rfl)
    · exact .inl (by rw [hu]; rfl)
  · have hwritten := h.written
    rw [hsched] at hwritten ⊢
    rw [← hwritten]
    simp

end stages

section inv

variable [DecidableEq T] {s s' : ConsoleOutput T} {f : T → OutputPlace} {t : T}
  {place : OutputPlace} {text : List Byte}

theorem inv_new : (new : ConsoleOutput T).Inv fun _ ↦ ⟨.outside, .idle⟩ :=
  ⟨Lock.inv_new, Lock.awake_new, fun _ ↦ rfl, none, stages_new⟩

theorem Inv.coherent_update (h : s.Inv f) (hplace : place.Coherent) (u : T) :
    (Function.update f t place u).Coherent :=
  (Function.forall_update_iff f fun _ p ↦ p.Coherent).mpr ⟨hplace, fun u _ ↦ h.coherent u⟩ u

/-- A turn outside the code of the lock. -/
theorem Inv.outside_lock (h : s.Inv f) (hlock : s'.lock = s.lock)
    (hplace : place.lock = (f t).lock) (hcoherent : place.Coherent)
    (hstages : ∃ writer, s'.Stages (Function.update (fun u ↦ (f u).stage) t place.stage) writer) :
    s'.Inv (Function.update f t place) := by
  have hsame : (fun u ↦ (Function.update f t place u).lock) = fun u ↦ (f u).lock := by
    rw [view_update OutputPlace.lock, hplace, Function.update_eq_self]
  refine ⟨?_, ?_, h.coherent_update hcoherent, ?_⟩
  · rw [hsame, hlock]
    exact h.lock
  · rw [hsame, hlock]
    exact h.awake
  · rw [view_update OutputPlace.stage]
    exact hstages

/-- A turn in the code of the lock. -/
theorem Inv.lockTurn (h : s.Inv f) {stage : LockPlace → OutputStage}
    (hwaits : ∀ p, (stage p).waits = (f t).stage.waits)
    (hrest : ∀ p, (stage p).rest = (f t).stage.rest)
    (hcoherent : ∀ lock p, s.lock.Moves t (f t).lock lock p → OutputPlace.Coherent ⟨p, stage p⟩)
    (hsleeps : (f t).stage.sleeps = false)
    (hturn : s.lockTurn t (f t).lock stage = .moved s' place) :
    s'.Inv (Function.update f t place) := by
  obtain ⟨lock, p, hlock, hmoved⟩ := Turn.bind_moved hturn
  cases hmoved
  have hm := Lock.moves_of_turn hlock
  obtain ⟨writer, hstages⟩ := h.stages
  refine ⟨?_, ?_, h.coherent_update (hcoherent lock p hm), writer, ?_⟩
  · rw [view_update OutputPlace.lock]
    exact h.lock.moves hm
  · rw [view_update OutputPlace.lock]
    exact h.lock.awake_moves h.awake hm
  · rw [view_update OutputPlace.stage]
    exact (hstages.withLock lock).stay (hwaits p) (hrest p) hsleeps

/-- The thread that waits has the lock. -/
theorem Inv.holding_of_waits (h : s.Inv f) (ht : (f t).stage.waits = true) :
    (f t).lock = .holding := by
  have hcoherent := h.coherent t
  rw [OutputPlace.Coherent] at hcoherent
  cases hs : (f t).stage with
  | waiting rest =>
    rw [hs] at hcoherent
    exact hcoherent
  | sleeping rest =>
    rw [hs] at hcoherent
    exact hcoherent
  | idle | acquiring _ _ | putting _ _ | releasing _ =>
    rw [hs] at ht
    cases ht

/-- While a thread has the lock and does not wait, nobody waits. -/
theorem Inv.writer_eq_none (h : s.Inv f) (ht : (f t).lock = .holding)
    (hwaits : (f t).stage.waits = false) {writer : Option T}
    (hstages : s.Stages (fun u ↦ (f u).stage) writer) : writer = none := by
  cases writer with
  | none => rfl
  | some u =>
    have hu := (hstages.waits_iff u).mpr rfl
    have hlock := h.holding_of_waits hu
    obtain rfl := h.lock.unique u t (by rw [hlock]; rfl) (by rw [ht]; rfl)
    rw [hwaits] at hu
    cases hu

/-- A thread that is about to give its character to the display can. -/
theorem Inv.putChar (h : s.Inv f) {ch : Byte} {rest : List Byte}
    (ht : (f t).stage = .putting ch rest) :
    ∃ s', s.putChar t ch = .ok s' ∧
      s'.Inv (Function.update f t ⟨(f t).lock, .waiting rest⟩) := by
  have hholding : (f t).lock = .holding := by
    have hcoherent := h.coherent t
    rw [OutputPlace.Coherent, ht] at hcoherent
    exact hcoherent
  obtain ⟨writer, hstages⟩ := h.stages
  obtain rfl := h.writer_eq_none hholding (by rw [ht]; rfl) hstages
  obtain ⟨s', hput, hlock, hstages'⟩ := hstages.put ht
  exact ⟨s', hput, h.outside_lock hlock rfl hholding ⟨_, hstages'⟩⟩

/-- In `P` the thread joins the queue, or it takes the unit that was meant for it. -/
theorem Inv.p (h : s.Inv f) {rest : List Byte} (ht : (f t).stage.waits = true)
    (hrest : rest = (f t).stage.rest) (hnot : t ∉ s.waitFor.queue)
    (hturn : s.waitFor.p t (fun sem ↦ { s with waitFor := sem }) ⟨(f t).lock, .sleeping rest⟩
      ⟨(f t).lock, .releasing rest⟩ = .moved s' place) :
    s'.Inv (Function.update f t place) := by
  have hholding := h.holding_of_waits ht
  obtain ⟨writer, hstages⟩ := h.stages
  rcases Semaphore.p_moved hturn with ⟨hv, hq, rfl, rfl⟩ | ⟨hv, rfl, rfl⟩
  · exact h.outside_lock rfl rfl hholding ⟨writer, hstages.sleep ht hv hnot hrest⟩
  · refine h.outside_lock rfl rfl ?_ ⟨none, hstages.pass ht hv hrest⟩
    rw [OutputPlace.Coherent, hholding]
    exact ⟨rfl, by decide⟩

theorem Inv.turn (h : s.Inv f) (hturn : s.turn t text (f t) = .moved s' place) :
    s'.Inv (Function.update f t place) := by
  have hcoherent := h.coherent t
  obtain ⟨writer, hstages⟩ := h.stages
  rw [OutputPlace.Coherent] at hcoherent
  rw [ConsoleOutput.turn] at hturn
  cases hs : (f t).stage with
  | idle =>
    rw [hs] at hturn hcoherent
    cases hturn
    refine h.outside_lock rfl rfl ?_ ⟨writer, hstages.begin hs text⟩
    rw [hcoherent]
    exact OutputPlace.coherent_next text
  | acquiring ch rest =>
    rw [hs] at hturn hcoherent
    refine h.lockTurn (fun p ↦ ?_) (fun p ↦ ?_) (fun lock p hm ↦ ?_) (by rw [hs]; rfl) hturn
    · rw [hs]
      split <;> rfl
    · rw [hs]
      split <;> rfl
    · rw [OutputPlace.Coherent]
      by_cases hp : p = .holding
      · rw [if_pos hp]
        exact hp
      · rw [if_neg hp]
        exact hm.entering hcoherent hp
  | putting ch rest =>
    obtain ⟨s₁, hput, hinv⟩ := h.putChar hs
    rw [hs] at hturn
    dsimp only at hturn
    rw [hput] at hturn
    cases hturn
    exact hinv
  | waiting rest =>
    rw [hs] at hturn
    exact h.p (by rw [hs]; rfl) (by rw [hs]; rfl) (hstages.not_queued (by rw [hs]; rfl)) hturn
  | sleeping rest =>
    rw [hs] at hturn
    obtain ⟨hnot, hp⟩ := Semaphore.pAgain_moved hturn
    exact h.p (by rw [hs]; rfl) (by rw [hs]; rfl) hnot hp
  | releasing rest =>
    rw [hs] at hturn hcoherent
    refine h.lockTurn (fun p ↦ ?_) (fun p ↦ ?_) (fun lock p hm ↦ ?_) (by rw [hs]; rfl) hturn
    · rw [hs]
      split
      · exact OutputStage.waits_next rest
      · rfl
    · rw [hs]
      split
      · exact OutputStage.rest_next rest
      · rfl
    · by_cases hp : p = .outside
      · rw [if_pos hp, hp]
        exact OutputPlace.coherent_next rest
      · rw [if_neg hp]
        exact hm.leaving hcoherent hp

theorem Inv.callBack (h : s.Inv f) (hscheduled : 0 < s.scheduled) :
    ∃ s', { s with scheduled := s.scheduled - 1 }.callBack = .ok s' ∧ s'.Inv f := by
  obtain ⟨writer, hstages⟩ := h.stages
  obtain ⟨s', hcall, hlock, hstages'⟩ := hstages.callBack hscheduled
  refine ⟨s', hcall, ?_, ?_, h.coherent, writer, hstages'⟩
  · rw [hlock]
    exact h.lock
  · rw [hlock]
    exact h.awake

theorem Inv.lockTurn_not_crashed (h : s.Inv f) {stage : LockPlace → OutputStage} {e : Crash} :
    s.lockTurn t (f t).lock stage ≠ .crashed e := by
  intro hc
  rcases Turn.bind_crashed hc with hc | ⟨lock, p, -, hc⟩
  · exact h.lock.not_crashed e hc
  · cases hc

/-- Neither the assertion of the display nor one of the lock or the semaphore fails. -/
theorem Inv.not_crashed (h : s.Inv f) (e : Crash) : s.turn t text (f t) ≠ .crashed e := by
  intro hc
  obtain ⟨writer, hstages⟩ := h.stages
  rw [ConsoleOutput.turn] at hc
  cases hs : (f t).stage with
  | idle =>
    rw [hs] at hc
    cases hc
  | acquiring ch rest =>
    rw [hs] at hc
    exact h.lockTurn_not_crashed hc
  | putting ch rest =>
    obtain ⟨s', hput, -⟩ := h.putChar hs
    rw [hs] at hc
    dsimp only at hc
    rw [hput] at hc
    cases hc
  | waiting rest =>
    rw [hs] at hc
    exact hstages.not_queued (by rw [hs]; rfl) (Semaphore.p_crashed hc)
  | sleeping rest =>
    rw [hs] at hc
    exact Semaphore.pAgain_not_crashed hc
  | releasing rest =>
    rw [hs] at hc
    exact h.lockTurn_not_crashed hc

/-! ## Somebody goes on -/

theorem lockTurn_of_moved {lock : Lock T} {p p' : LockPlace}
    (h : s.lock.turn t p = .moved lock p') (stage : LockPlace → OutputStage) :
    s.lockTurn t p stage = .moved { s with lock := lock } ⟨p', stage p'⟩ := by
  rw [ConsoleOutput.lockTurn, h]
  rfl

/-- The thread that waits goes on when its interrupt has come. -/
theorem Stages.writer_moves (h : s.Stages (fun u ↦ (f u).stage) (some t))
    (hscheduled : s.scheduled = 0) :
    ∃ s' place, (f t).stage ≠ .idle ∧ s.turn t text (f t) = .moved s' place := by
  have hvalue : s.waitFor.value + s.scheduled = 1 := h.value
  have hv : s.waitFor.value ≠ 0 := by omega
  have hnil : s.waitFor.queue = [] := by
    rcases h.queued with hnil | ⟨hzero, -⟩
    · exact hnil
    · exact absurd hzero hv
  have hwaits := (h.waits_iff t).mpr rfl
  rw [ConsoleOutput.turn]
  cases hs : (f t).stage with
  | waiting rest => exact ⟨_, _, nofun, Semaphore.p_of_ne_zero hv⟩
  | sleeping rest =>
    have hnot : t ∉ s.waitFor.queue := by
      rw [hnil]
      exact List.not_mem_nil
    exact ⟨_, _, nofun, Semaphore.pAgain_of_ne_zero hv hnot⟩
  | idle | acquiring _ _ | putting _ _ | releasing _ =>
    rw [hs] at hwaits
    cases hwaits

/-- A thread that has the lock's unit and does not wait goes on. -/
theorem Inv.inside_moves (h : s.Inv f) (hin : (f t).lock.inside = true)
    (hwaits : (f t).stage.waits ≠ true) :
    ∃ s' place, (f t).stage ≠ .idle ∧ s.turn t text (f t) = .moved s' place := by
  have hcoherent := h.coherent t
  rw [OutputPlace.Coherent] at hcoherent
  obtain ⟨lock, p, hlock⟩ := h.lock.turn_of_inside hin
  rw [ConsoleOutput.turn]
  cases hs : (f t).stage with
  | idle =>
    rw [hs] at hcoherent
    rw [hcoherent] at hin
    cases hin
  | acquiring ch rest => exact ⟨_, _, nofun, lockTurn_of_moved hlock _⟩
  | putting ch rest =>
    obtain ⟨s', hput, -⟩ := h.putChar hs
    refine ⟨s', ⟨(f t).lock, .waiting rest⟩, nofun, ?_⟩
    dsimp only
    rw [hput]
  | waiting rest | sleeping rest =>
    rw [hs] at hwaits
    exact absurd rfl hwaits
  | releasing rest => exact ⟨_, _, nofun, lockTurn_of_moved hlock _⟩

/-- A thread that is in a call and has not got the unit of the lock wants it. -/
theorem Inv.acquiring_of_outside (h : s.Inv f) (hs : (f t).stage ≠ .idle)
    (hout : (f t).lock.inside = false) : ∃ ch rest, (f t).stage = .acquiring ch rest := by
  have hcoherent := h.coherent t
  rw [OutputPlace.Coherent] at hcoherent
  cases hstage : (f t).stage with
  | idle => exact absurd hstage hs
  | acquiring ch rest => exact ⟨ch, rest, rfl⟩
  | putting _ _ | waiting _ | sleeping _ =>
    rw [hstage] at hcoherent
    rw [hcoherent] at hout
    cases hout
  | releasing rest =>
    rw [hstage] at hcoherent
    rw [hcoherent.1] at hout
    cases hout

theorem Inv.acquiring_moves (h : s.Inv f) (hs : (f t).stage ≠ .idle)
    (hout : (f t).lock.inside = false) {lock : Lock T} {p : LockPlace}
    (hlock : s.lock.turn t (f t).lock = .moved lock p) :
    ∃ s' place, (f t).stage ≠ .idle ∧ s.turn t text (f t) = .moved s' place := by
  obtain ⟨ch, rest, hstage⟩ := h.acquiring_of_outside hs hout
  rw [ConsoleOutput.turn, hstage]
  exact ⟨_, _, nofun, lockTurn_of_moved hlock _⟩

theorem Inv.live (h : s.Inv f) (ht : (f t).stage ≠ .idle) :
    0 < s.scheduled ∨ ∃ u s' place, (f u).stage ≠ .idle ∧
      s.turn u text (f u) = .moved s' place := by
  obtain ⟨writer, hstages⟩ := h.stages
  by_cases hscheduled : 0 < s.scheduled
  · exact .inl hscheduled
  right
  cases writer with
  | some u => exact ⟨u, hstages.writer_moves (by omega)⟩
  | none =>
    by_cases hin : ∃ u, (f u).lock.inside = true
    · obtain ⟨u, hu⟩ := hin
      have hwaits : (f u).stage.waits ≠ true := fun heq ↦ by cases (hstages.waits_iff u).mp heq
      exact ⟨u, h.inside_moves hu hwaits⟩
    · -- nobody has the unit of the lock, so one of those who want it can take it
      have hfree : ∀ u, (f u).lock.inside = false :=
        fun u ↦ eq_false_of_ne_true fun hu ↦ hin ⟨u, hu⟩
      by_cases hwants : (f t).lock = .testing ∨ (f t).lock = .sleeping
      · obtain ⟨u, lock, hu, hlock⟩ := h.lock.turn_of_free h.awake hfree hwants
        have hstage : (f u).stage ≠ .idle := by
          intro hidle
          have hcoherent := h.coherent u
          rw [OutputPlace.Coherent, hidle] at hcoherent
          rcases hu with hu | hu <;> rw [hcoherent] at hu <;> cases hu
        exact ⟨u, h.acquiring_moves hstage (hfree u) hlock⟩
      · have hout := hfree t
        have houtside : (f t).lock = .outside := by
          cases hlock : (f t).lock with
          | outside => rfl
          | testing => exact absurd (.inl hlock) hwants
          | sleeping => exact absurd (.inr hlock) hwants
          | passed | holding | checking | clearing | posting =>
            rw [hlock] at hout
            cases hout
        have hturn : s.lock.turn t (f t).lock = .moved s.lock .testing := by
          rw [houtside]
          rfl
        exact ⟨t, h.acquiring_moves ht hout hturn⟩

end inv

variable [DecidableEq T] {c : Config T (ConsoleOutput T) OutputPlace}

theorem inv_of_reachable (hc : Reachable c) : c.shared.Inv c.place := by
  refine hc.invariant Inv inv_new (fun s f t text s' place h hturn ↦ h.turn hturn) ?_
  intro s f s' h hinterrupt
  obtain ⟨hscheduled, hcall⟩ := hinterrupt
  obtain ⟨s₁, hcall₁, hinv⟩ := h.callBack hscheduled
  rw [hcall] at hcall₁
  cases hcall₁
  exact hinv

/-- One thread has given its first character to the display, another waits for the lock. -/
def contended : Config Bool (ConsoleOutput Bool) OutputPlace :=
  (start.follow turn [(true, [0x61, 0x62]), (true, []), (true, []), (true, []), (true, []),
    (false, [0x63]), (false, []), (false, [])]).get (by decide)

end ConsoleOutput

end Nachos
