import Nachos.FileSys.Disk
import Nachos.Program.Calls
import Nachos.Threads.Lock

/-!
# The synchronous disk

The device does one request at a time and answers with an interrupt, some ticks later. `SynchDisk`
makes that a call that returns when the request is done: a lock keeps the requests apart, and the
interrupt posts a semaphore on which the caller waits. Any number of threads make such calls; the
interrupt comes at any time after its request.

The requests are numbered by the order in which the calls got the lock. A record is kept of the
calls in that order, of those whose request was made, of the interrupts that came and of what each
call found in its buffer when it was past `P`. The calls that the threads make, and what these come
back with, are noted beside the system.
-/

namespace Nachos

open Program Threads

variable {T : Type}

inductive Call where
  | read (sectorNumber : ℤ)
  | write (sectorNumber : ℤ) (data : Sector)

def Call.sectorNumber : Call → ℤ
  | .read sectorNumber => sectorNumber
  | .write sectorNumber _ => sectorNumber

def Call.Valid (call : Call) : Prop := 0 ≤ call.sectorNumber ∧ call.sectorNumber < numSectors

instance (call : Call) : Decidable call.Valid :=
  inferInstanceAs (Decidable (0 ≤ call.sectorNumber ∧ call.sectorNumber < numSectors))

/-- What the request does to the file that stands for the disk, and what it leaves in the buffer. -/
def Call.perform : Call → DiskM Sector
  | .read sectorNumber => readSector sectorNumber
  | .write sectorNumber data => do
    writeSector sectorNumber data
    return data

/-- A call that got the lock as number `number`, and the contents of its buffer. -/
structure Answer where
  number : ℕ
  call : Call
  data : Sector

/-- `class SynchDisk` with its `Disk`. -/
structure SynchDisk (T : Type) where
  lock : Lock T
  semaphore : Semaphore T
  active : Bool
  contents : Disk
  /-- The disk interrupts that are scheduled, by the number of the request. -/
  pending : List ℕ
  /-- The calls in the order in which they got the lock, with the threads that made them. -/
  order : List (T × Call)
  requested : List Call
  completed : List ℕ
  /-- The answers that threads have got, when they were past `P`. -/
  answered : List (T × Answer)

/-- `SynchDisk::SynchDisk`. -/
def SynchDisk.new (contents : Disk) : SynchDisk T where
  lock := .new
  semaphore := .new 0
  active := false
  contents := contents
  pending := []
  order := []
  requested := []
  completed := []
  answered := []

/-- Where a thread stands in `ReadSector` or `WriteSector`. -/
inductive DiskStage where
  /-- In no call. -/
  | idle
  | acquiring (call : Call)
  /-- It has the lock, or only its semaphore so far. -/
  | acquired (call : Call) (number : ℕ)
  /-- About to test the value in `P`. -/
  | waiting (answer : Answer)
  | sleeping (answer : Answer)
  | releasing (answer : Answer)

structure DiskPlace where
  lock : LockPlace
  stage : DiskStage

namespace SynchDisk

variable [DecidableEq T]

/-- `Disk::ReadRequest` and `Disk::WriteRequest`. -/
def request (s : SynchDisk T) (call : Call) (number : ℕ) : Except Crash (SynchDisk T × Answer) :=
  if s.active then .error .assertFailed
  else
    match call.perform s.contents with
    | .error _ _ => .error .assertFailed
    | .ok data contents =>
      .ok ({ s with
        contents := contents
        active := true
        pending := s.pending ++ [number]
        requested := s.requested ++ [call] }, ⟨number, call, data⟩)

/-- A statement of the lock's code. -/
def lockTurn (s : SynchDisk T) (t : T) (place : LockPlace) (stage : DiskStage) :
    Turn Crash (SynchDisk T) DiskPlace :=
  (s.lock.turn t place).bind fun lock place' ↦ .moved { s with lock := lock } ⟨place', stage⟩

/-- After a test of the value in `P`. -/
def afterP (s : SynchDisk T) (t : T) (lock : LockPlace) (answer : Answer) (sem : Semaphore T)
    (passed : Bool) : Turn Crash (SynchDisk T) DiskPlace :=
  if passed then
    .moved { s with semaphore := sem, answered := s.answered ++ [(t, answer)] }
      ⟨lock, .releasing answer⟩
  else .moved { s with semaphore := sem } ⟨lock, .sleeping answer⟩

/-- The next statement of a thread; one that is in no call begins the call `choice`. -/
def turn (t : T) (choice : Call) (s : SynchDisk T) (place : DiskPlace) :
    Turn Crash (SynchDisk T) DiskPlace :=
  match place.stage with
  | .idle => if choice.Valid then .moved s ⟨place.lock, .acquiring choice⟩ else .blocked
  | .acquiring call =>
    (s.lock.turn t place.lock).bind fun lock place' ↦
      if place' = .passed then
        .moved { s with lock := lock, order := s.order ++ [(t, call)] }
          ⟨place', .acquired call s.order.length⟩
      else .moved { s with lock := lock } ⟨place', .acquiring call⟩
  | .acquired call number =>
    if place.lock = .holding then
      match s.request call number with
      | .error e => .crashed e
      | .ok (s', answer) => .moved s' ⟨place.lock, .waiting answer⟩
    else s.lockTurn t place.lock (.acquired call number)
  | .waiting answer =>
    (s.semaphore.p t id false true).bind (s.afterP t place.lock answer)
  | .sleeping answer =>
    (s.semaphore.pAgain t id false true).bind (s.afterP t place.lock answer)
  | .releasing answer =>
    if place.lock = .outside then .moved s ⟨place.lock, .idle⟩
    else s.lockTurn t place.lock (.releasing answer)

/-- A disk interrupt: `Disk::CallBack` and `SynchDisk::CallBack`. -/
def Interrupt (s s' : SynchDisk T) : Prop :=
  ∃ number ∈ s.pending, ∃ sem, s.semaphore.post = .ok sem ∧
    s' = { s with
      active := false
      semaphore := sem
      pending := s.pending.erase number
      completed := s.completed ++ [number] }

def start (contents : Disk) : Config T (SynchDisk T) DiskPlace :=
  ⟨.new contents, fun _ ↦ ⟨.outside, .idle⟩⟩

end SynchDisk

/-! ## What the calls mean -/

/-- The data a call writes to sector `k`. -/
def Call.writes (k : ℕ) : Call → Option Sector
  | .read _ => none
  | .write sectorNumber data => if sectorNumber = k then some data else none

/-- The data last written to sector `k` by the calls, or what was there at first. -/
def lastWrite (initial : Disk) (calls : List Call) (k : ℕ) : Sector :=
  ((calls.filterMap (Call.writes k)).getLast?).getD (initial k)

/-- The answer to a call, in view of the calls before it. -/
structure Answer.Correct (initial : Disk) (calls : List Call) (answer : Answer) : Prop where
  call : calls[answer.number]? = some answer.call
  read : ∀ k : ℕ, answer.call = .read k →
    answer.data = lastWrite initial (calls.take answer.number) k

section meaning

variable {initial : Disk} {calls : List Call} {call : Call}

private theorem lastWrite_append (k : ℕ) :
    lastWrite initial (calls ++ [call]) k = (call.writes k).getD (lastWrite initial calls k) := by
  rw [lastWrite, List.filterMap_append]
  cases h : call.writes k with
  | none => simp [h, lastWrite]
  | some data => simp [h]

/-- Later calls do not change an answer. -/
theorem Answer.Correct.append {answer : Answer} (h : answer.Correct initial calls) (call : Call) :
    answer.Correct initial (calls ++ [call]) := by
  obtain ⟨hlt, -⟩ := List.getElem?_eq_some_iff.mp h.call
  refine ⟨?_, fun k hk ↦ ?_⟩
  · rw [List.getElem?_append_left hlt]
    exact h.call
  · rw [List.take_append_of_le_length (Nat.le_of_lt hlt)]
    exact h.read k hk

/-- A request leaves on the disk what the call writes, and in the buffer of a reader what was
there. -/
theorem Call.perform_spec (hvalid : call.Valid) (d : Disk) :
    ∃ data d', call.perform d = .ok data d' ∧ (∀ k, d' k = (call.writes k).getD (d k)) ∧
      ∀ k : ℕ, call = .read k → data = d k := by
  cases call with
  | read sectorNumber =>
    refine ⟨d sectorNumber.toNat, d, if_pos hvalid, fun _ ↦ rfl, fun k hk ↦ ?_⟩
    cases hk
    rfl
  | write sectorNumber data =>
    have hrun : writeSector sectorNumber data d
        = .ok () (Function.update d sectorNumber.toNat data) := if_pos hvalid
    refine ⟨data, Function.update d sectorNumber.toNat data, bind_of_ok hrun, fun k ↦ ?_, nofun⟩
    have hnonneg : 0 ≤ sectorNumber := hvalid.1
    by_cases hk : sectorNumber = k
    · subst hk
      simp [Call.writes]
    · have hne : k ≠ sectorNumber.toNat := by omega
      simp [Call.writes, hk, Function.update_of_ne hne]

end meaning

/-! ## The invariant -/

namespace DiskStage

/-- The call of a thread that has not made its request. -/
def call : DiskStage → Option Call
  | .acquiring call | .acquired call _ => some call
  | .idle | .waiting _ | .sleeping _ | .releasing _ => none

/-- The call and the number of a thread that is about to make its request. -/
def ready : DiskStage → Option (Call × ℕ)
  | .acquired call number => some (call, number)
  | .idle | .acquiring _ | .waiting _ | .sleeping _ | .releasing _ => none

/-- The request on whose interrupt the thread waits. -/
def waits : DiskStage → Option ℕ
  | .waiting answer | .sleeping answer => some answer.number
  | .idle | .acquiring _ | .acquired _ _ | .releasing _ => none

def sleeps : DiskStage → Bool
  | .sleeping _ => true
  | .idle | .acquiring _ | .acquired _ _ | .waiting _ | .releasing _ => false

/-- The answer that the thread will get. -/
def answer : DiskStage → Option Answer
  | .waiting answer | .sleeping answer => some answer
  | .idle | .acquiring _ | .acquired _ _ | .releasing _ => none

/-- The number of a thread that is not past `P`. -/
def number : DiskStage → Option ℕ
  | .acquired _ number => some number
  | .waiting answer | .sleeping answer => some answer.number
  | .idle | .acquiring _ | .releasing _ => none

end DiskStage

/-- The stage of the call and the place in the lock's code agree. -/
def DiskPlace.Coherent (place : DiskPlace) : Prop :=
  match place.stage with
  | .idle => place.lock = .outside
  | .acquiring _ => place.lock.inside = false
  | .acquired _ _ => place.lock = .passed ∨ place.lock = .holding
  | .waiting _ | .sleeping _ => place.lock = .holding
  | .releasing _ => place.lock ≠ .testing ∧ place.lock ≠ .sleeping ∧ place.lock ≠ .passed

/-- What the thread that is inside the lock is doing. -/
inductive DiskPhase (T : Type) where
  /-- Nobody is inside, or its request is done. -/
  | rest
  | acquired (t : T) (call : Call)
  | waiting (t : T) (number : ℕ)

/-- The device and the semaphore. While a thread waits the request is in the device, or its
interrupt has come and the semaphore has a unit. -/
def DiskPhase.Device (s : SynchDisk T) : DiskPhase T → Prop
  | .waiting _ number =>
    (s.active = true ∧ s.pending = [number] ∧ s.semaphore.value = 0) ∨
      (s.active = false ∧ s.pending = [] ∧ s.semaphore.value = 1 ∧ number ∈ s.completed)
  | .rest | .acquired _ _ => s.active = false ∧ s.pending = [] ∧ s.semaphore.value = 0

/-- The calls that got the lock. -/
def DiskPhase.order (requested : List Call) : DiskPhase T → List Call
  | .acquired _ call => requested ++ [call]
  | .rest | .waiting _ _ => requested

namespace SynchDisk

/-- What holds of the stages `g` of the threads. -/
structure Stages (initial : Disk) (s : SynchDisk T) (g : T → DiskStage) (phase : DiskPhase T) :
    Prop where
  valid : ∀ t call, (g t).call = some call → call.Valid
  ready_iff : ∀ t call number, (g t).ready = some (call, number) ↔
    phase = .acquired t call ∧ number = s.requested.length
  waits_iff : ∀ t number, (g t).waits = some number ↔ phase = .waiting t number
  device : phase.Device s
  order : s.order.map Prod.snd = phase.order s.requested
  queued : ∀ t ∈ s.semaphore.queue, (g t).sleeps = true
  contents : ∀ k, s.contents k = lastWrite initial s.requested k
  correct : ∀ t answer, (g t).answer = some answer → answer.Correct initial s.requested
  answered : ∀ e ∈ s.answered, e.2.Correct initial s.requested ∧ e.2.number ∈ s.completed

/-- The number of a call says where it is in the order, and no two calls have the same number. -/
structure Numbered (s : SynchDisk T) (g : T → DiskStage) : Prop where
  own : ∀ t number, (g t).number = some number → (s.order.map Prod.fst)[number]? = some t
  new : ∀ t number, (g t).number = some number → ∀ e ∈ s.answered, e.2.number ≠ number
  answered_own : ∀ e ∈ s.answered, (s.order.map Prod.fst)[e.2.number]? = some e.1
  answered_nodup : (s.answered.map fun e ↦ e.2.number).Nodup

structure Inv (initial : Disk) (s : SynchDisk T) (f : T → DiskPlace) : Prop where
  lock : s.lock.Inv fun t ↦ (f t).lock
  coherent : ∀ t, (f t).Coherent
  stages : ∃ phase, s.Stages initial (fun t ↦ (f t).stage) phase
  numbered : s.Numbered fun t ↦ (f t).stage

section stages

variable [DecidableEq T] {initial : Disk} {s : SynchDisk T} {g : T → DiskStage}
  {phase : DiskPhase T} {t : T} {stage : DiskStage} {call : Call} {answer : Answer}

omit [DecidableEq T] in
/-- The lock is not looked at. -/
theorem Stages.withLock (h : s.Stages initial g phase) (lock : Lock T) :
    { s with lock := lock }.Stages initial g phase :=
  ⟨h.valid, h.ready_iff, h.waits_iff, h.device, h.order, h.queued, h.contents, h.correct,
    h.answered⟩

omit [DecidableEq T] in
theorem Stages.not_queued (h : s.Stages initial g phase) (ht : (g t).sleeps = false) :
    t ∉ s.semaphore.queue := by
  intro hmem
  rw [h.queued t hmem] at ht
  cases ht

theorem Stages.queued_update (h : s.Stages initial g phase) (ht : t ∉ s.semaphore.queue)
    (stage : DiskStage) :
    ∀ u ∈ s.semaphore.queue, (Function.update g t stage u).sleeps = true :=
  forall_mem_update (P := fun stage ↦ stage.sleeps = true) h.queued ht stage

theorem Stages.ready_update (h : s.Stages initial g phase) (ht : stage.ready = (g t).ready)
    (u : T) (call : Call) (number : ℕ) :
    (Function.update g t stage u).ready = some (call, number) ↔
      phase = .acquired u call ∧ number = s.requested.length := by
  rw [view_update_same DiskStage.ready ht]
  exact h.ready_iff u call number

theorem Stages.waits_update (h : s.Stages initial g phase) (ht : stage.waits = (g t).waits)
    (u : T) (number : ℕ) :
    (Function.update g t stage u).waits = some number ↔ phase = .waiting u number := by
  rw [view_update_same DiskStage.waits ht]
  exact h.waits_iff u number

omit [DecidableEq T] in
theorem Stages.ready_eq_none (h : s.Stages initial g phase)
    (hne : ∀ call, phase ≠ .acquired t call) :
    (g t).ready = none := by
  refine Option.eq_none_iff_forall_ne_some.mpr fun e he ↦ ?_
  exact hne e.1 ((h.ready_iff t e.1 e.2).mp he).1

omit [DecidableEq T] in
theorem Stages.waits_eq_none (h : s.Stages initial g phase) (hne : ∀ n, phase ≠ .waiting t n) :
    (g t).waits = none :=
  Option.eq_none_iff_forall_ne_some.mpr fun n hn ↦ hne n ((h.waits_iff t n).mp hn)

/-- A thread begins a call. -/
theorem Stages.begin (h : s.Stages initial g phase) (ht : g t = .idle) (hvalid : call.Valid) :
    s.Stages initial (Function.update g t (.acquiring call)) phase where
  valid := forall_view_update h.valid fun _ hcall ↦ Option.some.inj hcall ▸ hvalid
  ready_iff := h.ready_update (by rw [ht]; rfl)
  waits_iff := h.waits_update (by rw [ht]; rfl)
  device := h.device
  order := h.order
  queued := h.queued_update (h.not_queued (by rw [ht]; rfl)) _
  contents := h.contents
  correct := forall_view_update h.correct nofun
  answered := h.answered

/-- A thread gets the lock. -/
theorem Stages.enter (h : s.Stages initial g .rest) (ht : g t = .acquiring call) :
    { s with order := s.order ++ [(t, call)] }.Stages initial
      (Function.update g t (.acquired call s.order.length)) (.acquired t call) where
  valid := by
    have hvalid := h.valid t call (by rw [ht]; rfl)
    exact forall_view_update h.valid fun _ hcall ↦ Option.some.inj hcall ▸ hvalid
  ready_iff := by
    have hlength : s.order.length = s.requested.length := by
      rw [← show s.order.map Prod.snd = s.requested from h.order, List.length_map]
    intro u call' number
    by_cases hu : u = t
    · rw [hu, Function.update_self, hlength]
      simp [DiskStage.ready, eq_comm]
    · rw [Function.update_of_ne hu, h.ready_eq_none nofun]
      simp [Ne.symm hu]
  waits_iff := by
    intro u number
    by_cases hu : u = t
    · rw [hu, Function.update_self]
      exact ⟨nofun, nofun⟩
    · rw [Function.update_of_ne hu, h.waits_eq_none nofun]
      exact ⟨nofun, nofun⟩
  device := h.device
  order := by
    rw [List.map_append, h.order]
    rfl
  queued := h.queued_update (h.not_queued (by rw [ht]; rfl)) _
  contents := h.contents
  correct := forall_view_update h.correct nofun
  answered := h.answered

/-- The state after a request. -/
def withRequest (s : SynchDisk T) (answer : Answer) (contents : Disk) : SynchDisk T :=
  { s with
    contents := contents
    active := true
    pending := s.pending ++ [answer.number]
    requested := s.requested ++ [answer.call] }

/-- The request: what it finds on the disk was left by the calls before it. -/
theorem Stages.request {d : Disk} (h : s.Stages initial g (.acquired t answer.call))
    (ht : g t = .acquired answer.call answer.number)
    (hcontents : ∀ k, d k = (answer.call.writes k).getD (s.contents k))
    (hread : ∀ k : ℕ, answer.call = .read k → answer.data = s.contents k) :
    (s.withRequest answer d).Stages initial (Function.update g t (.waiting answer))
      (.waiting t answer.number) where
  valid := forall_view_update h.valid nofun
  ready_iff := by
    intro u call number
    by_cases hu : u = t
    · rw [hu, Function.update_self]
      exact ⟨nofun, nofun⟩
    · rw [Function.update_of_ne hu, h.ready_eq_none (by simpa using Ne.symm hu)]
      exact ⟨nofun, nofun⟩
  waits_iff := by
    intro u number
    by_cases hu : u = t
    · rw [hu, Function.update_self]
      simp [DiskStage.waits]
    · rw [Function.update_of_ne hu, h.waits_eq_none nofun]
      simp [Ne.symm hu]
  device := by
    obtain ⟨-, hpending, hvalue⟩ := h.device
    refine Or.inl ⟨rfl, ?_, hvalue⟩
    rw [withRequest, hpending, List.nil_append]
  order := h.order
  queued := h.queued_update (h.not_queued (by rw [ht]; rfl)) _
  contents := by
    intro k
    rw [withRequest, lastWrite_append, ← h.contents k]
    exact hcontents k
  correct := by
    -- its number is that of the requests before it, which have left the contents it finds
    have hnumber := ((h.ready_iff t answer.call answer.number).mp (by rw [ht]; rfl)).2
    have hself : answer.Correct initial (s.requested ++ [answer.call]) := by
      refine ⟨?_, fun k hk ↦ ?_⟩
      · rw [hnumber, List.getElem?_concat_length]
      · rw [hnumber, List.take_left, ← h.contents k]
        exact hread k hk
    intro u a hu
    rw [Function.update_apply] at hu
    split at hu
    · cases hu
      exact hself
    · exact (h.correct u a hu).append answer.call
  answered := fun e he ↦ ⟨(h.answered e he).1.append answer.call, (h.answered e he).2⟩

theorem Stages.sleep (h : s.Stages initial g phase)
    (ht : g t = .waiting answer ∨ g t = .sleeping answer) :
    { s with semaphore := { s.semaphore with queue := s.semaphore.queue ++ [t] } }.Stages initial
      (Function.update g t (.sleeping answer)) phase where
  valid := forall_view_update h.valid nofun
  ready_iff := h.ready_update (by rcases ht with ht | ht <;> simp [ht, DiskStage.ready])
  waits_iff := h.waits_update (by rcases ht with ht | ht <;> simp [ht, DiskStage.waits])
  device := by
    have := h.device
    cases phase <;> exact this
  order := h.order
  queued := by
    intro u hu
    rcases List.mem_append.mp hu with hu | hu
    · rw [Function.update_apply]
      split
      · rfl
      · exact h.queued u hu
    · rw [List.mem_singleton.mp hu, Function.update_self]
      rfl
  contents := h.contents
  correct := by
    intro u a hu
    have hanswer : (DiskStage.sleeping answer).answer = (g t).answer := by
      rcases ht with ht | ht <;> simp [ht, DiskStage.answer]
    rw [view_update_same DiskStage.answer hanswer] at hu
    exact h.correct u a hu
  answered := h.answered

/-- The state after `P`. -/
def withAnswer (s : SynchDisk T) (t : T) (answer : Answer) : SynchDisk T :=
  { s with
    semaphore := { s.semaphore with value := s.semaphore.value - 1 }
    answered := s.answered ++ [(t, answer)] }

/-- The thread that waits takes the unit: it was put there by the interrupt of its own request. -/
theorem Stages.pass (h : s.Stages initial g (.waiting t answer.number))
    (ht : g t = .waiting answer ∨ g t = .sleeping answer) (hq : t ∉ s.semaphore.queue)
    (hv : s.semaphore.value ≠ 0) :
    (s.withAnswer t answer).Stages initial (Function.update g t (.releasing answer)) .rest := by
  obtain ⟨hactive, hpending, hvalue, hdone⟩ : s.active = false ∧ s.pending = [] ∧
      s.semaphore.value = 1 ∧ answer.number ∈ s.completed := by
    rcases h.device with ⟨-, -, hzero⟩ | hdone
    · exact absurd hzero hv
    · exact hdone
  have hanswer : answer.Correct initial s.requested :=
    h.correct t answer (by rcases ht with ht | ht <;> (rw [ht]; rfl))
  constructor
  · exact forall_view_update h.valid nofun
  · intro u call number
    by_cases hu : u = t
    · rw [hu, Function.update_self]
      exact ⟨nofun, nofun⟩
    · rw [Function.update_of_ne hu, h.ready_eq_none nofun]
      exact ⟨nofun, nofun⟩
  · intro u number
    by_cases hu : u = t
    · rw [hu, Function.update_self]
      exact ⟨nofun, nofun⟩
    · rw [Function.update_of_ne hu, h.waits_eq_none (by simpa using fun heq ↦ absurd heq.symm hu)]
      exact ⟨nofun, nofun⟩
  · exact ⟨hactive, hpending, by rw [withAnswer, hvalue]; rfl⟩
  · exact h.order
  · exact h.queued_update hq _
  · exact h.contents
  · exact forall_view_update h.correct nofun
  · intro e he
    rcases List.mem_append.mp he with he | he
    · exact h.answered e he
    · rw [List.mem_singleton.mp he]
      exact ⟨hanswer, hdone⟩

theorem Stages.return (h : s.Stages initial g phase) (ht : g t = .releasing answer) :
    s.Stages initial (Function.update g t .idle) phase where
  valid := forall_view_update h.valid nofun
  ready_iff := h.ready_update (by rw [ht]; rfl)
  waits_iff := h.waits_update (by rw [ht]; rfl)
  device := h.device
  order := h.order
  queued := h.queued_update (h.not_queued (by rw [ht]; rfl)) _
  contents := h.contents
  correct := forall_view_update h.correct nofun
  answered := h.answered

omit [DecidableEq T] in
/-- The interrupt is that of the request on which a thread waits. -/
theorem Stages.interrupt {s' : SynchDisk T} (h : s.Stages initial g phase)
    (hs : s.Interrupt s') : s'.Stages initial g phase := by
  obtain ⟨number, hmem, sem, hpost, rfl⟩ := hs
  have hcompleted : ∀ n ∈ s.completed, n ∈ s.completed ++ [number] :=
    fun n hn ↦ List.mem_append_left _ hn
  have hqueue : ∀ u ∈ sem.queue, u ∈ s.semaphore.queue := by
    rw [Semaphore.post] at hpost
    split at hpost
    · cases hpost
    · cases hpost
      exact fun u hu ↦ List.mem_of_mem_tail hu
  constructor
  · exact h.valid
  · exact h.ready_iff
  · exact h.waits_iff
  · -- nothing is pending unless somebody waits, and then one request is
    have hdevice := h.device
    cases phase with
    | rest =>
      rw [hdevice.2.1] at hmem
      cases hmem
    | acquired t call =>
      rw [hdevice.2.1] at hmem
      cases hmem
    | waiting t n =>
      rcases hdevice with ⟨-, hpending, hvalue⟩ | ⟨-, hpending, -⟩
      · rw [hpending, List.mem_singleton] at hmem
        subst hmem
        refine Or.inr ⟨rfl, ?_, ?_, List.mem_append_right _ (List.mem_singleton_self _)⟩
        · simp [hpending]
        · rw [Semaphore.post, hvalue, if_neg (by decide)] at hpost
          cases hpost
          rfl
      · rw [hpending] at hmem
        cases hmem
  · exact h.order
  · exact fun u hu ↦ h.queued u (hqueue u hu)
  · exact h.contents
  · exact h.correct
  · exact fun e he ↦ ⟨(h.answered e he).1, hcompleted _ (h.answered e he).2⟩

/-- A step that gives nobody a number or an answer. -/
theorem Numbered.stay {s' : SynchDisk T} (h : s.Numbered g) (ht : stage.number = (g t).number)
    (horder : s'.order = s.order) (hanswered : s'.answered = s.answered) :
    s'.Numbered (Function.update g t stage) := by
  have hnumber := view_update_same DiskStage.number ht
  constructor
  · intro u n hu
    rw [hnumber] at hu
    rw [horder]
    exact h.own u n hu
  · intro u n hu
    rw [hnumber] at hu
    rw [hanswered]
    exact h.new u n hu
  · rw [hanswered, horder]
    exact h.answered_own
  · rw [hanswered]
    exact h.answered_nodup

/-- The next number is new. -/
theorem Numbered.enter {s' : SynchDisk T} (h : s.Numbered g)
    (horder : s'.order = s.order ++ [(t, call)]) (hanswered : s'.answered = s.answered) :
    s'.Numbered (Function.update g t (.acquired call s.order.length)) := by
  have hold : ∀ {n u}, (s.order.map Prod.fst)[n]? = some u →
      n < s.order.length ∧ (s'.order.map Prod.fst)[n]? = some u := by
    intro n u hu
    obtain ⟨hlt, -⟩ := List.getElem?_eq_some_iff.mp hu
    rw [horder, List.map_append, List.getElem?_append_left hlt]
    exact ⟨by simpa using hlt, hu⟩
  have hself : (s'.order.map Prod.fst)[s.order.length]? = some t := by
    rw [horder]
    simp
  constructor
  · intro u n hu
    rw [Function.update_apply] at hu
    split at hu
    case isTrue heq =>
      cases hu
      rw [heq]
      exact hself
    case isFalse => exact (hold (h.own u n hu)).2
  · intro u n hu e he
    rw [hanswered] at he
    rw [Function.update_apply] at hu
    split at hu
    · cases hu
      exact Nat.ne_of_lt (hold (h.answered_own e he)).1
    · exact h.new u n hu e he
  · rw [hanswered]
    exact fun e he ↦ (hold (h.answered_own e he)).2
  · rw [hanswered]
    exact h.answered_nodup

/-- The number goes with the answer. -/
theorem Numbered.pass (h : s.Numbered g) (ht : (g t).number = some answer.number) :
    (s.withAnswer t answer).Numbered (Function.update g t (.releasing answer)) := by
  have hown := h.own t answer.number ht
  constructor
  · exact fun u n hu ↦ h.own u n (view_of_update_none DiskStage.number rfl hu).2
  · intro u n hu e he
    obtain ⟨hne, hu⟩ := view_of_update_none DiskStage.number rfl hu
    rcases List.mem_append.mp he with he | he
    · exact h.new u n hu e he
    · rw [List.mem_singleton.mp he]
      rintro rfl
      exact hne (Option.some.inj ((h.own u _ hu).symm.trans hown))
  · intro e he
    rcases List.mem_append.mp he with he | he
    · exact h.answered_own e he
    · rw [List.mem_singleton.mp he]
      exact hown
  · change ((s.answered ++ [(t, answer)]).map fun e ↦ e.2.number).Nodup
    rw [List.map_append, List.nodup_append]
    refine ⟨h.answered_nodup, List.nodup_singleton _, fun n hn m hm ↦ ?_⟩
    obtain ⟨e, he, rfl⟩ := List.mem_map.mp hn
    rw [List.mem_singleton.mp hm]
    exact h.new t _ ht e he

end stages

/-! ## Every interleaving -/

section turns

variable [DecidableEq T] {initial : Disk} {s s' : SynchDisk T} {f : T → DiskPlace} {t : T}
  {place place' : DiskPlace}

/-- What a turn does. -/
inductive Moves (t : T) (s : SynchDisk T) (place : DiskPlace) : SynchDisk T → DiskPlace → Prop
  | begin {call : Call} (hs : place.stage = .idle) (hvalid : call.Valid) :
      s.Moves t place s ⟨place.lock, .acquiring call⟩
  | lock {lock : Lock T} {p : LockPlace} (hm : s.lock.Moves t place.lock lock p)
      (hs : (∃ call, place.stage = .acquiring call) ∧ p ≠ .passed ∨
        (∃ call number, place.stage = .acquired call number) ∧ place.lock ≠ .holding ∨
        (∃ answer, place.stage = .releasing answer) ∧ place.lock ≠ .outside) :
      s.Moves t place { s with lock := lock } ⟨p, place.stage⟩
  | enter {call : Call} {lock : Lock T} (hs : place.stage = .acquiring call)
      (hm : s.lock.Moves t place.lock lock .passed) :
      s.Moves t place { s with lock := lock, order := s.order ++ [(t, call)] }
        ⟨.passed, .acquired call s.order.length⟩
  | request {answer : Answer} {d : Disk}
      (hs : place.stage = .acquired answer.call answer.number) (hl : place.lock = .holding)
      (hrun : answer.call.perform s.contents = .ok answer.data d) :
      s.Moves t place (s.withRequest answer d) ⟨place.lock, .waiting answer⟩
  | sleep {answer : Answer} (hs : place.stage = .waiting answer ∨ place.stage = .sleeping answer)
      (hq : t ∉ s.semaphore.queue) :
      s.Moves t place
        { s with semaphore := { s.semaphore with queue := s.semaphore.queue ++ [t] } }
        ⟨place.lock, .sleeping answer⟩
  | pass {answer : Answer} (hs : place.stage = .waiting answer ∨ place.stage = .sleeping answer)
      (hv : s.semaphore.value ≠ 0) (hq : place.stage.sleeps = true → t ∉ s.semaphore.queue) :
      s.Moves t place (s.withAnswer t answer) ⟨place.lock, .releasing answer⟩
  | return {answer : Answer} (hs : place.stage = .releasing answer) (hl : place.lock = .outside) :
      s.Moves t place s ⟨place.lock, .idle⟩

theorem moves_of_lockTurn {stage : DiskStage} (hstage : place.stage = stage)
    (hs : (∃ call number, stage = .acquired call number) ∧ place.lock ≠ .holding ∨
      (∃ answer, stage = .releasing answer) ∧ place.lock ≠ .outside)
    (h : s.lockTurn t place.lock stage = .moved s' place') : s.Moves t place s' place' := by
  obtain ⟨lock, p, hturn, hmoved⟩ := Turn.bind_moved h
  cases hmoved
  subst hstage
  exact .lock (Lock.moves_of_turn hturn) (Or.inr hs)

/-- The code of `P`, the first time and after a sleep. -/
theorem moves_of_p {answer : Answer}
    (hs : place.stage = .waiting answer ∨ place.stage = .sleeping answer)
    (hq : place.stage.sleeps = true → t ∉ s.semaphore.queue)
    {sem : Semaphore T} {passed : Bool} (hp : s.semaphore.p t id false true = .moved sem passed)
    (h : s.afterP t place.lock answer sem passed = .moved s' place') :
    s.Moves t place s' place' := by
  obtain ⟨-, hnot, rfl, rfl⟩ | ⟨hv, rfl, rfl⟩ := Semaphore.p_moved hp
  · cases h
    exact .sleep hs hnot
  · cases h
    exact .pass hs hv hq

theorem moves_of_turn {choice : Call} (h : s.turn t choice place = .moved s' place') :
    s.Moves t place s' place' := by
  rw [turn] at h
  cases hs : place.stage with
  | idle =>
    rw [hs] at h
    dsimp only at h
    split at h
    · cases h
      exact .begin hs ‹_›
    · cases h
  | acquiring call =>
    rw [hs] at h
    obtain ⟨lock, p, hturn, hmoved⟩ := Turn.bind_moved h
    have hm := Lock.moves_of_turn hturn
    by_cases hp : p = .passed
    · rw [if_pos hp] at hmoved
      cases hmoved
      subst hp
      exact .enter hs hm
    · rw [if_neg hp] at hmoved
      cases hmoved
      rw [← hs]
      exact .lock hm (Or.inl ⟨⟨call, hs⟩, hp⟩)
  | acquired call number =>
    rw [hs] at h
    dsimp only at h
    by_cases hl : place.lock = .holding
    · rw [if_pos hl, request] at h
      -- the device asserts that it is idle and that the sector exists
      cases hactive : s.active with
      | true =>
        rw [hactive, if_pos rfl] at h
        cases h
      | false =>
        rw [hactive, if_neg (by decide)] at h
        cases hrun : call.perform s.contents with
        | error e d =>
          rw [hrun] at h
          cases h
        | ok data d =>
          rw [hrun] at h
          cases h
          change s.Moves t place (s.withRequest ⟨number, call, data⟩ d) _
          exact .request hs hl hrun
    · rw [if_neg hl] at h
      exact moves_of_lockTurn hs (Or.inl ⟨⟨call, number, rfl⟩, hl⟩) h
  | waiting answer =>
    rw [hs] at h
    obtain ⟨sem, passed, hp, h⟩ := Turn.bind_moved h
    exact moves_of_p (Or.inl hs) (by rw [hs]; nofun) hp h
  | sleeping answer =>
    rw [hs] at h
    obtain ⟨sem, passed, hp, h⟩ := Turn.bind_moved h
    -- `V` has taken the thread off the queue; the loop of `P` tests again
    obtain ⟨hnot, hp⟩ := Semaphore.pAgain_moved hp
    exact moves_of_p (Or.inr hs) (fun _ ↦ hnot) hp h
  | releasing answer =>
    rw [hs] at h
    dsimp only at h
    by_cases hl : place.lock = .outside
    · rw [if_pos hl] at h
      cases h
      exact .return hs hl
    · rw [if_neg hl] at h
      exact moves_of_lockTurn hs (Or.inr ⟨⟨answer, rfl⟩, hl⟩) h

/-- The stages after a turn. -/
theorem stage_update (f : T → DiskPlace) (t : T) (place : DiskPlace) :
    (fun u ↦ (Function.update f t place u).stage)
      = Function.update (fun u ↦ (f u).stage) t place.stage :=
  view_update DiskPlace.stage f t place

/-- In the lock's code the stage stays. -/
private theorem stage_update_self (f : T → DiskPlace) (t : T) (p : LockPlace) :
    (fun u ↦ (Function.update f t ⟨p, (f t).stage⟩ u).stage) = fun u ↦ (f u).stage :=
  (stage_update f t _).trans (Function.update_eq_self t _)

theorem lock_update (f : T → DiskPlace) (t : T) (place : DiskPlace) :
    (fun u ↦ (Function.update f t place u).lock)
      = Function.update (fun u ↦ (f u).lock) t place.lock :=
  view_update DiskPlace.lock f t place

/-- Outside the lock's code the thread keeps its place there. -/
private theorem lock_update_self (f : T → DiskPlace) (t : T) (stage : DiskStage) :
    (fun u ↦ (Function.update f t ⟨(f t).lock, stage⟩ u).lock) = fun u ↦ (f u).lock :=
  (lock_update f t _).trans (Function.update_eq_self t _)

omit [DecidableEq T] in
/-- While a thread is about to make its request or waits for it, somebody is inside the lock. -/
theorem Inv.inside_of_phase (h : s.Inv initial f) {phase : DiskPhase T}
    (hst : s.Stages initial (fun u ↦ (f u).stage) phase) :
    phase = .rest ∨ ∃ u, (f u).lock.inside = true := by
  cases phase with
  | rest => exact Or.inl rfl
  | acquired u call =>
    have hready := (hst.ready_iff u call s.requested.length).mpr ⟨rfl, rfl⟩
    have hc := h.coherent u
    rw [DiskPlace.Coherent] at hc
    cases hstage : (f u).stage <;> simp only [hstage, DiskStage.ready, reduceCtorEq] at hready hc
    exact Or.inr ⟨u, by rcases hc with hc | hc <;> (rw [hc]; rfl)⟩
  | waiting u number =>
    have hwaits := (hst.waits_iff u number).mpr rfl
    have hc := h.coherent u
    rw [DiskPlace.Coherent] at hc
    cases hstage : (f u).stage <;> simp only [hstage, DiskStage.waits, reduceCtorEq] at hwaits hc
    · exact Or.inr ⟨u, by rw [hc]; rfl⟩
    · exact Or.inr ⟨u, by rw [hc]; rfl⟩

omit [DecidableEq T] in
/-- The stage of a call while the thread is in the lock's code. -/
private theorem coherent_of_lock (h : place.Coherent) {lock : Lock T} {p : LockPlace}
    (hm : s.lock.Moves t place.lock lock p)
    (hs : (∃ call, place.stage = .acquiring call) ∧ p ≠ .passed ∨
      (∃ call number, place.stage = .acquired call number) ∧ place.lock ≠ .holding ∨
      (∃ answer, place.stage = .releasing answer) ∧ place.lock ≠ .outside) :
    DiskPlace.Coherent ⟨p, place.stage⟩ := by
  obtain ⟨pl, stage⟩ := place
  rw [DiskPlace.Coherent] at h ⊢
  dsimp only at h hm hs ⊢
  rcases hs with ⟨⟨call, hs⟩, hp⟩ | ⟨⟨call, number, hs⟩, hl⟩ | ⟨⟨answer, hs⟩, hl⟩
  · simp only [hs] at h ⊢
    cases hm <;> simp_all [LockPlace.inside]
  · simp only [hs] at h ⊢
    cases hm <;> simp_all
  · simp only [hs] at h ⊢
    cases hm <;> simp_all

theorem Inv.coherent_update (h : s.Inv initial f) (hp : place.Coherent) (u : T) :
    (Function.update f t place u).Coherent :=
  (Function.forall_update_iff f fun _ p ↦ p.Coherent).mpr ⟨hp, fun u _ ↦ h.coherent u⟩ u

/-- Outside the lock's code a turn changes the stage of the thread only. -/
theorem Inv.stage_moves (h : s.Inv initial f) {stage : DiskStage} (hlock : s'.lock = s.lock)
    (hp : DiskPlace.Coherent ⟨(f t).lock, stage⟩)
    (hst : ∃ phase, s'.Stages initial (Function.update (fun u ↦ (f u).stage) t stage) phase)
    (hnumbered : s'.Numbered (Function.update (fun u ↦ (f u).stage) t stage)) :
    s'.Inv initial (Function.update f t ⟨(f t).lock, stage⟩) := by
  refine ⟨?_, h.coherent_update hp, ?_, ?_⟩
  · rw [lock_update_self, hlock]
    exact h.lock
  · rw [stage_update]
    exact hst
  · rw [stage_update]
    exact hnumbered

omit [DecidableEq T] in
/-- If the value of the lock is one, nobody is inside, and the device is at rest. -/
theorem Inv.rest_of_value (h : s.Inv initial f) {phase : DiskPhase T}
    (hst : s.Stages initial (fun u ↦ (f u).stage) phase) {lock : Lock T}
    (hm : s.lock.Moves t (f t).lock lock .passed) : phase = .rest := by
  rcases h.inside_of_phase hst with hrest | ⟨u, hu⟩
  · exact hrest
  · have hnobody := h.lock.nobody_of_value hm.value_of_passed u
    rw [hnobody] at hu
    cases hu

theorem Inv.moves (h : s.Inv initial f) (hm : s.Moves t (f t) s' place) :
    s'.Inv initial (Function.update f t place) := by
  obtain ⟨phase, hst⟩ := h.stages
  have hc := h.coherent t
  rw [DiskPlace.Coherent] at hc
  cases hm with
  | begin hs hvalid =>
    refine h.stage_moves rfl ?_ ⟨phase, hst.begin hs hvalid⟩
      (h.numbered.stay (by rw [hs]; rfl) rfl rfl)
    simp only [hs] at hc
    simp only [DiskPlace.Coherent, hc]
    rfl
  | lock hm hs =>
    refine ⟨?_, h.coherent_update (coherent_of_lock (h.coherent t) hm hs), ⟨phase, ?_⟩, ?_⟩
    · rw [lock_update]
      exact h.lock.moves hm
    · rw [stage_update_self]
      exact hst.withLock _
    · rw [stage_update]
      exact h.numbered.stay rfl rfl rfl
  | @enter call lock hs hm =>
    obtain rfl := h.rest_of_value hst hm
    refine ⟨?_, h.coherent_update (Or.inl rfl), ⟨.acquired t call, ?_⟩, ?_⟩
    · rw [lock_update]
      exact h.lock.moves hm
    · rw [stage_update]
      exact (hst.enter hs).withLock lock
    · rw [stage_update]
      exact h.numbered.enter rfl rfl
  | @request answer d hs hl hrun =>
    have hphase := ((hst.ready_iff t answer.call answer.number).mp (by rw [hs]; rfl)).1
    subst hphase
    obtain ⟨data, d', hrun', hcontents, hread⟩ :=
      Call.perform_spec (hst.valid t answer.call (by rw [hs]; rfl)) s.contents
    rw [hrun] at hrun'
    cases hrun'
    exact h.stage_moves rfl hl ⟨.waiting t answer.number, hst.request hs hcontents hread⟩
      (h.numbered.stay (by rw [hs]; rfl) rfl rfl)
  | @sleep answer hs hq =>
    have hholding : (f t).lock = .holding := by
      rcases hs with hs | hs <;> simpa only [hs] using hc
    exact h.stage_moves rfl hholding ⟨phase, hst.sleep hs⟩
      (h.numbered.stay (by rcases hs with hs | hs <;> simp [hs, DiskStage.number]) rfl rfl)
  | @pass answer hs hv hq =>
    have hphase := (hst.waits_iff t answer.number).mp
      (by rcases hs with hs | hs <;> simp [hs, DiskStage.waits])
    subst hphase
    have hnot : t ∉ s.semaphore.queue := fun hmem ↦ hq (hst.queued t hmem) hmem
    have hholding : (f t).lock = .holding := by
      rcases hs with hs | hs <;> simpa only [hs] using hc
    exact h.stage_moves rfl (by simp [DiskPlace.Coherent, hholding]) ⟨.rest, hst.pass hs hnot hv⟩
      (h.numbered.pass (by rcases hs with hs | hs <;> simp [hs, DiskStage.number]))
  | «return» hs hl =>
    exact h.stage_moves rfl hl ⟨phase, hst.return hs⟩ (h.numbered.stay (by rw [hs]; rfl) rfl rfl)

omit [DecidableEq T] in
theorem Inv.interrupt (h : s.Inv initial f) (hs : s.Interrupt s') : s'.Inv initial f := by
  obtain ⟨phase, hst⟩ := h.stages
  have hst' := hst.interrupt hs
  obtain ⟨number, -, sem, -, rfl⟩ := hs
  have hn := h.numbered
  exact ⟨h.lock, h.coherent, ⟨phase, hst'⟩, hn.own, hn.new, hn.answered_own, hn.answered_nodup⟩

omit [DecidableEq T] in
theorem inv_start (initial : Disk) :
    (start initial : Config T _ _).shared.Inv initial (start initial).place := by
  refine ⟨Lock.inv_new, fun t ↦ rfl, ⟨.rest, ?_⟩, ?_⟩
  · constructor <;> simp [start, new, DiskStage.call, DiskStage.ready, DiskStage.waits,
      DiskPhase.Device, DiskPhase.order, DiskStage.answer, Semaphore.new, lastWrite]
  · constructor <;> simp [start, new, DiskStage.number]

theorem Inv.lockTurn_not_crashed (h : s.Inv initial f) {stage : DiskStage} {e : Crash} :
    s.lockTurn t (f t).lock stage ≠ .crashed e := by
  intro hc
  rcases Turn.bind_crashed hc with hc | ⟨lock, p, -, hc⟩
  · exact h.lock.not_crashed e hc
  · cases hc

/-- No assertion fails, and no semaphore overflows. -/
theorem Inv.not_crashed (h : s.Inv initial f) (choice : Call) (e : Crash) :
    s.turn t choice (f t) ≠ .crashed e := by
  obtain ⟨phase, hst⟩ := h.stages
  intro hc
  rw [turn] at hc
  cases hs : (f t).stage with
  | idle =>
    rw [hs] at hc
    dsimp only at hc
    split at hc <;> cases hc
  | acquiring call =>
    rw [hs] at hc
    rcases Turn.bind_crashed hc with hc | ⟨lock, p, -, hc⟩
    · exact h.lock.not_crashed e hc
    · split at hc <;> cases hc
  | acquired call number =>
    rw [hs] at hc
    dsimp only at hc
    by_cases hl : (f t).lock = .holding
    · -- the device is at rest
      have hphase := ((hst.ready_iff t call number).mp (by rw [hs]; rfl)).1
      subst hphase
      have hactive : s.active = false := hst.device.1
      obtain ⟨data, d, hrun, -⟩ :=
        Call.perform_spec (hst.valid t call (by rw [hs]; rfl)) s.contents
      rw [if_pos hl, request, hactive, if_neg (by decide), hrun] at hc
      cases hc
    · rw [if_neg hl] at hc
      exact h.lockTurn_not_crashed hc
  | waiting answer =>
    rw [hs] at hc
    rcases Turn.bind_crashed hc with hc | ⟨sem, passed, -, hc⟩
    · exact hst.not_queued (t := t) (by rw [hs]; rfl) (Semaphore.p_crashed hc)
    · rw [afterP] at hc
      split at hc <;> cases hc
  | sleeping answer =>
    rw [hs] at hc
    rcases Turn.bind_crashed hc with hc | ⟨sem, passed, -, hc⟩
    · exact Semaphore.pAgain_not_crashed hc
    · rw [afterP] at hc
      split at hc <;> cases hc
  | releasing answer =>
    rw [hs] at hc
    dsimp only at hc
    split at hc
    · cases hc
    · exact h.lockTurn_not_crashed hc

end turns

/-! ## The calls -/

/-- What the stages mean for the call that a thread is in. It enters the order with the lock, and
comes back with an answer to it. -/
def callSpec : CallSpec DiskPlace Call Call Answer where
  idle place :=
    match place.stage with
    | .idle => true
    | _ => false
  given := some
  outstanding place :=
    match place.stage with
    | .acquiring call => some call
    | _ => none
  hand place :=
    match place.stage with
    | .releasing answer => some answer
    | _ => none
  inCall call place :=
    match place.stage with
    | .idle => False
    | .acquiring call' | .acquired call' _ => call' = call
    | .waiting answer | .sleeping answer | .releasing answer => answer.call = call
  answers call result := ∃ answer, result = some answer ∧ answer.call = call
  idle_empty place hidle := by
    cases hs : place.stage <;> simp [hs] at hidle ⊢

section calls

variable [DecidableEq T] {initial : Disk} {s s' : SynchDisk T} {t : T} {place place' : DiskPlace}

/-- In the lock's code the stage stays. -/
private theorem turns_of_lock {choice : Call} {p : LockPlace} (hs : place.stage ≠ .idle) :
    callSpec.Turns choice place [] [] ⟨p, place.stage⟩ := by
  obtain ⟨lock, stage⟩ := place
  have hbusy : callSpec.idle ⟨lock, stage⟩ = false := by
    cases stage <;> first | rfl | exact absurd rfl hs
  exact .inside hbusy hbusy (fun _ h ↦ h) rfl (List.append_nil _).symm

/-- What a turn means for the call that the thread is in. -/
theorem turns_of_turn {choice : Call} (h : s.turn t choice place = .moved s' place') :
    ∃ entries gets, callSpec.Turns choice place entries gets place' ∧
      s'.order = s.order ++ entries.map (fun call ↦ (t, call)) ∧
      s'.answered = s.answered ++ gets.map fun answer ↦ (t, answer) := by
  have hsame : s'.order = s.order → s'.answered = s.answered →
      callSpec.Turns choice place [] [] place' →
      ∃ entries gets, callSpec.Turns choice place entries gets place' ∧
        s'.order = s.order ++ entries.map (fun call ↦ (t, call)) ∧
        s'.answered = s.answered ++ gets.map fun answer ↦ (t, answer) := by
    intro horder hanswered hturns
    exact ⟨[], [], hturns, by simp [horder], by simp [hanswered]⟩
  have hmoves := moves_of_turn h
  obtain ⟨lock, stage⟩ := place
  cases hmoves with
  | begin hs hvalid =>
    cases hs
    rw [turn] at h
    dsimp only at h
    split at h
    · cases h
      exact hsame rfl rfl (.enter rfl rfl rfl rfl rfl rfl rfl)
    · cases h
  | lock hm hs =>
    refine hsame rfl rfl (turns_of_lock ?_)
    rcases hs with ⟨⟨call, hs⟩, -⟩ | ⟨⟨call, number, hs⟩, -⟩ | ⟨⟨answer, hs⟩, -⟩ <;>
      (rw [hs]; nofun)
  | @enter call lock' hs hm =>
    cases hs
    exact ⟨[call], [], .inside rfl rfl (fun _ h ↦ h) rfl rfl, rfl, (List.append_nil _).symm⟩
  | request hs hl hrun =>
    cases hs
    exact hsame rfl rfl (.inside rfl rfl (fun _ h ↦ h) rfl rfl)
  | sleep hs hq =>
    rcases hs with hs | hs
    · cases hs
      exact hsame rfl rfl (.inside rfl rfl (fun _ h ↦ h) rfl rfl)
    · cases hs
      exact hsame rfl rfl (.inside rfl rfl (fun _ h ↦ h) rfl rfl)
  | @pass answer hs hv hq =>
    refine ⟨[], [answer], ?_, (List.append_nil _).symm, rfl⟩
    rcases hs with hs | hs
    · cases hs
      exact .inside rfl rfl (fun _ h ↦ h) rfl rfl
    · cases hs
      exact .inside rfl rfl (fun _ h ↦ h) rfl rfl
  | «return» hs hl =>
    cases hs
    exact hsame rfl rfl (.leave rfl rfl rfl rfl rfl fun _ h ↦ ⟨_, rfl, h⟩)

/-- A configuration with a record of the calls of each thread, and of what they came back with. -/
abbrev DiskConfig (T : Type) := Config T (SynchDisk T) (Noted DiskPlace Call (Option Answer))

/-- Where a run can lead. -/
def Runs (contents : Disk) (c : DiskConfig T) : Prop :=
  Reaches (noting callSpec.idle callSpec.hand turn) Interrupt (start contents).noted c

/-- The disk has served the threads well so far. `calls` are the calls that they have made. -/
structure Serves (initial : Disk) (c : Config T (SynchDisk T) DiskPlace)
    (calls : T → Calls Call (Option Answer)) : Prop where
  noCrash : ∀ t choice e, c.shared.turn t choice (c.place t) ≠ .crashed e
  pending : c.shared.pending.length ≤ 1
  value : c.shared.semaphore.value = 0 ∨ c.shared.semaphore.value = 1
  /-- Every call that a thread has made got the lock in its turn, except for one that waits for
  it. -/
  ordered : ∀ t, entriesOf c.shared.order t ++ (callSpec.outstanding (c.place t)).toList =
    (calls t).made
  /-- A call that came back has an answer, and came back after the interrupt of its own request. The
  data is that last written, in the order of the lock. -/
  returns : ∀ t, ∀ e ∈ (calls t).back, ∃ answer : Answer, e.2 = some answer ∧ answer.call = e.1 ∧
    c.shared.order[answer.number]? = some (t, e.1) ∧ answer.number ∈ c.shared.completed ∧
    answer.Correct initial (c.shared.order.map Prod.snd)
  /-- The answers that a thread has got are those that its calls came back with, and the one in its
  hands. -/
  answers : ∀ t, entriesOf c.shared.answered t =
    (calls t).back.filterMap Prod.snd ++ (callSpec.hand (c.place t)).toList
  /-- No two calls have the same number. -/
  once : (c.shared.answered.map fun e ↦ e.2.number).Nodup

theorem kept_of_runs {c : DiskConfig T} (hc : Runs initial c) :
    c.shared.Inv initial c.plain.place ∧ ∀ t, callSpec.Kept (entriesOf c.shared.order t)
      (entriesOf c.shared.answered t) (c.calls t) (c.plain.place t) := by
  refine CallSpec.kept_of_reaches (Inv initial) order answered
    ⟨inv_start initial, rfl, rfl, fun _ ↦ rfl⟩ ?_ ?_ hc
  · intro s f t choice s' place h hturn
    exact ⟨h.moves (moves_of_turn hturn), turns_of_turn hturn⟩
  · intro s f s' h hs
    refine ⟨h.interrupt hs, ?_⟩
    obtain ⟨number, -, sem, -, rfl⟩ := hs
    exact ⟨rfl, rfl⟩

omit [DecidableEq T] in
theorem Inv.device {f : T → DiskPlace} (h : s.Inv initial f) :
    s.pending.length ≤ 1 ∧ (s.semaphore.value = 0 ∨ s.semaphore.value = 1) := by
  obtain ⟨phase, hst⟩ := h.stages
  have hdevice := hst.device
  cases phase with
  | rest => exact ⟨by simp [hdevice.2.1], Or.inl hdevice.2.2⟩
  | acquired t call => exact ⟨by simp [hdevice.2.1], Or.inl hdevice.2.2⟩
  | waiting t number =>
    rcases hdevice with ⟨-, hpending, hvalue⟩ | ⟨-, hpending, hvalue, -⟩
    · exact ⟨by simp [hpending], Or.inl hvalue⟩
    · exact ⟨by simp [hpending], Or.inr hvalue⟩

omit [DecidableEq T] in
/-- An answer that a thread has got. -/
theorem Inv.answered {f : T → DiskPlace} (h : s.Inv initial f) {answer : Answer}
    (ha : (t, answer) ∈ s.answered) :
    s.order[answer.number]? = some (t, answer.call) ∧ answer.number ∈ s.completed ∧
      answer.Correct initial (s.order.map Prod.snd) := by
  obtain ⟨phase, hst⟩ := h.stages
  obtain ⟨hcorrect, hcompleted⟩ := hst.answered _ ha
  have horder : answer.Correct initial (s.order.map Prod.snd) := by
    rw [hst.order]
    cases phase with
    | rest => exact hcorrect
    | acquired t call => exact hcorrect.append call
    | waiting t number => exact hcorrect
  refine ⟨?_, hcompleted, horder⟩
  have hthread := h.numbered.answered_own _ ha
  have hcall := horder.call
  rw [List.getElem?_map, Option.map_eq_some_iff] at hthread hcall
  obtain ⟨e, he, hfst⟩ := hthread
  obtain ⟨e', he', hsnd⟩ := hcall
  rw [he] at he'
  cases he'
  rw [he, ← hsnd, ← show e.1 = t from hfst]

/-- In every interleaving of any number of threads and of the disk interrupts: no assertion fails,
at most one interrupt is scheduled, the semaphore has at most one unit, and each call that has
returned did so after the interrupt of its own request, having read the data last written in the
order of the lock. -/
theorem synchDisk_protocol {c : DiskConfig T} (hc : Runs initial c) :
    Serves initial c.plain c.calls := by
  obtain ⟨h, hkept⟩ := kept_of_runs hc
  constructor
  · exact fun t choice e ↦ h.not_crashed choice e
  · exact h.device.1
  · exact h.device.2
  · intro t
    have hentered := (hkept t).entered
    rwa [show callSpec.given = some from rfl, List.filterMap_some] at hentered
  · intro t e he
    obtain ⟨answer, hresult, hcall⟩ := (hkept t).answered e he
    have hmem : answer ∈ entriesOf c.shared.answered t := by
      rw [(hkept t).handed]
      exact List.mem_append_left _ (List.mem_filterMap.mpr ⟨e, he, hresult⟩)
    obtain ⟨hordered, hcompleted, hcorrect⟩ := h.answered (mem_of_mem_entriesOf hmem)
    exact ⟨answer, hresult, hcall, hcall ▸ hordered, hcompleted, hcorrect⟩
  · exact fun t ↦ (hkept t).handed
  · exact h.numbered.answered_nodup

end calls

section witness

/-- A disk with `b` in every byte. -/
def uniform (b : Byte) : Disk := fun _ _ ↦ b

/-- One thread writes sector 3 and sleeps; another one wants to read it and waits for the lock. -/
def asked : DiskConfig Bool :=
  ((start (uniform 7)).noted.follow (noting callSpec.idle callSpec.hand turn)
    (List.replicate 6 (false, .write 3 (uniform 9 3)) ++ List.replicate 3 (true, .read 3))).get
      (by decide)

/-- The first interrupt has come. -/
def written : DiskConfig Bool :=
  ⟨{ asked.shared with
      active := false
      semaphore := ⟨1, []⟩
      pending := []
      completed := [0] }, asked.place⟩

/-- The first call has returned, and the other thread sleeps. -/
def requestedAgain : DiskConfig Bool :=
  (written.follow (noting callSpec.idle callSpec.hand turn)
    (List.replicate 6 (false, .read 0) ++ List.replicate 4 (true, .read 3))).get (by decide)

/-- The second interrupt has come. -/
def readBack : DiskConfig Bool :=
  ⟨{ requestedAgain.shared with
      active := false
      semaphore := ⟨1, []⟩
      pending := []
      completed := [0, 1] }, requestedAgain.place⟩

/-- Both calls have returned. -/
def served : DiskConfig Bool :=
  (readBack.follow (noting callSpec.idle callSpec.hand turn)
    (List.replicate 6 (true, .read 3))).get (by decide)

/-- The second call came back with what the first one has written. -/
theorem served_protocol : Serves (uniform 7) served.plain served.calls ∧
    ((served.calls false).back.map fun e ↦ e.1.sectorNumber) = [3] ∧
    ∃ answer, (served.calls true).back.map Prod.snd = [some answer] ∧
      answer.number ∈ served.shared.completed ∧ answer.data = uniform 9 3 := by
  have hasked : Runs (uniform 7) asked := Reaches.refl.follow (Option.some_get _).symm
  have hwritten : Runs (uniform 7) written :=
    hasked.outside ⟨0, by decide, ⟨1, []⟩, rfl, rfl⟩
  have hagain : Runs (uniform 7) requestedAgain := hwritten.follow (Option.some_get _).symm
  have hanswered : Runs (uniform 7) readBack :=
    hagain.outside ⟨1, by decide, ⟨1, []⟩, rfl, rfl⟩
  have hserved : Runs (uniform 7) served := hanswered.follow (Option.some_get _).symm
  have hserves := synchDisk_protocol hserved
  have hback : (served.calls true).back = [(.read 3, some ⟨1, .read 3, uniform 9 3⟩)] := rfl
  refine ⟨hserves, rfl, ?_⟩
  obtain ⟨answer, hresult, hcall, -, hcompleted, hcorrect⟩ := hserves.returns true
    (.read 3, some ⟨1, .read 3, uniform 9 3⟩) (by rw [hback]; exact List.mem_singleton_self _)
  cases hresult
  exact ⟨_, by rw [hback]; rfl, hcompleted, hcorrect.read 3 rfl⟩

end witness

end SynchDisk

end Nachos
