import Nachos.Basic
import Nachos.Program.Calls
import Nachos.Threads.Lock

/-!
# The synchronous keyboard

The device polls the keyboard. When a poll finds a character it is put into `incoming` and the
semaphore `waitFor` is posted; the next poll is scheduled when the character is taken. The one
`char` is also the sign that there is no character: `EOF`, which as a `char` is the byte `0xFF`. So
a byte `0xFF` that was typed is announced and taken like any other, but the device does not notice
that it was taken, and does not poll again.

`SynchConsoleInput::GetChar` takes a character under a lock, after waiting for the semaphore. Any
number of threads call it, and the poll interrupt comes at any time after it was scheduled. `log`
has what the device gave to which thread; it is not in the source. The calls that the threads make,
and the bytes these come back with, are noted beside the system.
-/

namespace Nachos

open Program Threads

variable {T : Type}

/-- `EOF` in a `char`. -/
@[simp] abbrev eof : Byte := 0xFF

/-- `class SynchConsoleInput` with its `ConsoleInput`. -/
structure ConsoleInput (T : Type) where
  lock : Lock T
  waitFor : Semaphore T
  incoming : Byte
  /-- How many poll interrupts are scheduled. -/
  polls : ℕ
  /-- What was typed and has not been read. -/
  keyboard : List Byte
  /-- What the device gave to the threads, in that order. -/
  log : List (T × Byte)

/-- Where a thread stands in `SynchConsoleInput::GetChar`. -/
inductive ConsoleStage where
  /-- In no call. -/
  | idle
  | acquiring
  /-- About to test the value in `P`. -/
  | waiting
  | sleeping
  /-- About to call `ConsoleInput::GetChar`. -/
  | taking
  | releasing (ch : Byte)
  deriving DecidableEq, Repr

structure ConsolePlace where
  lock : LockPlace
  stage : ConsoleStage
  deriving DecidableEq, Repr

namespace ConsoleInput

/-- `SynchConsoleInput::SynchConsoleInput` and `ConsoleInput::ConsoleInput`. -/
def new (typed : List Byte) : ConsoleInput T where
  lock := .new
  waitFor := .new 0
  incoming := eof
  polls := 1
  keyboard := typed
  log := []

/-- `ConsoleInput::CallBack` with `SynchConsoleInput::CallBack`. `available` is the answer of
`PollFile`; at the end of a file there is nothing to read although the answer is yes. -/
def callBack (s : ConsoleInput T) (available : Bool) : Except Crash (ConsoleInput T) :=
  if s.incoming ≠ eof then .error .assertFailed
  else if available then
    match s.waitFor.post with
    | .error e => .error e
    | .ok sem =>
      match s.keyboard with
      | [] => .ok { s with waitFor := sem }
      | c :: rest => .ok { s with waitFor := sem, incoming := c, keyboard := rest }
  else .ok { s with polls := s.polls + 1 }

/-- `ConsoleInput::GetChar`, called by the thread `t`. -/
def getChar (s : ConsoleInput T) (t : T) : ConsoleInput T :=
  { s with
    polls := if s.incoming ≠ eof then s.polls + 1 else s.polls
    incoming := eof
    log := s.log ++ [(t, s.incoming)] }

/-- What the calls of `GetChar` have got, in the order in which they got it. -/
def delivered (s : ConsoleInput T) : List Byte := s.log.map Prod.snd

theorem delivered_getChar (s : ConsoleInput T) (t : T) :
    (s.getChar t).delivered = s.delivered ++ [s.incoming] := by
  simp [getChar, delivered]

/-- A poll interrupt that was scheduled. -/
def Poll (s s' : ConsoleInput T) : Prop :=
  0 < s.polls ∧ ∃ available, { s with polls := s.polls - 1 }.callBack available = .ok s'

variable [DecidableEq T]

/-- A statement of the lock's code. -/
def lockTurn (s : ConsoleInput T) (t : T) (place : LockPlace) (stage : LockPlace → ConsoleStage) :
    Turn Crash (ConsoleInput T) ConsolePlace :=
  (s.lock.turn t place).bind fun lock place' ↦ .moved { s with lock := lock } ⟨place', stage place'⟩

/-- The next statement of a thread. -/
def turn (t : T) (_ : Unit) (s : ConsoleInput T) (place : ConsolePlace) :
    Turn Crash (ConsoleInput T) ConsolePlace :=
  match place.stage with
  | .idle => .moved s ⟨place.lock, .acquiring⟩
  | .acquiring =>
    s.lockTurn t place.lock fun place' ↦ if place' = .holding then .waiting else .acquiring
  | .waiting =>
    s.waitFor.p t (fun sem ↦ { s with waitFor := sem }) ⟨place.lock, .sleeping⟩
      ⟨place.lock, .taking⟩
  | .sleeping =>
    s.waitFor.pAgain t (fun sem ↦ { s with waitFor := sem }) ⟨place.lock, .sleeping⟩
      ⟨place.lock, .taking⟩
  | .taking => .moved (s.getChar t) ⟨place.lock, .releasing s.incoming⟩
  | .releasing ch =>
    s.lockTurn t place.lock fun place' ↦ if place' = .outside then .idle else .releasing ch

def start (typed : List Byte) : Config T (ConsoleInput T) ConsolePlace :=
  ⟨.new typed, fun _ ↦ ⟨.outside, .idle⟩⟩

/-- Where a run can lead. -/
def Reachable (typed : List Byte) (c : Config T (ConsoleInput T) ConsolePlace) : Prop :=
  Reaches turn Poll (start typed) c

/-- What the stages mean for the call that a thread is in: it comes back with the byte that it has
taken. -/
def callSpec : CallSpec ConsolePlace Unit Empty Byte where
  idle place := place.stage = .idle
  given _ := none
  outstanding _ := none
  hand place :=
    match place.stage with
    | .releasing ch => some ch
    | _ => none
  inCall _ _ := True
  answers _ result := ∃ ch, result = some ch
  idle_empty place hidle := by
    cases hs : place.stage <;> simp [hs] at hidle ⊢

/-! ## What the console owes -/

/-- A poll is scheduled; or a byte is in the buffer and `waitFor` has announced it, to a thread that
has yet to pass `P` or to one that is about to take it. -/
def Live (typed : List Byte) (c : Config T (ConsoleInput T) ConsolePlace) : Prop :=
  0 < c.shared.polls ∨
    c.shared.delivered ++ c.shared.incoming :: c.shared.keyboard = typed ∧
      (0 < c.shared.waitFor.value ∨ ∃ t, (c.place t).stage = .taking)

/-- The console has served the threads well so far; `calls` are the calls of `GetChar` that they
have made. A call that finds the end of the file gets an `EOF`. -/
structure Serves (typed : List Byte) (c : Config T (ConsoleInput T) ConsolePlace)
    (calls : T → Calls Unit (Option Byte)) : Prop where
  live : c.shared.delivered.length < typed.length → Live typed c
  delivered : c.shared.delivered <+: typed ∨ c.shared.delivered = typed ++ [eof]
  /-- The bytes that were given to a thread are those that its calls came back with, in order, and
  the one that its call is about to come back with. -/
  results : ∀ t, entriesOf c.shared.log t =
    (calls t).back.filterMap Prod.snd ++ (callSpec.hand (c.place t)).toList
  /-- No call comes back without a byte. -/
  returns : ∀ t, ∀ e ∈ (calls t).back, ∃ ch, e.2 = some ch
  asserts : 0 < c.shared.polls → ∀ available,
    c.shared.callBack available ≠ .error .assertFailed

end ConsoleInput

/-! ## The invariant -/

/-- What the device is doing. -/
inductive ConsolePhase (T : Type) where
  /-- A poll is scheduled. -/
  | polling
  /-- The end of the file or the byte `got` was announced; the thread `taker` has passed `P`. -/
  | announced (taker : Option T) (got : Option Byte)
  /-- There is nothing to come. -/
  | finished
  deriving DecidableEq

namespace ConsoleInput

/-- The buffer, the semaphore and the bytes. -/
def Device (typed : List Byte) (s : ConsoleInput T) : ConsolePhase T → Prop
  | .polling => s.polls = 1 ∧ s.incoming = eof ∧ s.waitFor.value = 0 ∧
    s.delivered ++ s.keyboard = typed
  | .announced taker got => s.polls = 0 ∧ s.incoming = got.getD eof ∧
    s.waitFor.value = (if taker.isNone then 1 else 0) ∧
    s.delivered ++ (got.toList ++ s.keyboard) = typed ∧ (got = none → s.keyboard = [])
  | .finished => s.polls = 0 ∧ s.incoming = eof ∧ s.waitFor.value = 0 ∧
    (s.delivered = typed ∨ s.delivered = typed ++ [eof])

structure Inv (typed : List Byte) (s : ConsoleInput T) (f : T → ConsolePlace)
    (phase : ConsolePhase T) : Prop where
  device : s.Device typed phase
  takes_iff : ∀ t, (f t).stage = .taking ↔ ∃ got, phase = .announced (some t) got

section inv

variable [DecidableEq T] {typed : List Byte} {s s' : ConsoleInput T} {f : T → ConsolePlace}
  {phase : ConsolePhase T} {t : T} {place : ConsolePlace}

omit [DecidableEq T] in
theorem inv_start (typed : List Byte) :
    (new typed : ConsoleInput T).Inv typed (fun _ ↦ ⟨.outside, .idle⟩) .polling := by
  refine ⟨⟨rfl, rfl, rfl, rfl⟩, fun t ↦ ?_⟩
  constructor
  · intro h
    cases h
  · rintro ⟨got, h⟩
    cases h

omit [DecidableEq T] in
/-- What the device does not look at. -/
theorem Device.congr (h : s.Device typed phase) (hpolls : s'.polls = s.polls)
    (hincoming : s'.incoming = s.incoming) (hvalue : s'.waitFor.value = s.waitFor.value)
    (hkeyboard : s'.keyboard = s.keyboard) (hdelivered : s'.delivered = s.delivered) :
    s'.Device typed phase := by
  cases phase <;> simpa only [Device, hpolls, hincoming, hvalue, hkeyboard, hdelivered] using h

/-- A turn that neither passes `P` nor takes a character. -/
theorem Inv.stay (h : s.Inv typed f phase) (hdevice : s'.Device typed phase)
    (hbefore : (f t).stage ≠ .taking) (hafter : place.stage ≠ .taking) :
    s'.Inv typed (Function.update f t place) phase := by
  refine ⟨hdevice, fun u ↦ ?_⟩
  by_cases hu : u = t
  · rw [hu, Function.update_self, ← h.takes_iff]
    exact iff_of_false hafter hbefore
  · rw [Function.update_of_ne hu]
    exact h.takes_iff u

/-- A thread passes `P`: something was announced, and to nobody else. -/
theorem Inv.pass (h : s.Inv typed f phase) (hv : s.waitFor.value ≠ 0)
    (hplace : place.stage = .taking) :
    ∃ got, phase = .announced none got ∧
      { s with waitFor := { s.waitFor with value := s.waitFor.value - 1 } }.Inv typed
        (Function.update f t place) (.announced (some t) got) := by
  have hdevice := h.device
  cases phase with
  | polling => exact absurd hdevice.2.2.1 hv
  | finished => exact absurd hdevice.2.2.1 hv
  | announced taker got =>
    obtain ⟨hpolls, hincoming, hvalue, hbytes, hend⟩ := hdevice
    cases taker with
    | some u => exact absurd hvalue hv
    | none =>
      refine ⟨got, rfl, ⟨hpolls, hincoming, ?_, hbytes, hend⟩, fun u ↦ ?_⟩
      · show s.waitFor.value - 1 = 0
        rw [hvalue]
        rfl
      · by_cases hu : u = t
        · rw [hu, Function.update_self]
          exact iff_of_true hplace ⟨got, rfl⟩
        · rw [Function.update_of_ne hu, h.takes_iff]
          constructor
          · rintro ⟨_, hphase⟩
            cases hphase
          · rintro ⟨_, hphase⟩
            cases hphase
            exact absurd rfl hu

/-- The thread that passed `P` takes what was announced: the end of the file, a character, or a byte
`0xFF`, behind which the device is done with whatever it has got. -/
theorem Inv.take_cases (h : s.Inv typed f phase) (ht : (f t).stage = .taking)
    (hplace : place.stage ≠ .taking) :
    (s.delivered = typed ∧ s.incoming = eof ∧
      (s.getChar t).Inv typed (Function.update f t place) .finished) ∨
    (s.incoming ≠ eof ∧ (s.getChar t).Inv typed (Function.update f t place) .polling) ∨
    (s.incoming = eof ∧ s.delivered ++ eof :: s.keyboard = typed ∧
      (s.getChar t).Inv (s.delivered ++ [eof]) (Function.update f t place) .finished) := by
  obtain ⟨got, rfl⟩ := (h.takes_iff t).mp ht
  obtain ⟨hpolls, hincoming, hvalue, hbytes, hend⟩ := h.device
  have hnobody : ∀ phase' : ConsolePhase T, (∀ u got, phase' ≠ .announced (some u) got) →
      ∀ u, (Function.update f t place u).stage = .taking ↔
        ∃ got, phase' = .announced (some u) got := by
    intro phase' hphase' u
    refine iff_of_false ?_ fun ⟨got, hgot⟩ ↦ hphase' u got hgot
    by_cases hu : u = t
    · rwa [hu, Function.update_self]
    · rw [Function.update_of_ne hu, h.takes_iff]
      rintro ⟨_, hphase⟩
      cases hphase
      exact hu rfl
  -- at an `EOF` no poll is scheduled
  have hdone : s.incoming = eof → (s.getChar t).polls = 0 := fun heof ↦ by
    rw [getChar, if_neg (not_not_intro heof)]
    exact hpolls
  have hgot : s.incoming = eof → (s.getChar t).delivered = s.delivered ++ [eof] := fun heof ↦ by
    rw [delivered_getChar, heof]
  cases got with
  | none =>
    rw [hend rfl, Option.toList_none, List.append_nil, List.append_nil] at hbytes
    refine .inl ⟨hbytes, hincoming, ⟨hdone hincoming, rfl, hvalue, .inr ?_⟩,
      hnobody _ fun _ _ hphase ↦ by cases hphase⟩
    rw [hgot hincoming, hbytes]
  | some b =>
    have hincoming : s.incoming = b := hincoming
    by_cases hb : s.incoming = eof
    · refine .inr (.inr ⟨hb, ?_, ⟨hdone hb, rfl, hvalue, .inl (hgot hb)⟩,
        hnobody _ fun _ _ hphase ↦ by cases hphase⟩)
      rwa [← hincoming, hb] at hbytes
    · refine .inr (.inl ⟨hb, ⟨?_, rfl, hvalue, ?_⟩, hnobody _ fun _ _ hphase ↦ by cases hphase⟩)
      · rw [getChar, if_pos hb, hpolls]
      · rw [delivered_getChar, hincoming, List.append_assoc]
        exact hbytes

/-- Unless a byte `0xFF` has more behind it, a poll is scheduled or there is nothing to come. -/
theorem Inv.take (hlast : eof ∉ typed.dropLast) (h : s.Inv typed f phase)
    (ht : (f t).stage = .taking) (hplace : place.stage ≠ .taking) :
    ∃ phase', (s.getChar t).Inv typed (Function.update f t place) phase' := by
  rcases h.take_cases ht hplace with ⟨-, -, hinv⟩ | ⟨-, hinv⟩ | ⟨-, hbytes, hinv⟩
  · exact ⟨_, hinv⟩
  · exact ⟨_, hinv⟩
  · have hnil : s.keyboard = [] := by
      by_contra hne
      refine hlast ?_
      rw [← hbytes, List.dropLast_append_of_ne_nil (List.cons_ne_nil _ _),
        List.dropLast_cons_of_ne_nil hne]
      exact List.mem_append_right _ List.mem_cons_self
    rw [hnil] at hbytes
    rw [hbytes] at hinv
    exact ⟨_, hinv⟩

/-- In the lock's code nothing happens to the device. -/
theorem Inv.lockTurn (h : s.Inv typed f phase) {stage : LockPlace → ConsoleStage}
    (hbefore : (f t).stage ≠ .taking) (hafter : ∀ p, stage p ≠ .taking)
    (hturn : s.lockTurn t (f t).lock stage = .moved s' place) :
    s'.Inv typed (Function.update f t place) phase := by
  obtain ⟨lock, p, -, hmoved⟩ := Turn.bind_moved hturn
  cases hmoved
  exact h.stay (h.device.congr rfl rfl rfl rfl rfl) hbefore (hafter p)

omit [DecidableEq T] in
/-- A poll gives nothing to a thread. -/
private theorem log_of_poll (hpoll : s.Poll s') : s'.log = s.log := by
  obtain ⟨-, available, hback⟩ := hpoll
  rw [callBack] at hback
  split at hback
  · cases hback
  · cases available with
    | false =>
      cases hback
      rfl
    | true =>
      rw [if_pos rfl] at hback
      split at hback
      · cases hback
      · split at hback <;> (cases hback; rfl)

private theorem delivered_lockTurn {lock : LockPlace} {stage : LockPlace → ConsoleStage}
    (hturn : s.lockTurn t lock stage = .moved s' place) : s'.delivered = s.delivered := by
  obtain ⟨lock', p, -, hmoved⟩ := Turn.bind_moved hturn
  cases hmoved
  rfl

/-- In `P` a thread joins the queue or passes. -/
theorem Inv.p (h : s.Inv typed f phase) (hbefore : (f t).stage ≠ .taking) {l : LockPlace}
    (hturn : s.waitFor.p t (fun sem ↦ { s with waitFor := sem }) ⟨l, .sleeping⟩ ⟨l, .taking⟩
      = .moved s' place) :
    s'.delivered = s.delivered ∧ ∃ phase', (phase' = .finished ↔ phase = .finished) ∧
      s'.Inv typed (Function.update f t place) phase' := by
  rcases Semaphore.p_moved hturn with ⟨-, -, rfl, rfl⟩ | ⟨hv, rfl, rfl⟩
  · exact ⟨rfl, phase, Iff.rfl,
      h.stay (h.device.congr rfl rfl rfl rfl rfl) hbefore fun hsame ↦ by cases hsame⟩
  · have hplace : (⟨l, .taking⟩ : ConsolePlace).stage = .taking := rfl
    obtain ⟨got, rfl, hinv⟩ := h.pass (t := t) hv hplace
    exact ⟨rfl, _, iff_of_false (fun hend ↦ by cases hend) (fun hend ↦ by cases hend), hinv⟩

/-- Every turn but the one that takes a character keeps what was delivered, and does not end the
input. -/
theorem Inv.turn_cases (h : s.Inv typed f phase) (hturn : s.turn t () (f t) = .moved s' place) :
    (s'.delivered = s.delivered ∧ ∃ phase', (phase' = .finished ↔ phase = .finished) ∧
      s'.Inv typed (Function.update f t place) phase') ∨
    ((f t).stage = .taking ∧ place.stage ≠ .taking ∧ s' = s.getChar t) := by
  rw [ConsoleInput.turn] at hturn
  cases hs : (f t).stage with
  | idle =>
    rw [hs] at hturn
    cases hturn
    exact .inl ⟨rfl, phase, Iff.rfl,
      h.stay h.device (by rw [hs]; decide) fun hsame ↦ by cases hsame⟩
  | acquiring =>
    rw [hs] at hturn
    refine .inl ⟨delivered_lockTurn hturn, phase, Iff.rfl,
      h.lockTurn (by rw [hs]; decide) (fun p ↦ ?_) hturn⟩
    split <;> decide
  | waiting =>
    rw [hs] at hturn
    exact .inl (h.p (by rw [hs]; decide) hturn)
  | sleeping =>
    rw [hs] at hturn
    exact .inl (h.p (by rw [hs]; decide) (Semaphore.pAgain_moved hturn).2)
  | taking =>
    rw [hs] at hturn
    cases hturn
    exact .inr ⟨rfl, (fun hsame ↦ by cases hsame), rfl⟩
  | releasing ch =>
    rw [hs] at hturn
    refine .inl ⟨delivered_lockTurn hturn, phase, Iff.rfl,
      h.lockTurn (fun hsame ↦ ?_) (fun p hsame ↦ ?_) hturn⟩
    · rw [hs] at hsame
      cases hsame
    · split at hsame <;> cases hsame

theorem Inv.turn (hlast : eof ∉ typed.dropLast) (h : s.Inv typed f phase)
    (hturn : s.turn t () (f t) = .moved s' place) :
    ∃ phase', s'.Inv typed (Function.update f t place) phase' := by
  rcases h.turn_cases hturn with ⟨-, phase', -, hinv⟩ | ⟨htaking, hplace, rfl⟩
  · exact ⟨phase', hinv⟩
  · exact h.take hlast htaking hplace

omit [DecidableEq T] in
/-- A poll that is scheduled finds the buffer empty. -/
theorem Inv.polling_of_poll (h : s.Inv typed f phase) (hpolls : 0 < s.polls) :
    phase = .polling := by
  have hdevice := h.device
  cases phase with
  | polling => rfl
  | announced taker got => exact absurd hdevice.1 (Nat.ne_of_gt hpolls)
  | finished => exact absurd hdevice.1 (Nat.ne_of_gt hpolls)

omit [DecidableEq T] in
theorem Inv.poll (h : s.Inv typed f phase) (hpoll : s.Poll s') :
    phase = .polling ∧ s'.delivered = s.delivered ∧
      ∃ phase', phase' ≠ .finished ∧ s'.Inv typed f phase' := by
  obtain ⟨hpolls, available, hback⟩ := hpoll
  obtain rfl := h.polling_of_poll hpolls
  obtain ⟨hone, hincoming, hvalue, hbytes⟩ := h.device
  have hpost : s.waitFor.post = .ok ⟨1, s.waitFor.queue.tail⟩ := by
    rw [Semaphore.post, hvalue, if_neg (by decide)]
    rfl
  have hnobody : ∀ got t, (f t).stage = .taking ↔
      ∃ got', (.announced none got : ConsolePhase T) = .announced (some t) got' := by
    intro got t
    rw [h.takes_iff]
    constructor
    · rintro ⟨_, hphase⟩
      cases hphase
    · rintro ⟨_, hphase⟩
      cases hphase
  rw [callBack] at hback
  simp only [hincoming, hpost, ne_eq, not_true_eq_false, if_false] at hback
  cases available with
  | false =>
    cases hback
    refine ⟨rfl, rfl, .polling, (fun hend ↦ by cases hend), ⟨?_, rfl, hvalue, hbytes⟩, h.takes_iff⟩
    show s.polls - 1 + 1 = 1
    rw [hone]
  | true =>
    rw [if_pos rfl] at hback
    have hzero : s.polls - 1 = 0 := by rw [hone]
    cases hkeyboard : s.keyboard with
    | nil =>
      rw [hkeyboard] at hback hbytes
      cases hback
      exact ⟨rfl, rfl, .announced none none, (fun hend ↦ by cases hend),
        ⟨hzero, rfl, rfl, hbytes, fun _ ↦ rfl⟩, hnobody none⟩
    | cons c rest =>
      rw [hkeyboard] at hback hbytes
      cases hback
      exact ⟨rfl, rfl, .announced none (some c), (fun hend ↦ by cases hend),
        ⟨hzero, rfl, rfl, hbytes, fun hnone ↦ by cases hnone⟩, hnobody (some c)⟩

omit [DecidableEq T] in
theorem Inv.live {c : Config T (ConsoleInput T) ConsolePlace}
    (h : c.shared.Inv typed c.place phase) (hremain : c.shared.delivered.length < typed.length) :
    Live typed c := by
  have hdevice := h.device
  cases phase with
  | polling => exact .inl (by rw [hdevice.1]; exact Nat.one_pos)
  | announced taker got =>
    obtain ⟨-, hincoming, hvalue, hbytes, hend⟩ := hdevice
    cases got with
    | none =>
      -- at the end of the file everything was delivered
      rw [hend rfl, Option.toList_none, List.append_nil, List.append_nil] at hbytes
      rw [hbytes] at hremain
      exact absurd hremain (Nat.lt_irrefl _)
    | some b =>
      refine .inr ⟨by rw [hincoming]; exact hbytes, ?_⟩
      cases taker with
      | none => exact .inl (by rw [hvalue]; exact Int.one_pos)
      | some t => exact .inr ⟨t, (h.takes_iff t).mpr ⟨some b, rfl⟩⟩
  | finished =>
    rcases hdevice.2.2.2 with hall | hall <;> rw [hall] at hremain
    · exact absurd hremain (Nat.lt_irrefl _)
    · rw [List.length_append] at hremain
      omega

omit [DecidableEq T] in
theorem Inv.delivered_prefix (h : s.Inv typed f phase) :
    s.delivered <+: typed ∨ s.delivered = typed ++ [eof] := by
  have hdevice := h.device
  cases phase with
  | polling => exact .inl ⟨_, hdevice.2.2.2⟩
  | announced taker got => exact .inl ⟨_, hdevice.2.2.2.1⟩
  | finished =>
    rcases hdevice.2.2.2 with hall | hall
    · exact .inl ⟨[], by rw [hall, List.append_nil]⟩
    · exact .inr hall

omit [DecidableEq T] in
theorem Inv.asserts (h : s.Inv typed f phase) (hpolls : 0 < s.polls) (available : Bool) :
    s.callBack available ≠ .error .assertFailed := by
  obtain rfl := h.polling_of_poll hpolls
  have hdevice := h.device
  have hpost : s.waitFor.post = .ok ⟨1, s.waitFor.queue.tail⟩ := by
    rw [Semaphore.post, hdevice.2.2.1, if_neg (by decide)]
    rfl
  rw [callBack, if_neg (not_not_intro hdevice.2.1), hpost]
  cases available with
  | false => exact fun herr ↦ by cases herr
  | true => cases s.keyboard <;> exact fun herr ↦ by cases herr

end inv

/-! ## The calls -/

section calls

variable [DecidableEq T] {typed : List Byte} {s s' : ConsoleInput T} {t : T}
  {place place' : ConsolePlace}

/-- A thread goes on in its call and is given nothing. -/
theorem turns_inside {choice : Unit} (hl : place.stage ≠ .idle) (hl' : place'.stage ≠ .idle)
    (hhand : callSpec.hand place' = callSpec.hand place) :
    callSpec.Turns choice place [] [] place' :=
  .inside (decide_eq_false hl) (decide_eq_false hl') (fun _ h ↦ h) rfl
    (by rw [hhand, List.append_nil])

/-- What a turn means for the call that the thread is in. -/
theorem turns_of_turn {choice : Unit} (h : s.turn t choice place = .moved s' place') :
    ∃ gets, callSpec.Turns choice place [] gets place' ∧
      s'.log = s.log ++ gets.map fun ch ↦ (t, ch) := by
  have hsame : s'.log = s.log → callSpec.Turns choice place [] [] place' →
      ∃ gets, callSpec.Turns choice place [] gets place' ∧
        s'.log = s.log ++ gets.map fun ch ↦ (t, ch) :=
    fun hlog hturns ↦ ⟨[], hturns, by simp [hlog]⟩
  obtain ⟨lock, stage⟩ := place
  rw [turn] at h
  cases stage with
  | idle =>
    cases h
    exact hsame rfl (.enter rfl rfl trivial rfl rfl rfl rfl)
  | acquiring =>
    obtain ⟨lock', p, -, hmoved⟩ := Turn.bind_moved h
    cases hmoved
    refine hsame rfl ?_
    dsimp only
    by_cases hp : p = .holding
    · rw [if_pos hp]
      exact turns_inside nofun nofun rfl
    · rw [if_neg hp]
      exact turns_inside nofun nofun rfl
  | waiting =>
    obtain ⟨-, -, rfl, rfl⟩ | ⟨-, rfl, rfl⟩ := Semaphore.p_moved h
    · exact hsame rfl (turns_inside nofun nofun rfl)
    · exact hsame rfl (turns_inside nofun nofun rfl)
  | sleeping =>
    obtain ⟨-, -, rfl, rfl⟩ | ⟨-, rfl, rfl⟩ := Semaphore.p_moved (Semaphore.pAgain_moved h).2
    · exact hsame rfl (turns_inside nofun nofun rfl)
    · exact hsame rfl (turns_inside nofun nofun rfl)
  | taking =>
    cases h
    exact ⟨[s.incoming], .inside rfl rfl (fun _ h ↦ h) rfl rfl, rfl⟩
  | releasing ch =>
    obtain ⟨lock', p, -, hmoved⟩ := Turn.bind_moved h
    cases hmoved
    refine hsame rfl ?_
    dsimp only
    by_cases hp : p = .outside
    · rw [if_pos hp]
      exact .leave rfl rfl rfl rfl rfl fun _ _ ↦ ⟨ch, rfl⟩
    · rw [if_neg hp]
      exact turns_inside nofun nofun rfl

/-- A configuration with a record of the calls of each thread, and of what they came back with. -/
abbrev InputConfig (T : Type) := Config T (ConsoleInput T) (Noted ConsolePlace Unit (Option Byte))

/-- Where a run can lead. -/
def Runs (typed : List Byte) (c : InputConfig T) : Prop :=
  Reaches (noting callSpec.idle callSpec.hand turn) Poll (start typed).noted c

theorem reachable_iff_runs {c : Config T (ConsoleInput T) ConsolePlace} :
    Reachable typed c ↔ ∃ d, Runs typed d ∧ d.plain = c := reaches_plain_iff

theorem kept_of_runs (hlast : eof ∉ typed.dropLast) {c : InputConfig T} (hc : Runs typed c) :
    (∃ phase, c.shared.Inv typed c.plain.place phase) ∧ ∀ t, callSpec.Kept []
      (entriesOf c.shared.log t) (c.calls t) (c.plain.place t) := by
  refine CallSpec.kept_of_reaches (fun s f ↦ ∃ phase, s.Inv typed f phase) (fun _ ↦ []) log
    ⟨⟨.polling, inv_start typed⟩, rfl, rfl, fun _ ↦ rfl⟩ ?_ ?_ hc
  · rintro s f t choice s' place ⟨phase, h⟩ hturn
    obtain ⟨gets, hturns, hlog⟩ := turns_of_turn hturn
    exact ⟨h.turn hlast hturn, [], gets, hturns, rfl, hlog⟩
  · rintro s f s' ⟨phase, h⟩ hs
    obtain ⟨-, -, phase', -, hinv⟩ := h.poll hs
    refine ⟨⟨phase', hinv⟩, rfl, ?_⟩
    exact log_of_poll hs

end calls

/-- **Console input delivers every byte** when no byte that was typed, but perhaps the last one, is
`0xFF`: wherever a run has led, the console is live as long as typed bytes remain, the calls of
`GetChar` have come back with the typed bytes in order, and the next poll does not fail. -/
theorem console_delivers [DecidableEq T] {typed : List Byte} (hlast : eof ∉ typed.dropLast)
    {c : InputConfig T} (hc : Runs typed c) : Serves typed c.plain c.calls := by
  obtain ⟨⟨phase, h⟩, hkept⟩ := kept_of_runs hlast hc
  constructor
  · exact h.live
  · exact h.delivered_prefix
  · exact fun t ↦ (hkept t).handed
  · exact fun t ↦ (hkept t).answered
  · exact h.asserts

section runs

variable (b : Byte) (rest : List Byte)

/-- A thread has called `GetChar` and sleeps in `P`, another one waits for the lock. -/
def asleep : InputConfig Bool :=
  ((start (b :: rest)).noted.follow (noting callSpec.idle callSpec.hand turn)
    (List.replicate 5 (false, ()) ++ List.replicate 3 (true, ()))).get rfl

/-- The poll has found the first byte. -/
def found : InputConfig Bool :=
  ⟨{ (asleep b rest).shared with
      polls := 0
      waitFor := ⟨1, []⟩
      incoming := b
      keyboard := rest }, (asleep b rest).place⟩

/-- The first thread has come back with it. -/
def taken : InputConfig Bool :=
  ((found b rest).follow (noting callSpec.idle callSpec.hand turn)
    (List.replicate 6 (false, ()))).get rfl

private theorem runs_taken : Runs (b :: rest) (taken b rest) := by
  have hasleep : Runs (b :: rest) (asleep b rest) := Reaches.refl.follow (Option.some_get _).symm
  have hfound : Runs (b :: rest) (found b rest) := hasleep.outside ⟨Nat.one_pos, true, rfl⟩
  exact hfound.follow (Option.some_get _).symm

end runs

theorem console_delivers_letter : (taken 0x61 [0xFF]).calls false = ⟨[((), some 0x61)], none⟩ ∧
    Serves [0x61, 0xFF] (taken 0x61 [0xFF]).plain (taken 0x61 [0xFF]).calls :=
  ⟨rfl, console_delivers (by decide) (runs_taken 0x61 [0xFF])⟩

/-- After a byte `0xFF` the console is dead although a letter was typed behind it: no poll is
scheduled and nothing is in the buffer. -/
theorem console_dead_after_eof : ¬ ∀ (typed : List Byte) (c : InputConfig Bool), Runs typed c →
    Serves typed c.plain c.calls := by
  intro hserves
  have h := hserves _ _ (runs_taken 0xFF [0x61])
  rcases h.live (by decide) with hpolls | ⟨hbytes, -⟩
  · exact absurd hpolls (by decide)
  · exact absurd hbytes (by decide)

end ConsoleInput

end Nachos
