import Nachos.Network.Packet
import Nachos.Threads.Lock

/-!
# Sending mail

`PostOfficeOutput::Send` puts one packet at a time on the network: it holds the lock until the
network has said, with an interrupt, that the next packet can be sent. The device has a flag for
the same purpose, which it tests and clears but never sets.

The wire to another machine is a queue; the network takes what is first and delivers it or loses it.
A packet may also be lost on the way out. `mailed` has the messages that went to the network, in
this order, with the threads that were in `Send`; it is not in the source.
-/

namespace Nachos

namespace Network

open Program Threads

variable {T : Type}

/-- `class PostOfficeOutput` with its `NetworkOutput`. -/
structure PostOfficeOutput (T : Type) where
  sendLock : Lock T
  messageSent : Semaphore T
  sendBusy : Bool
  /-- How many interrupts are scheduled. -/
  scheduled : ℕ
  /-- What is on the way to each machine. -/
  wire : Word → List Datagram
  mailed : List (T × Message)

/-- The variables of `PostOfficeOutput::Send`, and the message that it is to send. -/
structure Outgoing where
  message : Message
  pktHdr : PacketHeader
  buffer : ℕ → Byte

/-- Where a thread stands in `PostOfficeOutput::Send`. -/
inductive SendStage where
  /-- In no call. -/
  | idle
  | acquiring (x : Outgoing)
  /-- About to call `NetworkOutput::Send`. -/
  | sending (x : Outgoing)
  /-- About to test the value in `P`. -/
  | waiting
  | sleeping
  | releasing

structure SendPlace where
  lock : LockPlace
  stage : SendStage

namespace SendStage

/-- The packet was sent, and the thread waits for the interrupt. -/
def waits : SendStage → Bool
  | .waiting | .sleeping => true
  | _ => false

def outgoing : SendStage → Option Outgoing
  | .acquiring x | .sending x => some x
  | _ => none

end SendStage

/-- The stage and the place in the code of the lock agree. -/
def SendPlace.Coherent (place : SendPlace) : Prop :=
  match place.stage with
  | .idle => place.lock = .outside
  | .acquiring _ => place.lock.inside = false ∨ place.lock = .passed
  | .sending _ | .waiting | .sleeping => place.lock = .holding
  | .releasing => place.lock.inside = true ∧ place.lock ≠ .passed

namespace PostOfficeOutput

/-- What was sent to the machine `host`. -/
def sent (s : PostOfficeOutput T) (host : Word) : List Message :=
  (s.mailed.map Prod.snd).filter fun m ↦ m.pktHdr.to = host

/-- `PostOfficeOutput::PostOfficeOutput` and `NetworkOutput::NetworkOutput`. -/
def new : PostOfficeOutput T where
  sendLock := .new
  messageSent := .new 0
  sendBusy := false
  scheduled := 0
  wire := fun _ ↦ []
  mailed := []

/-- The packet of `t` went to the network, as `d` or not at all. -/
def transmit (s : PostOfficeOutput T) (t : T) (x : Outgoing) (d : Option Datagram) :
    PostOfficeOutput T :=
  { s with
    scheduled := s.scheduled + 1
    wire := Function.update s.wire x.pktHdr.to (s.wire x.pktHdr.to ++ d.toList)
    mailed := s.mailed ++ [(t, x.message)] }

section turn

variable [DecidableEq T]

/-- A statement of the lock's code. -/
def lockTurn (s : PostOfficeOutput T) (t : T) (place : LockPlace) (stage : LockPlace → SendStage) :
    Turn Crash (PostOfficeOutput T) SendPlace :=
  (s.sendLock.turn t place).bind fun lock place' ↦
    .moved { s with sendLock := lock } ⟨place', stage place'⟩

/-- The next statement of a thread in `PostOfficeOutput::Send`. A packet that goes to the network is
lost or not, and `fresh` is what its buffer held. -/
def turn (hostName : Word) (t : T) (lost : Bool) (fresh : ℕ → Byte) (s : PostOfficeOutput T)
    (place : SendPlace) : Turn Crash (PostOfficeOutput T) SendPlace :=
  match place.stage with
  | .idle => .blocked
  | .acquiring x =>
    s.lockTurn t place.lock fun p ↦ if p = .holding then .sending x else .acquiring x
  | .sending x =>
    match NetworkOutput.send hostName s.sendBusy x.pktHdr x.buffer fresh with
    | .error e => .crashed e
    | .ok d => .moved (s.transmit t x (if lost then none else some d)) ⟨place.lock, .waiting⟩
  | .waiting =>
    s.messageSent.p t (fun sem ↦ { s with messageSent := sem }) ⟨place.lock, .sleeping⟩
      ⟨place.lock, .releasing⟩
  | .sleeping =>
    s.messageSent.pAgain t (fun sem ↦ { s with messageSent := sem }) ⟨place.lock, .sleeping⟩
      ⟨place.lock, .releasing⟩
  | .releasing => s.lockTurn t place.lock fun p ↦ if p = .outside then .idle else .releasing

end turn

/-- An interrupt that was scheduled: `NetworkOutput::CallBack` and `PostOfficeOutput::CallBack`. -/
def callBack (s : PostOfficeOutput T) : Except Crash (PostOfficeOutput T) :=
  match s.messageSent.post with
  | .error e => .error e
  | .ok sem =>
    .ok { s with sendBusy := false, messageSent := sem, scheduled := s.scheduled - 1 }

/-! ## The invariant -/

/-- A message that went to the machine `host`. -/
structure SentTo (hostName : Word) (numBoxes : Word → ℤ) (host : Word) (m : Message) : Prop
    extends m.Fits host (numBoxes host) where
  «from» : m.pktHdr.from = hostName
  bytes : m.data.length = m.mailHdr.length.toNat

structure Inv (hostName : Word) (numBoxes : Word → ℤ) (s : PostOfficeOutput T)
    (f : T → SendPlace) : Prop where
  lock : s.sendLock.Inv fun t ↦ (f t).lock
  coherent : ∀ t, (f t).Coherent
  idle : s.sendBusy = false
  /-- The thread that waits has the one interrupt or the one unit coming. -/
  waits : ∃ sender : Option T, (∀ t, (f t).stage.waits = true ↔ sender = some t) ∧
    0 ≤ s.messageSent.value ∧ s.messageSent.value + s.scheduled = if sender.isSome then 1 else 0
  queued : ∀ t ∈ s.messageSent.queue, (f t).stage = .sleeping
  outgoing : ∀ t x, (f t).stage.outgoing = some x →
    Message.ofPacket x.pktHdr x.buffer = x.message ∧
      SentTo hostName numBoxes x.pktHdr.to x.message
  sent : ∀ host, ∀ m ∈ s.sent host, SentTo hostName numBoxes host m

theorem inv_new (hostName : Word) (numBoxes : Word → ℤ) :
    (new : PostOfficeOutput T).Inv hostName numBoxes fun _ ↦ ⟨.outside, .idle⟩ := by
  constructor
  · exact Lock.inv_new
  · exact fun _ ↦ rfl
  · rfl
  · refine ⟨none, fun t ↦ ?_, Int.le_refl 0, rfl⟩
    exact iff_of_false (fun h ↦ by cases h) fun h ↦ by cases h
  · exact fun t h ↦ by cases h
  · exact fun t x h ↦ by cases h
  · exact fun host m h ↦ by cases h

section preservation

variable [DecidableEq T] {hostName : Word} {numBoxes : Word → ℤ} {s s' : PostOfficeOutput T}
  {f : T → SendPlace} {t : T} {place : SendPlace} {x : Outgoing}

/-- The packets of the others are what they were. -/
theorem Inv.outgoing_update (h : s.Inv hostName numBoxes f)
    (hplace : ∀ x, place.stage.outgoing = some x → Message.ofPacket x.pktHdr x.buffer = x.message ∧
      SentTo hostName numBoxes x.pktHdr.to x.message) (u : T) (x : Outgoing)
    (hu : (Function.update f t place u).stage.outgoing = some x) :
    Message.ofPacket x.pktHdr x.buffer = x.message ∧
      SentTo hostName numBoxes x.pktHdr.to x.message := by
  by_cases hut : u = t
  · rw [hut, Function.update_self] at hu
    exact hplace x hu
  · rw [Function.update_of_ne hut] at hu
    exact h.outgoing u x hu

theorem Inv.coherent_update (h : s.Inv hostName numBoxes f) (hplace : place.Coherent) (u : T) :
    (Function.update f t place u).Coherent :=
  (Function.forall_update_iff f fun _ p ↦ p.Coherent).mpr ⟨hplace, fun u _ ↦ h.coherent u⟩ u

/-- A turn in the code of the lock. -/
theorem Inv.lockTurn (h : s.Inv hostName numBoxes f) {stage : LockPlace → SendStage}
    (hwaits : ∀ p, (stage p).waits = (f t).stage.waits)
    (houtgoing : ∀ p x, (stage p).outgoing = some x → (f t).stage.outgoing = some x)
    (hcoherent : ∀ lock p, s.sendLock.Moves t (f t).lock lock p → SendPlace.Coherent ⟨p, stage p⟩)
    (hsleeping : (f t).stage ≠ .sleeping)
    (hturn : s.lockTurn t (f t).lock stage = .moved s' place) :
    s'.Inv hostName numBoxes (Function.update f t place) := by
  obtain ⟨lock, p, hlock, hmoved⟩ := Turn.bind_moved hturn
  cases hmoved
  have hmoves := Lock.moves_of_turn hlock
  have hnot : t ∉ s.messageSent.queue := fun hmem ↦ hsleeping (h.queued t hmem)
  constructor
  · rw [view_update SendPlace.lock]
    exact h.lock.moves hmoves
  · exact h.coherent_update (hcoherent lock p hmoves)
  · exact h.idle
  · obtain ⟨sender, hsender, hvalue⟩ := h.waits
    refine ⟨sender, fun u ↦ ?_, hvalue⟩
    rw [view_update_same (fun p : SendPlace ↦ p.stage.waits) (hwaits p)]
    exact hsender u
  · exact forall_mem_update (P := fun p : SendPlace ↦ p.stage = .sleeping) h.queued hnot _
  · exact h.outgoing_update fun x hx ↦ h.outgoing t x (houtgoing p x hx)
  · exact h.sent

/-- A turn outside the code of the lock. -/
theorem Inv.lock_same (h : s.Inv hostName numBoxes f) (hplace : place.lock = (f t).lock) :
    s.sendLock.Inv fun u ↦ (Function.update f t place u).lock := by
  rw [view_update SendPlace.lock, hplace, Function.update_eq_self]
  exact h.lock

omit [DecidableEq T] in
/-- While a thread has the lock and does not wait, nobody waits. -/
theorem Inv.nobody_waits (h : s.Inv hostName numBoxes f) (ht : (f t).lock = .holding)
    (hwaits : (f t).stage.waits = false) {u : T} : (f u).stage.waits ≠ true := by
  intro hu
  have hlock : (f u).lock = .holding := by
    have hcoherent := h.coherent u
    rw [SendPlace.Coherent] at hcoherent
    cases hs : (f u).stage with
    | waiting =>
      rw [hs] at hcoherent
      exact hcoherent
    | sleeping =>
      rw [hs] at hcoherent
      exact hcoherent
    | _ =>
      rw [hs] at hu
      cases hu
  obtain rfl := h.lock.unique u t (by rw [hlock]; rfl) (by rw [ht]; rfl)
  rw [hwaits] at hu
  cases hu

omit [DecidableEq T] in
private theorem sent_transmit (hpacket : Message.ofPacket x.pktHdr x.buffer = x.message)
    (d : Option Datagram) (host : Word) : (s.transmit t x d).sent host
      = s.sent host ++ if host = x.pktHdr.to then [x.message] else [] := by
  have hto : x.message.pktHdr.to = x.pktHdr.to := by rw [← hpacket, Message.ofPacket]
  rw [sent, transmit, List.map_append, List.filter_append]
  by_cases hhost : host = x.pktHdr.to
  · simp [sent, hto, hhost]
  · simp [sent, hto, hhost, Ne.symm hhost]

theorem Inv.transmit (h : s.Inv hostName numBoxes f) (ht : (f t).stage = .sending x)
    (d : Option Datagram) :
    (s.transmit t x d).Inv hostName numBoxes (Function.update f t ⟨(f t).lock, .waiting⟩) := by
  have hholding : (f t).lock = .holding := by
    have hcoherent := h.coherent t
    rw [SendPlace.Coherent, ht] at hcoherent
    exact hcoherent
  have hnobody : ∀ u, (f u).stage.waits ≠ true :=
    fun u ↦ h.nobody_waits hholding (by rw [ht]; rfl)
  have hnot : t ∉ s.messageSent.queue := by
    intro hmem
    have hs := h.queued t hmem
    rw [ht] at hs
    cases hs
  constructor
  · exact h.lock_same rfl
  · exact h.coherent_update hholding
  · exact h.idle
  · obtain ⟨sender, hsender, hnonneg, hvalue⟩ := h.waits
    -- who waits has the lock, and that is `t`
    have hnone : sender = none := by
      cases sender with
      | none => rfl
      | some u => exact absurd ((hsender u).mpr rfl) (hnobody u)
    rw [hnone] at hvalue
    refine ⟨some t, fun u ↦ ?_, hnonneg, ?_⟩
    · by_cases hu : u = t
      · rw [hu, Function.update_self]
        exact iff_of_true rfl rfl
      · rw [Function.update_of_ne hu]
        exact iff_of_false (hnobody u) fun heq ↦ hu (Option.some.inj heq).symm
    · have hvalue : s.messageSent.value + s.scheduled = 0 := hvalue
      show s.messageSent.value + ((s.scheduled + 1 : ℕ) : ℤ) = 1
      omega
  · exact forall_mem_update (P := fun p : SendPlace ↦ p.stage = .sleeping) h.queued hnot _
  · exact h.outgoing_update fun x hx ↦ by cases hx
  · obtain ⟨hpacket, hsent⟩ := h.outgoing t x (by rw [ht]; rfl)
    intro host m hm
    rw [sent_transmit hpacket] at hm
    rcases List.mem_append.mp hm with hm | hm
    · exact h.sent host m hm
    · by_cases hhost : host = x.pktHdr.to
      · rw [if_pos hhost, List.mem_singleton] at hm
        rw [hm, hhost]
        exact hsent
      · rw [if_neg hhost] at hm
        cases hm

/-- In `P` the thread joins the queue, or it takes the unit that was meant for it. -/
theorem Inv.p (h : s.Inv hostName numBoxes f) (ht : (f t).stage.waits = true)
    (hholding : (f t).lock = .holding) (hnot : t ∉ s.messageSent.queue)
    (hturn : s.messageSent.p t (fun sem ↦ { s with messageSent := sem }) ⟨(f t).lock, .sleeping⟩
      ⟨(f t).lock, .releasing⟩ = .moved s' place) :
    s'.Inv hostName numBoxes (Function.update f t place) := by
  obtain ⟨sender, hsender, hnonneg, hvalue⟩ := h.waits
  obtain rfl := (hsender t).mp ht
  rcases Semaphore.p_moved hturn with ⟨hv, hq, rfl, rfl⟩ | ⟨hv, rfl, rfl⟩
  · constructor
    · exact h.lock_same rfl
    · exact h.coherent_update hholding
    · exact h.idle
    · refine ⟨some t, fun u ↦ ?_, hnonneg, hvalue⟩
      have hsame : (⟨(f t).lock, .sleeping⟩ : SendPlace).stage.waits = (f t).stage.waits := ht.symm
      rw [view_update_same (fun p : SendPlace ↦ p.stage.waits) hsame]
      exact hsender u
    · intro u hu
      rcases List.mem_append.mp hu with hu | hu
      · exact forall_mem_update (P := fun p : SendPlace ↦ p.stage = .sleeping) h.queued hnot _ u hu
      · rw [List.mem_singleton.mp hu, Function.update_self]
    · exact h.outgoing_update fun x hx ↦ by cases hx
    · exact h.sent
  · -- the one unit is taken, and there is no interrupt to come
    have hvalue : s.messageSent.value + s.scheduled = 1 := hvalue
    have hone : s.messageSent.value = 1 ∧ s.scheduled = 0 := by omega
    constructor
    · exact h.lock_same rfl
    · refine h.coherent_update ?_
      rw [SendPlace.Coherent, hholding]
      exact ⟨rfl, by decide⟩
    · exact h.idle
    · refine ⟨none, fun u ↦ ?_, ?_, ?_⟩
      · refine iff_of_false (fun hu ↦ ?_) fun heq ↦ by cases heq
        by_cases hut : u = t
        · rw [hut, Function.update_self] at hu
          cases hu
        · rw [Function.update_of_ne hut] at hu
          exact hut (Option.some.inj ((hsender u).mp hu)).symm
      · show 0 ≤ s.messageSent.value - 1
        omega
      · show s.messageSent.value - 1 + s.scheduled = 0
        omega
    · exact forall_mem_update (P := fun p : SendPlace ↦ p.stage = .sleeping) h.queued hnot _
    · exact h.outgoing_update fun x hx ↦ by cases hx
    · exact h.sent

/-- A thread that sends gives its packet to the network, if this accepts it. -/
theorem moved_of_sending {place₀ : SendPlace} (hs : place₀.stage = .sending x) {lost : Bool}
    {fresh : ℕ → Byte} (hturn : s.turn hostName t lost fresh place₀ = .moved s' place) :
    ∃ d, NetworkOutput.send hostName s.sendBusy x.pktHdr x.buffer fresh = .ok d ∧
      s' = s.transmit t x (if lost then none else some d) ∧ place = ⟨place₀.lock, .waiting⟩ := by
  rw [PostOfficeOutput.turn, hs] at hturn
  dsimp only at hturn
  split at hturn
  · cases hturn
  · rename_i d hsend
    cases hturn
    exact ⟨d, hsend, rfl, rfl⟩

theorem Inv.turn (h : s.Inv hostName numBoxes f) {lost : Bool} {fresh : ℕ → Byte}
    (hturn : s.turn hostName t lost fresh (f t) = .moved s' place) :
    s'.Inv hostName numBoxes (Function.update f t place) := by
  have hcoherent := h.coherent t
  have hqueued := h.queued t
  rw [SendPlace.Coherent] at hcoherent
  cases hs : (f t).stage with
  | idle =>
    rw [PostOfficeOutput.turn, hs] at hturn
    cases hturn
  | acquiring x =>
    rw [PostOfficeOutput.turn, hs] at hturn
    rw [hs] at hcoherent
    refine h.lockTurn (fun p ↦ ?_) (fun p x' hx' ↦ ?_) (fun lock p hm ↦ ?_) ?_ hturn
    · rw [hs]
      split <;> rfl
    · rw [hs]
      split at hx' <;> exact hx'
    · rw [SendPlace.Coherent]
      by_cases hp : p = .holding
      · rw [if_pos hp]
        exact hp
      · rw [if_neg hp]
        exact hm.entering hcoherent hp
    · rw [hs]
      exact fun heq ↦ by cases heq
  | sending x =>
    obtain ⟨d, -, rfl, rfl⟩ := moved_of_sending hs hturn
    exact h.transmit hs _
  | waiting =>
    rw [PostOfficeOutput.turn, hs] at hturn
    rw [hs] at hcoherent hqueued
    exact h.p (by rw [hs]; rfl) hcoherent (fun hmem ↦ by cases hqueued hmem) hturn
  | sleeping =>
    rw [PostOfficeOutput.turn, hs] at hturn
    rw [hs] at hcoherent
    obtain ⟨hnot, hp⟩ := Semaphore.pAgain_moved hturn
    exact h.p (by rw [hs]; rfl) hcoherent hnot hp
  | releasing =>
    rw [PostOfficeOutput.turn, hs] at hturn
    rw [hs] at hcoherent
    refine h.lockTurn (fun p ↦ ?_) (fun p x hx ↦ ?_) (fun lock p hm ↦ ?_) ?_ hturn
    · rw [hs]
      split <;> rfl
    · split at hx <;> cases hx
    · rw [SendPlace.Coherent]
      by_cases hp : p = .outside
      · rw [if_pos hp]
        exact hp
      · rw [if_neg hp]
        exact hm.leaving hcoherent hp
    · rw [hs]
      exact fun heq ↦ by cases heq

omit [DecidableEq T] in
/-- An interrupt finds the value 0, and there is no other. -/
theorem Inv.callBack (h : s.Inv hostName numBoxes f) (hscheduled : 0 < s.scheduled) :
    ∃ s', s.callBack = .ok s' ∧ s'.Inv hostName numBoxes f ∧ s'.wire = s.wire ∧
      s'.mailed = s.mailed := by
  obtain ⟨sender, hsender, hnonneg, hvalue⟩ := h.waits
  have hone : s.messageSent.value = 0 ∧ s.scheduled = 1 ∧ sender.isSome = true := by
    cases sender with
    | none =>
      have hvalue : s.messageSent.value + s.scheduled = 0 := hvalue
      omega
    | some u =>
      have hvalue : s.messageSent.value + s.scheduled = 1 := hvalue
      exact ⟨by omega, by omega, rfl⟩
  obtain ⟨hzero, hsched, hsome⟩ := hone
  have hpost : s.messageSent.post = .ok ⟨1, s.messageSent.queue.tail⟩ := by
    rw [Semaphore.post, hzero, if_neg (by decide)]
    rfl
  rw [PostOfficeOutput.callBack, hpost]
  refine ⟨_, rfl, ⟨h.lock, h.coherent, rfl, ⟨sender, hsender, Int.one_nonneg, ?_⟩, fun u hu ↦ ?_,
    h.outgoing, h.sent⟩, rfl, rfl⟩
  · rw [hsome, hsched]
    rfl
  · exact h.queued u (List.mem_of_mem_tail hu)

/-- A thread in no call begins one. -/
theorem Inv.call (h : s.Inv hostName numBoxes f) (ht : f t = ⟨.outside, .idle⟩)
    (hx : Message.ofPacket x.pktHdr x.buffer = x.message ∧
      SentTo hostName numBoxes x.pktHdr.to x.message) :
    s.Inv hostName numBoxes (Function.update f t ⟨.outside, .acquiring x⟩) := by
  have hnot : t ∉ s.messageSent.queue := by
    intro hmem
    have hs := h.queued t hmem
    rw [ht] at hs
    cases hs
  constructor
  · exact h.lock_same (by rw [ht])
  · exact h.coherent_update (.inl rfl)
  · exact h.idle
  · obtain ⟨sender, hsender, hvalue⟩ := h.waits
    refine ⟨sender, fun u ↦ ?_, hvalue⟩
    have hsame : (⟨.outside, .acquiring x⟩ : SendPlace).stage.waits = (f t).stage.waits := by
      rw [ht]
      rfl
    rw [view_update_same (fun p : SendPlace ↦ p.stage.waits) hsame]
    exact hsender u
  · exact forall_mem_update (P := fun p : SendPlace ↦ p.stage = .sleeping) h.queued hnot _
  · refine h.outgoing_update fun x' hx' ↦ ?_
    cases hx'
    exact hx
  · exact h.sent

/-! ## What goes onto the wire -/

/-- At most one message more has gone to a machine, and it is on the wire behind the others or was
lost. -/
def Extends (s s' : PostOfficeOutput T) : Prop :=
  ∀ host, s'.wire host = s.wire host ∧ s'.sent host = s.sent host ∨
    ∃ m, s'.sent host = s.sent host ++ [m] ∧
      (s'.wire host = s.wire host ∨ ∃ d, decode d = m ∧ s'.wire host = s.wire host ++ [d])

omit [DecidableEq T] in
theorem extends_of_eq (hwire : s'.wire = s.wire) (hmailed : s'.mailed = s.mailed) : s.Extends s' :=
  fun host ↦ .inl ⟨by rw [hwire], by rw [sent, sent, hmailed]⟩

private theorem extends_of_lockTurn {p : LockPlace} {stage : LockPlace → SendStage}
    (hturn : s.lockTurn t p stage = .moved s' place) : s.Extends s' := by
  obtain ⟨lock, p, -, hmoved⟩ := Turn.bind_moved hturn
  cases hmoved
  exact extends_of_eq rfl rfl

omit [DecidableEq T] in
theorem Inv.extends_transmit (h : s.Inv hostName numBoxes f) (ht : (f t).stage = .sending x)
    {d : Datagram} {sendBusy : Bool} {fresh : ℕ → Byte}
    (hsend : NetworkOutput.send hostName sendBusy x.pktHdr x.buffer fresh = .ok d) (lost : Bool) :
    s.Extends (s.transmit t x (if lost then none else some d)) := by
  obtain ⟨hpacket, hto⟩ := h.outgoing t x (by rw [ht]; rfl)
  have hdecode : decode d = x.message := by
    rw [← hpacket]
    exact decode_of_send (hpacket ▸ hto.toWellFormed) hsend
  intro host
  have hsent := sent_transmit (s := s) (t := t) hpacket (if lost then none else some d) host
  by_cases hhost : host = x.pktHdr.to
  · rw [if_pos hhost] at hsent
    refine .inr ⟨x.message, hsent, ?_⟩
    rw [hhost]
    cases lost with
    | true =>
      left
      rw [PostOfficeOutput.transmit]
      exact (Function.update_self ..).trans (List.append_nil _)
    | false => exact .inr ⟨d, hdecode, Function.update_self ..⟩
  · rw [if_neg hhost, List.append_nil] at hsent
    exact .inl ⟨Function.update_of_ne hhost .., hsent⟩

theorem Inv.extends_of_turn (h : s.Inv hostName numBoxes f) {lost : Bool} {fresh : ℕ → Byte}
    (hturn : s.turn hostName t lost fresh (f t) = .moved s' place) : s.Extends s' := by
  cases hs : (f t).stage with
  | idle =>
    rw [PostOfficeOutput.turn, hs] at hturn
    cases hturn
  | acquiring x =>
    rw [PostOfficeOutput.turn, hs] at hturn
    exact extends_of_lockTurn hturn
  | sending x =>
    obtain ⟨d, hsend, rfl, -⟩ := moved_of_sending hs hturn
    exact h.extends_transmit hs hsend lost
  | waiting =>
    rw [PostOfficeOutput.turn, hs] at hturn
    rcases Semaphore.p_moved hturn with ⟨-, -, rfl, -⟩ | ⟨-, rfl, -⟩ <;> exact extends_of_eq rfl rfl
  | sleeping =>
    rw [PostOfficeOutput.turn, hs] at hturn
    obtain ⟨-, hp⟩ := Semaphore.pAgain_moved hturn
    rcases Semaphore.p_moved hp with ⟨-, -, rfl, -⟩ | ⟨-, rfl, -⟩ <;> exact extends_of_eq rfl rfl
  | releasing =>
    rw [PostOfficeOutput.turn, hs] at hturn
    exact extends_of_lockTurn hturn

theorem Inv.lockTurn_not_crashed (h : s.Inv hostName numBoxes f) {stage : LockPlace → SendStage}
    {e : Crash} : s.lockTurn t (f t).lock stage ≠ .crashed e := by
  intro hc
  rcases Turn.bind_crashed hc with hc | ⟨lock, p, -, hc⟩
  · exact h.lock.not_crashed e hc
  · cases hc

theorem Inv.not_crashed (h : s.Inv hostName numBoxes f) {lost : Bool} {fresh : ℕ → Byte}
    {e : Crash} : s.turn hostName t lost fresh (f t) ≠ .crashed e := by
  intro hc
  have hqueued := h.queued t
  rw [PostOfficeOutput.turn] at hc
  cases hs : (f t).stage with
  | idle =>
    rw [hs] at hc
    cases hc
  | acquiring x =>
    rw [hs] at hc
    exact h.lockTurn_not_crashed hc
  | sending x =>
    obtain ⟨hpacket, hto⟩ := h.outgoing t x (by rw [hs]; rfl)
    have hhdr : x.pktHdr = x.message.pktHdr := congrArg Message.pktHdr hpacket
    have hcheck : s.sendBusy = false ∧ x.pktHdr.length ≠ 0 ∧
        x.pktHdr.length.toNat ≤ maxPacketSize ∧ x.pktHdr.from = hostName := by
      rw [hhdr]
      exact ⟨h.idle, hto.length_ne_zero, hto.length_le, hto.from⟩
    rw [hs] at hc
    dsimp only at hc
    rw [NetworkOutput.send, if_pos hcheck] at hc
    cases hc
  | waiting =>
    rw [hs] at hc hqueued
    cases hqueued (Semaphore.p_crashed hc)
  | sleeping =>
    rw [hs] at hc
    exact Semaphore.pAgain_not_crashed hc
  | releasing =>
    rw [hs] at hc
    exact h.lockTurn_not_crashed hc

end preservation

end PostOfficeOutput

end Network

end Nachos
