import Nachos.Network.MailOrder
import Nachos.Network.PostOffice

/-!
# One post office at work

The device, its semaphore and the postal worker are in step: `Desk`. Together with the invariants of
the sending side and of the boxes this puts one machine in order, `Machine.Inv`: what it has read
from its socket has been put into the boxes, is in the hands of the worker or is in the device, in
the order in which it was read. Every turn keeps this, and so does whatever comes from outside, as
long as the packets that arrive are for a box of the machine.
-/

namespace Nachos

namespace Network

open Program Threads

variable {T W A : Type}

/-! ## The device and the postal worker -/

/-- The thread has passed `P` and has not taken the packet. -/
def PostPlace.isReceiving : PostPlace W A → Bool
  | .receiving => true
  | _ => false

namespace PostOfficeInput

/-- The message in the device. -/
def buffered (s : PostOfficeInput T) : List Message :=
  if s.network.inHdr.length = 0 then [] else [s.network.message]

/-- Everything that has come to the socket. -/
def arrived (s : PostOfficeInput T) : List Message := (s.read ++ s.socket).map decode

/-- The packet in the device was announced and the worker is free to take it, or the worker is about
to take it; if there is none, the worker does not believe that there is. -/
inductive Desk (worker : T) (s : PostOfficeInput T) (place : PostPlace W A) : Prop
  | empty (hlength : s.network.inHdr.length = 0) (hvalue : s.messageAvailable.value = 0)
      (hplace : place.isReceiving = false)
      (hqueue : s.messageAvailable.queue = [] ∨
        s.messageAvailable.queue = [worker] ∧ place = .sleeping)
  | announced (hlength : s.network.inHdr.length ≠ 0) (hvalue : s.messageAvailable.value = 1)
      (hplace : place.isReceiving = false) (hqueue : s.messageAvailable.queue = [])
  | taking (hlength : s.network.inHdr.length ≠ 0) (hvalue : s.messageAvailable.value = 0)
      (hplace : place = .receiving) (hqueue : s.messageAvailable.queue = [])

section desk

variable {worker : T} {s s' : PostOfficeInput T} {place place' : PostPlace W A}

/-- The worker is busy with something else. -/
theorem Desk.busy (h : s.Desk worker place) (hsleeping : place ≠ .sleeping)
    (hreceiving : place.isReceiving = false) (hafter : place'.isReceiving = false) :
    s.Desk worker place' := by
  cases h with
  | empty hlength hvalue hplace hqueue =>
    exact .empty hlength hvalue hafter (.inl (hqueue.resolve_right fun hq ↦ hsleeping hq.2))
  | announced hlength hvalue hplace hqueue => exact .announced hlength hvalue hafter hqueue
  | taking hlength hvalue hplace hqueue =>
    rw [hplace] at hreceiving
    cases hreceiving

theorem Desk.not_queued (h : s.Desk worker place) (hsleeping : place ≠ .sleeping) :
    worker ∉ s.messageAvailable.queue := by
  cases h with
  | empty hlength hvalue hplace hqueue =>
    rw [hqueue.resolve_right fun hq ↦ hsleeping hq.2]
    exact List.not_mem_nil
  | announced hlength hvalue hplace hqueue =>
    rw [hqueue]
    exact List.not_mem_nil
  | taking hlength hvalue hplace hqueue =>
    rw [hqueue]
    exact List.not_mem_nil

/-- When the worker has passed `P`, the device is not empty. -/
theorem Desk.full (h : s.Desk worker place) (hplace : place = .receiving) :
    s.network.inHdr.length ≠ 0 := by
  cases h with
  | empty hlength hvalue hplace' hqueue =>
    rw [hplace] at hplace'
    cases hplace'
  | announced hlength hvalue hplace' hqueue => exact hlength
  | taking hlength hvalue hplace' hqueue => exact hlength

/-- The worker takes the packet. -/
theorem Desk.take (h : s.Desk worker place) (hplace : place = .receiving)
    (hafter : place'.isReceiving = false) (buffer : ℕ → Byte) :
    { s with
      network := (s.network.receive s.buffer).2.2
      buffer := buffer }.Desk worker place' := by
  have hreceiving : place.isReceiving = true := by
    rw [hplace]
    rfl
  cases h with
  | empty hlength hvalue hplace' hqueue =>
    rw [hreceiving] at hplace'
    cases hplace'
  | announced hlength hvalue hplace' hqueue =>
    rw [hreceiving] at hplace'
    cases hplace'
  | taking hlength hvalue hplace' hqueue => exact .empty rfl hvalue hafter (.inl hqueue)

variable [DecidableEq T]

/-- The worker tests the value in `P`. -/
theorem Desk.p (h : s.Desk worker place) (hplace : place.isReceiving = false)
    (hnot : worker ∉ s.messageAvailable.queue) {S : Type} {put : Semaphore T → S} {x : S}
    (hturn : s.messageAvailable.p worker put .sleeping .receiving = .moved x place') :
    ∃ sem, x = put sem ∧ { s with messageAvailable := sem }.Desk worker place' := by
  rcases Semaphore.p_moved hturn with ⟨hv, -, rfl, rfl⟩ | ⟨hv, rfl, rfl⟩
  · refine ⟨_, rfl, ?_⟩
    cases h with
    | empty hlength hvalue hplace hqueue =>
      have hnil : s.messageAvailable.queue = [] := by
        refine hqueue.resolve_right fun hq ↦ hnot ?_
        rw [hq.1]
        exact List.mem_singleton_self worker
      refine .empty hlength hvalue rfl (.inr ⟨?_, rfl⟩)
      show s.messageAvailable.queue ++ [worker] = [worker]
      rw [hnil, List.nil_append]
    | announced hlength hvalue hplace hqueue =>
      rw [hvalue] at hv
      exact absurd hv (by decide)
    | taking hlength hvalue hplace' hqueue =>
      rw [hplace'] at hplace
      cases hplace
  · refine ⟨_, rfl, ?_⟩
    cases h with
    | empty hlength hvalue hplace hqueue => exact absurd hvalue hv
    | announced hlength hvalue hplace hqueue =>
      refine .taking hlength ?_ rfl hqueue
      show s.messageAvailable.value - 1 = 0
      rw [hvalue]
      rfl
    | taking hlength hvalue hplace hqueue => exact absurd hvalue hv

omit [DecidableEq T] in
/-- A poll interrupt finds the device full, or the socket empty, or it reads a packet. -/
theorem Desk.poll (h : s.Desk worker place) {hostName : Word} {numBoxes : ℤ}
    (hfits : ∀ m ∈ s.arrived, m.Fits hostName numBoxes) (fresh : ℕ → Byte) :
    ∃ s', s.callBack hostName fresh = .ok s' ∧ s'.Desk worker place ∧ s'.arrived = s.arrived ∧
      ∃ more, s'.read = s.read ++ more ∧ s'.buffered = s.buffered ++ more.map decode := by
  have hsame : s.callBack hostName fresh = .ok s →
      ∃ s', s.callBack hostName fresh = .ok s' ∧ s'.Desk worker place ∧ s'.arrived = s.arrived ∧
        ∃ more, s'.read = s.read ++ more ∧ s'.buffered = s.buffered ++ more.map decode :=
    fun hback ↦ ⟨s, hback, h, rfl, [], by simp, by simp⟩
  cases h with
  -- a packet that is in the device stays there
  | announced hlength hvalue hplace hqueue => exact hsame (if_pos hlength)
  | taking hlength hvalue hplace hqueue => exact hsame (if_pos hlength)
  | empty hlength hvalue hplace hqueue =>
    cases hsocket : s.socket with
    | nil =>
      refine hsame ?_
      rw [callBack, if_neg (not_not_intro hlength), hsocket]
    | cons d rest =>
      have hmem : decode d ∈ s.arrived := by
        rw [arrived, hsocket, List.map_append]
        exact List.mem_append_right _ List.mem_cons_self
      have hd := hfits _ hmem
      obtain ⟨network, harrive, hmessage⟩ :=
        s.network.arrive_of_fits hd.toWellFormed hd.host fresh
      -- the worker, if it sleeps on the queue, is taken off
      have hpost : s.messageAvailable.post = .ok ⟨1, []⟩ := by
        rw [Semaphore.post, hvalue, if_neg (by decide)]
        rcases hqueue with hqueue | ⟨hqueue, -⟩ <;> (rw [hqueue]; rfl)
      have hfull : network.inHdr.length ≠ 0 := by
        have hne := hd.length_ne_zero
        rw [← hmessage] at hne
        exact hne
      refine ⟨{ s with
        network := network
        messageAvailable := ⟨1, []⟩
        socket := rest
        read := s.read ++ [d] }, ?_, .announced hfull rfl hplace rfl, ?_, [d], rfl, ?_⟩
      · rw [callBack, if_neg (not_not_intro hlength), hsocket]
        dsimp only
        rw [harrive]
        dsimp only
        rw [hpost]
      · rw [arrived, arrived, hsocket, List.append_assoc]
        rfl
      · rw [buffered, if_neg hfull, buffered, if_pos hlength, hmessage]
        rfl

end desk

end PostOfficeInput

/-! ## One machine -/

namespace Machine

structure Inv (numBoxes : Word → ℤ) (hostName : Word) (worker : T) (m : Machine T W A)
    (f : T → PostPlace W A) : Prop where
  output : m.output.Inv hostName numBoxes fun t ↦ (f t).send
  boxes : m.boxes.Inv fun t ↦ (f t).box
  worker_iff : ∀ t, (f t).delivering = true ↔ t = worker
  desk : m.input.Desk worker (f worker)
  fits : ∀ x ∈ m.input.arrived, x.Fits hostName (numBoxes hostName)
  /-- What was read is in the boxes, with the worker or in the device. -/
  accounted : m.input.read.map decode
    = m.boxes.delivered ++ (m.boxes.carried (f worker).box ++ m.input.buffered)

section inv

variable [DecidableEq T] {numBoxes : Word → ℤ} {hostName : Word} {worker t : T}
  {m m' : Machine T W A} {f : T → PostPlace W A} {place : PostPlace W A}

theorem inv_start (numBoxes : Word → ℤ) (hostName : Word) (worker : T) :
    (new : Machine T W A).Inv numBoxes hostName worker
      fun t ↦ if t = worker then .awaiting else .idle := by
  have hsend : (fun t ↦ PostPlace.send (if t = worker then .awaiting else .idle : PostPlace W A))
      = fun _ ↦ ⟨.outside, .idle⟩ := by
    funext t
    split <;> rfl
  have hbox : (fun t ↦ PostPlace.box (if t = worker then .awaiting else .idle : PostPlace W A))
      = fun _ ↦ .outside := by
    funext t
    split <;> rfl
  constructor
  · rw [hsend]
    exact PostOfficeOutput.inv_new hostName numBoxes
  · rw [hbox]
    exact MailBoxes.inv_new
  · intro t
    by_cases ht : t = worker
    · rw [if_pos ht]
      exact iff_of_true rfl ht
    · rw [if_neg ht]
      exact iff_of_false (fun h ↦ by cases h) ht
  · rw [if_pos rfl]
    exact .empty rfl rfl rfl (.inl rfl)
  · exact fun x hx ↦ by cases hx
  · rw [if_pos rfl]
    rfl

omit [DecidableEq T] in
theorem Inv.ne_worker (h : m.Inv numBoxes hostName worker f) (ht : (f t).delivering = false) :
    t ≠ worker := by
  intro heq
  rw [(h.worker_iff t).mpr heq] at ht
  cases ht

omit [DecidableEq T] in
theorem Inv.eq_worker (h : m.Inv numBoxes hostName worker f) (ht : (f t).delivering = true) :
    t = worker := (h.worker_iff t).mp ht

theorem Inv.worker_update (h : m.Inv numBoxes hostName worker f)
    (hplace : place.delivering = (f t).delivering) (u : T) :
    (Function.update f t place u).delivering = true ↔ u = worker := by
  rw [view_update_same PostPlace.delivering hplace]
  exact h.worker_iff u

theorem Inv.send_same (h : m.Inv numBoxes hostName worker f) (hplace : place.send = (f t).send) :
    m.output.Inv hostName numBoxes fun u ↦ (Function.update f t place u).send := by
  rw [view_update PostPlace.send, hplace, Function.update_eq_self]
  exact h.output

theorem Inv.box_same (h : m.Inv numBoxes hostName worker f) (hplace : place.box = (f t).box) :
    m.boxes.Inv fun u ↦ (Function.update f t place u).box := by
  rw [view_update PostPlace.box, hplace, Function.update_eq_self]
  exact h.boxes

/-- A thread other than the worker moves. -/
theorem Inv.client (h : m.Inv numBoxes hostName worker f) (ht : (f t).delivering = false)
    (hplace : place.delivering = false) (hinput : m'.input = m.input)
    (houtput : m'.output.Inv hostName numBoxes fun u ↦ (Function.update f t place u).send)
    (hboxes : m'.boxes.Inv fun u ↦ (Function.update f t place u).box)
    (hdelivered : m'.boxes.delivered = m.boxes.delivered)
    (hcarried : m'.boxes.carried (f worker).box = m.boxes.carried (f worker).box) :
    m'.Inv numBoxes hostName worker (Function.update f t place) := by
  have hworker : Function.update f t place worker = f worker :=
    Function.update_of_ne (h.ne_worker ht).symm _ _
  refine ⟨houtput, hboxes, h.worker_update (hplace.trans ht.symm), ?_, ?_, ?_⟩
  · rw [hworker, hinput]
    exact h.desk
  · rw [hinput]
    exact h.fits
  · rw [hworker, hinput, hdelivered, hcarried]
    exact h.accounted

/-- A call of `Send` with a message that its receiver can take. -/
theorem Inv.callSend (h : m.Inv numBoxes hostName worker f) (ht : f t = .idle)
    {pktHdr hdr : PacketHeader} {mailHdr : MailHeader} {data fresh buffer : ℕ → Byte}
    (hpacket : PostOfficeOutput.concatenate hostName pktHdr mailHdr data fresh = .ok (hdr, buffer))
    (hbox : mailHdr.to.toInt < numBoxes pktHdr.to) :
    m.Inv numBoxes hostName worker (Function.update f t
      (.sending ⟨.outside, .acquiring ⟨.ofSend hostName pktHdr mailHdr data, hdr, buffer⟩⟩)) := by
  obtain ⟨hlength, hnonneg, hmessage⟩ := concatenate_ok hpacket
  have hhdr : hdr = (Message.ofSend hostName pktHdr mailHdr data).pktHdr :=
    congrArg Message.pktHdr hmessage
  have hto : hdr.to = pktHdr.to := by
    rw [hhdr]
    rfl
  refine h.client (by rw [ht]; rfl) rfl rfl ?_ (h.box_same (by rw [ht]; rfl)) rfl rfl
  rw [view_update PostPlace.send]
  refine h.output.call (by rw [ht]; rfl) ⟨hmessage, ⟨?_, ?_, ?_⟩, rfl, length_firstBytes _ _⟩
  · exact Message.ofSend_wellFormed hlength
  · exact hto.symm
  · show 0 ≤ mailHdr.to.toInt ∧ mailHdr.to.toInt < numBoxes hdr.to
    rw [hto]
    exact ⟨hnonneg, hbox⟩

private theorem afterSend_send {place : SendPlace} (h : place.Coherent) :
    (PostPlace.afterSend place : PostPlace W A).send = place := by
  obtain ⟨lock, stage⟩ := place
  cases stage with
  | idle =>
    rw [show lock = .outside from h]
    rfl
  | _ => rfl

private theorem afterSend_other (place : SendPlace) :
    (PostPlace.afterSend place : PostPlace W A).box = .outside ∧
      (PostPlace.afterSend place : PostPlace W A).delivering = false := by
  obtain ⟨lock, stage⟩ := place
  cases stage <;> exact ⟨rfl, rfl⟩

theorem Inv.sendTurn (h : m.Inv numBoxes hostName worker f) {send send' : SendPlace}
    {output : PostOfficeOutput T} {lost : Bool} {fresh : ℕ → Byte} (ht : f t = .sending send)
    (hturn : m.output.turn hostName t lost fresh send = .moved output send') :
    { m with output := output }.Inv numBoxes hostName worker
      (Function.update f t (.afterSend send')) := by
  have hsend : (f t).send = send := by
    rw [ht]
    rfl
  have hinv := h.output.turn (hsend.symm ▸ hturn)
  have hcoherent : send'.Coherent := by
    have := hinv.coherent t
    rwa [Function.update_self] at this
  obtain ⟨hbox, hdelivering⟩ := afterSend_other (W := W) (A := A) send'
  refine h.client (by rw [ht]; rfl) hdelivering rfl ?_ (h.box_same ?_) rfl rfl
  · rw [view_update PostPlace.send, afterSend_send hcoherent]
    exact hinv
  · rw [hbox, ht]
    rfl

/-- The worker tests the value in `P`. -/
theorem Inv.await (h : m.Inv numBoxes hostName worker f) (ht : f t = .awaiting ∨ f t = .sleeping)
    (hnot : t ∉ m.input.messageAvailable.queue)
    (hturn : m.input.messageAvailable.p t
      (fun sem ↦ { m with input := { m.input with messageAvailable := sem } }) .sleeping
      .receiving = .moved m' place) :
    m'.Inv numBoxes hostName worker (Function.update f t place) ∧
      m'.input.arrived = m.input.arrived ∧ m'.output = m.output := by
  have hview : (f t).send = ⟨.outside, .idle⟩ ∧ (f t).box = .outside ∧
      (f t).delivering = true ∧ (f t).isReceiving = false := by
    rcases ht with ht | ht <;> (rw [ht]; exact ⟨rfl, rfl, rfl, rfl⟩)
  have hafter : place = .sleeping ∨ place = .receiving := by
    rcases Semaphore.p_moved hturn with ⟨-, -, -, hplace⟩ | ⟨-, -, hplace⟩
    · exact .inl hplace
    · exact .inr hplace
  have hview' : place.send = ⟨.outside, .idle⟩ ∧ place.box = .outside ∧
      place.delivering = true := by
    rcases hafter with rfl | rfl <;> exact ⟨rfl, rfl, rfl⟩
  obtain ⟨hsend, hbox, hdelivering, hreceiving⟩ := hview
  obtain ⟨hsend', hbox', hdelivering'⟩ := hview'
  obtain rfl := h.eq_worker hdelivering
  obtain ⟨sem, rfl, hdesk⟩ := h.desk.p hreceiving hnot hturn
  refine ⟨⟨h.send_same (hsend'.trans hsend.symm), h.box_same (hbox'.trans hbox.symm),
    h.worker_update (hdelivering'.trans hdelivering.symm), ?_, h.fits, ?_⟩, rfl, rfl⟩
  · rw [Function.update_self]
    exact hdesk
  · rw [Function.update_self, hbox', ← hbox]
    exact h.accounted

omit [DecidableEq T] in
/-- When the worker has passed `P` there is a packet, and a mail is made of it. -/
theorem Inv.exists_mail (h : m.Inv numBoxes hostName worker f) (ht : f worker = .receiving)
    (fresh : ℕ → Byte) :
    m.input.buffered = [m.input.network.message] ∧ ∃ mail,
      PostOfficeInput.makeMail (numBoxes hostName) (m.input.network.receive m.input.buffer).1
        (m.input.network.receive m.input.buffer).2.1 fresh = .ok mail ∧
      mail.message = m.input.network.message ∧ mail.mailHdr.length.toNat ≤ maxMailSize := by
  have hbuffered : m.input.buffered = [m.input.network.message] := if_neg (h.desk.full ht)
  have hmem : m.input.network.message ∈ m.input.arrived := by
    rw [PostOfficeInput.arrived, List.map_append, h.accounted, hbuffered]
    simp
  have hfits := h.fits _ hmem
  have hreceive := NetworkInput.receive_message hfits.toWellFormed m.input.buffer
  rw [hreceive] at hfits
  obtain ⟨mail, hmail, hsame⟩ :=
    PostOfficeInput.makeMail_of_box hfits.toWellFormed hfits.box fresh
  rw [← hsame] at hfits
  exact ⟨hbuffered, mail, hmail, hsame.trans hreceive.symm, hfits.short⟩

/-- The worker takes the packet and makes a mail of it. -/
theorem Inv.deliver [DecidableEq W] [DecidableEq A] (h : m.Inv numBoxes hostName worker f)
    (ht : f t = .receiving) {address : A} {fresh : ℕ → Byte}
    (hturn : m.deliver (numBoxes hostName) address fresh = .moved m' place) :
    m'.Inv numBoxes hostName worker (Function.update f t place) ∧
      m'.input.arrived = m.input.arrived ∧ m'.output = m.output := by
  obtain rfl := h.eq_worker (t := t) (by rw [ht]; rfl)
  obtain ⟨hbuffered, mail, hmail, hsame, hshort⟩ := h.exists_mail ht fresh
  have haccounted := h.accounted
  rw [ht, hbuffered] at haccounted
  rw [Machine.deliver] at hturn
  dsimp only at hturn
  rw [hmail] at hturn
  obtain ⟨boxes, box, hput, hmoved⟩ := Turn.bind_moved hturn
  cases hmoved
  obtain ⟨hdelivered, hcarried, hputting⟩ := MailBoxes.callPut_moved hput
  refine ⟨⟨h.send_same (by rw [ht]; rfl), ?_, h.worker_update (by rw [ht]; exact hputting), ?_,
    h.fits, ?_⟩, rfl, rfl⟩
  · rw [view_update PostPlace.box]
    exact h.boxes.callPut (by rw [ht]; rfl) rfl hshort hput
  · rw [Function.update_self]
    exact h.desk.take ht rfl _
  · rw [Function.update_self]
    show m.input.read.map decode = boxes.delivered ++ (boxes.carried box ++ [])
    rw [haccounted, hdelivered, hcarried, hsame]
    rfl

private theorem afterBox_box (w : Bool) (place : BoxPlace W A) :
    (PostPlace.afterBox w place).box = place := by
  cases place with
  | outside => cases w <;> rfl
  | _ => rfl

private theorem afterBox_other (w : Bool) (place : BoxPlace W A) :
    (PostPlace.afterBox w place).send = ⟨.outside, .idle⟩ ∧
      (PostPlace.afterBox w place).isReceiving = false := by
  cases place with
  | outside => cases w <;> exact ⟨rfl, rfl⟩
  | _ => exact ⟨rfl, rfl⟩

private theorem afterBox_delivering {w : Bool} {place : BoxPlace W A}
    (h : place = .outside ∨ place.isPutting = w) :
    (PostPlace.afterBox w place).delivering = w := by
  cases place with
  | outside => cases w <;> rfl
  | putting box list => exact h.resolve_left fun heq ↦ by cases heq
  | getting box number list => exact h.resolve_left fun heq ↦ by cases heq
  | copying box number a => exact h.resolve_left fun heq ↦ by cases heq
  | returning r => exact h.resolve_left fun heq ↦ by cases heq

/-- A turn in the code of a box, of the worker or of another thread. -/
theorem Inv.boxTurn [DecidableEq W] [DecidableEq A] (h : m.Inv numBoxes hostName worker f)
    {box box' : BoxPlace W A} {boxes : MailBoxes T W A} {choice : ListChoice W A}
    {data : ℕ → Byte} (ht : f t = .atBox box)
    (hturn : m.boxes.turn t choice data box = .moved boxes box') :
    { m with boxes := boxes }.Inv numBoxes hostName worker
      (Function.update f t (.afterBox (t = worker) box')) := by
  have hbox : (f t).box = box := by
    rw [ht]
    rfl
  have hdelivering : (f t).delivering = box.isPutting := by
    rw [ht]
    rfl
  have hw : decide (t = worker) = box.isPutting := by
    rw [← hdelivering, Bool.eq_iff_iff, decide_eq_true_iff]
    exact (h.worker_iff t).symm
  have hmoves := h.boxes.moves_of_turn (hbox.symm ▸ hturn)
  have hafter := afterBox_delivering (hw ▸ MailBoxes.isPutting_of_turn hturn)
  obtain ⟨hsend, hreceiving⟩ := afterBox_other (decide (t = worker)) box'
  have hboxes : boxes.Inv fun u ↦
      (Function.update f t (.afterBox (t = worker) box') u : PostPlace W A).box := by
    rw [view_update PostPlace.box, afterBox_box]
    exact h.boxes.moves hmoves
  have hdelivered := hmoves.delivered
  rw [hbox] at hdelivered
  cases hputting : box.isPutting with
  -- a thread in `Get` puts nothing into a box, and the worker's mail is not the one it deletes
  | false =>
    have ht' := hdelivering.trans hputting
    have hnot' : box'.isPutting = false := by
      rcases MailBoxes.isPutting_of_turn hturn with rfl | heq
      · rfl
      · rw [heq, hputting]
    rw [MailBoxes.carried_of_not_putting hputting, MailBoxes.carried_of_not_putting hnot',
      List.append_nil, List.append_nil] at hdelivered
    refine h.client ht' ?_ rfl (h.send_same ?_) hboxes hdelivered ?_
    · rw [hafter, hw, hputting]
    · rw [hsend, ht]
      rfl
    · exact h.boxes.carried_other hmoves (h.ne_worker ht').symm
  -- what the worker puts into the box it carries no longer
  | true =>
    obtain rfl := h.eq_worker (hdelivering.trans hputting)
    refine ⟨h.send_same ?_, hboxes, h.worker_update ?_, ?_, h.fits, ?_⟩
    · rw [hsend, ht]
      rfl
    · rw [hafter, hdelivering, hw]
    · rw [Function.update_self]
      refine h.desk.busy ?_ ?_ hreceiving
      · rw [ht]
        exact fun heq ↦ by cases heq
      · rw [ht]
        rfl
    · rw [Function.update_self, afterBox_box, ← List.append_assoc]
      show _ = boxes.delivered ++ boxes.carried box' ++ m.input.buffered
      rw [hdelivered, List.append_assoc, ← hbox]
      exact h.accounted

theorem Inv.turn [DecidableEq W] [DecidableEq A] (h : m.Inv numBoxes hostName worker f)
    {choice : PostChoice W A} (hlegal : PostOffice.Legal numBoxes hostName choice)
    (hturn : m.turn hostName (numBoxes hostName) worker t choice (f t) = .moved m' place) :
    m'.Inv numBoxes hostName worker (Function.update f t place) ∧
      m'.input.arrived = m.input.arrived ∧ m.output.Extends m'.output := by
  have hquiet : m'.output = m.output → m.output.Extends m'.output := by
    intro heq
    rw [heq]
    exact PostOfficeOutput.extends_of_eq rfl rfl
  -- each place goes on in the code of one part of the machine; the other parts do not notice
  cases ht : f t with
  | idle =>
    rw [ht] at hturn
    cases choice with
    | send pktHdr mailHdr data fresh =>
      rw [Machine.turn] at hturn
      cases hpacket : PostOfficeOutput.concatenate hostName pktHdr mailHdr data fresh with
      | error e =>
        rw [hpacket] at hturn
        cases hturn
      | ok x =>
        rw [hpacket] at hturn
        cases hturn
        exact ⟨h.callSend ht hpacket hlegal.2.2, rfl, hquiet rfl⟩
    | receive box =>
      rw [Machine.turn] at hturn
      cases hcheck : PostOfficeInput.checkBox (numBoxes hostName) box with
      | error e =>
        rw [hcheck] at hturn
        cases hturn
      | ok x =>
        rw [hcheck] at hturn
        cases hturn
        refine ⟨?_, rfl, hquiet rfl⟩
        refine h.client (by rw [ht]; rfl) rfl rfl (h.send_same (by rw [ht]; rfl)) ?_ rfl rfl
        rw [view_update PostPlace.box]
        exact h.boxes.callGet (by rw [ht]; rfl)
    | _ => cases hturn
  | sending send =>
    rw [ht] at hturn
    cases choice with
    | packet lost fresh =>
      obtain ⟨output, send', hsend, hmoved⟩ := Turn.bind_moved hturn
      have hsend := Turn.mapCrash_moved.mp hsend
      cases hmoved
      refine ⟨h.sendTurn ht hsend, rfl, ?_⟩
      have hview : (f t).send = send := by
        rw [ht]
        rfl
      exact h.output.extends_of_turn (hview.symm ▸ hsend)
    | _ => cases hturn
  | awaiting =>
    rw [ht] at hturn
    have hnot : t ∉ m.input.messageAvailable.queue := by
      obtain rfl := h.eq_worker (t := t) (by rw [ht]; rfl)
      exact h.desk.not_queued (by rw [ht]; exact fun heq ↦ by cases heq)
    obtain ⟨hinv, harrived, houtput⟩ := h.await (.inl ht) hnot (Turn.mapCrash_moved.mp hturn)
    exact ⟨hinv, harrived, hquiet houtput⟩
  | sleeping =>
    rw [ht] at hturn
    obtain ⟨hnot, hp⟩ := Semaphore.pAgain_moved (Turn.mapCrash_moved.mp hturn)
    obtain ⟨hinv, harrived, houtput⟩ := h.await (.inr ht) hnot hp
    exact ⟨hinv, harrived, hquiet houtput⟩
  | receiving =>
    rw [ht] at hturn
    cases choice with
    | mail address fresh =>
      obtain ⟨hinv, harrived, houtput⟩ := h.deliver ht hturn
      exact ⟨hinv, harrived, hquiet houtput⟩
    | _ => cases hturn
  | atBox box =>
    rw [ht] at hturn
    cases choice with
    | box choice data =>
      obtain ⟨boxes, box', hbox, hmoved⟩ := Turn.bind_moved hturn
      cases hmoved
      exact ⟨h.boxTurn ht hbox, rfl, hquiet rfl⟩
    | _ => cases hturn

/-- No assertion fails. -/
theorem Inv.not_crashed [DecidableEq W] [DecidableEq A] (h : m.Inv numBoxes hostName worker f)
    {choice : PostChoice W A} (hlegal : PostOffice.Legal numBoxes hostName choice)
    {e : MonitorCrash} :
    m.turn hostName (numBoxes hostName) worker t choice (f t) ≠ .crashed e := by
  intro hc
  cases ht : f t with
  | idle =>
    rw [ht] at hc
    cases choice with
    | send pktHdr mailHdr data fresh =>
      rw [Machine.turn, PostOfficeOutput.concatenate, if_pos ⟨hlegal.1, hlegal.2.1⟩] at hc
      cases hc
    | receive box =>
      have hbox : 0 ≤ box.toInt ∧ box.toInt < numBoxes hostName := hlegal
      rw [Machine.turn, PostOfficeInput.checkBox, if_pos hbox] at hc
      cases hc
    | _ => cases hc
  | sending send =>
    have hview : (f t).send = send := by
      rw [ht]
      rfl
    rw [ht] at hc
    cases choice with
    | packet lost fresh =>
      rcases Turn.bind_crashed hc with hc | ⟨output, send', -, hc⟩
      · obtain ⟨e', hc⟩ := Turn.mapCrash_crashed hc
        exact h.output.not_crashed (hview.symm ▸ hc)
      · cases hc
    | _ => cases hc
  | awaiting =>
    obtain rfl := h.eq_worker (t := t) (by rw [ht]; rfl)
    rw [ht] at hc
    obtain ⟨e', hc⟩ := Turn.mapCrash_crashed hc
    exact h.desk.not_queued (by rw [ht]; exact fun heq ↦ by cases heq) (Semaphore.p_crashed hc)
  | sleeping =>
    rw [ht] at hc
    obtain ⟨e', hc⟩ := Turn.mapCrash_crashed hc
    exact Semaphore.pAgain_not_crashed hc
  | receiving =>
    -- the packet fits, so the worker's checks are those that the sender has made
    obtain rfl := h.eq_worker (t := t) (by rw [ht]; rfl)
    rw [ht] at hc
    cases choice with
    | mail address fresh =>
      obtain ⟨-, mail, hmail, -⟩ := h.exists_mail ht fresh
      rw [Machine.turn, Machine.deliver] at hc
      dsimp only at hc
      rw [hmail] at hc
      rcases Turn.bind_crashed hc with hc | ⟨boxes, box, -, hc⟩
      · rw [MailBoxes.callPut] at hc
        split at hc <;> cases hc
      · cases hc
    | _ => cases hc
  | atBox box =>
    have hview : (f t).box = box := by
      rw [ht]
      rfl
    rw [ht] at hc
    cases choice with
    | box choice data =>
      rcases Turn.bind_crashed hc with hc | ⟨boxes, box', -, hc⟩
      · exact h.boxes.not_crashed (hview.symm ▸ hc)
      · cases hc
    | _ => cases hc

/-! ## What comes from outside -/

omit [DecidableEq T] in
theorem Inv.poll (h : m.Inv numBoxes hostName worker f) (fresh : ℕ → Byte) :
    ∃ input, m.input.callBack hostName fresh = .ok input ∧
      { m with input := input }.Inv numBoxes hostName worker f ∧
      input.arrived = m.input.arrived := by
  obtain ⟨input, hback, hdesk, harrived, more, hread, hbuffered⟩ := h.desk.poll h.fits fresh
  refine ⟨input, hback, ⟨h.output, h.boxes, h.worker_iff, hdesk, ?_, ?_⟩, harrived⟩
  · rw [harrived]
    exact h.fits
  · rw [hread, hbuffered, List.map_append, h.accounted]
    simp only [List.append_assoc]

omit [DecidableEq T] in
theorem Inv.sent (h : m.Inv numBoxes hostName worker f) (hscheduled : 0 < m.output.scheduled) :
    ∃ output, m.output.callBack = .ok output ∧
      { m with output := output }.Inv numBoxes hostName worker f ∧
      output.wire = m.output.wire ∧ output.mailed = m.output.mailed := by
  obtain ⟨output, hback, hinv, hwire, hmailed⟩ := h.output.callBack hscheduled
  exact ⟨output, hback, ⟨hinv, h.boxes, h.worker_iff, h.desk, h.fits, h.accounted⟩, hwire, hmailed⟩

omit [DecidableEq T] in
/-- The network takes a packet off a wire. -/
theorem Inv.unwire (h : m.Inv numBoxes hostName worker f) (wire : Word → List Datagram) :
    { m with output := { m.output with wire := wire } }.Inv numBoxes hostName worker f :=
  ⟨⟨h.output.lock, h.output.coherent, h.output.idle, h.output.waits, h.output.queued,
    h.output.outgoing, h.output.sent⟩, h.boxes, h.worker_iff, h.desk, h.fits, h.accounted⟩

omit [DecidableEq T] in
/-- The network brings a packet to the socket. -/
theorem Inv.arrive (h : m.Inv numBoxes hostName worker f) {d : Datagram}
    (hd : (decode d).Fits hostName (numBoxes hostName)) :
    { m with input := { m.input with socket := m.input.socket ++ [d] } }.Inv numBoxes hostName
      worker f := by
  refine ⟨h.output, h.boxes, h.worker_iff, ?_, ?_, h.accounted⟩
  · cases h.desk with
    | empty hlength hvalue hplace hqueue => exact .empty hlength hvalue hplace hqueue
    | announced hlength hvalue hplace hqueue => exact .announced hlength hvalue hplace hqueue
    | taking hlength hvalue hplace hqueue => exact .taking hlength hvalue hplace hqueue
  · intro x hx
    rw [PostOfficeInput.arrived, ← List.append_assoc, List.map_append] at hx
    rcases List.mem_append.mp hx with hx | hx
    · exact h.fits x hx
    · rw [List.map_singleton, List.mem_singleton] at hx
      rw [hx]
      exact hd

end inv

end Machine

end Network

end Nachos
