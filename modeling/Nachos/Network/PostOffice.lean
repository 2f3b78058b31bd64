import Nachos.Network.MailBox
import Nachos.Network.Sending

/-!
# The post office

Every machine has a device that buffers one packet, a thread that takes packets out of it and puts
the mail into the boxes, and any number of threads that send and receive. The device polls its
socket. It reads a packet only when its buffer is empty, which is when `inHdr.length` is 0, and
posts `messageAvailable` for each packet; the postal worker waits for that before it takes the
packet.

An interrupt is taken only where `P` or `V` turns interrupts on. So what the worker does after `P`,
up to the `Append` in `MailBox::Put`, is one turn.

The machines run side by side. What one sends goes onto its wire to the other, and what arrives is
on the other's socket.
-/

namespace Nachos

namespace Network

open Program Threads

variable {T W A : Type}

/-- `class PostOfficeInput` with its `NetworkInput` and the buffer of the postal worker. -/
structure PostOfficeInput (T : Type) where
  network : NetworkInput
  messageAvailable : Semaphore T
  buffer : ℕ → Byte
  socket : List Datagram
  /-- What was read from the socket. -/
  read : List Datagram

namespace PostOfficeInput

/-- `PostOfficeInput::PostOfficeInput` and `NetworkInput::NetworkInput`. -/
def new : PostOfficeInput T where
  network := ⟨⟨0, 0, 0⟩, fun _ ↦ 0⟩
  messageAvailable := .new 0
  buffer := fun _ ↦ 0
  socket := []
  read := []

/-- `NetworkInput::CallBack` and `PostOfficeInput::CallBack`. -/
def callBack (hostName : Word) (fresh : ℕ → Byte) (s : PostOfficeInput T) :
    Except Crash (PostOfficeInput T) :=
  if s.network.inHdr.length ≠ 0 then .ok s
  else
    match s.socket with
    | [] => .ok s
    | d :: rest =>
      match s.network.arrive hostName d fresh with
      | .error e => .error e
      | .ok network =>
        match s.messageAvailable.post with
        | .error e => .error e
        | .ok sem =>
          .ok { s with
            network := network
            messageAvailable := sem
            socket := rest
            read := s.read ++ [d] }

end PostOfficeInput

structure Machine (T W A : Type) where
  output : PostOfficeOutput T
  input : PostOfficeInput T
  boxes : MailBoxes T W A

/-- Where a thread stands. -/
inductive PostPlace (W A : Type) where
  /-- In no call. -/
  | idle
  /-- In `PostOfficeOutput::Send`. -/
  | sending (place : SendPlace)
  /-- The postal worker, about to test the value in `P`. -/
  | awaiting
  | sleeping
  /-- `P` has returned. -/
  | receiving
  /-- In `MailBox::Put` or `MailBox::Get`. -/
  | atBox (place : BoxPlace W A)

inductive PostChoice (W A : Type) where
  /-- `PostOfficeOutput::Send`; the new buffer holds `fresh`. -/
  | send (pktHdr : PacketHeader) (mailHdr : MailHeader) (data fresh : ℕ → Byte)
  /-- `PostOfficeInput::Receive`. -/
  | receive (box : Word)
  /-- In the code of `Send`: what becomes of a packet. -/
  | packet (lost : Bool) (fresh : ℕ → Byte)
  /-- Where `new` puts a mail. -/
  | mail (address : A) (fresh : ℕ → Byte)
  /-- In the code of a box. The buffer for the message holds `data`. -/
  | box (choice : ListChoice W A) (data : ℕ → Byte)

namespace PostPlace

def send : PostPlace W A → SendPlace
  | .sending place => place
  | _ => ⟨.outside, .idle⟩

def box : PostPlace W A → BoxPlace W A
  | .atBox place => place
  | _ => .outside

/-- The thread is in `PostalDelivery`. -/
def delivering : PostPlace W A → Bool
  | .awaiting | .sleeping | .receiving => true
  | .idle | .sending _ => false
  | .atBox place => place.isPutting

/-- After a turn in `Send`. -/
def afterSend (place : SendPlace) : PostPlace W A :=
  match place.stage with
  | .idle => .idle
  | _ => .sending place

/-- After a turn in the code of a box; the worker goes on to wait for the next packet. -/
def afterBox (worker : Bool) (place : BoxPlace W A) : PostPlace W A :=
  match place with
  | .outside => if worker then .awaiting else .idle
  | _ => .atBox place

end PostPlace

namespace Machine

def new : Machine T W A := ⟨.new, .new, .new⟩

section turn

variable [DecidableEq T] [DecidableEq W] [DecidableEq A]

/-- The part of the loop of `PostalDelivery` between `P` and `Append`. -/
def deliver (numBoxes : ℤ) (m : Machine T W A) (address : A) (fresh : ℕ → Byte) :
    Turn MonitorCrash (Machine T W A) (PostPlace W A) :=
  let (pktHdr, buffer, network) := m.input.network.receive m.input.buffer
  match PostOfficeInput.makeMail numBoxes pktHdr buffer fresh with
  | .error e => .crashed (.kernel e)
  | .ok mail =>
    (m.boxes.callPut mail.mailHdr.to.toNat mail address).bind fun boxes place ↦
      .moved { m with
        input := { m.input with network := network, buffer := buffer }
        boxes := boxes } (.atBox place)

/-- The next turn of a thread. -/
def turn (hostName : Word) (numBoxes : ℤ) (worker t : T) (choice : PostChoice W A)
    (m : Machine T W A) (place : PostPlace W A) :
    Turn MonitorCrash (Machine T W A) (PostPlace W A) :=
  match place with
  | .idle =>
    match choice with
    | .send pktHdr mailHdr data fresh =>
      match PostOfficeOutput.concatenate hostName pktHdr mailHdr data fresh with
      | .error e => .crashed (.kernel e)
      | .ok (hdr, buffer) =>
        let message := .ofSend hostName pktHdr mailHdr data
        .moved m (.sending ⟨.outside, .acquiring ⟨message, hdr, buffer⟩⟩)
    | .receive box =>
      match PostOfficeInput.checkBox numBoxes box with
      | .error e => .crashed (.kernel e)
      | .ok () => .moved m (.atBox (MailBoxes.callGet box.toNat))
    | _ => .blocked
  | .sending place =>
    match choice with
    | .packet lost fresh =>
      ((m.output.turn hostName t lost fresh place).mapCrash .kernel).bind fun output place' ↦
        .moved { m with output := output } (.afterSend place')
    | _ => .blocked
  | .awaiting =>
    (m.input.messageAvailable.p t
      (fun sem ↦ { m with input := { m.input with messageAvailable := sem } })
      .sleeping .receiving).mapCrash .kernel
  | .sleeping =>
    (m.input.messageAvailable.pAgain t
      (fun sem ↦ { m with input := { m.input with messageAvailable := sem } })
      .sleeping .receiving).mapCrash .kernel
  | .receiving =>
    match choice with
    | .mail address fresh => m.deliver numBoxes address fresh
    | _ => .blocked
  | .atBox place =>
    match choice with
    | .box choice data =>
      (m.boxes.turn t choice data place).bind fun boxes place' ↦
        .moved { m with boxes := boxes } (.afterBox (t = worker) place')
    | _ => .blocked

end turn

end Machine

/-- Every machine has its own threads, and its postal worker. -/
abbrev PostThread (T : Type) := Word × T

abbrev PostConfig (T W A : Type) := Config (PostThread T) (Word → Machine T W A) (PostPlace W A)

namespace PostOffice

/-- Calls for which the callers have to answer: a message is sent to a box that its receiver has,
and received from a box that is there. -/
def Legal (numBoxes : Word → ℤ) (hostName : Word) : PostChoice W A → Prop
  | .send pktHdr mailHdr _ _ =>
    mailHdr.length.toNat ≤ maxMailSize ∧ 0 ≤ mailHdr.to.toInt ∧
      mailHdr.to.toInt < numBoxes pktHdr.to
  | .receive box => 0 ≤ box.toInt ∧ box.toInt < numBoxes hostName
  | _ => True

instance (numBoxes : Word → ℤ) (hostName : Word) (choice : PostChoice W A) :
    Decidable (Legal numBoxes hostName choice) :=
  match choice with
  | .send pktHdr mailHdr _ _ => inferInstanceAs (Decidable
      (mailHdr.length.toNat ≤ maxMailSize ∧ 0 ≤ mailHdr.to.toInt ∧
        mailHdr.to.toInt < numBoxes pktHdr.to))
  | .receive box => inferInstanceAs (Decidable (0 ≤ box.toInt ∧ box.toInt < numBoxes hostName))
  | .packet .. | .mail .. | .box .. => isTrue trivial

section turn

variable [DecidableEq T] [DecidableEq W] [DecidableEq A]

/-- A turn of a thread on its machine. -/
def turn (numBoxes : Word → ℤ) (worker : T) (t : PostThread T) (choice : PostChoice W A)
    (s : Word → Machine T W A) (place : PostPlace W A) :
    Turn MonitorCrash (Word → Machine T W A) (PostPlace W A) :=
  if Legal numBoxes t.1 choice then
    ((s t.1).turn t.1 (numBoxes t.1) worker t.2 choice place).bind fun m place' ↦
      .moved (Function.update s t.1 m) place'
  else .blocked

end turn

/-- The first packet on the wire from `g` to `h` is taken off. -/
def unwire (s : Word → Machine T W A) (g h : Word) : Word → Machine T W A :=
  Function.update s g { s g with
    output := { (s g).output with
      wire := Function.update (s g).output.wire h ((s g).output.wire h).tail } }

/-- A packet arrives at the socket of `h`. -/
def arrive (s : Word → Machine T W A) (h : Word) (d : Datagram) : Word → Machine T W A :=
  Function.update s h { s h with
    input := { (s h).input with socket := (s h).input.socket ++ [d] } }

/-- What happens between the turns: the interrupts, and what the network does. -/
inductive Outside (s : Word → Machine T W A) : (Word → Machine T W A) → Prop
  | poll {h : Word} {fresh : ℕ → Byte} {input : PostOfficeInput T}
      (hback : (s h).input.callBack h fresh = .ok input) :
      Outside s (Function.update s h { s h with input := input })
  | sent {h : Word} {output : PostOfficeOutput T} (hscheduled : 0 < (s h).output.scheduled)
      (hback : (s h).output.callBack = .ok output) :
      Outside s (Function.update s h { s h with output := output })
  | arrive {g h : Word} {d : Datagram} {rest : List Datagram}
      (hwire : (s g).output.wire h = d :: rest) : Outside s (arrive (unwire s g h) h d)
  | drop {g h : Word} : Outside s (unwire s g h)

def start (worker : T) [DecidableEq T] : PostConfig T W A :=
  ⟨fun _ ↦ .new, fun t ↦ if t.2 = worker then .awaiting else .idle⟩

end PostOffice

end Network

end Nachos
