import Nachos.Basic
import Nachos.Program.Bytes
import Nachos.Threads.Turns

/-!
# Mail in packets

A message goes into a packet and a packet onto the wire, each time behind a header of three words.
On the way in the headers are taken off again, and each side makes its own checks: the functions
here are the code of both sides, from the arguments of `PostOfficeOutput::Send` to the wire and from
the wire to what `PostOfficeInput::Receive` hands out. A buffer from `new` holds anything; this is
what the arguments `fresh` are.

`decode` reads a message off the wire. What was sent is read (`decode_send`), and each function on
the way in passes on what `decode` reads. So the checks of the receiver come down to the checks of
the sender and to one more: the receiver has the box. The sender does not know, and a message to a
box that is not there stops the receiver (`receivePath_iff`).
-/

namespace Nachos

namespace Network

open Program Threads

/-! ## Headers -/

/-- `class PacketHeader`. -/
structure PacketHeader where
  «to» : Word
  «from» : Word
  length : Word
  deriving DecidableEq, Repr

/-- `class MailHeader`. -/
structure MailHeader where
  «to» : Word
  «from» : Word
  length : Word
  deriving DecidableEq, Repr

/-- `sizeof(PacketHeader)` and `sizeof(MailHeader)`. -/
@[simp] abbrev headerSize : ℕ := 12

@[simp] abbrev maxWireSize : ℕ := 64

@[simp] abbrev maxPacketSize : ℕ := maxWireSize - headerSize

@[simp] abbrev maxMailSize : ℕ := maxPacketSize - headerSize

/-- Three words, one after the other. -/
def threeWords (a b c : Word) : ℕ → Word
  | 0 => a
  | 1 => b
  | _ => c

/-- `buffer` with a packet header at its start. -/
def PacketHeader.store (hdr : PacketHeader) (buffer : ℕ → Byte) : ℕ → Byte :=
  blit buffer 0 (layWords (threeWords hdr.to hdr.from hdr.length)) headerSize

/-- The packet header at the start of `buffer`. -/
def PacketHeader.load (buffer : ℕ → Byte) : PacketHeader :=
  ⟨wordAt buffer 0, wordAt buffer 4, wordAt buffer 8⟩

/-- `buffer` with a mail header at its start. -/
def MailHeader.store (hdr : MailHeader) (buffer : ℕ → Byte) : ℕ → Byte :=
  blit buffer 0 (layWords (threeWords hdr.to hdr.from hdr.length)) headerSize

/-- The mail header at the start of `buffer`. -/
def MailHeader.load (buffer : ℕ → Byte) : MailHeader :=
  ⟨wordAt buffer 0, wordAt buffer 4, wordAt buffer 8⟩

/-- The bytes of `buffer` behind a header. -/
def behind (buffer : ℕ → Byte) : ℕ → Byte := fun x ↦ buffer (headerSize + x)

/-! ## On the way out -/

/-- What goes over the wire. -/
abbrev Datagram := Fin maxWireSize → Byte

/-- The header and the data that `PostOfficeOutput::Send` passes to the network. -/
def PostOfficeOutput.concatenate (hostName : Word) (pktHdr : PacketHeader) (mailHdr : MailHeader)
    (data fresh : ℕ → Byte) : Except Crash (PacketHeader × (ℕ → Byte)) :=
  if mailHdr.length.toNat ≤ maxMailSize ∧ 0 ≤ mailHdr.to.toInt then
    .ok ({ pktHdr with «from» := hostName, length := mailHdr.length + 12#32 },
      blit (mailHdr.store fresh) headerSize data mailHdr.length.toNat)
  else .error .assertFailed

/-- What `NetworkOutput::Send` puts on the wire, unless the packet is lost. -/
def NetworkOutput.send (hostName : Word) (sendBusy : Bool) (hdr : PacketHeader)
    (data fresh : ℕ → Byte) : Except Crash Datagram :=
  if sendBusy = false ∧ hdr.length ≠ 0 ∧ hdr.length.toNat ≤ maxPacketSize ∧ hdr.from = hostName then
    .ok fun i ↦ blit (hdr.store fresh) headerSize data hdr.length.toNat i
  else .error .assertFailed

/-! ## On the way in -/

/-- `class NetworkInput`: a packet is buffered if `inHdr.length` is not 0. -/
structure NetworkInput where
  inHdr : PacketHeader
  inbox : ℕ → Byte

/-- `ReadFromSocket`. -/
def Datagram.read (d : Datagram) (fresh : ℕ → Byte) : ℕ → Byte := fun x ↦
  if h : x < maxWireSize then d ⟨x, h⟩ else fresh x

/-- The part of `NetworkInput::CallBack` that reads a packet in. -/
def NetworkInput.arrive (s : NetworkInput) (hostName : Word) (d : Datagram) (fresh : ℕ → Byte) :
    Except Crash NetworkInput :=
  let buffer := d.read fresh
  let inHdr := PacketHeader.load buffer
  if inHdr.to = hostName ∧ inHdr.length.toNat ≤ maxPacketSize then
    .ok ⟨inHdr, blit s.inbox 0 (behind buffer) inHdr.length.toNat⟩
  else .error .assertFailed

/-- `NetworkInput::Receive`. -/
def NetworkInput.receive (s : NetworkInput) (data : ℕ → Byte) :
    PacketHeader × (ℕ → Byte) × NetworkInput :=
  (s.inHdr, if s.inHdr.length ≠ 0 then blit data 0 s.inbox s.inHdr.length.toNat else data,
    { s with inHdr := { s.inHdr with length := 0 } })

/-- `class Mail`. -/
structure Mail where
  pktHdr : PacketHeader
  mailHdr : MailHeader
  data : ℕ → Byte

/-- `Mail::Mail`. -/
def Mail.new (pktH : PacketHeader) (mailH : MailHeader) (msgData fresh : ℕ → Byte) :
    Except Crash Mail :=
  if mailH.length.toNat ≤ maxMailSize then
    .ok ⟨pktH, mailH, blit fresh 0 msgData mailH.length.toNat⟩
  else .error .assertFailed

/-- What `PostalDelivery` does with a packet in its buffer, until it has the mail to be put into the
box `mailHdr.to`. -/
def PostOfficeInput.makeMail (numBoxes : ℤ) (pktHdr : PacketHeader) (buffer fresh : ℕ → Byte) :
    Except Crash Mail :=
  let mailHdr := MailHeader.load buffer
  if 0 ≤ mailHdr.to.toInt ∧ mailHdr.to.toInt < numBoxes then
    if mailHdr.length.toNat ≤ maxMailSize then
      Mail.new pktHdr mailHdr (behind buffer) fresh
    else .error .assertFailed
  else .error .assertFailed

/-- The first assertion of `PostOfficeInput::Receive`. -/
def PostOfficeInput.checkBox (numBoxes : ℤ) (box : Word) : Except Crash Unit :=
  if 0 ≤ box.toInt ∧ box.toInt < numBoxes then .ok () else .error .assertFailed

/-- What `MailBox::Get` and `PostOfficeInput::Receive` do with a mail from the box. -/
def PostOfficeInput.copyOut (mail : Mail) (data : ℕ → Byte) :
    Except Crash (PacketHeader × MailHeader × (ℕ → Byte)) :=
  if mail.mailHdr.length.toNat ≤ maxMailSize then
    .ok (mail.pktHdr, mail.mailHdr, blit data 0 mail.data mail.mailHdr.length.toNat)
  else .error .assertFailed

/-! ## Messages -/

/-- A message as the threads see it. -/
structure Message where
  pktHdr : PacketHeader
  mailHdr : MailHeader
  data : List Byte
  deriving DecidableEq, Repr

/-- The first `n` bytes of a buffer. -/
def firstBytes (buffer : ℕ → Byte) (n : ℕ) : List Byte := (List.range n).map buffer

/-- The message in a packet. -/
def Message.ofPacket (pktHdr : PacketHeader) (data : ℕ → Byte) : Message :=
  ⟨pktHdr, MailHeader.load data, firstBytes (behind data) (MailHeader.load data).length.toNat⟩

/-- The message on the wire. -/
def decode (d : Datagram) : Message :=
  .ofPacket (PacketHeader.load (d.read fun _ ↦ 0)) (behind (d.read fun _ ↦ 0))

/-- The message that a call of `PostOfficeOutput::Send` is to send. -/
def Message.ofSend (hostName : Word) (pktHdr : PacketHeader) (mailHdr : MailHeader)
    (data : ℕ → Byte) : Message :=
  ⟨{ pktHdr with «from» := hostName, length := mailHdr.length + 12#32 }, mailHdr,
    firstBytes data mailHdr.length.toNat⟩

/-- The message in the device. -/
def NetworkInput.message (s : NetworkInput) : Message := .ofPacket s.inHdr s.inbox

def Mail.message (mail : Mail) : Message :=
  ⟨mail.pktHdr, mail.mailHdr, firstBytes mail.data mail.mailHdr.length.toNat⟩

/-- The lengths in the two headers are those of a packet that was sent. -/
structure Message.WellFormed (m : Message) : Prop where
  short : m.mailHdr.length.toNat ≤ maxMailSize
  length : m.pktHdr.length = m.mailHdr.length + 12#32

/-- The message is for a box of the machine. -/
structure Message.Fits (m : Message) (hostName : Word) (numBoxes : ℤ) : Prop
    extends m.WellFormed where
  host : m.pktHdr.to = hostName
  box : 0 ≤ m.mailHdr.to.toInt ∧ m.mailHdr.to.toInt < numBoxes

section messages

variable {m : Message} {buffer buffer' data fresh : ℕ → Byte} {n : ℕ}

theorem Message.WellFormed.toNat_length (h : m.WellFormed) :
    m.pktHdr.length.toNat = headerSize + m.mailHdr.length.toNat := by
  have hshort := h.short
  rw [h.length, BitVec.toNat_add, BitVec.toNat_ofNat]
  simp only [maxMailSize, maxPacketSize, maxWireSize, headerSize] at hshort ⊢
  omega

theorem Message.WellFormed.length_le (h : m.WellFormed) :
    m.pktHdr.length.toNat ≤ maxPacketSize := by
  have hshort := h.short
  rw [h.toNat_length]
  simp only [maxMailSize, maxPacketSize, maxWireSize, headerSize] at hshort ⊢
  omega

/-- A packet that was sent is not taken for an empty buffer. -/
theorem Message.WellFormed.length_ne_zero (h : m.WellFormed) : m.pktHdr.length ≠ 0 := by
  intro hzero
  have hnat := h.toNat_length
  rw [hzero] at hnat
  have : (0 : Word).toNat = 0 := rfl
  simp only [headerSize] at hnat
  omega

theorem length_firstBytes (buffer : ℕ → Byte) (n : ℕ) : (firstBytes buffer n).length = n := by
  rw [firstBytes, List.length_map, List.length_range]

theorem firstBytes_congr (h : ∀ x < n, buffer x = buffer' x) :
    firstBytes buffer n = firstBytes buffer' n :=
  List.map_congr_left fun x hx ↦ h x (List.mem_range.mp hx)

private theorem firstBytes_blit : firstBytes (blit buffer 0 data n) n = firstBytes data n :=
  firstBytes_congr fun x hx ↦ blit_of_mem (Nat.zero_le x) (by omega)

/-- Three words that were laid at the start of a buffer. -/
private theorem wordAt_threeWords (a b c : Word) (buffer : ℕ → Byte) :
    wordAt (blit buffer 0 (layWords (threeWords a b c)) headerSize) 0 = a ∧
    wordAt (blit buffer 0 (layWords (threeWords a b c)) headerSize) 4 = b ∧
    wordAt (blit buffer 0 (layWords (threeWords a b c)) headerSize) 8 = c := by
  have hword : ∀ i < 3, wordAt (blit buffer 0 (layWords (threeWords a b c)) headerSize) (4 * i)
      = threeWords a b c i := by
    intro i hi
    rw [← wordAt_layWords (threeWords a b c) i]
    refine wordAt_congr fun x hx hx' ↦ ?_
    rw [blit_of_mem (Nat.zero_le x) (by simp only [headerSize]; omega), Nat.sub_zero]
  exact ⟨hword 0 (by decide), hword 1 (by decide), hword 2 (by decide)⟩

theorem PacketHeader.load_store (hdr : PacketHeader) (buffer : ℕ → Byte) :
    load (hdr.store buffer) = hdr := by
  obtain ⟨hto, hfrom, hlength⟩ := wordAt_threeWords hdr.to hdr.from hdr.length buffer
  rw [load, store, hto, hfrom, hlength]

theorem MailHeader.load_store (hdr : MailHeader) (buffer : ℕ → Byte) :
    load (hdr.store buffer) = hdr := by
  obtain ⟨hto, hfrom, hlength⟩ := wordAt_threeWords hdr.to hdr.from hdr.length buffer
  rw [load, store, hto, hfrom, hlength]

theorem PacketHeader.load_congr (h : ∀ x < headerSize, buffer x = buffer' x) :
    load buffer = load buffer' := by
  have hword : ∀ i < 9, wordAt buffer i = wordAt buffer' i :=
    fun i hi ↦ wordAt_congr fun x _ hx ↦ h x (by simp only [headerSize]; omega)
  rw [load, load, hword 0 (by decide), hword 4 (by decide), hword 8 (by decide)]

theorem MailHeader.load_congr (h : ∀ x < headerSize, buffer x = buffer' x) :
    load buffer = load buffer' := by
  have hword : ∀ i < 9, wordAt buffer i = wordAt buffer' i :=
    fun i hi ↦ wordAt_congr fun x _ hx ↦ h x (by simp only [headerSize]; omega)
  rw [load, load, hword 0 (by decide), hword 4 (by decide), hword 8 (by decide)]

/-- The message is in the bytes that the packet's length counts. -/
theorem Message.ofPacket_congr {pktHdr : PacketHeader}
    (hm : (Message.ofPacket pktHdr buffer).WellFormed)
    (h : ∀ x < pktHdr.length.toNat, buffer x = buffer' x) :
    ofPacket pktHdr buffer = ofPacket pktHdr buffer' := by
  have hlength : pktHdr.length.toNat = headerSize + (MailHeader.load buffer).length.toNat :=
    hm.toNat_length
  rw [hlength] at h
  have hload : MailHeader.load buffer = MailHeader.load buffer' :=
    MailHeader.load_congr fun x hx ↦ h x (by omega)
  have hdata : firstBytes (behind buffer) (MailHeader.load buffer).length.toNat
      = firstBytes (behind buffer') (MailHeader.load buffer).length.toNat :=
    firstBytes_congr fun x hx ↦ h _ (by omega)
  rw [ofPacket, ofPacket, hdata, hload]

/-! ## What was sent is read -/

section send

variable {hostName : Word} {pktHdr hdr : PacketHeader} {mailHdr : MailHeader} {fresh' : ℕ → Byte}

theorem Message.ofSend_wellFormed (hlength : mailHdr.length.toNat ≤ maxMailSize) :
    (Message.ofSend hostName pktHdr mailHdr data).WellFormed := ⟨hlength, rfl⟩

/-- The first layer: the assertions hold, and the packet holds the message. -/
theorem concatenate_ok
    (h : PostOfficeOutput.concatenate hostName pktHdr mailHdr data fresh = .ok (hdr, buffer)) :
    mailHdr.length.toNat ≤ maxMailSize ∧ 0 ≤ mailHdr.to.toInt ∧
      Message.ofPacket hdr buffer = .ofSend hostName pktHdr mailHdr data := by
  rw [PostOfficeOutput.concatenate] at h
  by_cases hcheck : mailHdr.length.toNat ≤ maxMailSize ∧ 0 ≤ mailHdr.to.toInt
  · rw [if_pos hcheck] at h
    cases h
    have hload : MailHeader.load (blit (mailHdr.store fresh) headerSize data mailHdr.length.toNat)
        = mailHdr := by
      rw [← mailHdr.load_store fresh]
      refine MailHeader.load_congr fun x hx ↦ ?_
      rw [blit_of_lt hx, mailHdr.load_store]
    refine ⟨hcheck.1, hcheck.2, ?_⟩
    rw [Message.ofPacket, hload, Message.ofSend]
    congr 1
    refine firstBytes_congr fun x hx ↦ ?_
    rw [behind, blit_of_mem (Nat.le_add_right _ _) (by omega), Nat.add_sub_cancel_left]
  · rw [if_neg hcheck] at h
    cases h

/-- The second layer. -/
theorem decode_of_send {sendBusy : Bool} {d : Datagram}
    (hm : (Message.ofPacket hdr buffer).WellFormed)
    (h : NetworkOutput.send hostName sendBusy hdr buffer fresh = .ok d) :
    decode d = .ofPacket hdr buffer := by
  rw [NetworkOutput.send] at h
  split at h
  case isFalse => cases h
  case isTrue =>
    cases h
    have hread : ∀ x < maxWireSize, Datagram.read
        (fun i ↦ blit (hdr.store fresh) headerSize buffer hdr.length.toNat i) (fun _ ↦ 0) x
          = blit (hdr.store fresh) headerSize buffer hdr.length.toNat x := fun x hx ↦ dif_pos hx
    have hlength := hm.length_le
    have hload : PacketHeader.load (Datagram.read
        (fun i ↦ blit (hdr.store fresh) headerSize buffer hdr.length.toNat i) fun _ ↦ 0) = hdr := by
      rw [← hdr.load_store fresh]
      refine PacketHeader.load_congr fun x hx ↦ ?_
      rw [hdr.load_store, hread x (Nat.lt_trans hx (by decide)), blit_of_lt hx]
    rw [decode, hload]
    refine (Message.ofPacket_congr hm fun x hx ↦ ?_).symm
    have hx' : headerSize + x < maxWireSize := by
      have : hdr.length.toNat ≤ maxPacketSize := hlength
      simp only [maxPacketSize, maxWireSize, headerSize] at this ⊢
      omega
    rw [behind, hread _ hx', blit_of_mem (Nat.le_add_right _ _) (by omega),
      Nat.add_sub_cancel_left]

/-- Both layers. -/
private theorem decode_send {sendBusy : Bool} {d : Datagram}
    (hpacket : PostOfficeOutput.concatenate hostName pktHdr mailHdr data fresh = .ok (hdr, buffer))
    (hsend : NetworkOutput.send hostName sendBusy hdr buffer fresh' = .ok d) :
    decode d = .ofSend hostName pktHdr mailHdr data := by
  obtain ⟨hlength, -, hmessage⟩ := concatenate_ok hpacket
  rw [← hmessage]
  refine decode_of_send ?_ hsend
  rw [hmessage]
  exact Message.ofSend_wellFormed hlength

end send

/-! ## What is read is passed on -/

section receive

variable {hostName : Word} {numBoxes : ℤ} {s : NetworkInput} {d : Datagram} {mail : Mail}

/-- Nothing depends on what the buffer held. -/
private theorem decode_eq (hm : (decode d).WellFormed) (fresh : ℕ → Byte) :
    decode d = .ofPacket (PacketHeader.load (d.read fresh)) (behind (d.read fresh)) := by
  have hread : ∀ x < maxWireSize, d.read (fun _ ↦ 0) x = d.read fresh x := by
    intro x hx
    rw [Datagram.read, Datagram.read, dif_pos hx, dif_pos hx]
  have hload : PacketHeader.load (d.read fun _ ↦ 0) = PacketHeader.load (d.read fresh) :=
    PacketHeader.load_congr fun x hx ↦ hread x (Nat.lt_trans hx (by decide))
  rw [← hload]
  refine Message.ofPacket_congr hm fun x hx ↦ hread _ ?_
  have hlength : (PacketHeader.load (d.read fun _ ↦ 0)).length.toNat ≤ maxPacketSize :=
    hm.length_le
  simp only [maxPacketSize, maxWireSize, headerSize] at hlength ⊢
  omega

/-- The device takes the packet in. -/
theorem NetworkInput.arrive_of_fits (hm : (decode d).WellFormed)
    (hhost : (decode d).pktHdr.to = hostName) (fresh : ℕ → Byte) :
    ∃ s', s.arrive hostName d fresh = .ok s' ∧ s'.message = decode d := by
  have hdecode := decode_eq hm fresh
  rw [hdecode] at hm hhost ⊢
  refine ⟨_, if_pos ⟨hhost, hm.length_le⟩, (Message.ofPacket_congr hm fun x hx ↦ ?_).symm⟩
  exact (blit_of_mem (Nat.zero_le x) (by omega)).symm

/-- The postal worker gets it into its buffer. -/
theorem NetworkInput.receive_message (hm : s.message.WellFormed) (buffer : ℕ → Byte) :
    s.message = .ofPacket (s.receive buffer).1 (s.receive buffer).2.1 := by
  have hbuffer : (s.receive buffer).2.1 = blit buffer 0 s.inbox s.inHdr.length.toNat :=
    if_pos hm.length_ne_zero
  refine Message.ofPacket_congr hm fun x hx ↦ ?_
  rw [hbuffer, blit_of_mem (Nat.zero_le x) (by omega), Nat.sub_zero]

/-- The worker makes a mail of what is in its buffer, if there is the box. -/
theorem PostOfficeInput.makeMail_of_box {pktHdr : PacketHeader}
    (hm : (Message.ofPacket pktHdr buffer).WellFormed)
    (hbox : 0 ≤ (Message.ofPacket pktHdr buffer).mailHdr.to.toInt ∧
      (Message.ofPacket pktHdr buffer).mailHdr.to.toInt < numBoxes) (fresh : ℕ → Byte) :
    ∃ mail, makeMail numBoxes pktHdr buffer fresh = .ok mail ∧
      mail.message = .ofPacket pktHdr buffer := by
  have hmail : makeMail numBoxes pktHdr buffer fresh
      = Mail.new pktHdr (MailHeader.load buffer) (behind buffer) fresh :=
    (if_pos hbox).trans (if_pos hm.short)
  exact ⟨_, hmail.trans (if_pos hm.short), congrArg (Message.mk _ _) firstBytes_blit⟩

/-- The caller of `Receive` gets what is in the mail. -/
theorem PostOfficeInput.copyOut_of_short (hshort : mail.mailHdr.length.toNat ≤ maxMailSize)
    (data : ℕ → Byte) :
    ∃ out, copyOut mail data = .ok (mail.pktHdr, mail.mailHdr, out) ∧
      ⟨mail.pktHdr, mail.mailHdr, firstBytes out mail.mailHdr.length.toNat⟩ = mail.message := by
  refine ⟨_, if_pos hshort, ?_⟩
  rw [firstBytes_blit, Mail.message]

/-! ## The whole way in -/

/-- A packet on its way from the wire to a thread that receives from the box it was sent to, through
every assertion. The device holds no packet before, `buffer` is the buffer of the postal worker and
`data` the one of the thread. -/
def receivePath (hostName : Word) (numBoxes : ℤ) (s : NetworkInput) (d : Datagram)
    (fresh buffer fresh' data : ℕ → Byte) :
    Except Crash (PacketHeader × MailHeader × (ℕ → Byte)) := do
  let s ← s.arrive hostName d fresh
  let mail ← PostOfficeInput.makeMail numBoxes (s.receive buffer).1 (s.receive buffer).2.1 fresh'
  PostOfficeInput.checkBox numBoxes mail.mailHdr.to
  PostOfficeInput.copyOut mail data

private theorem receivePath_of_box (hm : (decode d).Fits hostName numBoxes)
    (fresh buffer fresh' data : ℕ → Byte) :
    ∃ out, receivePath hostName numBoxes s d fresh buffer fresh' data
        = .ok ((decode d).pktHdr, (decode d).mailHdr, out) ∧
      firstBytes out (decode d).mailHdr.length.toNat = (decode d).data := by
  obtain ⟨s', harrive, hmessage⟩ := s.arrive_of_fits hm.toWellFormed hm.host fresh
  have hreceive := NetworkInput.receive_message (hmessage ▸ hm.toWellFormed) buffer
  rw [hmessage] at hreceive
  rw [hreceive] at hm
  obtain ⟨mail, hmail, hsame⟩ := PostOfficeInput.makeMail_of_box hm.toWellFormed hm.box fresh'
  rw [← hreceive] at hsame hm
  have hshort := hm.short
  have hbox := hm.box
  rw [← hsame] at hshort hbox ⊢
  obtain ⟨out, hcopy, hout⟩ := PostOfficeInput.copyOut_of_short hshort data
  refine ⟨out, ?_, congrArg Message.data hout⟩
  have hcheck : PostOfficeInput.checkBox numBoxes mail.mailHdr.to = .ok () := if_pos hbox
  rw [receivePath, harrive]
  dsimp only [Bind.bind, Except.bind]
  rw [hmail]
  dsimp only
  rw [hcheck]
  exact hcopy

/-- The worker's assertion is the first that can fail. -/
private theorem receivePath_no_box (hm : (decode d).WellFormed)
    (hhost : (decode d).pktHdr.to = hostName)
    (hbox : ¬ (decode d).mailHdr.to.toInt < numBoxes) (fresh buffer fresh' data : ℕ → Byte) :
    receivePath hostName numBoxes s d fresh buffer fresh' data = .error .assertFailed := by
  obtain ⟨s', harrive, hmessage⟩ := s.arrive_of_fits hm hhost fresh
  have hreceive := NetworkInput.receive_message (hmessage ▸ hm) buffer
  rw [hmessage] at hreceive
  rw [hreceive] at hbox
  have hmail : PostOfficeInput.makeMail numBoxes (s'.receive buffer).1 (s'.receive buffer).2.1
      fresh' = .error .assertFailed := if_neg fun hcheck ↦ hbox hcheck.2
  rw [receivePath, harrive]
  dsimp only [Bind.bind, Except.bind]
  rw [hmail]

end receive

end messages

/-- **A sender can abort a receiver** with a message to a box that the receiver does not have, and
in no other way: what passed the sender's assertions passes all those of the addressed machine if
and only if the box number is below the number of boxes there. -/
theorem receivePath_iff {hostName : Word} {pktHdr hdr : PacketHeader} {mailHdr : MailHeader}
    {data fresh packet fresh' : ℕ → Byte} {sendBusy : Bool} {d : Datagram}
    (hpacket : PostOfficeOutput.concatenate hostName pktHdr mailHdr data fresh = .ok (hdr, packet))
    (hsend : NetworkOutput.send hostName sendBusy hdr packet fresh' = .ok d)
    (numBoxes : ℤ) (s : NetworkInput) (socketBuffer buffer mailData out : ℕ → Byte) :
    (∃ letter, receivePath pktHdr.to numBoxes s d socketBuffer buffer mailData out = .ok letter) ↔
      mailHdr.to.toInt < numBoxes := by
  obtain ⟨hlength, hnonneg, -⟩ := concatenate_ok hpacket
  have hdecode := decode_send hpacket hsend
  have hm : (decode d).WellFormed := hdecode ▸ Message.ofSend_wellFormed hlength
  have hhost : (decode d).pktHdr.to = pktHdr.to := by rw [hdecode, Message.ofSend]
  have hto : (decode d).mailHdr.to = mailHdr.to := by rw [hdecode, Message.ofSend]
  constructor
  · rintro ⟨letter, hletter⟩
    by_contra hbox
    rw [← hto] at hbox
    rw [receivePath_no_box hm hhost hbox] at hletter
    cases hletter
  · intro hbox
    have hfits : (decode d).Fits pktHdr.to numBoxes :=
      ⟨hm, hhost, by rw [hto]; exact ⟨hnonneg, hbox⟩⟩
    obtain ⟨out, hpath, -⟩ := receivePath_of_box (s := s) hfits socketBuffer buffer mailData out
    exact ⟨_, hpath⟩

/-- The three bytes `0, 1, 2` in a packet from box 0 of machine 0 to a box of machine 1. -/
def threeBytes (box : Word) : Datagram := fun i ↦
  blit (PacketHeader.store ⟨1, 0, 15⟩ fun _ ↦ 0) headerSize
    (blit (MailHeader.store ⟨box, 0, 3⟩ fun _ ↦ 0) headerSize (BitVec.ofNat 8) 3) 15 i

theorem receivePath_last_box : ∃ letter,
    receivePath 1 2 ⟨⟨0, 0, 0⟩, fun _ ↦ 0⟩ (threeBytes 1) (fun _ ↦ 0) (fun _ ↦ 0) (fun _ ↦ 0)
      (fun _ ↦ 0) = .ok letter := by
  have hpacket : PostOfficeOutput.concatenate 0 ⟨1, 9, 9⟩ ⟨1, 0, 3⟩ (BitVec.ofNat 8) (fun _ ↦ 0)
      = .ok (⟨1, 0, 15⟩, _) := if_pos (by decide)
  have hsend : NetworkOutput.send 0 false ⟨1, 0, 15⟩ _ (fun _ ↦ 0) = .ok (threeBytes 1) :=
    if_pos (by decide)
  exact (receivePath_iff hpacket hsend 2 _ _ _ _ _).mpr (by decide)

/-- A machine with one box is sent a message to its box 1. -/
theorem receivePath_aborts : ¬ ∀ (hostName : Word) (pktHdr hdr : PacketHeader)
    (mailHdr : MailHeader) (data fresh packet fresh' : ℕ → Byte) (d : Datagram),
    PostOfficeOutput.concatenate hostName pktHdr mailHdr data fresh = .ok (hdr, packet) →
    NetworkOutput.send hostName false hdr packet fresh' = .ok d →
    ∀ (numBoxes : ℤ) (s : NetworkInput) (socketBuffer buffer mailData out : ℕ → Byte),
      ∃ letter, receivePath pktHdr.to numBoxes s d socketBuffer buffer mailData out
        = .ok letter := by
  intro hnever
  have hpacket : PostOfficeOutput.concatenate 0 ⟨1, 9, 9⟩ ⟨1, 0, 3⟩ (BitVec.ofNat 8) (fun _ ↦ 0)
      = .ok (⟨1, 0, 15⟩, _) := if_pos (by decide)
  have hsend : NetworkOutput.send 0 false ⟨1, 0, 15⟩ _ (fun _ ↦ 0) = .ok (threeBytes 1) :=
    if_pos (by decide)
  obtain ⟨letter, hletter⟩ := hnever 0 _ _ _ _ _ _ _ _ hpacket hsend 1 ⟨⟨0, 0, 0⟩, fun _ ↦ 0⟩
    (fun _ ↦ 0) (fun _ ↦ 0) (fun _ ↦ 0) (fun _ ↦ 0)
  have hdecode := decode_send hpacket hsend
  have hm : (decode (threeBytes 1)).WellFormed :=
    hdecode ▸ Message.ofSend_wellFormed (by decide)
  have hhost : (decode (threeBytes 1)).pktHdr.to = 1 := by
    rw [hdecode]
    rfl
  have hbox : ¬ (decode (threeBytes 1)).mailHdr.to.toInt < 1 := by
    rw [hdecode]
    decide
  have habort := receivePath_no_box (s := ⟨⟨0, 0, 0⟩, fun _ ↦ 0⟩) hm hhost hbox (fun _ ↦ 0)
    (fun _ ↦ 0) (fun _ ↦ 0) (fun _ ↦ 0)
  cases habort.symm.trans hletter

end Network

end Nachos
