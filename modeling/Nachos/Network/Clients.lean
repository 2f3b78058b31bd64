import Nachos.Network.Desk
import Nachos.Program.Calls

/-!
# The calls of `Send` and `Receive`

All threads of a machine but the postal worker are its clients. A client that is in no call and gets
a turn calls `PostOfficeOutput::Send` or `PostOfficeInput::Receive`; the calls are noted where they
are made, and what they come back with where they come back. `PostOffice.callSpec` says what a place
in the code means for the call: a call of `Send` has a message to give to the network, and a call of
`Receive` is in the `Get` of its box until it has a receipt from there.
-/

namespace Nachos

namespace Network

open Program Threads

variable {T W A : Type}

/-- The box in whose `Get` a thread is. -/
def BoxPlace.getsFrom : BoxPlace W A → Option ℕ
  | .getting box _ _ | .copying box _ _ => some box
  | .returning r => some r.box
  | .outside | .putting .. => none

/-- The message that a thread in `PostOfficeOutput::Send` has not yet given to the network. -/
def SendStage.message (stage : SendStage) : Option Message := stage.outgoing.map Outgoing.message

namespace PostPlace

def isIdle : PostPlace W A → Bool
  | .idle => true
  | _ => false

/-- What a call of `Receive` is about to return. -/
def receipt : PostPlace W A → Option Receipt
  | .atBox (.returning r) => some r
  | _ => none

/-- The message that a call of `Send` has not yet given to the network. -/
def unsent : PostPlace W A → Option Message
  | .sending place => place.stage.message
  | _ => none

end PostPlace

/-- The calls of the clients of the machine `hostName`. -/
def PostOffice.callSpec (hostName : Word) :
    CallSpec (PostPlace W A) (PostChoice W A) Message Receipt where
  idle := PostPlace.isIdle
  given
    | .send pktHdr mailHdr data _ => some (.ofSend hostName pktHdr mailHdr data)
    | _ => none
  outstanding := PostPlace.unsent
  hand := PostPlace.receipt
  inCall
    | .send .., .sending _ => True
    | .receive box, .atBox place => place.getsFrom = some box.toNat
    | _, _ => False
  answers
    | .send .., result => result = none
    | .receive box, result => ∃ r, result = some r ∧ r.box = box.toNat
    | _, _ => False
  idle_empty place hidle := by
    cases place with
    | idle => exact ⟨rfl, rfl⟩
    | _ => cases hidle

/-! ## What a turn means for a call -/

section turns

variable [DecidableEq T] {hostName : Word} {t : T}

/-- What a turn in `PostOfficeOutput::Send` does with the message: it is given to the network or
kept, and the call returns from `Release`. -/
structure PostOfficeOutput.Mails (t : T) (s : PostOfficeOutput T) (stage : SendStage)
    (s' : PostOfficeOutput T) (stage' : SendStage) (entries : List Message) : Prop where
  message : entries ++ stage'.message.toList = stage.message.toList
  mailed : s'.mailed = s.mailed ++ entries.map fun m ↦ (t, m)
  returns : stage' = .idle → stage = .releasing

omit [DecidableEq T] in
private theorem PostOfficeOutput.mails_nothing {s s' : PostOfficeOutput T}
    {stage stage' : SendStage} (hmessage : stage'.message = stage.message)
    (hmailed : s'.mailed = s.mailed) (hreturns : stage' = .idle → stage = .releasing) :
    s.Mails t stage s' stage' [] :=
  ⟨by rw [hmessage, List.nil_append], by rw [hmailed, List.map_nil, List.append_nil], hreturns⟩

/-- In `P` the packet has left the thread. -/
private theorem PostOfficeOutput.mails_of_p {s s' : PostOfficeOutput T} {lock : LockPlace}
    {stage : SendStage} {place' : SendPlace} (hmessage : stage.message = none)
    (hturn : s.messageSent.p t (fun sem ↦ { s with messageSent := sem }) ⟨lock, .sleeping⟩
      ⟨lock, .releasing⟩ = .moved s' place') : s.Mails t stage s' place'.stage [] := by
  rcases Semaphore.p_moved hturn with ⟨-, -, rfl, rfl⟩ | ⟨-, rfl, rfl⟩
  · exact mails_nothing hmessage.symm rfl nofun
  · exact mails_nothing hmessage.symm rfl nofun

theorem PostOfficeOutput.mails_of_turn {s s' : PostOfficeOutput T} {place place' : SendPlace}
    {lost : Bool} {fresh : ℕ → Byte}
    (hturn : s.turn hostName t lost fresh place = .moved s' place') :
    ∃ entries, s.Mails t place.stage s' place'.stage entries := by
  obtain ⟨lock, stage⟩ := place
  cases stage with
  | idle => cases hturn
  | acquiring x =>
    obtain ⟨lock', p, -, hmoved⟩ := Turn.bind_moved hturn
    cases hmoved
    refine ⟨[], mails_nothing ?_ rfl ?_⟩
    · dsimp only
      split <;> rfl
    · dsimp only
      split <;> nofun
  | sending x =>
    obtain ⟨d, -, rfl, rfl⟩ := moved_of_sending rfl hturn
    exact ⟨[x.message], rfl, rfl, nofun⟩
  | waiting => exact ⟨[], mails_of_p rfl hturn⟩
  | sleeping => exact ⟨[], mails_of_p rfl (Semaphore.pAgain_moved hturn).2⟩
  | releasing =>
    obtain ⟨lock', p, -, hmoved⟩ := Turn.bind_moved hturn
    cases hmoved
    refine ⟨[], mails_nothing ?_ rfl fun _ ↦ rfl⟩
    dsimp only
    split <;> rfl

variable [DecidableEq W] [DecidableEq A]

/-- In `Get` the thread goes on in the list of its box, or it gets its receipt, or it returns. -/
theorem MailBoxes.returned_of_turn {s s' : MailBoxes T W A} {place place' : BoxPlace W A}
    {choice : ListChoice W A} {data : ℕ → Byte} (hplace : place.isPutting = false)
    (hturn : s.turn t choice data place = .moved s' place') :
    (place'.getsFrom = place.getsFrom ∧ place' ≠ .outside ∧ s'.returned = s.returned ∧
      (∀ r, place ≠ .returning r) ∧ ∀ r, place' ≠ .returning r) ∨
    (∃ r, place' = .returning r ∧ place.getsFrom = some r.box ∧ (∀ r, place ≠ .returning r) ∧
      s'.returned = s.returned ++ [(t, r)]) ∨
    ∃ r, place = .returning r ∧ place' = .outside ∧ s' = s := by
  cases place with
  | outside => cases hturn
  | putting box list => cases hplace
  | getting box number list =>
    obtain ⟨b, list', -, hmoved⟩ := Turn.bind_moved hturn
    cases hmoved
    left
    rw [BoxPlace.afterGet]
    split <;> exact ⟨rfl, by simp, rfl, by simp, by simp⟩
  | copying box number a =>
    rw [MailBoxes.turn] at hturn
    split at hturn
    · cases hturn
    · split at hturn
      · cases hturn
      · cases hturn
        exact .inr (.inl ⟨_, rfl, rfl, by simp, rfl⟩)
  | returning r =>
    cases hturn
    exact .inr (.inr ⟨r, rfl, rfl, rfl⟩)

/-- The postal worker receives nothing. -/
theorem MailBoxes.returned_of_putting {s s' : MailBoxes T W A} {place place' : BoxPlace W A}
    {choice : ListChoice W A} {data : ℕ → Byte} (hplace : place.isPutting = true)
    (hturn : s.turn t choice data place = .moved s' place') : s'.returned = s.returned := by
  cases place with
  | putting box list =>
    obtain ⟨b, list', -, hmoved⟩ := Turn.bind_moved hturn
    cases hmoved
    rfl
  | _ => cases hplace

variable {m m' : Machine T W A} {place place' : PostPlace W A} {choice : PostChoice W A}
  {numBoxes : ℤ} {worker : T}

/-- The turns in the code of a box. -/
private theorem turns_of_boxTurn {box box' : BoxPlace W A} {boxes boxes' : MailBoxes T W A}
    {list : ListChoice W A} {data : ℕ → Byte} (hplace : box.isPutting = false)
    (hturn : boxes.turn t list data box = .moved boxes' box') :
    ∃ gets : List Receipt, (PostOffice.callSpec hostName).Turns choice (.atBox box) [] gets
        (PostPlace.afterBox false box') ∧
      boxes'.returned = boxes.returned ++ gets.map fun r ↦ (t, r) := by
  rcases MailBoxes.returned_of_turn hplace hturn with ⟨hbox, hinside, hreturned, hno, hno'⟩ |
    ⟨r, rfl, hbox, hno, hreturned⟩ | ⟨r, rfl, rfl, rfl⟩
  · have hhand : ∀ place : BoxPlace W A, (∀ r, place ≠ .returning r) →
        (PostPlace.atBox place).receipt = none := by
      intro place hplace
      cases place with
      | returning r => exact absurd rfl (hplace r)
      | _ => rfl
    have hafter : PostPlace.afterBox false box' = .atBox box' := by
      cases box' with
      | outside => exact absurd rfl hinside
      | _ => rfl
    refine ⟨[], ?_, by rw [hreturned, List.map_nil, List.append_nil]⟩
    rw [hafter]
    refine .inside rfl rfl (fun j hj ↦ ?_) rfl ?_
    · cases j with
      | receive b => exact hbox.trans hj
      | _ => cases hj
    · rw [List.append_nil]
      exact congrArg Option.toList ((hhand box' hno').trans (hhand box hno).symm)
  · refine ⟨[r], .inside rfl rfl (fun j hj ↦ ?_) rfl ?_, hreturned⟩
    · cases j with
      | receive b => exact hbox.symm.trans hj
      | _ => cases hj
    · cases box with
      | returning r' => exact absurd rfl (hno r')
      | _ => rfl
  · refine ⟨[], .leave rfl rfl rfl rfl rfl fun j hj ↦ ?_, (List.append_nil _).symm⟩
    cases j with
    | receive b => exact ⟨r, rfl, Option.some.inj hj⟩
    | _ => cases hj

/-- A turn of a client. -/
theorem Machine.turns_of_turn (hclient : t ≠ worker) (hplace : place.delivering = false)
    (hturn : m.turn hostName numBoxes worker t choice place = .moved m' place') :
    ∃ entries gets, (PostOffice.callSpec hostName).Turns choice place entries gets place' ∧
      m'.output.mailed = m.output.mailed ++ entries.map (fun x ↦ (t, x)) ∧
      m'.boxes.returned = m.boxes.returned ++ gets.map fun r ↦ (t, r) := by
  cases place with
  | idle =>
    cases choice with
    | send pktHdr mailHdr data fresh =>
      rw [Machine.turn] at hturn
      cases hpacket : PostOfficeOutput.concatenate hostName pktHdr mailHdr data fresh with
      | error e =>
        rw [hpacket] at hturn
        cases hturn
      | ok x =>
        rw [hpacket] at hturn
        cases hturn
        exact ⟨[], [], .enter rfl rfl trivial rfl rfl rfl rfl, (List.append_nil _).symm,
          (List.append_nil _).symm⟩
    | receive box =>
      rw [Machine.turn] at hturn
      cases hcheck : PostOfficeInput.checkBox numBoxes box with
      | error e =>
        rw [hcheck] at hturn
        cases hturn
      | ok x =>
        rw [hcheck] at hturn
        cases hturn
        exact ⟨[], [], .enter rfl rfl rfl rfl rfl rfl rfl, (List.append_nil _).symm,
          (List.append_nil _).symm⟩
    | _ => cases hturn
  | sending send =>
    cases choice with
    | packet lost fresh =>
      obtain ⟨output, send', hsend, hmoved⟩ := Turn.bind_moved hturn
      cases hmoved
      obtain ⟨entries, hmessage, hmailed, hreleasing⟩ :=
        PostOfficeOutput.mails_of_turn (Turn.mapCrash_moved.mp hsend)
      refine ⟨entries, [], ?_, hmailed, (List.append_nil _).symm⟩
      rw [PostPlace.afterSend]
      split
      case h_1 hidle =>
        -- the call returns, and its message has gone to the network before
        have hnone : send.stage.message = none := by
          rw [hreleasing hidle]
          rfl
        have hnil : entries = [] := by
          rw [hnone] at hmessage
          exact (List.append_eq_nil_iff.mp hmessage).1
        refine .leave rfl rfl hnil rfl hnone fun j hj ↦ ?_
        cases j with
        | send => rfl
        | _ => cases hj
      case h_2 =>
        refine .inside rfl rfl (fun j hj ↦ ?_) hmessage rfl
        cases j with
        | send => trivial
        | _ => cases hj
    | _ => cases hturn
  | awaiting => cases hplace
  | sleeping => cases hplace
  | receiving => cases hplace
  | atBox box =>
    cases choice with
    | box list data =>
      obtain ⟨boxes, box', hbox, hmoved⟩ := Turn.bind_moved hturn
      cases hmoved
      rw [decide_eq_false hclient]
      obtain ⟨gets, hturns, hreturned⟩ := turns_of_boxTurn hplace hbox
      exact ⟨[], gets, hturns, (List.append_nil _).symm, hreturned⟩
    | _ => cases hturn

/-- The postal worker sends nothing and receives nothing. -/
theorem Machine.same_of_delivering (hplace : place.delivering = true)
    (hturn : m.turn hostName numBoxes worker t choice place = .moved m' place') :
    m'.output.mailed = m.output.mailed ∧ m'.boxes.returned = m.boxes.returned := by
  have hp : ∀ {done : PostPlace W A}, m.input.messageAvailable.p t
      (fun sem ↦ { m with input := { m.input with messageAvailable := sem } }) .sleeping done
        = .moved m' place' →
      m'.output.mailed = m.output.mailed ∧ m'.boxes.returned = m.boxes.returned := by
    intro done hmoved
    rcases Semaphore.p_moved hmoved with ⟨-, -, rfl, -⟩ | ⟨-, rfl, -⟩ <;> exact ⟨rfl, rfl⟩
  cases place with
  | idle => cases hplace
  | sending send => cases hplace
  | awaiting => exact hp (Turn.mapCrash_moved.mp hturn)
  | sleeping => exact hp (Semaphore.pAgain_moved (Turn.mapCrash_moved.mp hturn)).2
  | receiving =>
    cases choice with
    | mail address fresh =>
      rw [Machine.turn, Machine.deliver] at hturn
      dsimp only at hturn
      split at hturn
      · cases hturn
      · obtain ⟨boxes, box, hput, hmoved⟩ := Turn.bind_moved hturn
        cases hmoved
        rw [MailBoxes.callPut] at hput
        split at hput
        · cases hput
          exact ⟨rfl, rfl⟩
        · cases hput
    | _ => cases hturn
  | atBox box =>
    cases choice with
    | box list data =>
      obtain ⟨boxes, box', hbox, hmoved⟩ := Turn.bind_moved hturn
      cases hmoved
      exact ⟨rfl, MailBoxes.returned_of_putting hplace hbox⟩
    | _ => cases hturn

end turns

end Network

end Nachos
