import Nachos.Network.Packet
import Nachos.Program.Custody
import Nachos.Threads.Transit

/-!
# The mail boxes

A mail box is a synchronized list of pointers to mail. `MailBox::Put` makes a mail and appends it;
`MailBox::Get` removes the first one, copies what is in it and deletes it. The boxes of a machine
share the heap, and an address can be used again once its mail is deleted. What saves a mail from
being deleted while somebody needs it is that it is on one list or with one thread: `Custody`.

`delivered` has every message that was put into a box, and each call of `Get` that has copied a mail
leaves a `Receipt`: the box, how many messages had been taken out of it before, and what the caller
gets. These are not in the source. The invariant says that the messages of a box come out in the
order in which they were put in; here is what a turn can do to the boxes, `MailBoxes.Moves`.
-/

namespace Nachos

open Program Threads

variable {T W A : Type}

/-- The mail that a thread has in its hands. -/
def Threads.ListStage.hand : ListStage A → Option A
  | .appendAcquire a | .appendItem a | .removeRelease a => some a
  | _ => none

/-- The place of a thread in no call. -/
def Threads.ListPlace.outside : ListPlace W A := ⟨⟨.outside, .idle⟩, .idle⟩

namespace Network

/-- What a call of `Get` returns. -/
structure Receipt where
  box : ℕ
  number : ℕ
  message : Message
  deriving DecidableEq, Repr

/-- The mail boxes of a machine, with the mail that is on the heap. -/
structure MailBoxes (T W A : Type) where
  boxes : ℕ → SynchList T W A
  heap : A → Option Mail
  delivered : List Message
  returned : List (T × Receipt)

/-- Where a thread stands. -/
inductive BoxPlace (W A : Type) where
  | outside
  /-- In the `Append` of `Put`. -/
  | putting (box : ℕ) (list : ListPlace W A)
  /-- In the `RemoveFront` of `Get`. Once it has a mail, `number` says how many were taken out of
  the box before. -/
  | getting (box number : ℕ) (list : ListPlace W A)
  /-- `RemoveFront` has returned. -/
  | copying (box number : ℕ) (mail : A)
  /-- The mail is copied and deleted, and `Get` is about to return. -/
  | returning (receipt : Receipt)

namespace BoxPlace

/-- The place in the code of the list of box `b`. -/
def inBox (b : ℕ) : BoxPlace W A → ListPlace W A
  | .putting box list | .getting box _ list => if box = b then list else .outside
  | .outside | .copying .. | .returning _ => .outside

def hand : BoxPlace W A → Option A
  | .putting _ list | .getting _ _ list => list.stage.hand
  | .copying _ _ mail => some mail
  | .outside | .returning _ => none

/-- The mail that is to be put into a box, and the box. -/
def letter : BoxPlace W A → Option (ℕ × A)
  | .putting box list => list.stage.hand.map fun a ↦ (box, a)
  | _ => none

/-- The box from which the thread has a mail, and the number of the mail there. -/
def ticket : BoxPlace W A → Option (ℕ × ℕ)
  | .getting box number list => list.stage.hand.map fun _ ↦ (box, number)
  | .copying box number _ => some (box, number)
  | _ => none

def isPutting : BoxPlace W A → Bool
  | .putting .. => true
  | _ => false

def Coherent : BoxPlace W A → Prop
  | .putting _ list => list.stage.appending = true
  | .getting _ _ list => list.stage.removing = true
  | _ => True

/-- After a turn in `Append`. -/
def afterPut (box : ℕ) (list : ListPlace W A) : BoxPlace W A :=
  match list.stage with
  | .idle => .outside
  | _ => .putting box list

/-- After a turn in `RemoveFront`, when `removed` mails had been taken out of the box before. -/
def afterGet (box number removed : ℕ) (list list' : ListPlace W A) : BoxPlace W A :=
  match list.stage, list'.stage with
  | .removeRelease a, .idle => .copying box number a
  | .removeTest _, .removeRelease _ => .getting box removed list'
  | _, _ => .getting box number list'

end BoxPlace

namespace MailBoxes

def new : MailBoxes T W A := ⟨fun _ ↦ .new, fun _ ↦ none, [], []⟩

def setBox (s : MailBoxes T W A) (box : ℕ) (b : SynchList T W A) :
    MailBoxes T W A :=
  { s with boxes := Function.update s.boxes box b }

/-- The message in the mail at `a`. -/
def content (s : MailBoxes T W A) (a : A) : Option Message := (s.heap a).map Mail.message

/-- What was put into box `b`. -/
def put (s : MailBoxes T W A) (b : ℕ) : List Message :=
  s.delivered.filter fun m ↦ m.mailHdr.to.toNat = b

/-- The message that a thread at `place` is to put into a box. -/
def carried (s : MailBoxes T W A) (place : BoxPlace W A) : List Message :=
  (place.letter.bind fun x ↦ s.content x.2).toList

section turn

variable [DecidableEq T] [DecidableEq W] [DecidableEq A]

/-- `MailBox::Put` up to `messages->Append(mail)`, with a mail that was made at `address`. -/
def callPut (s : MailBoxes T W A) (box : ℕ) (mail : Mail) (address : A) :
    Turn MonitorCrash (MailBoxes T W A) (BoxPlace W A) :=
  if s.heap address = none then
    .moved { s with heap := Function.update s.heap address (some mail) }
      (.putting box ⟨⟨.outside, .idle⟩, .appendAcquire address⟩)
  else .blocked

/-- `MailBox::Get` up to `messages->RemoveFront()`. -/
def callGet (box : ℕ) : BoxPlace W A := .getting box 0 ⟨⟨.outside, .idle⟩, .removeAcquire⟩

/-- The mail at `a` is deleted, and the call of `t` will return `r`. -/
def deleteMail (s : MailBoxes T W A) (t : T) (a : A) (r : Receipt) : MailBoxes T W A :=
  { s with heap := Function.update s.heap a none, returned := s.returned ++ [(t, r)] }

/-- The mail that a turn in `Append` has put on the list. -/
def appendedItem : ListStage A → ListStage A → Option A
  | .appendItem a, .appendRelease => some a
  | _, _ => none

/-- The next turn of a thread. The buffer of a thread that copies holds `data`. -/
def turn (t : T) (choice : ListChoice W A) (data : ℕ → Byte) (s : MailBoxes T W A)
    (place : BoxPlace W A) : Turn MonitorCrash (MailBoxes T W A) (BoxPlace W A) :=
  match place with
  | .outside => .blocked
  | .putting box list =>
    ((s.boxes box).turn t choice list).bind fun b list' ↦
      let item := (appendedItem list.stage list'.stage).bind s.content
      .moved { s.setBox box b with delivered := s.delivered ++ item.toList } (.afterPut box list')
  | .getting box number list =>
    ((s.boxes box).turn t choice list).bind fun b list' ↦
      .moved (s.setBox box b) (.afterGet box number (s.boxes box).removed.length list list')
  | .copying box number a =>
    match s.heap a with
    | none => .crashed .deleted
    | some mail =>
      match PostOfficeInput.copyOut mail data with
      | .error e => .crashed (.kernel e)
      | .ok (pktHdr, mailHdr, data') =>
        let message := ⟨pktHdr, mailHdr, firstBytes data' mailHdr.length.toNat⟩
        .moved (s.deleteMail t a ⟨box, number, message⟩) (.returning ⟨box, number, message⟩)
  | .returning _ => .moved s .outside

end turn

/-! ## The invariant -/

/-- The messages of box `b`: those that were taken out, and those in the mails on the list. -/
def Holds (s : MailBoxes T W A) (b : ℕ) : Prop :=
  ∃ taken, taken.length = (s.boxes b).removed.length ∧
    (s.put b).map some = taken ++ (s.boxes b).list.map s.content

structure Inv (s : MailBoxes T W A) (f : T → BoxPlace W A) : Prop where
  lists : ∀ b, (s.boxes b).Inv fun t ↦ (f t).inBox b
  coherent : ∀ t, (f t).Coherent
  custody : Custody (fun b ↦ (s.boxes b).list) (fun t ↦ (f t).hand) fun a ↦ s.heap a ≠ none
  short : ∀ a mail, s.heap a = some mail → mail.mailHdr.length.toNat ≤ maxMailSize
  /-- A mail is put into the box that its header names. -/
  addressed : ∀ t box a, (f t).letter = some (box, a) →
    ∀ m, s.content a = some m → m.mailHdr.to.toNat = box
  holds : ∀ b, s.Holds b
  tickets : Tickets (fun k ↦ k.2 < (s.boxes k.1).removed.length) (fun t ↦ (f t).ticket)
    (s.returned.map fun e ↦ (e.2.box, e.2.number))
  /-- The mail that a thread has taken out of a box is the one with its number. -/
  numbered : ∀ t k a, (f t).ticket = some k → (f t).hand = some a →
    (s.put k.1)[k.2]? = s.content a
  returned : ∀ e ∈ s.returned, (s.put e.2.box)[e.2.number]? = some e.2.message

theorem inv_new : (new : MailBoxes T W A).Inv fun _ ↦ .outside := by
  constructor
  · exact fun b ↦ SynchList.inv_start
  · exact fun t ↦ trivial
  · exact Custody.nothing.congr (fun _ ↦ rfl) fun a ↦ by simp [new]
  · exact fun a mail h ↦ by cases h
  · exact fun t box a h ↦ by cases h
  · exact fun b ↦ ⟨[], rfl, rfl⟩
  · exact Tickets.none_issued.congr (fun _ ↦ rfl) fun k ↦ by simp [new, SynchList.new]
  · exact fun t k a h ↦ by cases h
  · exact fun r h ↦ by cases h

/-! ## What a turn does -/

section inversion

variable [DecidableEq T] [DecidableEq W] {t : T}

/-- The turns in `Append`. -/
private theorem appending_moves {l l' : SynchList T W A} {place place' : ListPlace W A}
    (hm : l.Moves t place l' place') (hs : place.stage.appending = true) :
    (l'.list = l.list ∧ l'.removed = l.removed ∧ place'.stage.hand = place.stage.hand ∧
      appendedItem place.stage place'.stage = none ∧
      (place'.stage.appending = true ∨ place'.stage = .idle)) ∨
    ∃ a, place.stage = .appendItem a ∧ place'.stage = .appendRelease ∧ l'.list = l.list ++ [a] ∧
      l'.removed = l.removed := by
  obtain ⟨cond, stage⟩ := place
  cases hm with
  | call hidle hnew =>
    cases hidle
    cases hs
  | @lock m cond' stage' hm hstage hl =>
    left
    dsimp only at hs hstage ⊢
    generalize cond'.lock = p at hstage
    cases hstage with
    | appendAcquire hp => exact ⟨rfl, rfl, rfl, rfl, .inl rfl⟩
    | appendItem => exact ⟨rfl, rfl, rfl, rfl, .inl rfl⟩
    | appendRelease hp => exact ⟨rfl, rfl, rfl, rfl, .inl rfl⟩
    | appendReleased => exact ⟨rfl, rfl, rfl, rfl, .inr rfl⟩
    | removeAcquire hp => cases hs
    | removeAcquired => cases hs
    | removeRelease hp => cases hs
    | removeReleased => cases hs
  | enter hm hstage hp =>
    cases hstage
    exact .inl ⟨rfl, rfl, rfl, rfl, .inl rfl⟩
  | append hstage hl hm =>
    cases hstage
    exact .inr ⟨_, rfl, rfl, rfl, rfl⟩
  | wait hstage hl hm =>
    cases hstage
    cases hs
  | remove hstage hl =>
    cases hstage
    cases hs
  | waiting hstage hm =>
    cases hstage
    cases hs

/-- The turns in `RemoveFront`. -/
private theorem removing_moves {l l' : SynchList T W A} {place place' : ListPlace W A}
    (hm : l.Moves t place l' place') (hs : place.stage.removing = true) :
    (l'.list = l.list ∧ l'.removed = l.removed ∧ place'.stage.hand = place.stage.hand ∧
      place'.stage.removing = true ∧
      ∀ box number removed, BoxPlace.afterGet box number removed place place'
        = .getting box number place') ∨
    (∃ waited a rest, place.stage = .removeTest waited ∧ place'.stage = .removeRelease a ∧
      l.list = a :: rest ∧ l'.list = rest ∧ l'.removed = l.removed ++ [(t, a)]) ∨
    ∃ a, place.stage = .removeRelease a ∧ place'.stage = .idle ∧ l'.list = l.list ∧
      l'.removed = l.removed := by
  obtain ⟨cond, stage⟩ := place
  cases hm with
  | call hidle hnew =>
    cases hidle
    cases hs
  | @lock m cond' stage' hm hstage hl =>
    dsimp only at hs hstage ⊢
    generalize cond'.lock = p at hstage
    cases hstage with
    | appendAcquire hp => cases hs
    | appendItem => cases hs
    | appendRelease hp => cases hs
    | appendReleased => cases hs
    | removeAcquire hp => exact .inl ⟨rfl, rfl, rfl, rfl, fun _ _ _ ↦ rfl⟩
    | removeAcquired => exact .inl ⟨rfl, rfl, rfl, rfl, fun _ _ _ ↦ rfl⟩
    | removeRelease hp => exact .inl ⟨rfl, rfl, rfl, rfl, fun _ _ _ ↦ rfl⟩
    | removeReleased => exact .inr (.inr ⟨_, rfl, rfl, rfl, rfl⟩)
  | enter hm hstage hp =>
    cases hstage
    cases hs
  | append hstage hl hm =>
    cases hstage
    cases hs
  | wait hstage hl hm =>
    cases hstage
    exact .inl ⟨rfl, rfl, rfl, rfl, fun _ _ _ ↦ rfl⟩
  | remove hstage hl =>
    cases hstage
    exact .inr (.inl ⟨_, _, _, rfl, rfl, hl, rfl, rfl⟩)
  | @waiting m cond' _ hstage hm =>
    cases hstage
    left
    obtain ⟨lock, stage'⟩ := cond'
    cases stage' <;> exact ⟨rfl, rfl, rfl, rfl, fun _ _ _ ↦ rfl⟩

variable [DecidableEq A]

/-- A turn in the code of the list of `box`. -/
structure Inside (t : T) (s : MailBoxes T W A) (place : BoxPlace W A) (box : ℕ)
    (b : SynchList T W A) (place' : BoxPlace W A) : Prop where
  moves : (s.boxes box).Moves t (place.inBox box) b (place'.inBox box)
  before : ∀ b', b' ≠ box → place.inBox b' = .outside
  after : ∀ b', b' ≠ box → place'.inBox b' = .outside
  coherent : place'.Coherent

inductive Moves (t : T) (s : MailBoxes T W A) (place : BoxPlace W A) :
    MailBoxes T W A → BoxPlace W A → Prop
  | quiet {box : ℕ} {b : SynchList T W A} {place' : BoxPlace W A}
      (hin : s.Inside t place box b place')
      (hlist : b.list = (s.boxes box).list) (hremoved : b.removed = (s.boxes box).removed)
      (hhand : place'.hand = place.hand) (hletter : place'.letter = place.letter)
      (hticket : place'.ticket = place.ticket) : s.Moves t place (s.setBox box b) place'
  | append {box : ℕ} {b : SynchList T W A} {place' : BoxPlace W A} {a : A}
      (hin : s.Inside t place box b place') (hletter : place.letter = some (box, a))
      (hlist : b.list = (s.boxes box).list ++ [a]) (hremoved : b.removed = (s.boxes box).removed)
      (hhand : place'.hand = none) (hletter' : place'.letter = none)
      (hticket : place'.ticket = place.ticket) :
      s.Moves t place
        { s.setBox box b with delivered := s.delivered ++ (s.content a).toList } place'
  | remove {box : ℕ} {b : SynchList T W A} {place' : BoxPlace W A} {a : A} {rest : List A}
      (hin : s.Inside t place box b place') (hletter : place'.letter = place.letter)
      (hnone : place.ticket = none) (hlist : (s.boxes box).list = a :: rest) (hrest : b.list = rest)
      (hremoved : b.removed = (s.boxes box).removed ++ [(t, a)]) (hhand : place'.hand = some a)
      (hticket : place'.ticket = some (box, (s.boxes box).removed.length)) :
      s.Moves t place (s.setBox box b) place'
  | copy {box number : ℕ} {a : A} {mail : Mail} (hplace : place = .copying box number a)
      (hheap : s.heap a = some mail) :
      s.Moves t place (s.deleteMail t a ⟨box, number, mail.message⟩)
        (.returning ⟨box, number, mail.message⟩)
  | leave {r : Receipt} (hplace : place = .returning r) : s.Moves t place s .outside

variable {s s' : MailBoxes T W A} {f : T → BoxPlace W A} {place : BoxPlace W A}

omit [DecidableEq W] [DecidableEq A] in
/-- A thread that comes out of the code of a list is in no call. -/
private theorem outside_of_idle {list : ListPlace W A} (h : list.Coherent)
    (hs : list.stage = .idle) : list = .outside := by
  obtain ⟨⟨lock, stage⟩, liststage⟩ := list
  cases hs
  obtain ⟨hstage, hlock⟩ := h
  cases hstage
  cases hlock
  rfl

omit [DecidableEq A] in
theorem Inv.list_coherent (h : s.Inv f) {box : ℕ} {b : SynchList T W A} {list' : ListPlace W A}
    (hm : (s.boxes box).Moves t ((f t).inBox box) b list') : list'.Coherent := by
  have hinv := (h.lists box).moves hm
  have hcoherent := hinv.coherent t
  rwa [Function.update_self] at hcoherent

omit [DecidableEq W] [DecidableEq A] in
private theorem inBox_self (box : ℕ) (list : ListPlace W A) :
    (BoxPlace.putting box list).inBox box = list := if_pos rfl

theorem Inv.moves_of_putting (h : s.Inv f) {box : ℕ} {list list' : ListPlace W A}
    {b : SynchList T W A} (hplace : f t = .putting box list)
    (hm : (s.boxes box).Moves t list b list') :
    s.Moves t (f t) { s.setBox box b with
      delivered := s.delivered ++ ((appendedItem list.stage list'.stage).bind s.content).toList }
      (.afterPut box list') := by
  have hin : (f t).inBox box = list := by
    rw [hplace]
    exact if_pos rfl
  have hcoherent := h.list_coherent (hin.symm ▸ hm)
  have happending : list.stage.appending = true := by
    have := h.coherent t
    rwa [hplace] at this
  have hbefore : ∀ b', b' ≠ box → (f t).inBox b' = .outside := by
    intro b' hb'
    rw [hplace]
    exact if_neg (Ne.symm hb')
  -- the thread goes on in `Append`, or returns from it, or appends its mail
  rcases appending_moves hm happending with
    ⟨hlist, hremoved, hhand, hitem, hstage | hstage⟩ | ⟨a, hstage, hstage', hlist, hremoved⟩
  · have hafter : BoxPlace.afterPut box list' = .putting box list' := by
      rw [BoxPlace.afterPut]
      split
      case h_1 hidle =>
        rw [hidle] at hstage
        cases hstage
      case h_2 => rfl
    rw [hitem, hafter, Option.bind_none, Option.toList_none, List.append_nil]
    refine .quiet ⟨?_, hbefore, fun b' hb' ↦ if_neg (Ne.symm hb'), hstage⟩ hlist hremoved ?_ ?_ ?_
    · rw [hin, inBox_self]
      exact hm
    · rw [hplace]
      exact hhand
    · rw [hplace, BoxPlace.letter, BoxPlace.letter, hhand]
    · rw [hplace]
      rfl
  · have hafter : BoxPlace.afterPut box list' = .outside := by
      rw [BoxPlace.afterPut, hstage]
    have hnone : list.stage.hand = none := by
      rw [← hhand, hstage]
      rfl
    rw [hitem, hafter, Option.bind_none, Option.toList_none, List.append_nil]
    refine .quiet ⟨?_, hbefore, fun b' hb' ↦ rfl, trivial⟩ hlist hremoved ?_ ?_ ?_
    · rw [hin, BoxPlace.inBox, ← outside_of_idle hcoherent hstage]
      exact hm
    · rw [hplace]
      exact hnone.symm
    · rw [hplace]
      exact (congrArg (Option.map fun a ↦ (box, a)) hnone).symm
    · rw [hplace]
      rfl
  · have hafter : BoxPlace.afterPut box list' = .putting box list' := by
      rw [BoxPlace.afterPut, hstage']
    rw [hstage, hstage', hafter]
    refine .append ⟨?_, hbefore, fun b' hb' ↦ if_neg (Ne.symm hb'), ?_⟩ ?_ hlist hremoved ?_ ?_ ?_
    · rw [hin, inBox_self]
      exact hm
    · rw [BoxPlace.Coherent, hstage']
      rfl
    · rw [hplace, BoxPlace.letter, hstage]
      rfl
    · rw [BoxPlace.hand, hstage']
      rfl
    · rw [BoxPlace.letter, hstage']
      rfl
    · rw [hplace]
      rfl

theorem Inv.moves_of_getting (h : s.Inv f) {box number : ℕ} {list list' : ListPlace W A}
    {b : SynchList T W A} (hplace : f t = .getting box number list)
    (hm : (s.boxes box).Moves t list b list') :
    s.Moves t (f t) (s.setBox box b)
      (.afterGet box number (s.boxes box).removed.length list list') := by
  have hin : (f t).inBox box = list := by
    rw [hplace]
    exact if_pos rfl
  have hcoherent := h.list_coherent (hin.symm ▸ hm)
  have hremoving : list.stage.removing = true := by
    have := h.coherent t
    rwa [hplace] at this
  have hbefore : ∀ b', b' ≠ box → (f t).inBox b' = .outside := by
    intro b' hb'
    rw [hplace]
    exact if_neg (Ne.symm hb')
  -- the thread goes on in `RemoveFront`, or takes the first mail, or returns with it
  rcases removing_moves hm hremoving with ⟨hlist, hremoved, hhand, hstage, hafter⟩ |
    ⟨waited, a, rest, hstage, hstage', hlist, hrest, hremoved⟩ |
    ⟨a, hstage, hstage', hlist, hremoved⟩
  · rw [hafter]
    refine .quiet ⟨?_, hbefore, fun b' hb' ↦ if_neg (Ne.symm hb'), hstage⟩ hlist hremoved ?_ ?_ ?_
    · rw [hin, BoxPlace.inBox, if_pos rfl]
      exact hm
    · rw [hplace]
      exact hhand
    · rw [hplace]
      rfl
    · rw [hplace, BoxPlace.ticket, BoxPlace.ticket, hhand]
  · -- the thread takes a mail, and with it a number
    have hafter : BoxPlace.afterGet box number (s.boxes box).removed.length list list'
        = .getting box (s.boxes box).removed.length list' := by
      rw [BoxPlace.afterGet, hstage, hstage']
    rw [hafter]
    refine .remove ⟨?_, hbefore, fun b' hb' ↦ if_neg (Ne.symm hb'), ?_⟩ ?_ ?_ hlist hrest hremoved
      ?_ ?_
    · rw [hin, BoxPlace.inBox, if_pos rfl]
      exact hm
    · rw [BoxPlace.Coherent, hstage']
      rfl
    · rw [hplace]
      rfl
    · rw [hplace, BoxPlace.ticket, hstage]
      rfl
    · rw [BoxPlace.hand, hstage']
      rfl
    · rw [BoxPlace.ticket, hstage']
      rfl
  · have hafter : BoxPlace.afterGet box number (s.boxes box).removed.length list list'
        = .copying box number a := by
      rw [BoxPlace.afterGet, hstage, hstage']
    rw [hafter]
    refine .quiet ⟨?_, hbefore, fun b' hb' ↦ rfl, trivial⟩ hlist hremoved ?_ ?_ ?_
    · rw [hin, BoxPlace.inBox, ← outside_of_idle hcoherent hstage']
      exact hm
    · rw [hplace, BoxPlace.hand, BoxPlace.hand, hstage]
      rfl
    · rw [hplace]
      rfl
    · rw [hplace, BoxPlace.ticket, BoxPlace.ticket, hstage]
      rfl

theorem Inv.moves_of_turn (h : s.Inv f) {choice : ListChoice W A} {data : ℕ → Byte}
    (hturn : s.turn t choice data (f t) = .moved s' place) : s.Moves t (f t) s' place := by
  cases hplace : f t with
  | outside =>
    rw [hplace] at hturn
    cases hturn
  | putting box list =>
    rw [hplace] at hturn
    obtain ⟨b, list', hm, hmoved⟩ := Turn.bind_moved hturn
    cases hmoved
    exact hplace ▸ h.moves_of_putting hplace (SynchList.moves_of_turn hm)
  | getting box number list =>
    rw [hplace] at hturn
    obtain ⟨b, list', hm, hmoved⟩ := Turn.bind_moved hturn
    cases hmoved
    exact hplace ▸ h.moves_of_getting hplace (SynchList.moves_of_turn hm)
  | copying box number a =>
    rw [hplace, turn] at hturn
    cases hheap : s.heap a with
    | none =>
      rw [hheap] at hturn
      cases hturn
    | some mail =>
      obtain ⟨out, hcopy, hmessage⟩ := PostOfficeInput.copyOut_of_short (h.short a mail hheap) data
      rw [hheap] at hturn
      dsimp only at hturn
      rw [hcopy] at hturn
      dsimp only at hturn
      rw [hmessage] at hturn
      cases hturn
      exact .copy rfl hheap
  | returning r =>
    rw [hplace] at hturn
    cases hturn
    exact .leave rfl

end inversion

end MailBoxes

end Network

end Nachos
