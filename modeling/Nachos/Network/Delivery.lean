import Nachos.Network.Clients

/-!
# Mail is delivered

Every machine is in order by itself, `Machine.Inv`, and the wires are between two of them: what a
machine has got from another, followed by what is on the wire, is what the other has sent, in the
order in which it was sent, except for what was lost. This is `PostOffice.Inv`. It holds whatever
the threads, the interrupts and the network do, in whatever order, and the packets that arrive are
for a box of the machine because they were sent so.

The calls of the clients are noted beside the system. What a machine has sent is what its calls of
`Send` were given, and each call of `Receive` comes back with the next message of its box.
-/

namespace Nachos

namespace Network

open Program Threads

variable {T W A : Type}

/-! ## All machines -/

namespace PostOffice

/-- What has come from the machine `g`. -/
def cameFrom (g : Word) (l : List Message) : List Message :=
  l.filter fun x ↦ x.pktHdr.from = g

structure Inv (numBoxes : Word → ℤ) (worker : T) (s : Word → Machine T W A)
    (f : PostThread T → PostPlace W A) : Prop where
  machines : ∀ h, (s h).Inv numBoxes h worker fun t ↦ f (h, t)
  /-- What `h` has got from `g`, followed by what is on the wire, is what `g` has sent to `h`, but
  for what was lost. -/
  wires : ∀ g h, (cameFrom g (s h).input.arrived ++ ((s g).output.wire h).map decode).Sublist
    ((s g).output.sent h)

section inv

variable {numBoxes : Word → ℤ} {worker : T} {s : Word → Machine T W A} {m : Machine T W A}
  {f f' : PostThread T → PostPlace W A} {g h : Word} {d : Datagram}

/-- The wire is a queue. -/
private theorem wire_extends {o o' : PostOfficeOutput T} (hext : o.Extends o') {past : List Message}
    (hwire : (past ++ (o.wire h).map decode).Sublist (o.sent h)) :
    (past ++ (o'.wire h).map decode).Sublist (o'.sent h) := by
  rcases hext h with ⟨hsame, hsent⟩ | ⟨x, hsent, hsame | ⟨d, hd, hmore⟩⟩
  · rw [hsame, hsent]
    exact hwire
  · rw [hsame, hsent]
    exact hwire.trans (List.sublist_append_left _ _)
  · rw [hmore, hsent, List.map_append, List.map_singleton, hd, ← List.append_assoc]
    exact hwire.append (List.Sublist.refl [x])

/-- A step of one machine. -/
theorem Inv.step (hs : Inv numBoxes worker s f) (hm : m.Inv numBoxes h worker fun t ↦ f' (h, t))
    (hothers : ∀ k t, k ≠ h → f' (k, t) = f (k, t))
    (harrived : m.input.arrived = (s h).input.arrived)
    (hext : (s h).output.Extends m.output) :
    Inv numBoxes worker (Function.update s h m) f' := by
  have hinput : ∀ k, (Function.update s h m k).input.arrived = (s k).input.arrived := by
    intro k
    by_cases hk : k = h
    · rw [hk, Function.update_self, harrived]
    · rw [Function.update_of_ne hk]
  constructor
  · intro k
    by_cases hk : k = h
    · rw [hk, Function.update_self]
      exact hm
    · rw [Function.update_of_ne hk, funext fun t ↦ hothers k t hk]
      exact hs.machines k
  · intro g k
    rw [hinput]
    -- only the wires from `h` can have changed
    by_cases hg : g = h
    · rw [hg, Function.update_self]
      exact wire_extends hext (hs.wires h k)
    · rw [Function.update_of_ne hg]
      exact hs.wires g k

/-- What is on the wire was sent. -/
theorem Inv.sent_of_wire (hs : Inv numBoxes worker s f) (hd : d ∈ (s g).output.wire h) :
    PostOfficeOutput.SentTo g numBoxes h (decode d) := by
  refine (hs.machines g).output.sent h _ ((hs.wires g h).mem ?_)
  exact List.mem_append_right _ (List.mem_map_of_mem hd)

theorem Inv.drop (hs : Inv numBoxes worker s f) : Inv numBoxes worker (unwire s g h) f := by
  have hinput : ∀ k, (unwire s g h k).input = (s k).input := by
    intro k
    rw [unwire]
    by_cases hk : k = g
    · rw [hk, Function.update_self]
    · rw [Function.update_of_ne hk]
  constructor
  · intro k
    rw [unwire]
    by_cases hk : k = g
    · rw [hk, Function.update_self]
      exact (hs.machines g).unwire _
    · rw [Function.update_of_ne hk]
      exact hs.machines k
  · intro g' h'
    have hwire := hs.wires g' h'
    rw [hinput, unwire]
    by_cases hg : g' = g
    · rw [hg] at hwire ⊢
      rw [Function.update_self]
      show (_ ++ (Function.update (s g).output.wire h _ h').map decode).Sublist _
      by_cases hh : h' = h
      · rw [hh] at hwire ⊢
        rw [Function.update_self]
        exact ((List.Sublist.refl _).append ((List.tail_sublist _).map decode)).trans hwire
      · rw [Function.update_of_ne hh]
        exact hwire
    · rw [Function.update_of_ne hg]
      exact hwire

private theorem arrive_output (s : Word → Machine T W A) (h : Word) (d : Datagram) (k : Word) :
    (arrive s h d k).output = (s k).output := by
  rw [arrive]
  by_cases hk : k = h
  · rw [hk, Function.update_self]
  · rw [Function.update_of_ne hk]

private theorem arrive_arrived (s : Word → Machine T W A) (h : Word) (d : Datagram) (k : Word) :
    (arrive s h d k).input.arrived
      = (s k).input.arrived ++ if k = h then [decode d] else [] := by
  rw [arrive]
  by_cases hk : k = h
  · rw [hk, Function.update_self, if_pos rfl, PostOfficeInput.arrived, PostOfficeInput.arrived]
    simp
  · rw [Function.update_of_ne hk, if_neg hk, List.append_nil]

private theorem cameFrom_concat (g : Word) (l : List Message) (x : Message) :
    cameFrom g (l ++ [x]) = cameFrom g l ++ if x.pktHdr.from = g then [x] else [] := by
  rw [cameFrom, List.filter_append]
  by_cases hx : x.pktHdr.from = g <;> simp [cameFrom, hx]

theorem Inv.arrive (hs : Inv numBoxes worker s f) {rest : List Datagram}
    (hwire : (s g).output.wire h = d :: rest) :
    Inv numBoxes worker (arrive (unwire s g h) h d) f := by
  have hd : PostOfficeOutput.SentTo g numBoxes h (decode d) :=
    hs.sent_of_wire (by rw [hwire]; exact List.mem_cons_self)
  have hdrop : Inv numBoxes worker (unwire s g h) f := hs.drop
  constructor
  · intro k
    rw [PostOffice.arrive]
    by_cases hk : k = h
    · rw [hk, Function.update_self]
      exact (hdrop.machines h).arrive hd.toFits
    · rw [Function.update_of_ne hk]
      exact hdrop.machines k
  · intro g' h'
    rw [arrive_output, arrive_arrived]
    by_cases hh : h' = h
    case neg =>
      rw [if_neg hh, List.append_nil]
      exact hdrop.wires g' h'
    rw [if_pos hh, cameFrom_concat, hd.from]
    by_cases hg : g' = g
    · -- the first on the wire is now the last that has come
      have hold := hs.wires g h
      have hinput : (unwire s g h h).input = (s h).input := by
        rw [unwire]
        by_cases hk : h = g
        · rw [hk, Function.update_self]
        · rw [Function.update_of_ne hk]
      have htail : (unwire s g h g).output.wire h = rest := by
        rw [unwire, Function.update_self]
        show Function.update (s g).output.wire h _ h = rest
        rw [Function.update_self, hwire, List.tail_cons]
      have hsent : (unwire s g h g).output.sent = (s g).output.sent := by
        rw [unwire, Function.update_self]
        rfl
      rw [hwire, List.map_cons] at hold
      rw [hh, hg, hinput, htail, hsent, if_pos rfl, List.append_assoc]
      exact hold
    · rw [if_neg (Ne.symm hg), List.append_nil]
      exact hdrop.wires g' h'

theorem Inv.outside (hs : Inv numBoxes worker s f) {s' : Word → Machine T W A}
    (hout : Outside s s') : Inv numBoxes worker s' f := by
  cases hout with
  | @poll h fresh input hback =>
    obtain ⟨input', hback', hinv, harrived⟩ := (hs.machines h).poll fresh
    cases hback.symm.trans hback'
    exact hs.step hinv (fun _ _ _ ↦ rfl) harrived (PostOfficeOutput.extends_of_eq rfl rfl)
  | @sent h output hscheduled hback =>
    obtain ⟨output', hback', hinv, hwire, hsent⟩ := (hs.machines h).sent hscheduled
    cases hback.symm.trans hback'
    exact hs.step hinv (fun _ _ _ ↦ rfl) rfl (PostOfficeOutput.extends_of_eq hwire hsent)
  | arrive hwire => exact hs.arrive hwire
  | drop => exact hs.drop

variable [DecidableEq T] [DecidableEq W] [DecidableEq A]

/-- A turn of the thread `t.2` on the machine `t.1`. -/
theorem Inv.turn (hs : Inv numBoxes worker s f) {t : PostThread T} {choice : PostChoice W A}
    {s' : Word → Machine T W A} {place : PostPlace W A}
    (hturn : turn numBoxes worker t choice s (f t) = .moved s' place) :
    Inv numBoxes worker s' (Function.update f t place) := by
  obtain ⟨h, t⟩ := t
  rw [PostOffice.turn] at hturn
  by_cases hlegal : Legal numBoxes h choice
  case neg =>
    rw [if_neg hlegal] at hturn
    cases hturn
  rw [if_pos hlegal] at hturn
  obtain ⟨m, place', hm, hmoved⟩ := Turn.bind_moved hturn
  cases hmoved
  obtain ⟨hinv, harrived, hext⟩ := (hs.machines h).turn hlegal hm
  -- the threads of the other machines are where they were
  refine hs.step ?_ (fun k u hk ↦ ?_) harrived hext
  · have hview : (fun u ↦ Function.update f (h, t) place (h, u))
        = Function.update (fun u ↦ f (h, u)) t place := by
      funext u
      by_cases hu : u = t
      · rw [hu, Function.update_self, Function.update_self]
      · rw [Function.update_of_ne hu,
          Function.update_of_ne fun heq ↦ hu (congrArg Prod.snd heq)]
    rw [hview]
    exact hinv
  · exact Function.update_of_ne (fun heq ↦ hk (congrArg Prod.fst heq)) _ _

omit [DecidableEq W] [DecidableEq A] in
theorem inv_start (numBoxes : Word → ℤ) (worker : T) :
    Inv numBoxes worker (start worker : PostConfig T W A).shared (start worker).place := by
  constructor
  · exact fun h ↦ Machine.inv_start numBoxes h worker
  · exact fun g h ↦ List.Sublist.slnil

end inv

/-! ## The calls -/

/-- The machines, with the calls of their threads. -/
abbrev ClientConfig (T W A : Type) := Config (PostThread T) (Word → Machine T W A)
  (Noted (PostPlace W A) (PostChoice W A) (Option Receipt))

/-- Where a run can lead. -/
def Runs [DecidableEq T] [DecidableEq W] [DecidableEq A] (numBoxes : Word → ℤ) (worker : T)
    (c : ClientConfig T W A) : Prop :=
  Reaches (noting PostPlace.isIdle PostPlace.receipt (turn numBoxes worker)) Outside
    (start worker).noted c

section calls

variable {numBoxes : Word → ℤ} {worker : T} {s s' : Word → Machine T W A}
  {f : PostThread T → PostPlace W A}

/-- The interrupts and the network make no calls. -/
theorem Inv.same_of_outside (hs : Inv numBoxes worker s f) (hout : Outside s s') (k : Word) :
    (s' k).output.mailed = (s k).output.mailed ∧ (s' k).boxes.returned = (s k).boxes.returned := by
  have hstep : ∀ {h : Word} {m : Machine T W A}, m.output.mailed = (s h).output.mailed →
      m.boxes.returned = (s h).boxes.returned →
      (Function.update s h m k).output.mailed = (s k).output.mailed ∧
        (Function.update s h m k).boxes.returned = (s k).boxes.returned := by
    intro h m hmailed hreturned
    by_cases hk : k = h
    · rw [hk, Function.update_self]
      exact ⟨hmailed, hreturned⟩
    · rw [Function.update_of_ne hk]
      exact ⟨rfl, rfl⟩
  cases hout with
  | poll hback => exact hstep rfl rfl
  | @sent h output hscheduled hback =>
    obtain ⟨output', hback', -, -, hmailed⟩ := (hs.machines h).sent hscheduled
    cases hback.symm.trans hback'
    exact hstep hmailed rfl
  | @arrive g h d rest hwire =>
    have hunwire := hstep (h := g) (m := unwire s g h g) (by rw [unwire, Function.update_self])
      (by rw [unwire, Function.update_self])
    rw [unwire, Function.update_self] at hunwire
    rw [arrive_output]
    refine ⟨hunwire.1, ?_⟩
    rw [PostOffice.arrive]
    by_cases hk : k = h
    · rw [hk, Function.update_self]
      exact hk ▸ hunwire.2
    · rw [Function.update_of_ne hk]
      exact hunwire.2
  | drop => exact hstep rfl rfl

variable [DecidableEq T] [DecidableEq W] [DecidableEq A]

/-- What a turn of the thread `t` of the machine `h` means for its call. -/
theorem Inv.turns_of_turn (hs : Inv numBoxes worker s f) {h : Word} {t : T}
    {choice : PostChoice W A} {place : PostPlace W A}
    (hturn : PostOffice.turn numBoxes worker (h, t) choice s (f (h, t)) = .moved s' place) :
    ∃ m, s' = Function.update s h m ∧ ∃ entries gets,
      m.output.mailed = (s h).output.mailed ++ entries.map (fun x ↦ (t, x)) ∧
      m.boxes.returned = (s h).boxes.returned ++ gets.map (fun r ↦ (t, r)) ∧
      (t = worker → entries = [] ∧ gets = []) ∧
      (t ≠ worker → (callSpec h).Turns choice (f (h, t)) entries gets place) := by
  rw [PostOffice.turn] at hturn
  split at hturn
  case isFalse => cases hturn
  obtain ⟨m, place', hm, hmoved⟩ := Turn.bind_moved hturn
  cases hmoved
  refine ⟨m, rfl, ?_⟩
  by_cases ht : t = worker
  · obtain ⟨hmailed, hreturned⟩ := Machine.same_of_delivering
      (((hs.machines h).worker_iff t).mpr ht) hm
    exact ⟨[], [], by rw [hmailed, List.map_nil, List.append_nil],
      by rw [hreturned, List.map_nil, List.append_nil], fun _ ↦ ⟨rfl, rfl⟩, fun hne ↦ absurd ht hne⟩
  · have hplace : (f (h, t)).delivering = false :=
      Bool.eq_false_iff.mpr fun hdelivering ↦ ht ((hs.machines h).eq_worker hdelivering)
    obtain ⟨entries, gets, hturns, hmailed, hreturned⟩ := Machine.turns_of_turn ht hplace hm
    exact ⟨entries, gets, hmailed, hreturned, fun heq ↦ absurd heq ht, fun _ ↦ hturns⟩

omit [DecidableEq W] [DecidableEq A] in
/-- A machine enters into its own logs, for the thread whose turn it is. -/
private theorem entriesOf_update {β : Type} (log : Machine T W A → List (T × β)) {h : Word} {t : T}
    {m : Machine T W A} {entries : List β}
    (hlog : log m = log (s h) ++ entries.map fun b ↦ (t, b)) (u : PostThread T) :
    entriesOf (log (Function.update s h m u.1)) u.2
      = entriesOf (log (s u.1)) u.2 ++ if u = (h, t) then entries else [] := by
  obtain ⟨k, u⟩ := u
  by_cases hk : k = h
  · rw [hk, Function.update_self, hlog]
    by_cases hu : u = t
    · rw [hu, entriesOf_append_self, if_pos rfl]
    · rw [entriesOf_append_of_ne hu, if_neg fun heq ↦ hu (congrArg Prod.snd heq), List.append_nil]
  · rw [Function.update_of_ne hk, if_neg fun heq ↦ hk (congrArg Prod.fst heq), List.append_nil]

/-- The records of the clients are right; the workers make no calls. -/
theorem kept_of_runs {c : ClientConfig T W A} (hc : Runs numBoxes worker c) :
    (Inv numBoxes worker c.shared c.plain.place ∧
      ∀ h, entriesOf (c.shared h).output.mailed worker = [] ∧
        entriesOf (c.shared h).boxes.returned worker = []) ∧
    ∀ t : PostThread T, t.2 ≠ worker → (callSpec t.1).Kept
      (entriesOf (c.shared t.1).output.mailed t.2) (entriesOf (c.shared t.1).boxes.returned t.2)
      (c.calls t) (c.plain.place t) := by
  refine CallSpec.kept_of_views (fun t ↦ callSpec t.1) (fun _ ↦ ⟨rfl, rfl⟩)
    (fun s f ↦ Inv numBoxes worker s f ∧ ∀ h, entriesOf (s h).output.mailed worker = [] ∧
      entriesOf (s h).boxes.returned worker = []) (fun t ↦ t.2 ≠ worker)
    (fun s t ↦ entriesOf (s t.1).output.mailed t.2) (fun s t ↦ entriesOf (s t.1).boxes.returned t.2)
    ?_ ?_ ?_ hc
  · refine ⟨⟨inv_start numBoxes worker, fun _ ↦ ⟨rfl, rfl⟩⟩, fun t ht ↦ ⟨rfl, rfl, ?_⟩⟩
    show (if t.2 = worker then PostPlace.awaiting else .idle).isIdle = true
    rw [if_neg ht]
    rfl
  · rintro s f ⟨h, t⟩ choice s' place ⟨hs, hworker⟩ hturn
    have hinv := hs.turn hturn
    obtain ⟨m, rfl, entries, gets, hmailed, hreturned, hnone, hturns⟩ := hs.turns_of_turn hturn
    have hin := entriesOf_update (s := s) (fun m ↦ m.output.mailed) hmailed
    have hout := entriesOf_update (s := s) (fun m ↦ m.boxes.returned) hreturned
    refine ⟨⟨hinv, fun k ↦ ?_⟩, fun ht ↦ ⟨entries, gets, hturns ht, ?_, ?_⟩, fun u hu ↦ ?_⟩
    · rw [hin (k, worker), hout (k, worker), (hworker k).1, (hworker k).2]
      split
      case isTrue heq =>
        obtain ⟨rfl, rfl⟩ := hnone (congrArg Prod.snd heq).symm
        exact ⟨rfl, rfl⟩
      case isFalse => exact ⟨rfl, rfl⟩
    · rw [hin, if_pos rfl]
    · rw [hout, if_pos rfl]
    · rw [hin, hout, if_neg hu, if_neg hu, List.append_nil, List.append_nil]
      exact ⟨rfl, rfl⟩
  · rintro s f s' ⟨hs, hworker⟩ hout
    have hsame := hs.same_of_outside hout
    refine ⟨⟨hs.outside hout, fun h ↦ ?_⟩, ?_, ?_⟩
    · rw [(hsame h).1, (hsame h).2]
      exact hworker h
    · funext t
      rw [(hsame t.1).1]
    · funext t
      rw [(hsame t.1).2]

end calls

/-! ## What the post office does -/

/-- What is for the box `b`. -/
def mailFor (b : ℕ) (l : List Message) : List Message :=
  l.filter fun x ↦ x.mailHdr.to.toNat = b

/-- What can be relied on about the machine `h` in the configuration `c`, after the `calls`. -/
structure Delivers [DecidableEq T] (worker : T) (c : PostConfig T W A)
    (calls : PostThread T → Calls (PostChoice W A) (Option Receipt)) (h : Word) : Prop where
  /-- What was read from the socket has been put into the boxes, is with the worker or is in the
  device, in this order. -/
  accounted : (c.shared h).input.read.map decode = (c.shared h).boxes.delivered ++
    ((c.shared h).boxes.carried (c.place (h, worker)).box ++ (c.shared h).input.buffered)
  /-- What the worker carries it puts into the box that the header names. -/
  addressed : ∀ box a x, (c.place (h, worker)).box.letter = some (box, a) →
    (c.shared h).boxes.content a = some x → x.mailHdr.to.toNat = box
  /-- A box holds what was put into it, in this order, but for what has been taken out. -/
  holds : ∀ b, ∃ taken, taken.length = ((c.shared h).boxes.boxes b).removed.length ∧
    (mailFor b (c.shared h).boxes.delivered).map some
      = taken ++ ((c.shared h).boxes.boxes b).list.map (c.shared h).boxes.content
  /-- A poll leaves a packet in the device alone. -/
  kept : (c.shared h).input.network.inHdr.length ≠ 0 → ∀ fresh,
    (c.shared h).input.callBack h fresh = .ok (c.shared h).input
  /-- The semaphore counts the packets in the device that the worker is not about to take. -/
  counted : (c.shared h).input.messageAvailable.value + (c.place (h, worker)).isReceiving.toNat
    = (c.shared h).input.buffered.length
  /-- While there is a packet in the device, the worker does not sleep on the queue. -/
  awake : (c.shared h).input.network.inHdr.length ≠ 0 →
    (c.shared h).input.messageAvailable.queue = []
  /-- The worker never takes an empty packet. -/
  taken : c.place (h, worker) = .receiving → (c.shared h).input.network.inHdr.length ≠ 0
  /-- A call of `Receive` gets the message whose number, among those for its box that were read, is
  the number of messages that were taken out of the box before. -/
  received : ∀ t r, (t, r) ∈ (c.shared h).boxes.returned →
    (mailFor r.box ((c.shared h).input.read.map decode))[r.number]? = some r.message
  /-- No two calls get the same message, -/
  once : ((c.shared h).boxes.returned.map fun e ↦ (e.2.box, e.2.number)).Nodup
  /-- and what was taken out of a box was got by a call or is in the hands of a thread. -/
  held : ∀ b n, n < ((c.shared h).boxes.boxes b).removed.length →
    (b, n) ∈ (c.shared h).boxes.returned.map (fun e ↦ (e.2.box, e.2.number)) ∨
      ∃ t a x, (c.place (h, t)).box.hand = some a ∧ (c.shared h).boxes.content a = some x ∧
        (c.place (h, t)).box.ticket = some (b, n) ∧
        (mailFor b ((c.shared h).input.read.map decode))[n]? = some x
  /-- What was read from each machine was sent by it, in the order in which it was sent. -/
  sent : ∀ g, (cameFrom g ((c.shared h).input.read.map decode)).Sublist
    ((c.shared g).output.sent h)
  /-- So what a call returns was sent to this machine by the one that its header names. -/
  message : ∀ t r, (t, r) ∈ (c.shared h).boxes.returned →
    r.message ∈ (c.shared r.message.pktHdr.from).output.sent h ∧ r.message.pktHdr.to = h ∧
      r.message.data.length = r.message.mailHdr.length.toNat
  /-- A thread that is in no call is idle, and one in a call of `Receive` is in the `Get` of the
  box. -/
  current : ∀ t, t ≠ worker → (calls (h, t)).current = none ∧ c.place (h, t) = .idle ∨
    ∃ i, (calls (h, t)).current = some i ∧ (callSpec h).inCall i (c.place (h, t))
  /-- What a thread has sent, and what it has still to send, is what its calls of `Send` were
  given. -/
  sends : ∀ t, t ≠ worker →
    entriesOf (c.shared h).output.mailed t ++ (c.place (h, t)).unsent.toList
      = (calls (h, t)).made.filterMap (callSpec h).given
  /-- What a thread has got is what its calls of `Receive` came back with, and what its call is
  about to come back with. -/
  receives : ∀ t, t ≠ worker → entriesOf (c.shared h).boxes.returned t
    = (calls (h, t)).back.filterMap Prod.snd ++ (c.place (h, t)).receipt.toList
  /-- Each call of `Receive` that came back has brought a message of its box. -/
  answers : ∀ t, t ≠ worker → ∀ e ∈ (calls (h, t)).back, (callSpec h).answers e.1 e.2
  /-- The worker sends nothing and receives nothing. -/
  works : entriesOf (c.shared h).output.mailed worker = [] ∧
    entriesOf (c.shared h).boxes.returned worker = []

section delivers

variable {numBoxes : Word → ℤ} {worker : T} {s : Word → Machine T W A}
  {f : PostThread T → PostPlace W A} {h : Word}

/-- What was put into a box comes first among what was read for it. -/
theorem Inv.getElem?_mailFor (hs : Inv numBoxes worker s f) {b n : ℕ} {x : Message}
    (hx : ((s h).boxes.put b)[n]? = some x) :
    (mailFor b ((s h).input.read.map decode))[n]? = some x := by
  rw [mailFor, (hs.machines h).accounted, List.filter_append]
  exact MailBoxes.getElem?_of_append hx

theorem Inv.sent_of_read (hs : Inv numBoxes worker s f) (g : Word) :
    (cameFrom g ((s h).input.read.map decode)).Sublist ((s g).output.sent h) := by
  have hwire := hs.wires g h
  rw [PostOfficeInput.arrived, List.map_append, cameFrom, List.filter_append,
    List.append_assoc] at hwire
  exact (List.sublist_append_left _ _).trans hwire

private theorem counted_of_desk {input : PostOfficeInput T} {place : PostPlace W A}
    (hdesk : input.Desk worker place) :
    input.messageAvailable.value + place.isReceiving.toNat = input.buffered.length := by
  cases hdesk with
  | empty hlength hvalue hplace hqueue =>
    rw [hvalue, hplace, PostOfficeInput.buffered, if_pos hlength]
    rfl
  | announced hlength hvalue hplace hqueue =>
    rw [hvalue, hplace, PostOfficeInput.buffered, if_neg hlength]
    rfl
  | taking hlength hvalue hplace hqueue =>
    rw [hvalue, hplace, PostOfficeInput.buffered, if_neg hlength]
    rfl

theorem Runs.delivers [DecidableEq T] [DecidableEq W] [DecidableEq A] {c : ClientConfig T W A}
    (hc : Runs numBoxes worker c) (h : Word) : Delivers worker c.plain c.calls h := by
  obtain ⟨⟨hs, hworks⟩, hkept⟩ := kept_of_runs hc
  have hm := hs.machines h
  constructor
  · exact hm.accounted
  · exact fun box a x hletter hx ↦ hm.boxes.addressed worker box a hletter x hx
  · exact hm.boxes.holds
  · exact fun hfull fresh ↦ if_pos hfull
  · exact counted_of_desk hm.desk
  · intro hfull
    cases hm.desk with
    | empty hlength hvalue hplace hqueue => exact absurd hlength hfull
    | announced hlength hvalue hplace hqueue => exact hqueue
    | taking hlength hvalue hplace hqueue => exact hqueue
  · exact hm.desk.full
  · exact fun t r hr ↦ hs.getElem?_mailFor (hm.boxes.returned (t, r) hr)
  · exact hm.boxes.tickets.used_nodup
  · intro b n hn
    refine (hm.boxes.tickets.kept (b, n) hn).imp_right fun ⟨t, ht⟩ ↦ ?_
    obtain ⟨a, ha⟩ := MailBoxes.exists_hand_of_ticket ht
    obtain ⟨mail, hmail⟩ := hm.boxes.exists_mail ha
    have hcontent : (c.shared h).boxes.content a = some mail.message := by
      rw [MailBoxes.content, hmail, Option.map_some]
    refine ⟨t, a, mail.message, ha, hcontent, ht, hs.getElem?_mailFor ?_⟩
    rw [← hcontent]
    exact hm.boxes.numbered t (b, n) a ht ha
  · exact fun g ↦ hs.sent_of_read g
  · intro t r hr
    -- what was returned was read, and what was read was sent
    have hread := List.mem_of_getElem? (hs.getElem?_mailFor (hm.boxes.returned (t, r) hr))
    have hmem : r.message ∈ cameFrom r.message.pktHdr.from
        ((c.shared h).input.read.map decode) :=
      List.mem_filter.mpr ⟨(List.mem_filter.mp hread).1, decide_eq_true rfl⟩
    have hsent := (hs.sent_of_read r.message.pktHdr.from).mem hmem
    have hto := (hs.machines r.message.pktHdr.from).output.sent h _ hsent
    exact ⟨hsent, hto.host, hto.bytes⟩
  · intro t ht
    have hcall := hkept (h, t) ht
    cases hplace : (c.plain.place (h, t)).isIdle with
    | true =>
      refine .inl ⟨hcall.idle hplace, ?_⟩
      cases hidle : c.plain.place (h, t) with
      | idle => rfl
      | _ =>
        rw [hidle] at hplace
        cases hplace
    | false => exact .inr (hcall.inCall hplace)
  · exact fun t ht ↦ (hkept (h, t) ht).entered
  · exact fun t ht ↦ (hkept (h, t) ht).handed
  · exact fun t ht ↦ (hkept (h, t) ht).answered
  · exact hworks h

end delivers

/-- **The post office delivers**, in every interleaving: each machine in its boxes and to its
callers what `Delivers` says, and no assertion fails in a thread or in an interrupt handler. -/
theorem postOffice_delivers [DecidableEq T] [DecidableEq W] [DecidableEq A]
    {numBoxes : Word → ℤ} {worker : T} {c : ClientConfig T W A} (hc : Runs numBoxes worker c) :
    (∀ h, Delivers worker c.plain c.calls h) ∧
    (∀ t choice e, turn numBoxes worker t choice c.shared (c.plain.place t) ≠ .crashed e) ∧
    (∀ h fresh, ∃ input, (c.shared h).input.callBack h fresh = .ok input) ∧
    ∀ h, 0 < (c.shared h).output.scheduled →
      ∃ output, (c.shared h).output.callBack = .ok output := by
  have hs := (kept_of_runs hc).1.1
  refine ⟨hc.delivers, ?_, fun h fresh ↦ ?_, fun h hscheduled ↦ ?_⟩
  · rintro ⟨h, t⟩ choice e hcrash
    rw [turn] at hcrash
    split at hcrash
    case isTrue hlegal =>
      rcases Turn.bind_crashed hcrash with hcrash | ⟨m, place, -, hcrash⟩
      · exact (hs.machines h).not_crashed hlegal hcrash
      · cases hcrash
    case isFalse => cases hcrash
  · obtain ⟨input, hback, -⟩ := (hs.machines h).poll fresh
    exact ⟨input, hback⟩
  · obtain ⟨output, hback, -⟩ := (hs.machines h).sent hscheduled
    exact ⟨output, hback⟩

section witness

/-- Every machine has one box. -/
def oneBox : Word → ℤ := fun _ ↦ 1

/-- The turns of three threads on each machine; the postal worker is 0. -/
def noted : PostThread ℕ → PostChoice ℕ ℕ → (Word → Machine ℕ ℕ ℕ) →
    Noted (PostPlace ℕ ℕ) (PostChoice ℕ ℕ) (Option Receipt) → Turn MonitorCrash
      (Word → Machine ℕ ℕ ℕ) (Noted (PostPlace ℕ ℕ) (PostChoice ℕ ℕ) (Option Receipt)) :=
  noting PostPlace.isIdle PostPlace.receipt (turn oneBox 0)

/-- `n` turns of the thread `t` of machine 1 in the code of a box. -/
def boxTurns (t : ℕ) (n : ℕ) : List (PostThread ℕ × PostChoice ℕ ℕ) :=
  List.replicate n ((1, t), .box .removeFront fun _ ↦ 0)

/-- The thread `t` of machine 1 calls `Receive`, finds the box empty and waits. -/
def waitTurns (t : ℕ) (w : ℕ) : List (PostThread ℕ × PostChoice ℕ ℕ) :=
  ((1, t), .receive 0) :: boxTurns t 5 ++ ((1, t), .box (.address w) fun _ ↦ 0) :: boxTurns t 6

/-- Two threads of machine 1 wait, and a thread of machine 0 has sent three bytes to them. -/
def posted : ClientConfig ℕ ℕ ℕ :=
  ((start 0).noted.follow noted (waitTurns 1 0 ++ waitTurns 2 1 ++
    ((0, 1), .send ⟨1, 9, 9⟩ ⟨0, 5, 3⟩ (BitVec.ofNat 8) fun _ ↦ 0) ::
      List.replicate 4 ((0, 1), .packet false fun _ ↦ 0))).get (by decide +kernel)

private theorem posted_wire : (posted.shared 0).output.wire 1 ≠ [] := by decide +kernel

/-- They have arrived. -/
def brought : ClientConfig ℕ ℕ ℕ :=
  ⟨arrive (unwire posted.shared 0 1) 1 (((posted.shared 0).output.wire 1).head posted_wire),
    posted.place⟩

/-- The device has read them. -/
def polled : ClientConfig ℕ ℕ ℕ :=
  ⟨Function.update brought.shared 1 { brought.shared 1 with
    input := ((brought.shared 1).input.callBack 1 fun _ ↦ 0).toOption.get (by decide +kernel) },
    brought.place⟩

/-- The worker has put them into the box and the first of the two threads has received them. -/
def received : ClientConfig ℕ ℕ ℕ :=
  (polled.follow noted (((1, 0), .packet false fun _ ↦ 0) :: ((1, 0), .mail 7 fun _ ↦ 0) ::
    boxTurns 0 8 ++ boxTurns 1 12)).get (by decide +kernel)

private theorem eq_ok_of_isSome {ε α : Type} {x : Except ε α} (h : x.toOption.isSome = true) :
    x = .ok (x.toOption.get h) := by
  cases x with
  | error e => cases h
  | ok a => rfl

theorem received_delivers :
    (received.calls (1, 1)).back.map Prod.snd = [some ⟨0, 0, ⟨⟨1, 0, 15⟩, ⟨0, 5, 3⟩, [0, 1, 2]⟩⟩] ∧
    (received.calls (1, 2)).back.map Prod.snd = [] ∧
    Delivers 0 received.plain received.calls 1 ∧
    ⟨⟨1, 0, 15⟩, ⟨0, 5, 3⟩, [0, 1, 2]⟩ ∈ (received.shared 0).output.sent 1 := by
  have hposted : Runs oneBox 0 posted := Reaches.refl.follow (Option.some_get _).symm
  have hbrought : Runs oneBox 0 brought :=
    hposted.outside (.arrive (List.cons_head_tail posted_wire).symm)
  have hpolled : Runs oneBox 0 polled := hbrought.outside (.poll (eq_ok_of_isSome _))
  have hreceived : Runs oneBox 0 received := hpolled.follow (Option.some_get _).symm
  have hmem : (1, ⟨0, 0, ⟨⟨1, 0, 15⟩, ⟨0, 5, 3⟩, [0, 1, 2]⟩⟩) ∈
      (received.shared 1).boxes.returned := by decide +kernel
  have hdelivers := (postOffice_delivers hreceived).1 1
  exact ⟨by decide +kernel, by decide +kernel, hdelivers, (hdelivers.message 1 _ hmem).1⟩

end witness

end PostOffice

end Network

end Nachos
