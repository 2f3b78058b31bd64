import Nachos.Network.MailBox

/-!
# Mail in order

Every turn in the code of the mail boxes keeps `MailBoxes.Inv`. A turn that puts a mail on a list
adds to the messages of the box, one that takes a mail off gives the thread the number that is due,
and one that deletes a mail deletes what nobody else has.

Nothing is lost on the way into a box: what was delivered, followed by what the thread that moves
has to deliver, stays the same.
-/

namespace Nachos

namespace Network

open Program Threads

variable {T W A : Type}

namespace MailBoxes

section preservation

variable [DecidableEq T] [DecidableEq W] [DecidableEq A] {s s' : MailBoxes T W A}
  {f : T → BoxPlace W A} {t : T} {place : BoxPlace W A} {box : ℕ} {b : SynchList T W A} {a : A}
  {m : Message} {mail : Mail}

omit [DecidableEq T] [DecidableEq W] [DecidableEq A] in
theorem setBox_boxes : (s.setBox box b).boxes = Function.update s.boxes box b := rfl

omit [DecidableEq A] in
/-- The list of `box` keeps its invariant, and the others do not notice. -/
theorem Inside.lists (hin : s.Inside t (f t) box b place)
    (h : ∀ b', (s.boxes b').Inv fun u ↦ (f u).inBox b') (b' : ℕ) :
    ((s.setBox box b).boxes b').Inv fun u ↦ (Function.update f t place u).inBox b' := by
  rw [view_update (BoxPlace.inBox b'), setBox_boxes]
  by_cases hb : b' = box
  · rw [hb, Function.update_self]
    exact (h box).moves hin.moves
  · rw [Function.update_of_ne hb, hin.after b' hb, ← hin.before b' hb, Function.update_eq_self]
    exact h b'

omit [DecidableEq W] [DecidableEq A] in
theorem Inv.coherent_update (h : s.Inv f) (hplace : place.Coherent) (u : T) :
    (Function.update f t place u).Coherent :=
  (Function.forall_update_iff f fun _ p ↦ p.Coherent).mpr ⟨hplace, fun u _ ↦ h.coherent u⟩ u

omit [DecidableEq T] [DecidableEq W] [DecidableEq A] in
theorem lists_setBox : (fun b' ↦ ((s.setBox box b).boxes b').list)
    = Function.update (fun b' ↦ (s.boxes b').list) box b.list :=
  view_update (fun l : SynchList T W A ↦ l.list) s.boxes box b

omit [DecidableEq T] [DecidableEq W] [DecidableEq A] in
theorem removed_setBox (hremoved : b.removed = (s.boxes box).removed) (b' : ℕ) :
    ((s.setBox box b).boxes b').removed = (s.boxes b').removed :=
  view_update_same (fun l : SynchList T W A ↦ l.removed) hremoved b'

omit [DecidableEq T] [DecidableEq W] [DecidableEq A] in
/-- What a thread has in its hands is a mail. -/
theorem Inv.exists_mail (h : s.Inv f) (ht : (f t).hand = some a) : ∃ mail, s.heap a = some mail :=
  Option.ne_none_iff_exists'.mp (h.custody.live_hand t a ht)

omit [DecidableEq W] [DecidableEq A] in
theorem hand_of_letter (ht : place.letter = some (box, a)) : place.hand = some a := by
  cases place with
  | putting box' list =>
    obtain ⟨a', ha', heq⟩ := Option.map_eq_some_iff.mp ht
    cases heq
    exact ha'
  | outside => cases ht
  | getting box' number list => cases ht
  | copying box' number a' => cases ht
  | returning r => cases ht

omit [DecidableEq A] in
theorem Inv.quiet (h : s.Inv f) (hin : s.Inside t (f t) box b place)
    (hlist : b.list = (s.boxes box).list) (hremoved : b.removed = (s.boxes box).removed)
    (hhand : place.hand = (f t).hand) (hletter : place.letter = (f t).letter)
    (hticket : place.ticket = (f t).ticket) :
    (s.setBox box b).Inv (Function.update f t place) := by
  have hhand' := view_update_same BoxPlace.hand hhand
  have hletter' := view_update_same BoxPlace.letter hletter
  have hticket' := view_update_same BoxPlace.ticket hticket
  have hlists := view_update_same (fun l : SynchList T W A ↦ l.list) hlist
  constructor
  · exact hin.lists h.lists
  · exact h.coherent_update hin.coherent
  · rw [lists_setBox, hlist, Function.update_eq_self]
    exact h.custody.congr hhand' fun _ ↦ Iff.rfl
  · exact h.short
  · intro u box' a' hu
    rw [hletter'] at hu
    exact h.addressed u box' a' hu
  · intro b'
    obtain ⟨taken, hlength, hput⟩ := h.holds b'
    refine ⟨taken, ?_, ?_⟩
    · rw [removed_setBox hremoved]
      exact hlength
    · rw [show ((s.setBox box b).boxes b').list = _ from hlists b']
      exact hput
  · refine h.tickets.congr hticket' fun k ↦ ?_
    rw [removed_setBox hremoved]
  · intro u k a' hk ha'
    rw [hticket'] at hk
    rw [hhand'] at ha'
    exact h.numbered u k a' hk ha'
  · exact h.returned

/-- What was found at a position in a box is found there when more is put in. -/
theorem getElem?_of_append {l rest : List Message} {i : ℕ} (h : l[i]? = some m) :
    (l ++ rest)[i]? = some m := by
  obtain ⟨hlt, -⟩ := List.getElem?_eq_some_iff.mp h
  rw [List.getElem?_append_left hlt]
  exact h

omit [DecidableEq A] in
/-- The thread puts its mail on the list. -/
theorem Inv.append (h : s.Inv f) (hin : s.Inside t (f t) box b place)
    (hletter : (f t).letter = some (box, a)) (hlist : b.list = (s.boxes box).list ++ [a])
    (hremoved : b.removed = (s.boxes box).removed) (hhand : place.hand = none)
    (hletter' : place.letter = none) (hticket : place.ticket = (f t).ticket) :
    { s.setBox box b with delivered := s.delivered ++ (s.content a).toList }.Inv
      (Function.update f t place) := by
  have ht := hand_of_letter hletter
  obtain ⟨mail, hmail⟩ := h.exists_mail ht
  have hcontent : s.content a = some mail.message := by rw [content, hmail, Option.map_some]
  have hbox := h.addressed t box a hletter _ hcontent
  have hput : ∀ b', (s.delivered ++ (s.content a).toList).filter
      (fun m ↦ m.mailHdr.to.toNat = b') = s.put b' ++ if b' = box then [mail.message] else [] := by
    intro b'
    rw [List.filter_append, hcontent, Option.toList_some]
    by_cases hb : b' = box
    · simp [put, hbox, hb]
    · simp [put, hbox, hb, Ne.symm hb]
  have hticket' := view_update_same BoxPlace.ticket hticket
  constructor
  · exact hin.lists h.lists
  · exact h.coherent_update hin.coherent
  · have hcustody := h.custody.store (b := box) ht
    rw [← hlist, ← lists_setBox] at hcustody
    refine hcustody.congr (fun u ↦ ?_) fun _ ↦ Iff.rfl
    rw [congrFun (view_update BoxPlace.hand f t place) u, hhand]
  · exact h.short
  · intro u box' a' hu
    exact h.addressed u box' a' (view_of_update_none BoxPlace.letter hletter' hu).2
  · intro b'
    obtain ⟨taken, hlength, hsame⟩ := h.holds b'
    refine ⟨taken, ?_, ?_⟩
    · exact hlength.trans (congrArg List.length (removed_setBox hremoved b').symm)
    · rw [put, hput, List.map_append, hsame]
      by_cases hb : b' = box
      · rw [if_pos hb, hb]
        simp [setBox, hlist, content, hmail]
      · rw [if_neg hb]
        simp [setBox, Function.update_of_ne hb, content]
  · exact h.tickets.congr hticket' fun k ↦ by
      rw [show (({ s.setBox box b with
        delivered := s.delivered ++ (s.content a).toList } : MailBoxes T W A).boxes k.1).removed = _
          from removed_setBox hremoved k.1]
  · intro u k a' hk ha'
    rw [hticket'] at hk
    have ha' := (view_of_update_none BoxPlace.hand hhand ha').2
    -- a position that was taken is not moved by what is put behind it
    obtain ⟨mail', hmail'⟩ := h.exists_mail ha'
    have hnumber := h.numbered u k a' hk ha'
    have hcontent' : s.content a' = some mail'.message := by
      rw [content, hmail', Option.map_some]
    rw [hcontent'] at hnumber
    rw [put, hput, getElem?_of_append hnumber]
    exact hcontent'.symm
  · intro r hr
    rw [put, hput]
    exact getElem?_of_append (h.returned r hr)

omit [DecidableEq A] in
/-- The thread takes the first mail, and the next number. -/
theorem Inv.remove (h : s.Inv f) (hin : s.Inside t (f t) box b place) {rest : List A}
    (hletter : place.letter = (f t).letter) (hnone : (f t).ticket = none)
    (hlist : (s.boxes box).list = a :: rest) (hrest : b.list = rest)
    (hremoved : b.removed = (s.boxes box).removed ++ [(t, a)]) (hhand : place.hand = some a)
    (hticket : place.ticket = some (box, (s.boxes box).removed.length)) :
    (s.setBox box b).Inv (Function.update f t place) := by
  have hletter' := view_update_same BoxPlace.letter hletter
  have hlength : ∀ b', ((s.setBox box b).boxes b').removed.length
      = (s.boxes b').removed.length + if b' = box then 1 else 0 := by
    intro b'
    rw [setBox_boxes]
    by_cases hb : b' = box
    · rw [hb, Function.update_self, hremoved, List.length_append, if_pos rfl]
      rfl
    · rw [Function.update_of_ne hb, if_neg hb]
      rfl
  -- the first mail has the number that is due
  have hfirst : (s.put box)[(s.boxes box).removed.length]? = s.content a := by
    obtain ⟨taken, htaken, hput⟩ := h.holds box
    have hat : ((s.put box).map some)[taken.length]? = some (s.content a) := by
      rw [hput, hlist, List.map_cons, List.getElem?_append_right (Nat.le_refl _), Nat.sub_self]
      rfl
    rw [List.getElem?_map, Option.map_eq_some_iff] at hat
    obtain ⟨m, hm, hcontent⟩ := hat
    rw [← htaken, hm, hcontent]
  constructor
  · exact hin.lists h.lists
  · exact h.coherent_update hin.coherent
  · have hcustody := h.custody.fetch (t := t) hlist
    rw [← hrest, ← lists_setBox] at hcustody
    refine hcustody.congr (fun u ↦ ?_) fun _ ↦ Iff.rfl
    rw [congrFun (view_update BoxPlace.hand f t place) u, hhand]
  · exact h.short
  · intro u box' a' hu
    rw [hletter'] at hu
    exact h.addressed u box' a' hu
  · intro b'
    obtain ⟨taken, htaken, hput⟩ := h.holds b'
    by_cases hb : b' = box
    · refine ⟨taken ++ [s.content a], ?_, ?_⟩
      · rw [hlength, if_pos hb, List.length_append, htaken]
        rfl
      · have hput' : (s.put b').map some = taken ++ (a :: rest).map s.content := by
          rw [hput, hb, hlist]
        rw [setBox_boxes, hb, Function.update_self, hrest, ← hb, List.append_assoc]
        exact hput'
    · refine ⟨taken, ?_, ?_⟩
      · rw [hlength, if_neg hb]
        exact htaken
      · rw [setBox_boxes, Function.update_of_ne hb]
        exact hput
  · have hissue := h.tickets.issue (t := t) (k := (box, (s.boxes box).removed.length))
      (Nat.lt_irrefl _) hnone fun k ↦ Iff.rfl
    refine hissue.congr (fun u ↦ ?_) fun k ↦ ?_
    · rw [congrFun (view_update BoxPlace.ticket f t place) u, hticket]
    · obtain ⟨b', n⟩ := k
      rw [hlength]
      by_cases hb : b' = box
      · rw [if_pos hb, hb, Nat.lt_succ_iff_lt_or_eq, Prod.mk.injEq]
        exact or_congr_right (and_iff_right rfl).symm
      · rw [if_neg hb, Prod.mk.injEq]
        exact ⟨.inl, fun hor ↦ hor.resolve_right fun heq ↦ hb heq.1⟩
  · intro u k a' hk ha'
    by_cases hut : u = t
    · rw [hut, Function.update_self] at hk ha'
      rw [hticket] at hk
      rw [hhand] at ha'
      cases hk
      cases ha'
      exact hfirst
    · rw [Function.update_of_ne hut] at hk ha'
      exact h.numbered u k a' hk ha'
  · exact h.returned

omit [DecidableEq W] in
/-- The mail is copied and deleted. -/
theorem Inv.copy (h : s.Inv f) {number : ℕ} (hplace : f t = .copying box number a)
    (hheap : s.heap a = some mail) :
    (s.deleteMail t a ⟨box, number, mail.message⟩).Inv
      (Function.update f t (.returning ⟨box, number, mail.message⟩)) := by
  have ht : (f t).hand = some a := by
    rw [hplace]
    rfl
  have hticket : (f t).ticket = some (box, number) := by
    rw [hplace]
    rfl
  have hcontent : ∀ a', a' ≠ a →
      (s.deleteMail t a ⟨box, number, mail.message⟩).content a' = s.content a' :=
    fun a' hne ↦ congrArg (Option.map Mail.message) (Function.update_of_ne hne _ _)
  have hheap' : ∀ a' mail', Function.update s.heap a none a' = some mail' →
      s.heap a' = some mail' := by
    intro a' mail' ha'
    exact (view_of_update_none id rfl ha').2
  constructor
  · intro b'
    have hsame : (f t).inBox b'
        = (.returning ⟨box, number, mail.message⟩ : BoxPlace W A).inBox b' := by
      rw [hplace]
      rfl
    rw [view_update (BoxPlace.inBox b'), ← hsame, Function.update_eq_self]
    exact h.lists b'
  · exact h.coherent_update trivial
  · refine (h.custody.destroy ht).congr (fun u ↦ ?_) fun a' ↦ ?_
    · exact congrFun (view_update BoxPlace.hand f t (.returning _)) u
    · by_cases ha' : a' = a
      · simp [deleteMail, ha']
      · simp [deleteMail, ha']
  · exact fun a' mail' ha' ↦ h.short a' mail' (hheap' a' mail' ha')
  · intro u box' a' hu m hm
    -- nobody else has the mail that is deleted
    obtain ⟨hne, hu⟩ := view_of_update_none BoxPlace.letter rfl hu
    have ha' : a' ≠ a := by
      rintro rfl
      exact hne (h.custody.one_hand u t a' (hand_of_letter hu) ht)
    rw [hcontent a' ha'] at hm
    exact h.addressed u box' a' hu m hm
  · intro b'
    obtain ⟨taken, hlength, hput⟩ := h.holds b'
    refine ⟨taken, hlength, hput.trans (congrArg (taken ++ ·) ?_)⟩
    refine List.map_congr_left fun a' hmem ↦ (hcontent a' ?_).symm
    rintro rfl
    exact h.custody.not_listed t a' ht b' hmem
  · have huse := h.tickets.use hticket
    rw [deleteMail, List.map_append]
    refine huse.congr (fun u ↦ ?_) fun _ ↦ Iff.rfl
    exact congrFun (view_update BoxPlace.ticket f t (.returning _)) u
  · intro u k a' hk ha'
    obtain ⟨hne, ha'⟩ := view_of_update_none BoxPlace.hand rfl ha'
    rw [Function.update_of_ne hne] at hk
    rw [hcontent a' fun heq ↦ hne (h.custody.one_hand u t a (heq ▸ ha') ht)]
    exact h.numbered u k a' hk ha'
  · intro r hr
    rcases List.mem_append.mp hr with hr | hr
    · exact h.returned r hr
    · rw [List.mem_singleton.mp hr]
      have hnumber := h.numbered t _ a hticket ht
      rwa [content, hheap] at hnumber

omit [DecidableEq W] [DecidableEq A] in
/-- `Get` returns. -/
theorem Inv.leave (h : s.Inv f) {r : Receipt} (hplace : f t = .returning r) :
    s.Inv (Function.update f t .outside) := by
  have hhand := view_update_same BoxPlace.hand (f := f) (t := t) (l := .outside)
    (by rw [hplace]; rfl)
  have hletter := view_update_same BoxPlace.letter (f := f) (t := t) (l := .outside)
    (by rw [hplace]; rfl)
  have hticket := view_update_same BoxPlace.ticket (f := f) (t := t) (l := .outside)
    (by rw [hplace]; rfl)
  constructor
  · intro b'
    rw [funext (view_update_same (BoxPlace.inBox b') (f := f) (t := t) (l := .outside)
      (by rw [hplace]; rfl))]
    exact h.lists b'
  · exact h.coherent_update trivial
  · exact h.custody.congr hhand fun _ ↦ Iff.rfl
  · exact h.short
  · intro u box' a' hu
    rw [hletter] at hu
    exact h.addressed u box' a' hu
  · exact h.holds
  · exact h.tickets.congr hticket fun _ ↦ Iff.rfl
  · intro u k a' hk ha'
    rw [hticket] at hk
    rw [hhand] at ha'
    exact h.numbered u k a' hk ha'
  · exact h.returned

theorem Inv.moves (h : s.Inv f) (hm : s.Moves t (f t) s' place) :
    s'.Inv (Function.update f t place) := by
  cases hm with
  | quiet hin hlist hremoved hhand hletter hticket =>
    exact h.quiet hin hlist hremoved hhand hletter hticket
  | append hin hletter hlist hremoved hhand hletter' hticket =>
    exact h.append hin hletter hlist hremoved hhand hletter' hticket
  | remove hin hletter hnone hlist hrest hremoved hhand hticket =>
    exact h.remove hin hletter hnone hlist hrest hremoved hhand hticket
  | copy hplace hheap => exact h.copy hplace hheap
  | leave hplace => exact h.leave hplace

omit [DecidableEq A] in
/-- A thread in no call enters the code of a list. -/
private theorem inside_of_call (hplace : f t = .outside) {stage : ListStage A}
    (hbox : ∀ b', place.inBox b' = if box = b' then ⟨⟨.outside, .idle⟩, stage⟩ else .outside)
    (hstage : stage = .removeAcquire ∨ ∃ item, stage = .appendAcquire item)
    (hcoherent : place.Coherent) : s.Inside t (f t) box (s.boxes box) place := by
  refine ⟨?_, fun b' _ ↦ ?_, fun b' hb' ↦ ?_, hcoherent⟩
  · rw [hbox, if_pos rfl, hplace]
    exact .call rfl hstage
  · rw [hplace]
    rfl
  · rw [hbox, if_neg (Ne.symm hb')]

omit [DecidableEq T] [DecidableEq W] [DecidableEq A] in
private theorem setBox_self : s.setBox box (s.boxes box) = s := by
  rw [setBox, Function.update_eq_self]

omit [DecidableEq A] in
theorem Inv.callGet (h : s.Inv f) (hplace : f t = .outside) :
    s.Inv (Function.update f t (callGet box)) := by
  have hin : s.Inside t (f t) box (s.boxes box) (MailBoxes.callGet box) :=
    inside_of_call hplace (fun _ ↦ rfl) (.inl rfl) rfl
  have hinv := h.quiet hin rfl rfl (by rw [hplace]; rfl) (by rw [hplace]; rfl)
    (by rw [hplace]; rfl)
  rwa [setBox_self] at hinv

/-- A new mail for the box that its header names. -/
theorem Inv.callPut (h : s.Inv f) (hplace : f t = .outside)
    (hbox : mail.message.mailHdr.to.toNat = box)
    (hshort : mail.mailHdr.length.toNat ≤ maxMailSize)
    (hmoved : s.callPut box mail a = .moved s' place) : s'.Inv (Function.update f t place) := by
  rw [MailBoxes.callPut] at hmoved
  by_cases hfree : s.heap a = none
  case neg =>
    rw [if_neg hfree] at hmoved
    cases hmoved
  rw [if_pos hfree] at hmoved
  cases hmoved
  have hin : s.Inside t (f t) box (s.boxes box)
      (.putting box ⟨⟨.outside, .idle⟩, .appendAcquire a⟩) :=
    inside_of_call hplace (fun _ ↦ rfl) (.inr ⟨a, rfl⟩) rfl
  have hcontent : ∀ a', a' ≠ a →
      { s with heap := Function.update s.heap a (some mail) }.content a' = s.content a' :=
    fun a' hne ↦ congrArg (Option.map Mail.message) (Function.update_of_ne hne _ _)
  -- what anybody has is on the heap, and `a` was free
  have hnew : ∀ u a', (f u).hand = some a' → a' ≠ a := by
    rintro u a' hu rfl
    exact h.custody.live_hand u a' hu hfree
  have hticket := view_update_same BoxPlace.ticket (f := f) (t := t)
    (l := .putting box ⟨⟨.outside, .idle⟩, .appendAcquire a⟩) (by rw [hplace]; rfl)
  constructor
  · intro b'
    have hlist := hin.lists h.lists b'
    rwa [setBox_self] at hlist
  · exact h.coherent_update rfl
  · have hcreate := h.custody.create (t := t) (a := a) (not_not_intro hfree)
    refine hcreate.congr (fun u ↦ ?_) fun a' ↦ ?_
    · rw [congrFun (view_update BoxPlace.hand f t _) u]
      rfl
    · by_cases ha' : a' = a
      · simp [ha']
      · simp [ha']
  · intro a' mail' ha'
    have ha' : Function.update s.heap a (some mail) a' = some mail' := ha'
    by_cases hne : a' = a
    · rw [hne, Function.update_self] at ha'
      cases ha'
      exact hshort
    · rw [Function.update_of_ne hne] at ha'
      exact h.short a' mail' ha'
  · intro u box' a' hu m hm
    by_cases hut : u = t
    · rw [hut, Function.update_self] at hu
      cases hu
      have hm : (Function.update s.heap a (some mail) a).map Mail.message = some m := hm
      rw [Function.update_self] at hm
      cases hm
      exact hbox
    · rw [Function.update_of_ne hut] at hu
      rw [hcontent a' (hnew u a' (hand_of_letter hu))] at hm
      exact h.addressed u box' a' hu m hm
  · intro b'
    obtain ⟨taken, hlength, hput⟩ := h.holds b'
    refine ⟨taken, hlength, hput.trans (congrArg (taken ++ ·) ?_)⟩
    refine List.map_congr_left fun a' hmem ↦ (hcontent a' ?_).symm
    rintro rfl
    exact h.custody.live_listed b' a' hmem hfree
  · exact h.tickets.congr hticket fun _ ↦ Iff.rfl
  · intro u k a' hk ha'
    rw [hticket] at hk
    by_cases hut : u = t
    · rw [hut, hplace] at hk
      cases hk
    · rw [Function.update_of_ne hut] at ha'
      rw [hcontent a' (hnew u a' ha')]
      exact h.numbered u k a' hk ha'
  · exact h.returned

/-! ## Nothing is lost -/

omit [DecidableEq T] [DecidableEq W] in
theorem callPut_moved (hmoved : s.callPut box mail a = .moved s' place) :
    s'.delivered = s.delivered ∧ s'.carried place = [mail.message] ∧ place.isPutting = true := by
  rw [callPut] at hmoved
  split at hmoved
  · cases hmoved
    refine ⟨rfl, ?_, rfl⟩
    show ((Function.update s.heap a (some mail) a).map Mail.message).toList = [mail.message]
    rw [Function.update_self]
    rfl
  · cases hmoved

/-- The letter of the thread that moves is put into its box or kept. -/
theorem Moves.delivered {place' : BoxPlace W A} (hm : s.Moves t place s' place') :
    s'.delivered ++ s'.carried place' = s.delivered ++ s.carried place := by
  cases hm with
  | quiet hin hlist hremoved hhand hletter hticket =>
    rw [carried, carried, hletter]
    rfl
  | append hin hletter hlist hremoved hhand hletter' hticket =>
    rw [carried, carried, hletter, hletter', Option.bind_none, Option.toList_none, List.append_nil]
    rfl
  | remove hin hletter hnone hlist hrest hremoved hhand hticket =>
    rw [carried, carried, hletter]
    rfl
  | copy hplace hheap =>
    rw [hplace]
    rfl
  | leave hplace =>
    rw [hplace]
    rfl

/-- The letters of the others are where they were. -/
theorem Inv.carried_other (h : s.Inv f) (hm : s.Moves t (f t) s' place) {u : T} (hu : u ≠ t) :
    s'.carried (f u) = s.carried (f u) := by
  cases hm with
  | quiet hin hlist hremoved hhand hletter hticket => rfl
  | append hin hletter hlist hremoved hhand hletter' hticket => rfl
  | remove hin hletter hnone hlist hrest hremoved hhand hticket => rfl
  | @copy box number a mail hplace hheap =>
    rw [carried, carried]
    cases hletter : (f u).letter with
    | none => rfl
    | some x =>
      have hne : x.2 ≠ a := by
        intro heq
        refine hu (h.custody.one_hand u t a ?_ (by rw [hplace]; rfl))
        exact heq ▸ hand_of_letter hletter
      rw [Option.bind_some, Option.bind_some, content, content]
      exact congrArg (fun x ↦ (Option.map Mail.message x).toList) (Function.update_of_ne hne _ _)
  | leave hplace => rfl

/-- The assertion in `List::Append`, and those about mail, hold. -/
theorem Inv.not_crashed (h : s.Inv f) {choice : ListChoice W A} {data : ℕ → Byte}
    {e : MonitorCrash} : s.turn t choice data (f t) ≠ .crashed e := by
  intro hcrash
  -- the only assertion of the list that can fail is that the mail is not on it already
  have hlist : ∀ box (list : ListPlace W A), (f t).inBox box = list →
      (f t).hand = list.stage.hand → (s.boxes box).turn t choice list ≠ .crashed e := by
    rintro box list rfl hhand hc
    obtain ⟨item, hstage, hmem⟩ := (h.lists box).mem_of_crashed hc
    rw [hstage] at hhand
    exact h.custody.not_listed t item hhand box hmem
  cases hplace : f t with
  | outside =>
    rw [hplace] at hcrash
    cases hcrash
  | putting box list =>
    rw [hplace] at hcrash
    rcases Turn.bind_crashed hcrash with hc | ⟨b, list', -, hc⟩
    · exact hlist box list (by rw [hplace]; exact if_pos rfl) (by rw [hplace]; rfl) hc
    · cases hc
  | getting box number list =>
    rw [hplace] at hcrash
    rcases Turn.bind_crashed hcrash with hc | ⟨b, list', -, hc⟩
    · exact hlist box list (by rw [hplace]; exact if_pos rfl) (by rw [hplace]; rfl) hc
    · cases hc
  | copying box number a =>
    obtain ⟨mail, hheap⟩ := h.exists_mail (t := t) (a := a) (by rw [hplace]; rfl)
    obtain ⟨out, hcopy, -⟩ := PostOfficeInput.copyOut_of_short (h.short a mail hheap) data
    rw [hplace, turn, hheap] at hcrash
    dsimp only at hcrash
    rw [hcopy] at hcrash
    cases hcrash
  | returning r =>
    rw [hplace] at hcrash
    cases hcrash

/-- A thread in `Put` stays there until it returns, and no other comes there. -/
theorem isPutting_of_turn {choice : ListChoice W A} {data : ℕ → Byte} {place' : BoxPlace W A}
    (hturn : s.turn t choice data place = .moved s' place') :
    place' = .outside ∨ place'.isPutting = place.isPutting := by
  cases place with
  | outside => cases hturn
  | putting box list =>
    obtain ⟨b, list', -, hmoved⟩ := Turn.bind_moved hturn
    cases hmoved
    rw [BoxPlace.afterPut]
    split
    · exact .inl rfl
    · exact .inr rfl
  | getting box number list =>
    obtain ⟨b, list', -, hmoved⟩ := Turn.bind_moved hturn
    cases hmoved
    right
    rw [BoxPlace.afterGet]
    split <;> rfl
  | copying box number a =>
    rw [turn] at hturn
    split at hturn
    · cases hturn
    · split at hturn
      · cases hturn
      · cases hturn
        exact .inr rfl
  | returning r =>
    cases hturn
    exact .inl rfl

omit [DecidableEq T] [DecidableEq W] [DecidableEq A] in
theorem exists_hand_of_ticket {k : ℕ × ℕ} (ht : place.ticket = some k) :
    ∃ a, place.hand = some a := by
  cases place with
  | getting box number list =>
    obtain ⟨a, ha, -⟩ := Option.map_eq_some_iff.mp ht
    exact ⟨a, ha⟩
  | copying box number a => exact ⟨a, rfl⟩
  | outside => cases ht
  | putting box list => cases ht
  | returning r => cases ht

omit [DecidableEq T] [DecidableEq W] [DecidableEq A] in
theorem carried_of_not_putting (hplace : place.isPutting = false) : s.carried place = [] := by
  cases place with
  | putting box list => cases hplace
  | outside => rfl
  | getting box number list => rfl
  | copying box number a => rfl
  | returning r => rfl

end preservation

end MailBoxes

end Network

end Nachos
