import Mathlib.Data.List.Nodup
import Nachos.Lib.LinkedList
import Nachos.Program.Run
import Nachos.Program.Segment
import Nachos.Program.Simulation

/-!
# A list and its elements in memory

`List<T>` once more, with every `ListElement` at an address of its own: `first`, `last` and the
`next` of each element are pointers, and null is `none`. The functions read and write the elements
through these pointers. Following a null pointer or one to an element that was deleted and a failed
assertion leave no result. Nothing but the shape of the chain ends a loop over it, so the loops have
a bound on their rounds; one that is above the number of elements is never reached.

Of the three fields `first`, `last` and `numInList` each says in part what the other two say.
`Represents` is their agreement on a chain of cells, and every operation keeps it while doing to the
items what its name says. So the addresses do not matter: a list whose pointers are positions in its
chain goes through the same operations, and fails where this one does (`foldlM_shows`).
-/

namespace Nachos

open Program

/-- `List<T>`, with the elements it has allocated. -/
structure HeapList (P α : Type) where
  element : P → Option (Cell P α)
  first : Option P
  last : Option P
  numInList : ℤ

namespace HeapList

variable {P α : Type}

/-- `List<T>::List`. -/
def empty : HeapList P α := ⟨fun _ ↦ none, none, none, 0⟩

/-- The element that a pointer leads to. -/
def deref (l : HeapList P α) (ptr : Option P) : Option (Cell P α) := ptr.bind l.element

/-- `new ListElement<T>(item)`, at the address `p`. -/
def newElement [DecidableEq P] (l : HeapList P α) (p : P) (item : α) : HeapList P α :=
  { l with element := Function.update l.element p (some ⟨item, none⟩) }

/-- `delete p`. -/
def deleteElement [DecidableEq P] (l : HeapList P α) (p : P) : HeapList P α :=
  { l with element := Function.update l.element p none }

/-- `ptr->next = next`. -/
def setNext [DecidableEq P] (l : HeapList P α) (ptr next : Option P) :
    Option (HeapList P α) := do
  let p ← ptr
  let e ← l.element p
  some { l with element := Function.update l.element p (some { e with next := next }) }

/-- `List<T>::IsEmpty`. -/
def isEmpty (l : HeapList P α) : Bool := l.numInList = 0

/-- The loop of `List<T>::IsInList`. -/
def isInListFrom [DecidableEq α] (l : HeapList P α) (item : α) : ℕ → Option P → Option Bool
  | 0, _ => none
  | _ + 1, none => some false
  | rounds + 1, some p => do
    let e ← l.element p
    if item = e.item then some true else l.isInListFrom item rounds e.next

/-- `List<T>::IsInList`. -/
def isInList [DecidableEq α] (rounds : ℕ) (l : HeapList P α) (item : α) : Option Bool :=
  l.isInListFrom item rounds l.first

section operations

variable [DecidableEq P] [DecidableEq α] (rounds : ℕ)

/-- `List<T>::Append`, with the new element at `p`. -/
def append (l : HeapList P α) (p : P) (item : α) : Option (HeapList P α) := do
  let l := l.newElement p item
  guard ((← l.isInList rounds item) = false)
  let l ←
    if l.isEmpty then some { l with first := some p, last := some p }
    else do
      let l ← l.setNext l.last (some p)
      some { l with last := some p }
  let l := { l with numInList := l.numInList + 1 }
  guard ((← l.isInList rounds item) = true)
  some l

/-- `List<T>::Prepend`, with the new element at `p`. -/
def prepend (l : HeapList P α) (p : P) (item : α) : Option (HeapList P α) := do
  let l := l.newElement p item
  guard ((← l.isInList rounds item) = false)
  let l ←
    if l.isEmpty then some { l with first := some p, last := some p }
    else do
      let l ← l.setNext (some p) l.first
      some { l with first := some p }
  let l := { l with numInList := l.numInList + 1 }
  guard ((← l.isInList rounds item) = true)
  some l

/-- `List<T>::RemoveFront`. -/
def removeFront (l : HeapList P α) : Option (α × HeapList P α) := do
  guard (l.isEmpty = false)
  let p ← l.first
  let e ← l.element p
  let l := if l.first = l.last then { l with first := none, last := none }
    else { l with first := e.next }
  let l := { l with numInList := l.numInList - 1 }
  some (e.item, l.deleteElement p)

/-- The loop of `List<T>::Remove`. At its end `ptr` must not be null. -/
def removeFrom (l : HeapList P α) (item : α) :
    ℕ → Option P → Option P → Option (HeapList P α)
  | 0, _, _ => none
  | _ + 1, _, none => none
  | rounds + 1, prev, some p => do
    let e ← l.element p
    if item = e.item then do
      let l ← l.setNext prev e.next
      let before ← l.deref prev
      let l := if before.next = none then { l with last := prev } else l
      some { l.deleteElement p with numInList := l.numInList - 1 }
    else l.removeFrom item rounds (some p) e.next

/-- `List<T>::Remove`. -/
def remove (l : HeapList P α) (item : α) : Option (HeapList P α) := do
  guard ((← l.isInList rounds item) = true)
  let e ← l.deref l.first
  let l ←
    if item = e.item then do
      let (removed, l) ← l.removeFront
      guard (item = removed)
      some l
    else l.removeFrom item rounds l.first e.next
  guard ((← l.isInList rounds item) = false)
  some l

/-- The loop of `List<T>::SanityCheck`; the bound on `numFound` ends it. -/
def walkToLast (l : HeapList P α) (ptr : Option P) (numFound : ℤ) : Option ℤ :=
  if ptr = l.last then some numFound
  else if numFound + 1 ≤ l.numInList then do
    let e ← l.deref ptr
    l.walkToLast e.next (numFound + 1)
  else none
termination_by (l.numInList - numFound).toNat

/-- `List<T>::SanityCheck`. -/
def sanityCheck (l : HeapList P α) : Option Unit :=
  if l.first = none then guard (l.numInList = 0 ∧ l.last = none)
  else if l.first = l.last then do
    let e ← l.deref l.last
    guard (l.numInList = 1 ∧ e.next = none)
  else do
    let numFound ← l.walkToLast l.first 1
    guard (numFound = l.numInList)
    let e ← l.deref l.last
    guard (e.next = none)

end operations

/-! ## The chain -/

/-- The three fields agree: the chain of elements from `first` is finite and ends in `last`, and it
has `numInList` elements. No element and no item is on it twice. -/
structure Represents (l : HeapList P α) (cells : List (P × α)) : Prop where
  chain : Segment l.element l.first cells none
  last : l.last = cells.getLast?.map Prod.fst
  count : l.numInList = cells.length
  addresses : (cells.map Prod.fst).Nodup
  items : (cells.map Prod.snd).Nodup

theorem represents_empty : (empty : HeapList P α).Represents [] :=
  ⟨rfl, rfl, rfl, List.nodup_nil, List.nodup_nil⟩

private theorem isInListFrom_eq [DecidableEq α] {l : HeapList P α} {ptr : Option P}
    {cells : List (P × α)}
    (h : Segment l.element ptr cells none) {rounds : ℕ} (hrounds : cells.length < rounds)
    (item : α) :
    l.isInListFrom item rounds ptr = some (decide (item ∈ cells.map Prod.snd)) := by
  induction cells generalizing ptr rounds with
  | nil =>
    cases h
    obtain ⟨rounds, rfl⟩ := Nat.exists_eq_add_of_lt hrounds
    rfl
  | cons c cells ih =>
    obtain ⟨rfl, next, hc, hrest⟩ := h
    obtain ⟨rounds, rfl⟩ := Nat.exists_eq_add_of_le' (Nat.zero_lt_of_lt hrounds)
    rw [isInListFrom, hc]
    simp only [Option.bind_eq_bind, Option.bind_some]
    by_cases hitem : item = c.2
    · rw [if_pos hitem, decide_eq_true (by simp [hitem])]
    · rw [if_neg hitem, ih hrest (Nat.lt_of_succ_lt_succ hrounds)]
      simp [hitem]

namespace Represents

variable {l : HeapList P α} {cells : List (P × α)} (h : l.Represents cells)

include h

theorem isInList_eq [DecidableEq α] {rounds : ℕ} (hrounds : cells.length < rounds) (item : α) :
    l.isInList rounds item = some (decide (item ∈ cells.map Prod.snd)) :=
  isInListFrom_eq h.chain hrounds item

theorem isEmpty_eq : l.isEmpty = decide (cells = []) := by
  rw [isEmpty, h.count]
  simp

/-- Allocating an element elsewhere changes nothing. -/
theorem newElement [DecidableEq P] {p : P} (hp : p ∉ cells.map Prod.fst) (item : α) :
    (l.newElement p item).Represents cells :=
  ⟨h.chain.update hp _, h.last, h.count, h.addresses, h.items⟩

omit h in
/-- A cell with another one behind it is not the last. -/
theorem ne_last (front : List (P × α)) {rest : List (P × α)} {c d : P × α}
    (h : l.Represents (front ++ c :: d :: rest)) : some c.1 ≠ l.last := by
  have haddr := h.addresses
  rw [List.map_append, List.map_cons, List.nodup_append, List.nodup_cons] at haddr
  have hend : (front ++ c :: d :: rest).getLast? = (d :: rest).getLast? := by
    rw [List.getLast?_append_of_ne_nil _ (List.cons_ne_nil _ _), List.getLast?_cons_cons]
  intro heq
  rw [h.last, hend] at heq
  obtain ⟨e, he, heq⟩ := Option.map_eq_some_iff.mp heq.symm
  exact haddr.2.1.1 (List.mem_map.mpr ⟨e, List.mem_of_getLast? he, heq⟩)

/-- The last element has no successor. -/
theorem last_next (hne : cells ≠ []) : ∃ e, l.deref l.last = some e ∧ e.next = none := by
  obtain rfl | ⟨front, c, rfl⟩ := List.eq_nil_or_concat' cells
  · exact absurd rfl hne
  · have hlast := h.last
    rw [List.getLast?_concat] at hlast
    refine ⟨⟨c.2, none⟩, ?_, rfl⟩
    rw [hlast]
    exact (segment_concat.mp h.chain).2

end Represents

theorem setNext_of_element [DecidableEq P] {l : HeapList P α} {p : P} {e : Cell P α}
    (h : l.element p = some e) (next : Option P) :
    l.setNext (some p) next = some
      { l with element := Function.update l.element p (some { e with next := next }) } := by
  simp [setNext, h]

section refinement

variable [DecidableEq P] [DecidableEq α] {rounds : ℕ} {l : HeapList P α}
  {cells : List (P × α)} {p : P} {item : α}

omit [DecidableEq P] in
/-- An assertion about `IsInList` holds of the list that is returned next. -/
theorem assert_isInList (h : l.Represents cells) (hrounds : cells.length < rounds) {b : Bool}
    (hb : decide (item ∈ cells.map Prod.snd) = b) :
    ((l.isInList rounds item).bind fun found ↦ (guard (found = b) : Option Unit).bind fun _ ↦
      some l) = some l := by
  rw [h.isInList_eq hrounds, Option.bind_some, guard_of_true hb, Option.bind_some]

omit [DecidableEq α] in
/-- The first element of an empty list is its only one. -/
private theorem represents_single (h : (l.newElement p item).Represents []) :
    Represents { l.newElement p item with
      first := some p, last := some p, numInList := (l.newElement p item).numInList + 1 }
      [(p, item)] where
  chain := ⟨rfl, none, Function.update_self .., rfl⟩
  last := rfl
  count := by
    rw [h.count]
    rfl
  addresses := List.nodup_singleton _
  items := List.nodup_singleton _

/-- `Append` puts the item at the end. -/
private theorem append_eq (h : l.Represents cells) (hrounds : cells.length + 1 < rounds)
    (hp : p ∉ cells.map Prod.fst) (hitem : item ∉ cells.map Prod.snd) :
    ∃ l', append rounds l p item = some l' ∧ l'.Represents (cells ++ [(p, item)]) := by
  have hnew := h.newElement hp item
  rw [append]
  simp only [hnew.isInList_eq (Nat.lt_of_succ_lt hrounds), Option.bind_eq_bind, Option.bind_some,
    hnew.isEmpty_eq]
  rw [guard_of_true (decide_eq_false hitem), Option.bind_some]
  rcases List.eq_nil_or_concat' cells with rfl | ⟨front, ⟨q, y⟩, rfl⟩
  · have hl' := represents_single hnew
    exact ⟨_, assert_isInList hl' (by simpa using hrounds) (by simp), hl'⟩
  · -- the element that was the last gets a successor
    obtain ⟨hfront, hq⟩ := segment_concat.mp hnew.chain
    have haddr := hnew.addresses
    rw [List.map_append, List.map_singleton, List.nodup_append] at haddr
    have hqf : q ∉ front.map Prod.fst := fun hmem ↦ haddr.2.2 q hmem q List.mem_cons_self rfl
    have hpq : p ≠ q := by
      rintro rfl
      exact hp (by simp)
    have hlast : (l.newElement p item).last = some q := by
      rw [hnew.last]
      simp
    have hl' : Represents { l.newElement p item with
        element := Function.update (l.newElement p item).element q (some ⟨y, some p⟩)
        last := some p
        numInList := (l.newElement p item).numInList + 1 } (front ++ [(q, y)] ++ [(p, item)]) := by
      constructor
      case chain =>
        refine segment_concat.mpr ⟨segment_concat.mpr ⟨hfront.update hqf _, ?_⟩, ?_⟩
        · exact Function.update_self ..
        · exact (Function.update_of_ne hpq ..).trans (Function.update_self ..)
      case last => simp
      case count => rw [List.length_append, List.length_singleton, Int.natCast_succ, ← hnew.count]
      case addresses =>
        rw [List.map_append, List.map_singleton, ← List.concat_eq_append]
        exact h.addresses.concat hp
      case items =>
        rw [List.map_append, List.map_singleton, ← List.concat_eq_append]
        exact h.items.concat hitem
    rw [if_neg (by simp), hlast, setNext_of_element hq, Option.bind_some]
    exact ⟨_, assert_isInList hl' (by simpa using hrounds) (by simp), hl'⟩

/-- `Prepend` puts it in front. -/
private theorem prepend_eq (h : l.Represents cells) (hrounds : cells.length + 1 < rounds)
    (hp : p ∉ cells.map Prod.fst) (hitem : item ∉ cells.map Prod.snd) :
    ∃ l', prepend rounds l p item = some l' ∧ l'.Represents ((p, item) :: cells) := by
  have hnew := h.newElement hp item
  have helement : (l.newElement p item).element p = some ⟨item, none⟩ := Function.update_self ..
  rw [prepend]
  simp only [hnew.isInList_eq (Nat.lt_of_succ_lt hrounds), Option.bind_eq_bind, Option.bind_some,
    hnew.isEmpty_eq]
  rw [guard_of_true (decide_eq_false hitem), Option.bind_some]
  cases cells with
  | nil =>
    have hl' := represents_single hnew
    exact ⟨_, assert_isInList hl' (by simpa using hrounds) (by simp), hl'⟩
  | cons c cells =>
    have hl' : Represents { l.newElement p item with
        element := Function.update (l.newElement p item).element p
          (some ⟨item, (l.newElement p item).first⟩)
        first := some p
        numInList := (l.newElement p item).numInList + 1 } ((p, item) :: c :: cells) := by
      constructor
      case chain => exact ⟨rfl, _, Function.update_self .., hnew.chain.update hp _⟩
      case last => exact hnew.last
      case count => rw [List.length_cons, Int.natCast_succ, ← hnew.count]
      case addresses => exact List.nodup_cons.mpr ⟨hp, h.addresses⟩
      case items => exact List.nodup_cons.mpr ⟨hitem, h.items⟩
    rw [if_neg (by simp), setNext_of_element helement, Option.bind_some]
    exact ⟨_, assert_isInList hl' (by simpa using hrounds) (by simp), hl'⟩

omit [DecidableEq α] in
/-- `RemoveFront` takes the first item. -/
theorem removeFront_eq {c : P × α} (h : l.Represents (c :: cells)) :
    ∃ l', l.removeFront = some (c.2, l') ∧ l'.Represents cells := by
  obtain ⟨hfirst, next, hc, hrest⟩ := h.chain
  have haddr := List.nodup_cons.mp h.addresses
  have hitems := List.nodup_cons.mp h.items
  have hcount : l.numInList - 1 = cells.length := by
    rw [h.count, List.length_cons]
    omega
  rw [removeFront, h.isEmpty_eq, guard_of_true (by simp), hfirst]
  simp only [Option.bind_eq_bind, Option.bind_some, hc]
  refine ⟨_, rfl, ?_⟩
  cases cells with
  | nil =>
    have hlast : l.last = some c.1 := h.last
    rw [if_pos hlast.symm]
    exact ⟨rfl, rfl, hcount, List.nodup_nil, List.nodup_nil⟩
  | cons d cells =>
    rw [if_neg (Represents.ne_last [] h)]
    exact ⟨hrest.update haddr.1 _, h.last, hcount, haddr.2, hitems.2⟩

omit [DecidableEq α] in
/-- An element behind another one leaves the chain: the other one gets its successor, and is the
last if there is none. -/
private theorem represents_unlink {front rest : List (P × α)} {q : P} {y : α} {c : P × α}
    {next : Option P} (h : l.Represents (front ++ (q, y) :: c :: rest))
    (hrest : Segment l.element next rest none) :
    Represents
      { element := Function.update (Function.update l.element q (some ⟨y, next⟩)) c.1 none
        first := l.first
        last := if next = none then some q else l.last
        numInList := l.numInList - 1 } (front ++ (q, y) :: rest) := by
  have haddr := h.addresses
  rw [List.map_append, List.map_cons, List.map_cons, List.nodup_append, List.nodup_cons,
    List.nodup_cons, List.mem_cons, not_or] at haddr
  obtain ⟨-, ⟨⟨hqc, hqrest⟩, hcrest, -⟩, hdisjoint⟩ := haddr
  have hqfront : q ∉ front.map Prod.fst := fun hmem ↦
    hdisjoint q hmem q List.mem_cons_self rfl
  have hcfront : c.1 ∉ front.map Prod.fst := fun hmem ↦
    hdisjoint c.1 hmem c.1 (List.mem_cons_of_mem _ List.mem_cons_self) rfl
  have hsub : (front ++ (q, y) :: rest).Sublist (front ++ (q, y) :: c :: rest) :=
    ((List.sublist_cons_self c rest).cons_cons (q, y)).append_left front
  obtain ⟨m, hfront, hm, -⟩ := segment_append.mp h.chain
  constructor
  case chain =>
    refine segment_append.mpr ⟨m, (hfront.update hqfront _).update hcfront _, hm, next, ?_,
      (hrest.update hqrest _).update hcrest _⟩
    exact (Function.update_of_ne hqc ..).trans (Function.update_self ..)
  case last =>
    cases rest with
    | nil =>
      cases hrest
      rw [if_pos rfl]
      simp
    | cons d rest =>
      have hnext : next ≠ none := by
        rw [hrest.1]
        exact Option.some_ne_none _
      rw [if_neg hnext, h.last]
      simp [List.getLast?_append, List.getLast?_cons_cons]
  case count =>
    have hcount := h.count
    rw [List.length_append, List.length_cons, List.length_cons] at hcount
    rw [List.length_append, List.length_cons]
    dsimp only
    omega
  case addresses => exact h.addresses.sublist (hsub.map _)
  case items => exact h.items.sublist (hsub.map _)

/-- The loop of `Remove`, with `prev` at the last of the cells in front and `ptr` behind it: the
element with the item is unlinked. -/
private theorem removeFrom_eq (front : List (P × α)) {rest : List (P × α)} {q : P} {y : α}
    {ptr : Option P} (h : l.Represents (front ++ (q, y) :: rest)) (hrounds : rest.length < rounds)
    (hptr : Segment l.element ptr rest none) (hq : l.element q = some ⟨y, ptr⟩)
    (hmem : item ∈ rest.map Prod.snd) :
    ∃ l', l.removeFrom item rounds (some q) ptr = some l' ∧
      l'.Represents (front ++ (q, y) :: rest.eraseP (·.2 = item)) := by
  induction rest generalizing front q y ptr rounds with
  | nil => exact absurd hmem List.not_mem_nil
  | cons c rest ih =>
    obtain ⟨rfl, next, hc, hrest⟩ := hptr
    obtain ⟨rounds, rfl⟩ := Nat.exists_eq_add_of_le' (Nat.zero_lt_of_lt hrounds)
    rw [removeFrom, hc]
    simp only [Option.bind_eq_bind, Option.bind_some]
    by_cases hitem : item = c.2
    · have hbefore : deref { l with
          element := Function.update l.element q (some ⟨y, next⟩) } (some q) = some ⟨y, next⟩ :=
        Function.update_self ..
      have hunlinked := represents_unlink h hrest
      rw [if_pos hitem, setNext_of_element hq, Option.bind_some, hbefore, Option.bind_some,
        List.eraseP_cons_of_pos (by simpa using hitem.symm)]
      refine ⟨_, rfl, ?_⟩
      by_cases hend : next = none
      · simpa [hend, deleteElement] using hunlinked
      · simpa [hend, deleteElement] using hunlinked
    · rw [if_neg hitem, List.eraseP_cons_of_neg (by simpa using Ne.symm hitem), List.append_cons]
      rw [List.append_cons] at h
      exact ih (front ++ [(q, y)]) h (Nat.lt_of_succ_lt_succ hrounds) hrest hc
        ((List.mem_cons.mp hmem).resolve_left hitem)

omit [DecidableEq P] in
private theorem map_snd_eraseP (cells : List (P × α)) (item : α) :
    (cells.eraseP (·.2 = item)).map Prod.snd = (cells.map Prod.snd).erase item := by
  rw [List.erase_eq_eraseP', List.eraseP_map]
  rfl

/-- `Remove` erases the item. -/
theorem remove_eq (h : l.Represents cells) (hrounds : cells.length < rounds)
    (hmem : item ∈ cells.map Prod.snd) :
    ∃ l', remove rounds l item = some l' ∧ l'.Represents (cells.eraseP (·.2 = item)) := by
  -- afterwards the item is not there any more, since it was there only once
  have hgone : item ∉ (cells.eraseP (·.2 = item)).map Prod.snd := by
    rw [map_snd_eraseP]
    exact h.items.not_mem_erase
  cases cells with
  | nil => exact absurd hmem List.not_mem_nil
  | cons c cells =>
    obtain ⟨hfirst, next, hc, hrest⟩ := h.chain
    have hderef : l.deref l.first = some ⟨c.2, next⟩ := by
      rw [hfirst]
      exact hc
    rw [remove]
    simp only [h.isInList_eq hrounds, Option.bind_eq_bind, Option.bind_some, hderef]
    rw [guard_of_true (decide_eq_true hmem), Option.bind_some]
    by_cases hitem : item = c.2
    · rw [List.eraseP_cons_of_pos (by simpa using hitem.symm)] at hgone ⊢
      obtain ⟨l', hrun, hl'⟩ := removeFront_eq h
      rw [if_pos hitem, hrun, Option.bind_some, guard_of_true hitem, Option.bind_some]
      exact ⟨l', assert_isInList hl' (Nat.lt_of_succ_lt hrounds) (decide_eq_false hgone), hl'⟩
    · rw [List.eraseP_cons_of_neg (by simpa using Ne.symm hitem)] at hgone ⊢
      obtain ⟨l', hrun, hl'⟩ := removeFrom_eq [] h (Nat.lt_of_succ_lt hrounds) hrest hc
        ((List.mem_cons.mp hmem).resolve_left hitem)
      have hlength : (c :: cells.eraseP (·.2 = item)).length < rounds :=
        Nat.lt_of_le_of_lt (Nat.succ_le_succ List.length_eraseP_le) hrounds
      rw [if_neg hitem, hfirst, hrun, Option.bind_some]
      exact ⟨l', assert_isInList hl' hlength (decide_eq_false hgone), hl'⟩

omit [DecidableEq α] in
/-- The loop of `SanityCheck` behind the cells in `front` counts the others. -/
private theorem walkToLast_eq (front : List (P × α)) {rest : List (P × α)}
    (h : l.Represents (front ++ rest)) {ptr : Option P}
    (hptr : Segment l.element ptr rest none) (hne : rest ≠ []) :
    l.walkToLast ptr (front.length + 1) = some ((front ++ rest).length : ℤ) := by
  induction rest generalizing front ptr with
  | nil => exact absurd rfl hne
  | cons c rest ih =>
    obtain ⟨rfl, next, hc, hrest⟩ := hptr
    have hlast := h.last
    rw [walkToLast]
    cases rest with
    | nil =>
      rw [List.getLast?_concat, Option.map_some] at hlast
      rw [if_pos hlast.symm, List.length_append, List.length_singleton, Int.natCast_succ]
    | cons d rest =>
      have hnot := Represents.ne_last front h
      have hcount := h.count
      rw [List.length_append, List.length_cons, List.length_cons] at hcount
      have hderef : l.deref (some c.1) = some ⟨c.2, next⟩ := hc
      rw [List.append_cons] at h
      have hwalk := ih (front ++ [c]) h hrest (List.cons_ne_nil _ _)
      rw [List.length_append, List.length_singleton, Int.natCast_succ, ← List.append_cons] at hwalk
      rw [if_neg hnot, if_pos (by omega), hderef]
      exact hwalk

omit [DecidableEq α] in
/-- `SanityCheck` finds nothing wrong. -/
private theorem sanityCheck_eq (h : l.Represents cells) : l.sanityCheck = some () := by
  rw [sanityCheck]
  match cells with
  | [] =>
    have hfirst : l.first = none := h.chain
    have hlast : l.last = none := h.last
    rw [if_pos hfirst, guard_of_true ⟨h.count, hlast⟩]
  | [c] =>
    obtain ⟨e, he, hnext⟩ := h.last_next (List.cons_ne_nil _ _)
    have hfirst : l.first = some c.1 := h.chain.1
    have hlast : l.last = some c.1 := h.last
    rw [if_neg (hfirst ▸ Option.some_ne_none _), if_pos (hfirst.trans hlast.symm), he]
    exact guard_of_true ⟨h.count, hnext⟩
  | c :: d :: rest =>
    obtain ⟨e, he, hnext⟩ := h.last_next (List.cons_ne_nil _ _)
    have hfirst : l.first = some c.1 := h.chain.1
    have hwalk := walkToLast_eq [] h h.chain (List.cons_ne_nil _ _)
    have hnot : l.first ≠ l.last := by
      rw [hfirst]
      exact Represents.ne_last [] h
    rw [if_neg (hfirst ▸ Option.some_ne_none _), if_neg hnot]
    simp only [List.nil_append, List.length_nil, Int.natCast_zero, Int.zero_add] at hwalk
    simp only [hwalk, he, Option.bind_eq_bind, Option.bind_some]
    rw [guard_of_true h.count.symm, guard_of_true hnext]
    rfl

end refinement

/-! ## Any number of operations -/

/-- A call; a new element is at the address that `new` returns. -/
inductive Op (P α : Type) where
  | append (p : P) (item : α)
  | prepend (p : P) (item : α)
  | removeFront
  | remove (item : α)
  deriving DecidableEq, Repr

variable [DecidableEq P] [DecidableEq α]

def Op.exec (rounds : ℕ) (l : HeapList P α) : Op P α → Option (HeapList P α)
  | .append p item => l.append rounds p item
  | .prepend p item => l.prepend rounds p item
  | .removeFront => l.removeFront.map Prod.snd
  | .remove item => l.remove rounds item

/-- What a call does to the chain, -/
def Op.onCells (cells : List (P × α)) : Op P α → List (P × α)
  | .append p item => cells ++ [(p, item)]
  | .prepend p item => (p, item) :: cells
  | .removeFront => cells.tail
  | .remove item => cells.eraseP (·.2 = item)

/-- and to the items. -/
def Op.onItems (xs : List α) : Op P α → List α
  | .append _ item => xs ++ [item]
  | .prepend _ item => item :: xs
  | .removeFront => xs.tail
  | .remove item => xs.erase item

/-- When it may be made. The address of a new element is none of those in use. -/
def Op.Allowed (cells : List (P × α)) : Op P α → Prop
  | .append p item => p ∉ cells.map Prod.fst ∧ item ∉ cells.map Prod.snd
  | .prepend p item => p ∉ cells.map Prod.fst ∧ item ∉ cells.map Prod.snd
  | .removeFront => cells ≠ []
  | .remove item => item ∈ cells.map Prod.snd

/-- Each call of a sequence may be made when its turn comes. -/
def AllAllowed (cells : List (P × α)) (ops : List (Op P α)) : Prop :=
  Along (fun cells op ↦ some (Op.onCells cells op)) Op.Allowed cells ops

omit [DecidableEq P] in
private theorem map_snd_onCells (cells : List (P × α)) (op : Op P α) :
    (op.onCells cells).map Prod.snd = op.onItems (cells.map Prod.snd) := by
  cases op with
  | append p item => exact List.map_append
  | prepend p item => rfl
  | removeFront => exact List.map_tail
  | remove item => exact map_snd_eraseP cells item

omit [DecidableEq P] in
/-- A call adds one element at most. -/
private theorem length_onCells_le (cells : List (P × α)) (op : Op P α) :
    (op.onCells cells).length ≤ cells.length + 1 := by
  cases op with
  | append p item => exact Nat.le_of_eq List.length_append
  | prepend p item => exact Nat.le_refl _
  | removeFront => exact Nat.le_succ_of_le (cells.tail_sublist.length_le)
  | remove item => exact Nat.le_succ_of_le List.length_eraseP_le

section runs

variable {rounds : ℕ} {l : HeapList P α} {cells : List (P × α)}

/-- One call. -/
theorem Represents.exec (h : l.Represents cells) {op : Op P α} (hop : op.Allowed cells)
    (hrounds : cells.length + 1 < rounds) :
    ∃ l', op.exec rounds l = some l' ∧ l'.Represents (op.onCells cells) := by
  cases op with
  | append p item => exact append_eq h hrounds hop.1 hop.2
  | prepend p item => exact prepend_eq h hrounds hop.1 hop.2
  | removeFront =>
    obtain ⟨c, cells, rfl⟩ := List.exists_cons_of_ne_nil hop
    obtain ⟨l', hrun, hl'⟩ := removeFront_eq h
    exact ⟨l', by rw [Op.exec, hrun]; rfl, hl'⟩
  | remove item => exact remove_eq h (Nat.lt_of_succ_lt hrounds) hop

theorem Represents.execAll (h : l.Represents cells) {ops : List (Op P α)}
    (hops : AllAllowed cells ops) (hrounds : cells.length + ops.length < rounds) :
    ∃ l' cells', ops.foldlM (Op.exec rounds) l = some l' ∧ l'.Represents cells' ∧
      cells'.length < rounds ∧
      cells'.map Prod.snd = ops.foldl Op.onItems (cells.map Prod.snd) := by
  obtain ⟨_, l', xs', hrun, hitems, cells', rfl, hl', -, hlength⟩ := Steps.simulates
    (fun l op (_ : Unit) l' ↦ Op.exec rounds l op = some l')
    (fun xs (op : Op P α) _ xs' ↦ op.onItems xs = xs')
    (fun l xs ops ↦ ∃ cells, xs = cells.map Prod.snd ∧ l.Represents cells ∧
      AllAllowed cells ops ∧ cells.length + ops.length < rounds)
    (fun l xs op ops hR ↦ by
      obtain ⟨cells, rfl, h, hops, hrounds⟩ := hR
      have hlength := length_onCells_le cells op
      rw [List.length_cons] at hrounds
      have hcall : cells.length + 1 < rounds := by omega
      obtain ⟨l₁, hrun, hl₁⟩ := h.exec hops.1 hcall
      exact ⟨(), l₁, _, hrun, rfl, op.onCells cells, (map_snd_onCells cells op).symm, hl₁,
        hops.2 _ rfl, by omega⟩)
    ops ⟨cells, rfl, h, hops, hrounds⟩
  exact ⟨l', cells', hrun.foldlM_eq, hl', hlength, hitems.foldl_eq.symm⟩

/-- **A list is the list of its items.** Whatever calls are made on an empty list, each when it may
be: none of them fails; the chain from `first` is finite, ends in `last`, which has no successor,
and has `numInList` elements; their items are those of the abstract list to which the same calls
were made; and `SanityCheck` passes, `IsInList` finds just these items and `RemoveFront` would take
the first of them. The loops end within as many rounds as there are calls, and one more. -/
theorem list_refines (ops : List (Op P α)) (hops : AllAllowed [] ops)
    (hrounds : ops.length < rounds) :
    ∃ (l : HeapList P α) (cells : List (P × α)), ops.foldlM (Op.exec rounds) empty = some l ∧
      Segment l.element l.first cells none ∧ l.last = cells.getLast?.map Prod.fst ∧
      (cells ≠ [] → ∃ e, l.deref l.last = some e ∧ e.next = none) ∧
      l.numInList = cells.length ∧ cells.map Prod.snd = ops.foldl Op.onItems [] ∧
      l.sanityCheck = some () ∧
      (∀ item, l.isInList rounds item = some (decide (item ∈ cells.map Prod.snd))) ∧
      (cells ≠ [] → l.removeFront.map Prod.fst = (cells.map Prod.snd).head?) := by
  obtain ⟨l, cells, hrun, hl, hlength, hitems⟩ := represents_empty.execAll hops (by simpa)
  refine ⟨l, cells, hrun, hl.chain, hl.last, hl.last_next, hl.count, hitems, sanityCheck_eq hl,
    hl.isInList_eq hlength, fun hne ↦ ?_⟩
  obtain ⟨c, cells, rfl⟩ := List.exists_cons_of_ne_nil hne
  obtain ⟨l', hfront, -⟩ := removeFront_eq hl
  rw [hfront]
  rfl

end runs

instance (cells : List (P × α)) (op : Op P α) : Decidable (op.Allowed cells) :=
  match op with
  | .append _ _ => inferInstanceAs (Decidable (_ ∧ _))
  | .prepend _ _ => inferInstanceAs (Decidable (_ ∧ _))
  | .removeFront => inferInstanceAs (Decidable (_ ≠ _))
  | .remove _ => inferInstanceAs (Decidable (_ ∈ _))

instance AllAllowed.decidable (cells : List (P × α)) (ops : List (Op P α)) :
    Decidable (AllAllowed cells ops) :=
  inferInstanceAs (Decidable (Along _ _ _ _))

/-- Three items, of which the one in the middle and then the last are removed, and another is
appended: it comes behind the one that has become the last. -/
theorem middle_and_last_removed :
    ∃ l : HeapList ℕ ℕ, ([.append 1 10, .append 2 20, .append 3 30, .remove 20, .remove 30,
        .append 2 40, .prepend 3 50] : List (Op ℕ ℕ)).foldlM (Op.exec 8) empty = some l ∧
      l.numInList = 3 ∧ l.sanityCheck = some () := by
  obtain ⟨l, cells, hrun, -, -, -, hcount, hitems, hsane, -⟩ := list_refines
    ([.append 1 10, .append 2 20, .append 3 30, .remove 20, .remove 30, .append 2 40,
      .prepend 3 50] : List (Op ℕ ℕ)) (by decide) (by decide : 7 < 8)
  refine ⟨l, hrun, ?_, hsane⟩
  rw [hcount, ← List.length_map (f := Prod.snd), hitems]
  rfl

/-! ## Positions in place of addresses -/

/-- The call on a list whose pointers are positions. -/
def Op.onLinkedList (k : LinkedList α) : Op P α → Option (LinkedList α)
  | .append _ item => k.append item
  | .prepend _ item => k.prepend item
  | .removeFront => k.removeFront.map Prod.snd
  | .remove item => k.remove item

/-- `new` returns an address at which there is no element. -/
def Op.Fresh (l : HeapList P α) : Op P α → Prop
  | .append p _ => l.element p = none
  | .prepend p _ => l.element p = none
  | .removeFront => True
  | .remove _ => True

/-- The two lists have the same items, and their pointers are in order. -/
def Shows (l : HeapList P α) (k : LinkedList α) : Prop :=
  ∃ cells, l.Represents cells ∧ k = .ofList (cells.map Prod.snd)

section linked

variable {rounds : ℕ} {l : HeapList P α} {cells : List (P × α)} {op : Op P α}

omit [DecidableEq P] in
private theorem onLinkedList_of_allowed (hop : op.Allowed cells)
    (hitems : (cells.map Prod.snd).Nodup) : op.onLinkedList (.ofList (cells.map Prod.snd))
      = some (.ofList ((op.onCells cells).map Prod.snd)) := by
  rw [map_snd_onCells]
  cases op with
  | append p item =>
    rw [Op.onLinkedList, LinkedList.append_ofList, listAppend_of_not_mem hop.2]
    rfl
  | prepend p item =>
    rw [Op.onLinkedList, LinkedList.prepend_ofList, if_neg hop.2]
    rfl
  | removeFront =>
    obtain ⟨c, cells, rfl⟩ := List.exists_cons_of_ne_nil hop
    rw [Op.onLinkedList, LinkedList.removeFront_ofList]
    rfl
  | remove item =>
    rw [Op.onLinkedList, LinkedList.remove_ofList hop hitems.not_mem_erase]
    rfl

/-- A call that may not be made fails in both lists, at the same assertion. -/
theorem Represents.fails (h : l.Represents cells) (hnew : op.Fresh l) (hop : ¬op.Allowed cells)
    (hrounds : cells.length < rounds) :
    op.exec rounds l = none ∧ op.onLinkedList (.ofList (cells.map Prod.snd)) = none := by
  cases op with
  | append p item =>
    have hp : p ∉ cells.map Prod.fst := fun hmem ↦ h.chain.ne_none hmem hnew
    have hitem : item ∈ cells.map Prod.snd := not_not.mp fun hmem ↦ hop ⟨hp, hmem⟩
    constructor
    · rw [Op.exec, append, (h.newElement hp item).isInList_eq hrounds, decide_eq_true hitem]
      rfl
    · rw [Op.onLinkedList, LinkedList.append_ofList, listAppend, if_pos hitem]
      rfl
  | prepend p item =>
    have hp : p ∉ cells.map Prod.fst := fun hmem ↦ h.chain.ne_none hmem hnew
    have hitem : item ∈ cells.map Prod.snd := not_not.mp fun hmem ↦ hop ⟨hp, hmem⟩
    constructor
    · rw [Op.exec, prepend, (h.newElement hp item).isInList_eq hrounds, decide_eq_true hitem]
      rfl
    · rw [Op.onLinkedList, LinkedList.prepend_ofList, if_pos hitem]
  | removeFront =>
    obtain rfl : cells = [] := not_not.mp hop
    constructor
    · rw [Op.exec, removeFront, h.isEmpty_eq]
      rfl
    · rfl
  | remove item =>
    have hitem : item ∉ cells.map Prod.snd := hop
    constructor
    · rw [Op.exec, remove, h.isInList_eq hrounds, decide_eq_false hitem]
      rfl
    · exact LinkedList.remove_of_not_mem hitem

/-- **Addresses do not matter.** As long as `new` returns an address at which there is no element,
any sequence of calls leaves the list in memory with the items of the list of positions, to which
the same calls were made, and fails just when they fail there. -/
theorem foldlM_shows {k : LinkedList α} (h : l.Shows k) {ops : List (Op P α)}
    (hnew : Along (fun l op ↦ Op.exec rounds l op) Op.Fresh l ops)
    (hrounds : k.chain.length + ops.length < rounds) :
    Option.Rel Shows (ops.foldlM (Op.exec rounds) l) (ops.foldlM Op.onLinkedList k) := by
  induction ops generalizing l k with
  | nil => exact .some h
  | cons op ops ih =>
    obtain ⟨cells, hl, rfl⟩ := h
    rw [LinkedList.ofList_chain, List.length_map, List.length_cons] at hrounds
    rw [List.foldlM_cons, List.foldlM_cons]
    by_cases hop : op.Allowed cells
    · obtain ⟨l₁, hrun, hl₁⟩ := hl.exec hop (by omega : cells.length + 1 < rounds)
      have hlength := length_onCells_le cells op
      rw [hrun, onLinkedList_of_allowed hop hl.items]
      refine ih ⟨_, hl₁, rfl⟩ (hnew.2 l₁ hrun) ?_
      rw [LinkedList.ofList_chain, List.length_map]
      omega
    · obtain ⟨hrun, hlinked⟩ := hl.fails hnew.1 hop (by omega : cells.length < rounds)
      rw [hrun, hlinked]
      exact .none

end linked

end HeapList

end Nachos
