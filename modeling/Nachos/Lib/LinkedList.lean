import Mathlib.Data.List.Basic
import Mathlib.Data.Option.Basic
import Nachos.Lib.List

/-!
# The pointers of a list

A `List<T>` keeps a pointer to its first and one to its last element, and counts its elements.
The functions here follow those pointers, and an assertion that fails, or a null pointer that is
followed, leaves no result. On the lists that the functions build from the empty one the pointers
and the counter say nothing new: such a list is `ofList` of its items, and `Append` and
`RemoveFront` are the `listAppend` and `listRemoveFront` of the items.
-/

namespace Nachos

/-- An assertion that holds. -/
@[simp] theorem guard_of_true {c : Prop} [Decidable c] (h : c) :
    (guard c : Option Unit) = some () := if_pos h

/-- `List<T>`. The items are those met from `first` along the `next` pointers, and a pointer to an
element is the position of the element in that chain. -/
structure LinkedList (α : Type) where
  chain : List α
  last : Option ℕ
  numInList : ℤ

namespace LinkedList

variable {α : Type}

/-- `List<T>::List`. -/
def empty : LinkedList α := ⟨[], none, 0⟩

/-- `List<T>::IsEmpty`. -/
def isEmpty (l : LinkedList α) : Bool := l.numInList = 0

/-- The item becomes the only one. -/
def linkOnly (l : LinkedList α) (item : α) : LinkedList α := ⟨[item], some 0, l.numInList + 1⟩

/-- The item is linked in front of the first one. -/
def linkFront (l : LinkedList α) (item : α) : LinkedList α where
  chain := item :: l.chain
  last := l.last.map (· + 1)
  numInList := l.numInList + 1

/-- The item is linked behind the one that `last` points to. -/
def linkLast (l : LinkedList α) (item : α) : Option (LinkedList α) := do
  let p ← l.last
  some ⟨l.chain.take (p + 1) ++ [item], some (p + 1), l.numInList + 1⟩

/-- `List<T>::Append`. -/
def append [DecidableEq α] (l : LinkedList α) (item : α) : Option (LinkedList α) := do
  guard (item ∉ l.chain)
  let l ← if l.isEmpty then some (l.linkOnly item) else l.linkLast item
  guard (item ∈ l.chain)
  some l

/-- `List<T>::Prepend`. -/
def prepend [DecidableEq α] (l : LinkedList α) (item : α) : Option (LinkedList α) := do
  guard (item ∉ l.chain)
  let l := if l.isEmpty then l.linkOnly item else l.linkFront item
  guard (item ∈ l.chain)
  some l

/-- `List<T>::RemoveFront`. -/
def removeFront (l : LinkedList α) : Option (α × LinkedList α) := do
  guard (l.isEmpty = false)
  let thing ← l.chain.head?
  if l.last = some 0 then some (thing, ⟨[], none, l.numInList - 1⟩)
  else some (thing, ⟨l.chain.tail, l.last.map (· - 1), l.numInList - 1⟩)

/-- The element at position `i`, which is not the first, leaves the chain. -/
def unlink (l : LinkedList α) (i : ℕ) : LinkedList α where
  chain := l.chain.eraseIdx i
  last :=
    if i + 1 = l.chain.length then some (i - 1)
    else l.last.map fun p ↦ if i < p then p - 1 else p
  numInList := l.numInList - 1

/-- `List<T>::Remove`. -/
def remove [DecidableEq α] (l : LinkedList α) (item : α) : Option (LinkedList α) := do
  guard (item ∈ l.chain)
  let l' ←
    if l.chain.head? = some item then do
      let (removed, l') ← l.removeFront
      guard (item = removed)
      some l'
    else do
      guard (l.chain.idxOf item < l.chain.length)
      some (l.unlink (l.chain.idxOf item))
  guard (item ∉ l'.chain)
  some l'

/-- The loop of `List<T>::SanityCheck`: `ptr` is at position `i` of the chain, with the elements
`rest` from there on. -/
def walkToLast (l : LinkedList α) : List α → ℕ → ℤ → Option ℤ
  | [], _, _ => none
  | _ :: rest, i, numFound =>
    if l.last = some i then some numFound
    else do
      guard (numFound + 1 ≤ l.numInList)
      l.walkToLast rest (i + 1) (numFound + 1)

/-- `List<T>::SanityCheck`. -/
def sanityCheck (l : LinkedList α) : Option Unit :=
  if l.chain.length = 0 then guard (l.numInList = 0 ∧ l.last = none)
  else if l.last = some 0 then guard (l.numInList = 1 ∧ l.chain.length = 1)
  else do
    let numFound ← l.walkToLast l.chain 0 1
    guard (numFound = l.numInList)
    guard (l.last = some (l.chain.length - 1))

/-! ## The lists that are built -/

/-- The list of the given items, with its pointers and its counter in order. -/
def ofList : List α → LinkedList α
  | [] => empty
  | first :: rest => ⟨first :: rest, some rest.length, rest.length + 1⟩

@[simp] theorem ofList_chain (xs : List α) : (ofList xs).chain = xs := by
  cases xs <;> rfl

@[simp] theorem ofList_numInList (xs : List α) : (ofList xs).numInList = xs.length := by
  cases xs <;> rfl

@[simp] theorem isEmpty_ofList (xs : List α) : (ofList xs).isEmpty = xs.isEmpty := by
  rw [isEmpty, ofList_numInList]
  cases xs with
  | nil => rfl
  | cons first rest => exact decide_eq_false (by rw [List.length_cons]; omega)

theorem ofList_last {xs : List α} (h : xs ≠ []) : (ofList xs).last = some (xs.length - 1) := by
  obtain ⟨first, rest, rfl⟩ := List.exists_cons_of_ne_nil h
  rfl

/-- A list is the list of its items when its pointers and its counter are in order. -/
theorem eq_ofList {l : LinkedList α} (hne : l.chain ≠ [])
    (hlast : l.last = some (l.chain.length - 1)) (hnum : l.numInList = l.chain.length) :
    l = ofList l.chain := by
  obtain ⟨chain, last, numInList⟩ := l
  obtain ⟨first, rest, rfl⟩ := List.exists_cons_of_ne_nil hne
  simp only at hlast hnum
  rw [hlast, hnum]
  rfl

theorem linkFront_ofList {xs : List α} (hne : xs ≠ []) (item : α) :
    (ofList xs).linkFront item = ofList (item :: xs) := by
  obtain ⟨first, rest, rfl⟩ := List.exists_cons_of_ne_nil hne
  simp [linkFront, ofList]

theorem linkLast_ofList {xs : List α} (hne : xs ≠ []) (item : α) :
    (ofList xs).linkLast item = some (ofList (xs ++ [item])) := by
  have hpos := List.length_pos_iff.mpr hne
  have hwhole : xs.take (xs.length - 1 + 1) = xs := List.take_of_length_le (by omega)
  rw [linkLast, ofList_last hne, ofList_chain, ofList_numInList, Option.bind_eq_bind,
    Option.bind_some, hwhole]
  refine congrArg some (eq_ofList ?_ ?_ ?_)
  · exact List.append_ne_nil_of_right_ne_nil _ (List.cons_ne_nil _ _)
  · rw [List.length_append, List.length_singleton]
    exact congrArg some (by omega)
  · rw [List.length_append, List.length_singleton]
    rfl

section append

variable [DecidableEq α] (xs : List α) (item : α)

theorem append_ofList : (ofList xs).append item = (listAppend xs item).map ofList := by
  by_cases hmem : item ∈ xs
  · rw [append, ofList_chain, listAppend, if_pos hmem]
    exact congrArg (· >>= _) (if_neg (not_not_intro hmem))
  · rw [append, ofList_chain, guard_of_true hmem, listAppend_of_not_mem hmem, isEmpty_ofList]
    cases xs with
    | nil => simp [linkOnly, ofList, empty]
    | cons first rest =>
      rw [linkLast_ofList (List.cons_ne_nil _ _)]
      simp

theorem prepend_ofList :
    (ofList xs).prepend item = if item ∈ xs then none else some (ofList (item :: xs)) := by
  by_cases hmem : item ∈ xs
  · rw [prepend, ofList_chain, if_pos hmem]
    exact congrArg (· >>= _) (if_neg (not_not_intro hmem))
  · rw [prepend, ofList_chain, guard_of_true hmem, if_neg hmem, isEmpty_ofList]
    cases xs with
    | nil => simp [linkOnly, ofList, empty]
    | cons first rest =>
      rw [linkFront_ofList (List.cons_ne_nil _ _)]
      simp

end append

theorem removeFront_ofList (xs : List α) :
    (ofList xs).removeFront
      = (listRemoveFront xs).map fun (thing, rest) ↦ (thing, ofList rest) := by
  match xs with
  | [] => rfl
  | [_] => rfl
  | thing :: second :: rest =>
    rw [removeFront, isEmpty_ofList, ofList_chain]
    simp [ofList, listRemoveFront]

/-- What the loop of `SanityCheck` finds from position `i` on: the rest of the list. -/
private theorem walkToLast_ofList {xs : List α} {rest : List α} {i : ℕ} (hne : rest ≠ [])
    (hlen : i + rest.length = xs.length) :
    (ofList xs).walkToLast rest i (i + 1) = some (xs.length : ℤ) := by
  induction rest generalizing i with
  | nil => exact absurd rfl hne
  | cons first rest ih =>
    have hxs : xs ≠ [] := by
      rintro rfl
      simp at hlen
    rw [List.length_cons] at hlen
    rw [walkToLast, ofList_last hxs, ofList_numInList]
    -- the loop ends at the last position, where the rest is a single element
    by_cases hend : xs.length - 1 = i
    · rw [if_pos (congrArg some hend)]
      exact congrArg some (by omega)
    · have hne : rest ≠ [] := by
        rintro rfl
        rw [List.length_nil] at hlen
        omega
      rw [if_neg (by simpa using hend), guard_of_true (by omega)]
      exact ih hne (by omega)

theorem sanityCheck_ofList (xs : List α) : (ofList xs).sanityCheck = some () := by
  by_cases hne : xs = []
  · rw [hne]
    rfl
  · rw [sanityCheck, ofList_chain, ofList_last hne, ofList_numInList,
      if_neg (by simpa using hne)]
    have hpos := List.length_pos_iff.mpr hne
    by_cases hone : xs.length - 1 = 0
    · rw [if_pos (congrArg some hone), guard_of_true ⟨by omega, by omega⟩]
    · have hwalk := walkToLast_ofList (i := 0) hne (Nat.zero_add xs.length)
      rw [if_neg (by simpa using hone), show (1 : ℤ) = ((0 : ℕ) : ℤ) + 1 from rfl, hwalk]
      simp

section remove

variable [DecidableEq α] {xs : List α} {item : α}

/-- Unlinking the first occurrence of an item behind the front erases it. -/
private theorem unlink_ofList (hmem : item ∈ xs) (hfirst : xs.head? ≠ some item) :
    (ofList xs).unlink (xs.idxOf item) = ofList (xs.erase item) := by
  have hlt := List.idxOf_lt_length_of_mem hmem
  have hchain : ((ofList xs).unlink (xs.idxOf item)).chain = xs.erase item := by
    rw [unlink, ofList_chain, List.erase_eq_eraseIdx_of_idxOf rfl]
  have hlen := List.length_erase_of_mem hmem
  have hpos : 0 < xs.idxOf item := by
    refine Nat.pos_of_ne_zero fun hzero ↦ hfirst ?_
    rw [List.head?_eq_getElem?, ← hzero]
    exact List.getElem?_idxOf hmem
  have hne : xs.erase item ≠ [] := List.ne_nil_of_length_pos (by omega)
  rw [← hchain]
  refine eq_ofList (hchain ▸ hne) ?_ ?_
  · rw [hchain, unlink, ofList_chain, ofList_last (List.ne_nil_of_mem hmem), hlen]
    by_cases hend : xs.idxOf item + 1 = xs.length
    · rw [if_pos hend]
      exact congrArg some (by omega)
    · rw [if_neg hend, Option.map_some, if_pos (by omega)]
  · have hnum : ((ofList xs).unlink (xs.idxOf item)).numInList = xs.length - 1 := by
      rw [unlink, ofList_numInList]
    rw [hchain, hnum, hlen]
    omega

theorem remove_of_not_mem (hmem : item ∉ xs) : (ofList xs).remove item = none := by
  rw [remove, ofList_chain]
  exact congrArg (· >>= _) (if_neg hmem)

/-- `Remove` erases an item that occurs once. -/
theorem remove_ofList (hmem : item ∈ xs) (honce : item ∉ xs.erase item) :
    (ofList xs).remove item = some (ofList (xs.erase item)) := by
  rw [remove, ofList_chain, guard_of_true hmem]
  by_cases hfirst : xs.head? = some item
  · obtain ⟨rest, rfl⟩ : ∃ rest, xs = item :: rest := List.head?_eq_some_iff.mp hfirst
    rw [List.erase_cons_head] at honce ⊢
    rw [if_pos hfirst, removeFront_ofList]
    simp [listRemoveFront, honce]
  · rw [if_neg hfirst, unlink_ofList hmem hfirst,
      guard_of_true (List.idxOf_lt_length_of_mem hmem)]
    simp [honce]

end remove

end LinkedList

end Nachos
