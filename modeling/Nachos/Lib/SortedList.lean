import Nachos.Lib.LinkedList
import Nachos.Program.Run
import Nachos.Program.Simulation

/-!
# Sorted lists

`SortedList<T>::Insert` has four ways out: the list is empty, the item goes in front, it goes
between two elements, or behind the last one. Each of them sets other pointers, and the third one
returns early. On the lists that are built from the empty one all four come to `insertSorted`, and
since both comparisons are strict an item goes behind those that compare equal.

What a sorted list is for is said over the items in the order of their insertion: it holds them
sorted, with ties in that order, so that `RemoveFront` takes the earliest of the smallest.
-/

namespace Nachos

open Program

variable {α : Type}

/-! ## Comparison functions -/

/-- A comparison function that is a total preorder: its sign tells how two items compare. -/
structure TotalPreorder (compare : α → α → ℤ) : Prop where
  swap : ∀ x y, compare x y < 0 ↔ 0 < compare y x
  trans : ∀ x y z, compare x y ≤ 0 → compare y z ≤ 0 → compare x z ≤ 0

/-- The items that compare equal to `x`. -/
def tiesOf (compare : α → α → ℤ) (x : α) (l : List α) : List α :=
  l.filter fun y ↦ compare x y = 0

/-- The first of the smallest items. -/
def earliestMin (compare : α → α → ℤ) (arrived : List α) : Option α :=
  arrived.find? fun x ↦ arrived.all fun y ↦ compare x y ≤ 0

/-- `l` holds the items of `arrived` sorted, and those that compare equal in the order of
`arrived`. -/
structure StablySorted (compare : α → α → ℤ) (arrived l : List α) : Prop where
  sorted : l.Pairwise fun x y ↦ compare x y ≤ 0
  perm : l.Perm arrived
  ties : ∀ x, tiesOf compare x l = tiesOf compare x arrived

section order

variable {compare : α → α → ℤ} (hc : TotalPreorder compare)

include hc

theorem TotalPreorder.refl (x : α) : compare x x = 0 := by
  have := hc.swap x x
  omega

theorem TotalPreorder.tie_symm {x y : α} (h : compare x y = 0) : compare y x = 0 := by
  have h₁ := hc.swap x y
  have h₂ := hc.swap y x
  omega

theorem TotalPreorder.le_of_not_lt {x y : α} (h : ¬compare x y < 0) : compare y x ≤ 0 := by
  have := hc.swap x y
  omega

/-- What is smaller than `y` is smaller than everything from `y` on. -/
theorem TotalPreorder.lt_of_lt_of_le {x y z : α} (h : compare x y < 0) (h' : compare y z ≤ 0) :
    compare x z < 0 := by
  have hle := hc.trans x y z (by omega) h'
  by_contra hge
  have htie : compare z x = 0 := hc.tie_symm (by omega)
  have hback := hc.trans y z x h' (Int.le_of_eq htie)
  have := hc.swap x y
  omega

theorem TotalPreorder.tie_trans {x y z : α} (h : compare x y = 0) (h' : compare y z = 0) :
    compare x z = 0 := by
  have hle := hc.trans x y z (Int.le_of_eq h) (Int.le_of_eq h')
  have hge := hc.trans z y x (Int.le_of_eq (hc.tie_symm h')) (Int.le_of_eq (hc.tie_symm h))
  have := hc.swap x z
  omega

/-! ## What the operations do to a stably sorted list -/

variable {arrived l : List α}

omit hc in
theorem tiesOf_append (x : α) (l l' : List α) :
    tiesOf compare x (l ++ l') = tiesOf compare x l ++ tiesOf compare x l' := List.filter_append ..

omit hc in
theorem tiesOf_cons (x y : α) (l : List α) :
    tiesOf compare x (y :: l) = tiesOf compare x [y] ++ tiesOf compare x l :=
  tiesOf_append x [y] l

/-- Ties with the item are in front of the place it is put. -/
private theorem tiesOf_insertSorted (hl : l.Pairwise fun x y ↦ compare x y ≤ 0) (item x : α) :
    tiesOf compare x (insertSorted compare item l) = tiesOf compare x (l ++ [item]) := by
  induction l with
  | nil => rfl
  | cons first rest ih =>
    obtain ⟨hfirst, hrest⟩ := List.pairwise_cons.mp hl
    rw [insertSorted]
    by_cases hlt : compare item first < 0
    · rw [if_pos hlt, tiesOf_cons, tiesOf_append]
      by_cases htie : compare x item = 0
      · -- nothing from `first` on is a tie
        have hnone : tiesOf compare x (first :: rest) = [] := by
          refine List.filter_eq_nil_iff.mpr fun y hy hxy ↦ ?_
          have hle : compare first y ≤ 0 := by
            rcases List.mem_cons.mp hy with rfl | hy
            · exact Int.le_of_eq (hc.refl y)
            · exact hfirst y hy
          have hlt' := hc.lt_of_lt_of_le hlt hle
          have := hc.tie_trans (hc.tie_symm htie) (of_decide_eq_true hxy)
          omega
        rw [hnone, List.append_nil, List.nil_append]
      · have hnone : tiesOf compare x [item] = [] := List.filter_cons_of_neg (by simpa using htie)
        rw [hnone, List.append_nil, List.nil_append]
    · rw [if_neg hlt, tiesOf_cons, ih hrest, List.cons_append, tiesOf_cons x first (rest ++ [item])]

theorem StablySorted.insert (h : StablySorted compare arrived l) (item : α) :
    StablySorted compare (arrived ++ [item]) (insertSorted compare item l) where
  sorted := pairwise_insertSorted hc.trans h.sorted (fun _ _ hlt ↦ Int.le_of_lt hlt)
    fun _ _ hge ↦ hc.le_of_not_lt hge
  perm := (perm_insertSorted compare item l).trans
    ((h.perm.cons item).trans (List.perm_append_singleton item arrived).symm)
  ties x := by
    rw [tiesOf_insertSorted hc h.sorted, tiesOf_append, tiesOf_append, h.ties]

omit hc in
theorem StablySorted.erase [DecidableEq α] (h : StablySorted compare arrived l)
    (hnodup : arrived.Nodup) (item : α) :
    StablySorted compare (arrived.erase item) (l.erase item) where
  sorted := h.sorted.sublist List.erase_sublist
  perm := h.perm.erase item
  ties x := by
    have hties := h.ties x
    rw [hnodup.erase_eq_filter, (h.perm.nodup_iff.mpr hnodup).erase_eq_filter]
    simp only [tiesOf] at hties ⊢
    rw [List.filter_comm, hties, List.filter_comm]

/-- The front is the earliest of the smallest. -/
theorem StablySorted.head?_eq (h : StablySorted compare arrived l) :
    l.head? = earliestMin compare arrived := by
  cases l with
  | nil =>
    rw [h.perm.nil_eq.symm]
    rfl
  | cons first rest =>
    have hleast : ∀ y ∈ arrived, compare first y ≤ 0 := by
      intro y hy
      rcases List.mem_cons.mp (h.perm.mem_iff.mpr hy) with rfl | hy
      · exact Int.le_of_eq (hc.refl y)
      · exact (List.pairwise_cons.mp h.sorted).1 y hy
    -- among its ties it was the first to arrive
    have hties := (h.ties first).symm
    rw [tiesOf, tiesOf, List.filter_cons_of_pos (by simpa using hc.refl first)] at hties
    obtain ⟨front, behind, harrived, hfront, -, -⟩ := List.filter_eq_cons_iff.mp hties
    rw [List.head?_cons, earliestMin, eq_comm, List.find?_eq_some_iff_append]
    refine ⟨by simpa using hleast, front, behind, harrived, fun y hy ↦ ?_⟩
    have hmem : y ∈ arrived := harrived ▸ List.mem_append_left _ hy
    have hne : ¬compare first y = 0 := by simpa using hfront y hy
    have hlt : compare first y < 0 := by
      have := hleast y hmem
      omega
    have hfirst : first ∈ arrived :=
      harrived ▸ List.mem_append_right _ List.mem_cons_self
    have := (hc.swap first y).mp hlt
    simp only [Bool.not_eq_eq_eq_not, Bool.not_true, List.all_eq_false]
    exact ⟨first, hfirst, by simpa using this⟩

end order

/-! ## The code -/

namespace LinkedList

/-- The loop of `SortedList<T>::Insert`: `ptr` is at position `i`, with `rest` behind it. The result
is the position behind which the item goes, if it goes before some element. -/
def findPlace (compare : α → α → ℤ) (item : α) : List α → ℕ → Option ℕ
  | [], _ => none
  | next :: rest, i =>
    if compare item next < 0 then some i else findPlace compare item rest (i + 1)

/-- The element is linked behind the one at position `i`. -/
def linkBehind (l : LinkedList α) (i : ℕ) (item : α) : LinkedList α where
  chain := l.chain.take (i + 1) ++ item :: l.chain.drop (i + 1)
  last := l.last.map fun p ↦ if i < p then p + 1 else p
  numInList := l.numInList + 1

/-- `SortedList<T>::Insert`. -/
def insert [DecidableEq α] (compare : α → α → ℤ) (l : LinkedList α) (item : α) :
    Option (LinkedList α) := do
  guard (item ∉ l.chain)
  if l.isEmpty then
    let l' := l.linkOnly item
    guard (item ∈ l'.chain)
    some l'
  else
    match l.chain with
    | [] => none
    | first :: rest =>
      if compare item first < 0 then
        let l' := l.linkFront item
        guard (item ∈ l'.chain)
        some l'
      else
        match findPlace compare item rest 0 with
        | some i => some (l.linkBehind i item)
        | none => do
          let l' ← l.linkLast item
          guard (item ∈ l'.chain)
          some l'

/-- The loop of `SortedList<T>::SanityCheck`. -/
def checkSorted (compare : α → α → ℤ) : List α → Option Unit
  | prev :: ptr :: rest => do
    guard (compare prev ptr ≤ 0)
    checkSorted compare (ptr :: rest)
  | _ => some ()

/-- `SortedList<T>::SanityCheck`. -/
def sortedSanityCheck (compare : α → α → ℤ) (l : LinkedList α) : Option Unit := do
  l.sanityCheck
  if l.last = some 0 then some () else checkSorted compare l.chain

/-! ## The four ways out of `Insert` -/

section insert

variable {compare : α → α → ℤ} {item : α}

private theorem findPlace_cases (compare : α → α → ℤ) (item : α) (rest : List α) (i : ℕ) :
    (findPlace compare item rest i = none ∧ insertSorted compare item rest = rest ++ [item]) ∨
    ∃ j < rest.length, findPlace compare item rest i = some (i + j) ∧
      insertSorted compare item rest = rest.take j ++ item :: rest.drop j := by
  induction rest generalizing i with
  | nil => exact .inl ⟨rfl, rfl⟩
  | cons next rest ih =>
    rw [findPlace, insertSorted]
    by_cases hlt : compare item next < 0
    · rw [if_pos hlt, if_pos hlt]
      exact .inr ⟨0, Nat.succ_pos _, rfl, rfl⟩
    · rw [if_neg hlt, if_neg hlt]
      rcases ih (i + 1) with ⟨hplace, hinsert⟩ | ⟨j, hj, hplace, hinsert⟩
      · exact .inl ⟨hplace, by rw [hinsert, List.cons_append]⟩
      · refine .inr ⟨j + 1, by simpa using hj, ?_, ?_⟩
        · rw [hplace, Nat.add_right_comm, Nat.add_assoc]
        · rw [hinsert]
          rfl

private theorem linkBehind_ofList {xs : List α} {i : ℕ} (hi : i + 1 < xs.length) :
    (ofList xs).linkBehind i item = ofList (xs.take (i + 1) ++ item :: xs.drop (i + 1)) := by
  have hchain : ((ofList xs).linkBehind i item).chain
      = xs.take (i + 1) ++ item :: xs.drop (i + 1) := by
    rw [linkBehind, ofList_chain]
  have hlen : (xs.take (i + 1) ++ item :: xs.drop (i + 1)).length = xs.length + 1 := by
    rw [List.length_append, List.length_cons, List.length_take, List.length_drop]
    omega
  have hxs : xs ≠ [] := List.ne_nil_of_length_pos (by omega)
  rw [← hchain]
  refine eq_ofList ?_ ?_ ?_
  · rw [hchain]
    exact List.append_ne_nil_of_right_ne_nil _ (List.cons_ne_nil _ _)
  · rw [hchain, hlen, linkBehind, ofList_last hxs, Option.map_some, if_pos (by omega)]
    exact congrArg some (by omega)
  · rw [hchain, hlen, linkBehind, ofList_numInList]
    rfl

/-- `Insert` on the pointers is `sortedListInsert` on the items. -/
private theorem insert_ofList [DecidableEq α] (xs : List α) (item : α) :
    (ofList xs).insert compare item = (sortedListInsert compare xs item).map ofList := by
  by_cases hmem : item ∈ xs
  · rw [insert, ofList_chain, sortedListInsert, if_pos hmem]
    exact congrArg (· >>= _) (if_neg (not_not_intro hmem))
  · rw [insert, ofList_chain, guard_of_true hmem, sortedListInsert, if_neg hmem, isEmpty_ofList]
    cases xs with
    | nil => simp [linkOnly, empty, ofList, insertSorted]
    | cons first rest =>
      simp only [Option.bind_eq_bind, Option.bind_some, List.isEmpty_cons, Bool.false_eq_true,
        if_false, insertSorted, Option.map_some]
      by_cases hlt : compare item first < 0
      · rw [if_pos hlt, if_pos hlt, linkFront_ofList (List.cons_ne_nil _ _), ofList_chain,
          guard_of_true List.mem_cons_self, Option.bind_some]
      · rw [if_neg hlt, if_neg hlt]
        rcases findPlace_cases compare item rest 0 with ⟨hplace, hinsert⟩ | ⟨j, hj, hplace, hinsert⟩
        · have hin : item ∈ first :: rest ++ [item] := List.mem_append_right _ List.mem_cons_self
          simp only [hplace, linkLast_ofList (List.cons_ne_nil _ _), Option.bind_some, ofList_chain,
            guard_of_true hin]
          rw [hinsert, List.cons_append]
        · simp only [hplace, Nat.zero_add]
          rw [linkBehind_ofList (by simpa using hj), hinsert]
          rfl

end insert

private theorem checkSorted_of_pairwise {compare : α → α → ℤ} {l : List α}
    (h : l.Pairwise fun x y ↦ compare x y ≤ 0) : checkSorted compare l = some () := by
  induction l with
  | nil => rfl
  | cons prev rest ih =>
    obtain ⟨hprev, hrest⟩ := List.pairwise_cons.mp h
    cases rest with
    | nil => rfl
    | cons ptr rest =>
      rw [checkSorted, guard_of_true (hprev ptr List.mem_cons_self)]
      exact ih hrest

private theorem sortedSanityCheck_ofList {compare : α → α → ℤ} {xs : List α}
    (h : xs.Pairwise fun x y ↦ compare x y ≤ 0) :
    (ofList xs).sortedSanityCheck compare = some () := by
  rw [sortedSanityCheck, sanityCheck_ofList, ofList_chain, checkSorted_of_pairwise h]
  exact ite_self _

end LinkedList

/-! ## Sequences of operations -/

/-- An operation on a sorted list. -/
inductive SortedListOp (α : Type) where
  | insert (item : α)
  | remove (item : α)
  | removeFront

namespace SortedListOp

variable [DecidableEq α] (compare : α → α → ℤ)

/-- The code of the operation. -/
def run (l : LinkedList α) : SortedListOp α → Option (LinkedList α)
  | insert item => l.insert compare item
  | remove item => l.remove item
  | removeFront => l.removeFront.map Prod.snd

/-- The items after the operation, in the order of their insertion. -/
def arrive (arrived : List α) : SortedListOp α → List α
  | insert item => arrived ++ [item]
  | remove item => arrived.erase item
  | removeFront =>
    match earliestMin compare arrived with
    | some item => arrived.erase item
    | none => arrived

/-- An item may be inserted if it is not in the list and removed if it is; there is a front if the
list is not empty. -/
def Allowed (arrived : List α) : SortedListOp α → Prop
  | insert item => item ∉ arrived
  | remove item => item ∈ arrived
  | removeFront => arrived ≠ []

/-- Every operation of the sequence is allowed when it is reached. -/
def AllAllowed (arrived : List α) (ops : List (SortedListOp α)) : Prop :=
  Along (fun arrived op ↦ some (op.arrive compare arrived)) Allowed arrived ops

instance decidableAllowed (arrived : List α) (op : SortedListOp α) :
    Decidable (op.Allowed arrived) :=
  match op with
  | insert item => inferInstanceAs (Decidable (item ∉ arrived))
  | remove item => inferInstanceAs (Decidable (item ∈ arrived))
  | removeFront => inferInstanceAs (Decidable (arrived ≠ []))

instance decidableAllAllowed (arrived : List α) (ops : List (SortedListOp α)) :
    Decidable (AllAllowed compare arrived ops) :=
  inferInstanceAs (Decidable (Along _ _ _ _))

/-- The list after a sequence of operations. -/
def runAll (l : LinkedList α) (ops : List (SortedListOp α)) : Option (LinkedList α) :=
  ops.foldlM (run compare) l

/-- The items after a sequence of operations. -/
def arriveAll (arrived : List α) (ops : List (SortedListOp α)) : List α :=
  ops.foldl (arrive compare) arrived

variable {compare} (hc : TotalPreorder compare) {arrived xs : List α}

include hc

/-- One operation: no assertion fails, and the list stays stably sorted. -/
private theorem run_ofList (hnodup : arrived.Nodup) (h : StablySorted compare arrived xs)
    {op : SortedListOp α} (hop : op.Allowed arrived) :
    ∃ xs', op.run compare (.ofList xs) = some (.ofList xs') ∧
      (op.arrive compare arrived).Nodup ∧
      StablySorted compare (op.arrive compare arrived) xs' := by
  have hnodup' := h.perm.nodup_iff.mpr hnodup
  cases op with
  | insert item =>
    have hnot : item ∉ xs := fun hmem ↦ hop (h.perm.mem_iff.mp hmem)
    refine ⟨insertSorted compare item xs, ?_, ?_, h.insert hc item⟩
    · rw [run, LinkedList.insert_ofList, sortedListInsert, if_neg hnot, Option.map_some]
    · exact (List.perm_append_singleton item arrived).nodup_iff.mpr
        (List.nodup_cons.mpr ⟨hop, hnodup⟩)
  | remove item =>
    refine ⟨xs.erase item, ?_, hnodup.erase item, h.erase hnodup item⟩
    exact LinkedList.remove_ofList (h.perm.mem_iff.mpr hop) hnodup'.not_mem_erase
  | removeFront =>
    cases xs with
    | nil => exact absurd h.perm.nil_eq.symm hop
    | cons first rest =>
      have hfirst := h.head?_eq hc
      have herase := h.erase hnodup first
      rw [List.erase_cons_head] at herase
      refine ⟨rest, ?_, ?_, ?_⟩
      · rw [run, LinkedList.removeFront_ofList]
        rfl
      · rw [arrive, ← hfirst]
        exact hnodup.erase first
      · rw [arrive, ← hfirst]
        exact herase

private theorem runAll_ofList (hnodup : arrived.Nodup) (h : StablySorted compare arrived xs)
    {ops : List (SortedListOp α)} (hops : AllAllowed compare arrived ops) :
    ∃ xs', runAll compare (.ofList xs) ops = some (.ofList xs') ∧
      StablySorted compare (arriveAll compare arrived ops) xs' := by
  obtain ⟨_, _, arrived', hrun, harrive, xs', rfl, -, h', -⟩ := Steps.simulates
    (fun l op (_ : Unit) l' ↦ op.run compare l = some l')
    (fun arrived op _ arrived' ↦ op.arrive compare arrived = arrived')
    (fun l arrived ops ↦ ∃ xs, l = .ofList xs ∧ arrived.Nodup ∧
      StablySorted compare arrived xs ∧ AllAllowed compare arrived ops)
    (fun l arrived op ops hR ↦ by
      obtain ⟨xs, rfl, hnodup, h, hops⟩ := hR
      obtain ⟨xs₁, hrun, hnodup₁, h₁⟩ := run_ofList hc hnodup h hops.1
      exact ⟨(), _, _, hrun, rfl, xs₁, rfl, hnodup₁, h₁, hops.2 _ rfl⟩)
    ops ⟨xs, rfl, hnodup, h, hops⟩
  have harrived : arriveAll compare arrived ops = arrived' := harrive.foldl_eq
  rw [harrived]
  exact ⟨xs', hrun.foldlM_eq, h'⟩

/-- **A sorted list is sorted, stable and lossless.** After any sequence of operations that are
allowed it holds the items inserted and not removed, in order, with ties in the order of their
insertion; the next `RemoveFront` takes the earliest of the smallest; and both of its `SanityCheck`s
pass. -/
theorem sortedList_stable {ops : List (SortedListOp α)} (hops : AllAllowed compare [] ops) :
    ∃ l, runAll compare LinkedList.empty ops = some l ∧
      l.chain.Pairwise (fun x y ↦ compare x y ≤ 0) ∧
      l.chain.Perm (arriveAll compare [] ops) ∧
      (∀ x, tiesOf compare x l.chain = tiesOf compare x (arriveAll compare [] ops)) ∧
      l.removeFront.map Prod.fst = earliestMin compare (arriveAll compare [] ops) ∧
      l.sanityCheck = some () ∧ l.sortedSanityCheck compare = some () := by
  obtain ⟨xs, hrun, h⟩ := runAll_ofList hc List.nodup_nil
    (⟨List.Pairwise.nil, List.Perm.refl [], fun _ ↦ rfl⟩ : StablySorted compare [] []) hops
  refine ⟨.ofList xs, hrun, ?_, ?_, ?_, ?_, ?_, ?_⟩
  · rw [LinkedList.ofList_chain]
    exact h.sorted
  · rw [LinkedList.ofList_chain]
    exact h.perm
  · rw [LinkedList.ofList_chain]
    exact h.ties
  · rw [← h.head?_eq hc, LinkedList.removeFront_ofList]
    cases xs <;> rfl
  · exact LinkedList.sanityCheck_ofList xs
  · exact LinkedList.sortedSanityCheck_ofList h.sorted

end SortedListOp

/-- Pairs compared by their first component. -/
def comparePairs (x y : ℤ × ℤ) : ℤ := x.1 - y.1

private theorem comparePairs_totalPreorder : TotalPreorder comparePairs where
  swap x y := by
    simp only [comparePairs]
    omega
  trans x y z := by
    simp only [comparePairs]
    omega

/-- Four pairs, of which the second and the third compare equal; the second is taken from the front
and the first removed. -/
def pairOps : List (SortedListOp (ℤ × ℤ)) :=
  [.insert (2, 0), .insert (1, 1), .insert (1, 2), .removeFront, .insert (2, 3), .remove (2, 0)]

/-- Of the two that compare equal the later one is left, at the front. -/
theorem pairOps_stable :
    SortedListOp.arriveAll comparePairs [] pairOps = [(1, 2), (2, 3)] ∧
      ∃ l, SortedListOp.runAll comparePairs LinkedList.empty pairOps = some l ∧
        l.chain.Pairwise (fun x y ↦ comparePairs x y ≤ 0) ∧
        l.chain.Perm (SortedListOp.arriveAll comparePairs [] pairOps) ∧
        (∀ x, tiesOf comparePairs x l.chain
          = tiesOf comparePairs x (SortedListOp.arriveAll comparePairs [] pairOps)) ∧
        l.removeFront.map Prod.fst
          = earliestMin comparePairs (SortedListOp.arriveAll comparePairs [] pairOps) ∧
        l.sanityCheck = some () ∧ l.sortedSanityCheck comparePairs = some () :=
  ⟨by decide, SortedListOp.sortedList_stable comparePairs_totalPreorder (by decide)⟩

end Nachos
