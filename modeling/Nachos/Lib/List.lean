import Mathlib.Data.Int.Notation

/-!
# Lists of the source

`List<T>` is a chain of elements with a pointer to its last one. `Append` asserts that the item is
not in the list yet, `RemoveFront` that there is something to remove. `SortedList<T>::Insert` walks
past every element that the new one is not smaller than. A list of the source is a `List`; an
operation whose assertion fails has no result.
-/

namespace Nachos

variable {α : Type}

/-- `List<T>::Append`. -/
def listAppend [DecidableEq α] (l : List α) (item : α) : Option (List α) :=
  if item ∈ l then none else some (l ++ [item])

/-- `List<T>::RemoveFront`. -/
def listRemoveFront : List α → Option (α × List α)
  | [] => none
  | first :: rest => some (first, rest)

/-- The place `SortedList<T>::Insert` finds for an item: before the first element it is smaller
than. -/
def insertSorted (compare : α → α → ℤ) (item : α) : List α → List α
  | [] => [item]
  | first :: rest =>
    if compare item first < 0 then item :: first :: rest
    else first :: insertSorted compare item rest

/-- `SortedList<T>::Insert`. -/
def sortedListInsert [DecidableEq α] (compare : α → α → ℤ) (l : List α) (item : α) :
    Option (List α) :=
  if item ∈ l then none else some (insertSorted compare item l)

theorem listAppend_of_not_mem [DecidableEq α] {l : List α} {item : α} (h : item ∉ l) :
    listAppend l item = some (l ++ [item]) := if_neg h

section insertSorted

variable {compare : α → α → ℤ} {item : α}

theorem perm_insertSorted (compare : α → α → ℤ) (item : α) (l : List α) :
    (insertSorted compare item l).Perm (item :: l) := by
  induction l with
  | nil => exact List.Perm.refl _
  | cons first rest ih =>
    rw [insertSorted]
    split
    · exact List.Perm.refl _
    · exact (ih.cons first).trans (List.Perm.swap item first rest)

theorem mem_insertSorted {l : List α} {x : α} :
    x ∈ insertSorted compare item l ↔ x = item ∨ x ∈ l := by
  rw [(perm_insertSorted compare item l).mem_iff, List.mem_cons]

/-- Elements the item is not smaller than are walked past. -/
theorem insertSorted_append {l l' : List α} (h : ∀ x ∈ l, ¬compare item x < 0) :
    insertSorted compare item (l ++ l') = l ++ insertSorted compare item l' := by
  induction l with
  | nil => rfl
  | cons first rest ih =>
    rw [List.cons_append, insertSorted, if_neg (h first List.mem_cons_self),
      ih fun x hx ↦ h x (List.mem_cons_of_mem _ hx), List.cons_append]

/-- A list stays in order when the item belongs after each element it is walked past, and before
each element it is smaller than and all that follow. -/
theorem pairwise_insertSorted {r : α → α → Prop} (htrans : ∀ x y z, r x y → r y z → r x z)
    {l : List α} (h : l.Pairwise r) (hlt : ∀ x ∈ l, compare item x < 0 → r item x)
    (hge : ∀ x ∈ l, ¬compare item x < 0 → r x item) :
    (insertSorted compare item l).Pairwise r := by
  induction l with
  | nil => exact List.pairwise_singleton r item
  | cons first rest ih =>
    obtain ⟨hfirst, hrest⟩ := List.pairwise_cons.mp h
    rw [insertSorted]
    by_cases hc : compare item first < 0
    · rw [if_pos hc, List.pairwise_cons]
      refine ⟨fun x hx ↦ ?_, h⟩
      have hr := hlt first List.mem_cons_self hc
      rcases List.mem_cons.mp hx with rfl | hx
      · exact hr
      · exact htrans _ _ _ hr (hfirst x hx)
    · rw [if_neg hc, List.pairwise_cons]
      refine ⟨fun x hx ↦ ?_, ih hrest (fun x hx ↦ hlt x (List.mem_cons_of_mem _ hx))
        fun x hx ↦ hge x (List.mem_cons_of_mem _ hx)⟩
      rcases mem_insertSorted.mp hx with rfl | hx
      · exact hge first List.mem_cons_self hc
      · exact hfirst x hx

end insertSorted

end Nachos
