import Mathlib.Data.List.Basic
import Mathlib.Logic.Function.Basic

/-!
# Linked cells

Memory is a function from addresses to cells, and a cell has an item and the address of the next
one. `Segment h a cells b` says what is met on the way from the pointer `a` along the cells to the
pointer `b`; a whole list is a segment that ends in the null pointer. Segments are put together and
taken apart like lists, and a store outside of a segment leaves it as it is.
-/

namespace Nachos

namespace Program

/-- A cell of a singly linked list. -/
structure Cell (P α : Type) where
  item : α
  next : Option P
  deriving DecidableEq, Repr

variable {P α : Type}

/-- The cells met from `a` on, each with its address, before `b` is reached. -/
def Segment (h : P → Option (Cell P α)) : Option P → List (P × α) → Option P → Prop
  | a, [], b => a = b
  | a, (p, x) :: cells, b => a = some p ∧ ∃ next, h p = some ⟨x, next⟩ ∧ Segment h next cells b

section segment

variable {h h' : P → Option (Cell P α)} {a b : Option P} {p : P} {x : α} {cells : List (P × α)}

theorem segment_append {cells' : List (P × α)} :
    Segment h a (cells ++ cells') b ↔ ∃ m, Segment h a cells m ∧ Segment h m cells' b := by
  induction cells generalizing a with
  | nil => exact ⟨fun hseg ↦ ⟨a, rfl, hseg⟩, fun ⟨m, ham, hseg⟩ ↦ ham ▸ hseg⟩
  | cons c cells ih =>
    constructor
    · rintro ⟨ha, next, hc, hrest⟩
      obtain ⟨m, hfront, hseg⟩ := ih.mp hrest
      exact ⟨m, ⟨ha, next, hc, hfront⟩, hseg⟩
    · rintro ⟨m, ⟨ha, next, hc, hfront⟩, hseg⟩
      exact ⟨ha, next, hc, ih.mpr ⟨m, hfront, hseg⟩⟩

/-- A segment with one more cell at its end. -/
theorem segment_concat :
    Segment h a (cells ++ [(p, x)]) b ↔ Segment h a cells (some p) ∧ h p = some ⟨x, b⟩ := by
  rw [segment_append]
  constructor
  · rintro ⟨m, hfront, rfl, next, hp, rfl⟩
    exact ⟨hfront, hp⟩
  · rintro ⟨hfront, hp⟩
    exact ⟨some p, hfront, rfl, b, hp, rfl⟩

/-- There is a cell at each address of a segment. -/
theorem Segment.ne_none (hseg : Segment h a cells b) (hp : p ∈ cells.map Prod.fst) :
    h p ≠ none := by
  induction cells generalizing a with
  | nil => exact absurd hp List.not_mem_nil
  | cons c cells ih =>
    obtain ⟨-, next, hc, hrest⟩ := hseg
    rcases List.mem_cons.mp hp with rfl | hp
    · exact hc ▸ Option.some_ne_none _
    · exact ih hrest hp

/-- Only the memory at its own addresses matters to a segment. -/
theorem Segment.congr (hseg : Segment h a cells b) (heq : ∀ q ∈ cells.map Prod.fst, h' q = h q) :
    Segment h' a cells b := by
  induction cells generalizing a with
  | nil => exact hseg
  | cons c cells ih =>
    obtain ⟨ha, next, hc, hrest⟩ := hseg
    rw [List.map_cons, List.forall_mem_cons] at heq
    exact ⟨ha, next, heq.1.trans hc, ih hrest heq.2⟩

theorem Segment.update [DecidableEq P] (hseg : Segment h a cells b)
    (hp : p ∉ cells.map Prod.fst) (c : Option (Cell P α)) :
    Segment (Function.update h p c) a cells b :=
  hseg.congr fun _ hq ↦ Function.update_of_ne (ne_of_mem_of_not_mem hq hp) c h

end segment

end Program

end Nachos
