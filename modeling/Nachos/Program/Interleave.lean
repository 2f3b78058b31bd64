import Mathlib.Logic.Function.Basic

/-!
# Threads that take turns

Any number of threads share a state; each has a place of its own, its program counter and local
variables. When a thread is given a turn it moves, or it cannot go on, or it stops the system. A run
gives turns in any order, and between two turns something outside the threads may change the shared
state.

A fact that holds at first and is kept by every turn and by the outside holds wherever a run leads:
`Reaches.invariant`.
-/

namespace Nachos

namespace Program

variable {T S L ι ε : Type}

/-- What comes of a turn. -/
inductive Turn (ε S L : Type) where
  /-- The thread cannot go on now. -/
  | blocked
  | crashed (e : ε)
  | moved (shared : S) (place : L)
  deriving DecidableEq, Repr

/-- A turn of a part of the system, completed to one of the whole. -/
def Turn.bind {S' L' : Type} (x : Turn ε S L) (f : S → L → Turn ε S' L') : Turn ε S' L' :=
  match x with
  | .blocked => .blocked
  | .crashed e => .crashed e
  | .moved s l => f s l

/-- The same turn with another account of the crash. -/
def Turn.mapCrash {ε' : Type} (g : ε → ε') : Turn ε S L → Turn ε' S L
  | .blocked => .blocked
  | .crashed e => .crashed (g e)
  | .moved s l => .moved s l

theorem Turn.mapCrash_moved {ε' : Type} {g : ε → ε'} {x : Turn ε S L} {s : S} {l : L} :
    x.mapCrash g = .moved s l ↔ x = .moved s l := by
  cases x <;> simp [mapCrash]

theorem Turn.mapCrash_crashed {ε' : Type} {g : ε → ε'} {x : Turn ε S L} {e : ε'}
    (h : x.mapCrash g = .crashed e) : ∃ e', x = .crashed e' := by
  cases x with
  | blocked => cases h
  | crashed e' => exact ⟨e', rfl⟩
  | moved s l => cases h

theorem Turn.bind_moved {S' L' : Type} {x : Turn ε S L} {f : S → L → Turn ε S' L'} {s' : S'}
    {l' : L'} (h : x.bind f = .moved s' l') :
    ∃ s l, x = .moved s l ∧ f s l = .moved s' l' := by
  cases x with
  | blocked => cases h
  | crashed e => cases h
  | moved s l => exact ⟨s, l, rfl, h⟩

theorem Turn.bind_crashed {S' L' : Type} {x : Turn ε S L} {f : S → L → Turn ε S' L'} {e : ε}
    (h : x.bind f = .crashed e) :
    x = .crashed e ∨ ∃ s l, x = .moved s l ∧ f s l = .crashed e := by
  cases x with
  | blocked => cases h
  | crashed e' =>
    cases h
    exact Or.inl rfl
  | moved s l => exact Or.inr ⟨s, l, rfl, h⟩

structure Config (T S L : Type) where
  shared : S
  place : T → L

section

variable [DecidableEq T]

/-- The thread `t` has moved. -/
def Config.move (c : Config T S L) (t : T) (shared : S) (place : L) : Config T S L :=
  ⟨shared, Function.update c.place t place⟩

theorem Config.move_self (c : Config T S L) (t : T) (s : S) (l : L) :
    (c.move t s l).place t = l := by
  simp [move]

theorem Config.move_of_ne (c : Config T S L) {t u : T} (h : u ≠ t) (s : S) (l : L) :
    (c.move t s l).place u = c.place u := by
  simp [move, h]

/-- The configurations a run from `c₀` can lead to. A thread makes a choice at each turn. -/
inductive Reaches (turn : T → ι → S → L → Turn ε S L) (outside : S → S → Prop)
    (c₀ : Config T S L) : Config T S L → Prop
  | refl : Reaches turn outside c₀ c₀
  | turn {c : Config T S L} {t : T} {i : ι} {s : S} {l : L} (h : Reaches turn outside c₀ c)
      (ht : turn t i c.shared (c.place t) = .moved s l) : Reaches turn outside c₀ (c.move t s l)
  | outside {c : Config T S L} {s : S} (h : Reaches turn outside c₀ c)
      (hs : outside c.shared s) : Reaches turn outside c₀ ⟨s, c.place⟩

/-- A view of the places, when one thread has moved. -/
theorem view_update {V : Type} (view : L → V) (f : T → L) (t : T) (l : L) :
    (fun u ↦ view (Function.update f t l u))
      = Function.update (fun u ↦ view (f u)) t (view l) :=
  Function.comp_update view f t l

/-- A view that the move does not change. -/
theorem view_update_same {V : Type} (view : L → V) {f : T → L} {t : T} {l : L}
    (h : view l = view (f t)) (u : T) : view (Function.update f t l u) = view (f u) := by
  by_cases hu : u = t
  · rw [hu, Function.update_self, h]
  · rw [Function.update_of_ne hu]

/-- What holds of everything in view, when a thread moves to a place from which nothing else is. -/
theorem forall_view_update {V : Type} {view : L → Option V} {P : V → Prop} {f : T → L} {t : T}
    {l : L} (h : ∀ u x, view (f u) = some x → P x) (hl : ∀ x, view l = some x → P x) :
    ∀ u x, view (Function.update f t l u) = some x → P x :=
  (Function.forall_update_iff f fun _ l ↦ ∀ x, view l = some x → P x).mpr ⟨hl, fun u _ ↦ h u⟩

/-- What is in view when a thread has moved to a place from which nothing is. -/
theorem view_of_update_none {V : Type} (view : L → Option V) {f : T → L} {t u : T} {l : L} {x : V}
    (hl : view l = none) (hu : view (Function.update f t l u) = some x) :
    u ≠ t ∧ view (f u) = some x := by
  by_cases hut : u = t
  · rw [hut, Function.update_self, hl] at hu
    cases hu
  · rw [Function.update_of_ne hut] at hu
    exact ⟨hut, hu⟩

/-- What holds of the threads on a list, when a thread that is not on it moves. -/
theorem forall_mem_update {P : L → Prop} {f : T → L} {t : T} {list : List T}
    (h : ∀ u ∈ list, P (f u)) (ht : t ∉ list) (l : L) :
    ∀ u ∈ list, P (Function.update f t l u) := by
  intro u hu
  have hne : u ≠ t := fun heq ↦ ht (heq ▸ hu)
  rw [Function.update_of_ne hne]
  exact h u hu

variable {turn : T → ι → S → L → Turn ε S L} {outside : S → S → Prop} {c₀ c : Config T S L}

theorem Reaches.invariant (Inv : S → (T → L) → Prop) (h₀ : Inv c₀.shared c₀.place)
    (hturn : ∀ s f t i s' l, Inv s f → turn t i s (f t) = .moved s' l →
      Inv s' (Function.update f t l))
    (houtside : ∀ s f s', Inv s f → outside s s' → Inv s' f)
    (h : Reaches turn outside c₀ c) : Inv c.shared c.place := by
  induction h with
  | refl => exact h₀
  | turn _ ht ih => exact hturn _ _ _ _ _ _ ih ht
  | outside _ hs ih => exact houtside _ _ _ ih hs

/-- The turns of a schedule, as far as none is refused. -/
def Config.follow (turn : T → ι → S → L → Turn ε S L) :
    List (T × ι) → Config T S L → Option (Config T S L)
  | [], c => some c
  | (t, i) :: schedule, c =>
    match turn t i c.shared (c.place t) with
    | .moved s l => (c.move t s l).follow turn schedule
    | _ => none

theorem Reaches.follow {schedule : List (T × ι)} {c' : Config T S L}
    (h : Reaches turn outside c₀ c) (hc : c.follow turn schedule = some c') :
    Reaches turn outside c₀ c' := by
  induction schedule generalizing c with
  | nil =>
    cases hc
    exact h
  | cons choice schedule ih =>
    rw [Config.follow] at hc
    cases ht : turn choice.1 choice.2 c.shared (c.place choice.1) with
    | moved s l =>
      rw [ht] at hc
      exact ih (h.turn ht) hc
    | blocked =>
      rw [ht] at hc
      cases hc
    | crashed e =>
      rw [ht] at hc
      cases hc

end

/-- Nothing outside the threads. -/
def noOutside (_ _ : S) : Prop := False

end Program

end Nachos
