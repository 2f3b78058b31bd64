import Mathlib.Data.Nat.Notation
import Mathlib.Logic.Basic

/-!
# Places and their owners

A pool of `n` places is handed out to owners, and a map records which places are taken. `Owned` says
that the books are right: each live owner has a place of its own, and the map marks exactly the
places that have an owner. So no place is lost and none has two owners. The three rules say when
the books stay right: nothing changes, new owners get free places, or owners leave and give theirs
back.
-/

namespace Nachos

namespace Program

variable {ι : Type} {n : ℕ} {live live' : ι → Prop} {place place' : ι → ℕ} {taken taken' : ℕ → Prop}

/-- Every live owner has a place of its own, and exactly these places are taken. -/
structure Owned (n : ℕ) (live : ι → Prop) (place : ι → ℕ) (taken : ℕ → Prop) : Prop where
  place_lt : ∀ o, live o → place o < n
  injective : ∀ o o', live o → live o' → place o = place o' → o = o'
  taken_iff : ∀ s < n, taken s ↔ ∃ o, live o ∧ place o = s

theorem Owned.taken_place (h : Owned n live place taken) {o : ι} (ho : live o) : taken (place o) :=
  (h.taken_iff _ (h.place_lt o ho)).mpr ⟨o, ho, rfl⟩

theorem Owned.place_ne (h : Owned n live place taken) {o : ι} (ho : live o) {s : ℕ}
    (hs : ¬taken s) : place o ≠ s := fun heq ↦ hs (heq ▸ h.taken_place ho)

/-- Nothing changes. -/
theorem Owned.congr (h : Owned n live place taken) (hlive : ∀ o, live' o ↔ live o)
    (hplace : ∀ o, live o → place' o = place o) (htaken : ∀ s < n, taken' s ↔ taken s) :
    Owned n live' place' taken' where
  place_lt o ho := by
    have ho := (hlive o).mp ho
    rw [hplace o ho]
    exact h.place_lt o ho
  injective o o' ho ho' heq := by
    have ho := (hlive o).mp ho
    have ho' := (hlive o').mp ho'
    rw [hplace o ho, hplace o' ho'] at heq
    exact h.injective o o' ho ho' heq
  taken_iff s hs := by
    rw [htaken s hs, h.taken_iff s hs]
    refine exists_congr fun o ↦ ?_
    rw [hlive o]
    exact and_congr_right fun ho ↦ by rw [hplace o ho]

/-- New owners get free places. -/
theorem Owned.grow (h : Owned n live place taken) (new : ι → Prop)
    (hlive : ∀ o, live' o ↔ live o ∨ new o) (hplace : ∀ o, live o → place' o = place o)
    (hlt : ∀ o, new o → place' o < n) (hfree : ∀ o, new o → ¬taken (place' o))
    (hinj : ∀ o o', new o → new o' → place' o = place' o' → o = o')
    (htaken : ∀ s < n, taken' s ↔ taken s ∨ ∃ o, new o ∧ place' o = s) :
    Owned n live' place' taken' where
  place_lt o ho := by
    rcases (hlive o).mp ho with ho | ho
    · rw [hplace o ho]
      exact h.place_lt o ho
    · exact hlt o ho
  injective o o' ho ho' heq := by
    rcases (hlive o).mp ho with ho | ho <;> rcases (hlive o').mp ho' with ho' | ho'
    · rw [hplace o ho, hplace o' ho'] at heq
      exact h.injective o o' ho ho' heq
    · rw [hplace o ho] at heq
      exact absurd heq (h.place_ne ho (hfree o' ho'))
    · rw [hplace o' ho'] at heq
      exact absurd heq.symm (h.place_ne ho' (hfree o ho))
    · exact hinj o o' ho ho' heq
  taken_iff s hs := by
    rw [htaken s hs, h.taken_iff s hs]
    constructor
    · rintro (⟨o, ho, rfl⟩ | ⟨o, ho, rfl⟩)
      · exact ⟨o, (hlive o).mpr (.inl ho), hplace o ho⟩
      · exact ⟨o, (hlive o).mpr (.inr ho), rfl⟩
    · rintro ⟨o, ho, rfl⟩
      rcases (hlive o).mp ho with ho | ho
      · exact .inl ⟨o, ho, (hplace o ho).symm⟩
      · exact .inr ⟨o, ho, rfl⟩

/-- Owners leave and give their places back. -/
theorem Owned.shrink (h : Owned n live place taken) (old : ι → Prop)
    (hlive : ∀ o, live' o ↔ live o ∧ ¬old o) (hplace : ∀ o, live' o → place' o = place o)
    (htaken : ∀ s < n, taken' s ↔ taken s ∧ ∀ o, live o → old o → place o ≠ s) :
    Owned n live' place' taken' where
  place_lt o ho := by
    rw [hplace o ho]
    exact h.place_lt o ((hlive o).mp ho).1
  injective o o' ho ho' heq := by
    rw [hplace o ho, hplace o' ho'] at heq
    exact h.injective o o' ((hlive o).mp ho).1 ((hlive o').mp ho').1 heq
  taken_iff s hs := by
    rw [htaken s hs, h.taken_iff s hs]
    constructor
    · rintro ⟨⟨o, ho, rfl⟩, hkept⟩
      have ho' : live' o := (hlive o).mpr ⟨ho, fun hold ↦ hkept o ho hold rfl⟩
      exact ⟨o, ho', hplace o ho'⟩
    · rintro ⟨o, ho', rfl⟩
      obtain ⟨ho, hstays⟩ := (hlive o).mp ho'
      refine ⟨⟨o, ho, (hplace o ho').symm⟩, fun o₁ ho₁ hold heq ↦ hstays ?_⟩
      rw [hplace o ho'] at heq
      rwa [← h.injective o₁ o ho₁ ho heq]

end Program

end Nachos
