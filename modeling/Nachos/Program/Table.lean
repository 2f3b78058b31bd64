import Mathlib.Data.Finmap

/-!
# A table with keys is a finite map

Some of the places of a table are used, and each used place has a key and a value. When no two of
them have the same key the table is a finite map, `Tabulates`. The rules say what becomes of the map
when a free place is filled in, when a place is given up, and when a value changes.
-/

namespace Nachos

namespace Program

variable {κ β : Type}

/-- The used places, by their keys, are the map `m`. -/
structure Tabulates [DecidableEq κ] (used : ℕ → Prop) (key : ℕ → κ) (value : ℕ → β)
    (m : Finmap fun _ : κ ↦ β) : Prop where
  distinct : ∀ i j, used i → used j → key i = key j → i = j
  lookup_iff : ∀ c b, m.lookup c = some b ↔ ∃ i, used i ∧ key i = c ∧ value i = b

namespace Tabulates

variable [DecidableEq κ] {used used' : ℕ → Prop} {key key' : ℕ → κ} {value value' : ℕ → β}
  {m : Finmap fun _ : κ ↦ β} {k : ℕ}

/-- With no place used there are no keys. -/
theorem empty (hfree : ∀ i, ¬used i) : Tabulates used key value ∅ := by
  refine ⟨fun i _ hi ↦ absurd hi (hfree i), fun c b ↦ ?_⟩
  rw [Finmap.lookup_empty]
  refine iff_of_false (by simp) ?_
  rintro ⟨i, hi, -⟩
  exact hfree i hi

section rules

variable (h : Tabulates used key value m)

include h

theorem mem_iff (c : κ) : c ∈ m ↔ ∃ i, used i ∧ key i = c := by
  rw [Finmap.mem_iff]
  constructor
  · rintro ⟨b, hb⟩
    obtain ⟨i, hi, hkey, -⟩ := (h.lookup_iff c b).mp hb
    exact ⟨i, hi, hkey⟩
  · rintro ⟨i, hi, hkey⟩
    exact ⟨_, (h.lookup_iff c _).mpr ⟨i, hi, hkey, rfl⟩⟩

theorem lookup_key {i : ℕ} (hi : used i) : m.lookup (key i) = some (value i) :=
  (h.lookup_iff _ _).mpr ⟨i, hi, rfl, rfl⟩

/-- There are as many keys as used places. -/
theorem card_keys [DecidablePred used] {n : ℕ} (hlt : ∀ i, used i → i < n) :
    m.keys.card = ((Finset.range n).filter used).card := by
  have hkeys : m.keys = ((Finset.range n).filter used).image key := by
    ext c
    rw [Finmap.mem_keys, h.mem_iff, Finset.mem_image]
    refine exists_congr fun i ↦ and_congr_left' ?_
    rw [Finset.mem_filter, Finset.mem_range]
    exact ⟨fun hi ↦ ⟨hlt i hi, hi⟩, And.right⟩
  rw [hkeys, Finset.card_image_of_injOn]
  intro i hi j hj heq
  rw [Finset.mem_coe, Finset.mem_filter] at hi hj
  exact h.distinct i j hi.2 hj.2 heq

/-- A free place is filled in, under a new key. -/
theorem insert (hfree : ¬used k) (hused : ∀ i, used' i ↔ used i ∨ i = k)
    (hkey : ∀ i, used i → key' i = key i) (hvalue : ∀ i, used i → value' i = value i)
    (hnew : key' k ∉ m) : Tabulates used' key' value' (m.insert (key' k) (value' k)) := by
  have hother : ∀ i, used i → key' i ≠ key' k := fun i hi heq ↦
    hnew ((h.mem_iff _).mpr ⟨i, hi, (hkey i hi).symm.trans heq⟩)
  constructor
  · intro i j hi hj heq
    rcases (hused i).mp hi with hi | rfl
    · rcases (hused j).mp hj with hj | rfl
      · rw [hkey i hi, hkey j hj] at heq
        exact h.distinct i j hi hj heq
      · exact absurd heq (hother i hi)
    · rcases (hused j).mp hj with hj | rfl
      · exact absurd heq.symm (hother j hj)
      · rfl
  · intro c b
    by_cases hc : c = key' k
    · subst hc
      rw [Finmap.lookup_insert]
      constructor
      · rintro ⟨⟩
        exact ⟨k, (hused k).mpr (.inr rfl), rfl, rfl⟩
      · rintro ⟨i, hi, heq, rfl⟩
        rcases (hused i).mp hi with hi | rfl
        · exact absurd heq (hother i hi)
        · rfl
    · rw [Finmap.lookup_insert_of_ne m hc, h.lookup_iff]
      constructor
      · rintro ⟨i, hi, rfl, rfl⟩
        exact ⟨i, (hused i).mpr (.inl hi), hkey i hi, hvalue i hi⟩
      · rintro ⟨i, hi, rfl, rfl⟩
        rcases (hused i).mp hi with hi | rfl
        · exact ⟨i, hi, (hkey i hi).symm, (hvalue i hi).symm⟩
        · exact absurd rfl hc

/-- A place is given up. -/
theorem erase (hk : used k) (hused : ∀ i, used' i ↔ used i ∧ i ≠ k)
    (hkey : ∀ i, used' i → key' i = key i) (hvalue : ∀ i, used' i → value' i = value i) :
    Tabulates used' key' value' (m.erase (key k)) := by
  constructor
  · intro i j hi hj heq
    rw [hkey i hi, hkey j hj] at heq
    exact h.distinct i j ((hused i).mp hi).1 ((hused j).mp hj).1 heq
  · intro c b
    by_cases hc : c = key k
    · subst hc
      rw [Finmap.lookup_erase]
      refine iff_of_false (by simp) ?_
      rintro ⟨i, hi, heq, -⟩
      rw [hkey i hi] at heq
      obtain ⟨hi, hne⟩ := (hused i).mp hi
      exact hne (h.distinct i k hi hk heq)
    · rw [Finmap.lookup_erase_ne hc, h.lookup_iff]
      constructor
      · rintro ⟨i, hi, rfl, rfl⟩
        have hi' : used' i := (hused i).mpr ⟨hi, fun heq ↦ hc (heq ▸ rfl)⟩
        exact ⟨i, hi', hkey i hi', hvalue i hi'⟩
      · rintro ⟨i, hi, rfl, rfl⟩
        exact ⟨i, ((hused i).mp hi).1, (hkey i hi).symm, (hvalue i hi).symm⟩

/-- The value in one place changes. -/
theorem update (hk : used k) (hused : ∀ i, used' i ↔ used i) (hkey : ∀ i, used i → key' i = key i)
    (hvalue : ∀ i, used i → i ≠ k → value' i = value i) :
    Tabulates used' key' value' (m.insert (key k) (value' k)) := by
  constructor
  · intro i j hi hj heq
    have hi := (hused i).mp hi
    have hj := (hused j).mp hj
    rw [hkey i hi, hkey j hj] at heq
    exact h.distinct i j hi hj heq
  · intro c b
    by_cases hc : c = key k
    · subst hc
      rw [Finmap.lookup_insert]
      constructor
      · rintro ⟨⟩
        exact ⟨k, (hused k).mpr hk, hkey k hk, rfl⟩
      · rintro ⟨i, hi, heq, rfl⟩
        have hi := (hused i).mp hi
        rw [hkey i hi] at heq
        rw [h.distinct i k hi hk heq]
    · rw [Finmap.lookup_insert_of_ne m hc, h.lookup_iff]
      refine exists_congr fun i ↦ ⟨?_, ?_⟩
      · rintro ⟨hi, rfl, rfl⟩
        exact ⟨(hused i).mpr hi, hkey i hi, hvalue i hi fun heq ↦ hc (heq ▸ rfl)⟩
      · rintro ⟨hi, rfl, rfl⟩
        have hi := (hused i).mp hi
        refine ⟨hi, (hkey i hi).symm, (hvalue i hi fun heq ↦ hc ?_).symm⟩
        rw [hkey i hi, heq]

end rules

end Tabulates

end Program

end Nachos
