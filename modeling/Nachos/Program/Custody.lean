import Mathlib.Data.List.Nodup
import Nachos.Program.Interleave

/-!
# Things that are in one place

Objects are kept in lists and carried by threads. Whatever exists is on one list, once, or with one
thread: `Custody`. It is kept when a thread makes a new object, puts one at the end of a list, takes
one from the front or destroys the one it carries. So an object that a thread carries is on no list,
and what a thread destroys nobody else has.

`Tickets` is about numbers that are given out once: a thread holds one until it hands it in, and no
number is handed in twice.
-/

namespace Nachos

namespace Program

variable {T A B K : Type}

/-- What is in whose hands when `t` has got `a`. -/
theorem carried_of_update [DecidableEq T] {hand : T → Option A} {t u : T} {a x : A}
    (hu : Function.update hand t (some a) u = some x) :
    u = t ∧ x = a ∨ u ≠ t ∧ hand u = some x := by
  by_cases hut : u = t
  · rw [hut, Function.update_self] at hu
    exact .inl ⟨hut, (Option.some.inj hu).symm⟩
  · rw [Function.update_of_ne hut] at hu
    exact .inr ⟨hut, hu⟩

/-- Of the objects that are `live`, each is on one of the lists or in one hand. -/
structure Custody (lists : B → List A) (hand : T → Option A) (live : A → Prop) : Prop where
  nodup : ∀ b, (lists b).Nodup
  one_list : ∀ b b' a, a ∈ lists b → a ∈ lists b' → b = b'
  not_listed : ∀ t a, hand t = some a → ∀ b, a ∉ lists b
  one_hand : ∀ t u a, hand t = some a → hand u = some a → t = u
  live_listed : ∀ b, ∀ a ∈ lists b, live a
  live_hand : ∀ t a, hand t = some a → live a

namespace Custody

variable {lists : B → List A} {hand : T → Option A} {live : A → Prop} {a : A} {b : B} {t : T}

theorem nothing : Custody (fun _ : B ↦ ([] : List A)) (fun _ : T ↦ none) fun _ ↦ False := by
  constructor <;> simp

/-- Nothing is moved. -/
theorem congr (h : Custody lists hand live) {hand' : T → Option A} {live' : A → Prop}
    (hhand : ∀ t, hand' t = hand t) (hlive : ∀ a, live' a ↔ live a) :
    Custody lists hand' live' := by
  obtain rfl := funext hhand
  obtain rfl := funext fun a ↦ propext (hlive a)
  exact h

variable [DecidableEq T]

theorem create (h : Custody lists hand live) (hnew : ¬ live a) :
    Custody lists (Function.update hand t (some a)) fun x ↦ x = a ∨ live x := by
  have hlisted : ∀ b, a ∉ lists b := fun b hmem ↦ hnew (h.live_listed b a hmem)
  have hcarried : ∀ u, hand u ≠ some a := fun u hu ↦ hnew (h.live_hand u a hu)
  constructor
  · exact h.nodup
  · exact h.one_list
  · intro u x hu
    rcases carried_of_update hu with ⟨-, rfl⟩ | ⟨-, hu⟩
    · exact hlisted
    · exact h.not_listed u x hu
  · intro u w x hu hw
    rcases carried_of_update hu with ⟨hut, hx⟩ | ⟨-, hu'⟩ <;>
      rcases carried_of_update hw with ⟨hwt, hx'⟩ | ⟨-, hw'⟩
    · rw [hut, hwt]
    · exact absurd (hx ▸ hw') (hcarried w)
    · exact absurd (hx' ▸ hu') (hcarried u)
    · exact h.one_hand u w x hu' hw'
  · exact fun b x hx ↦ .inr (h.live_listed b x hx)
  · intro u x hu
    rcases carried_of_update hu with ⟨-, hx⟩ | ⟨-, hu⟩
    · exact .inl hx
    · exact .inr (h.live_hand u x hu)

/-- What the others carry when `t` carries nothing any more. -/
theorem carried_by_other (h : Custody lists hand live) (ht : hand t = some a) {u : T} {x : A}
    (hu : Function.update hand t none u = some x) : hand u = some x ∧ u ≠ t ∧ x ≠ a := by
  obtain ⟨hut, hu⟩ := view_of_update_none id rfl hu
  refine ⟨hu, hut, ?_⟩
  rintro rfl
  exact hut (h.one_hand u t x hu ht)

theorem destroy (h : Custody lists hand live) (ht : hand t = some a) :
    Custody lists (Function.update hand t none) fun x ↦ x ≠ a ∧ live x := by
  constructor
  · exact h.nodup
  · exact h.one_list
  · exact fun u x hu ↦ h.not_listed u x (h.carried_by_other ht hu).1
  · exact fun u w x hu hw ↦
      h.one_hand u w x (h.carried_by_other ht hu).1 (h.carried_by_other ht hw).1
  · refine fun b x hx ↦ ⟨?_, h.live_listed b x hx⟩
    rintro rfl
    exact h.not_listed t x ht b hx
  · exact fun u x hu ↦
      ⟨(h.carried_by_other ht hu).2.2, h.live_hand u x (h.carried_by_other ht hu).1⟩

variable [DecidableEq B]

theorem store (h : Custody lists hand live) (ht : hand t = some a) :
    Custody (Function.update lists b (lists b ++ [a])) (Function.update hand t none) live := by
  have hmem : ∀ b' x, x ∈ Function.update lists b (lists b ++ [a]) b' →
      x ∈ lists b' ∨ b' = b ∧ x = a := by
    intro b' x hx
    by_cases hb : b' = b
    · rw [hb, Function.update_self, List.mem_append, List.mem_singleton] at hx
      exact hx.imp (fun hx ↦ hb ▸ hx) fun hx ↦ ⟨hb, hx⟩
    · rw [Function.update_of_ne hb] at hx
      exact .inl hx
  constructor
  · intro b'
    by_cases hb : b' = b
    · rw [hb, Function.update_self]
      exact (h.nodup b).append (List.nodup_singleton a)
        (List.disjoint_singleton.mpr (h.not_listed t a ht b))
    · rw [Function.update_of_ne hb]
      exact h.nodup b'
  · intro b₁ b₂ x h₁ h₂
    rcases hmem b₁ x h₁ with h₁ | ⟨hb₁, hx₁⟩ <;> rcases hmem b₂ x h₂ with h₂ | ⟨hb₂, hx₂⟩
    · exact h.one_list b₁ b₂ x h₁ h₂
    · exact absurd (hx₂ ▸ h₁) (h.not_listed t a ht b₁)
    · exact absurd (hx₁ ▸ h₂) (h.not_listed t a ht b₂)
    · rw [hb₁, hb₂]
  · intro u x hu b' hx
    obtain ⟨hu, -, hne⟩ := h.carried_by_other ht hu
    rcases hmem b' x hx with hx | ⟨-, hx⟩
    · exact h.not_listed u x hu b' hx
    · exact hne hx
  · exact fun u w x hu hw ↦
      h.one_hand u w x (h.carried_by_other ht hu).1 (h.carried_by_other ht hw).1
  · intro b' x hx
    rcases hmem b' x hx with hx | ⟨-, rfl⟩
    · exact h.live_listed b' x hx
    · exact h.live_hand t x ht
  · exact fun u x hu ↦ h.live_hand u x (h.carried_by_other ht hu).1

theorem fetch (h : Custody lists hand live) {rest : List A} (hb : lists b = a :: rest) :
    Custody (Function.update lists b rest) (Function.update hand t (some a)) live := by
  have hfront : a ∈ lists b := by
    rw [hb]
    exact List.mem_cons_self
  have hnodup := h.nodup b
  rw [hb, List.nodup_cons] at hnodup
  -- `a` was on this list only, and only once
  have hmem : ∀ b' x, x ∈ Function.update lists b rest b' → x ∈ lists b' ∧ x ≠ a := by
    intro b' x hx
    by_cases hb' : b' = b
    · rw [hb', Function.update_self] at hx
      rw [hb', hb]
      exact ⟨List.mem_cons_of_mem a hx, fun heq ↦ hnodup.1 (heq ▸ hx)⟩
    · rw [Function.update_of_ne hb'] at hx
      refine ⟨hx, fun heq ↦ hb' ?_⟩
      exact h.one_list b' b a (heq ▸ hx) hfront
  have hcarried : ∀ u x, Function.update hand t (some a) u = some x →
      u = t ∧ x = a ∨ hand u = some x ∧ x ≠ a := by
    intro u x hu
    refine (carried_of_update hu).imp_right fun ⟨_, hu'⟩ ↦ ⟨hu', fun heq ↦ ?_⟩
    exact h.not_listed u a (heq ▸ hu') b hfront
  constructor
  · intro b'
    by_cases hb' : b' = b
    · rw [hb', Function.update_self]
      exact hnodup.2
    · rw [Function.update_of_ne hb']
      exact h.nodup b'
  · exact fun b₁ b₂ x h₁ h₂ ↦ h.one_list b₁ b₂ x (hmem b₁ x h₁).1 (hmem b₂ x h₂).1
  · intro u x hu b' hx
    obtain ⟨hx, hne⟩ := hmem b' x hx
    rcases hcarried u x hu with ⟨-, rfl⟩ | ⟨hu, -⟩
    · exact hne rfl
    · exact h.not_listed u x hu b' hx
  · intro u w x hu hw
    rcases hcarried u x hu with ⟨rfl, rfl⟩ | ⟨hu, hne⟩ <;>
      rcases hcarried w x hw with ⟨rfl, hx⟩ | ⟨hw, hne'⟩
    · rfl
    · exact absurd rfl hne'
    · exact absurd hx hne
    · exact h.one_hand u w x hu hw
  · exact fun b' x hx ↦ h.live_listed b' x (hmem b' x hx).1
  · intro u x hu
    rcases hcarried u x hu with ⟨-, rfl⟩ | ⟨hu, -⟩
    · exact h.live_listed b x hfront
    · exact h.live_hand u x hu

end Custody

/-! ## Tickets -/

/-- A ticket that was `issued` is held by one thread or was used once. -/
structure Tickets (issued : K → Prop) (held : T → Option K) (used : List K) : Prop where
  held_issued : ∀ t k, held t = some k → issued k
  unique : ∀ t u k, held t = some k → held u = some k → t = u
  fresh : ∀ t k, held t = some k → k ∉ used
  used_issued : ∀ k ∈ used, issued k
  used_nodup : used.Nodup
  kept : ∀ k, issued k → k ∈ used ∨ ∃ t, held t = some k

namespace Tickets

variable {issued issued' : K → Prop} {held held' : T → Option K} {used : List K} {t : T} {k : K}

theorem none_issued : Tickets (fun _ : K ↦ False) (fun _ : T ↦ none) [] := by
  constructor <;> simp

theorem congr (h : Tickets issued held used) (hheld : ∀ t, held' t = held t)
    (hissued : ∀ k, issued' k ↔ issued k) : Tickets issued' held' used := by
  obtain rfl := funext hheld
  obtain rfl := funext fun k ↦ propext (hissued k)
  exact h

variable [DecidableEq T]

/-- A new ticket is given out. -/
theorem issue (h : Tickets issued held used) (hnew : ¬ issued k) (ht : held t = none)
    (hissued : ∀ k', issued' k' ↔ issued k' ∨ k' = k) :
    Tickets issued' (Function.update held t (some k)) used := by
  have hheld : ∀ u k', Function.update held t (some k) u = some k' →
      u = t ∧ k' = k ∨ held u = some k' ∧ issued k' := by
    intro u k' hu
    exact (carried_of_update hu).imp_right fun ⟨_, hu⟩ ↦ ⟨hu, h.held_issued u k' hu⟩
  constructor
  · intro u k' hu
    rcases hheld u k' hu with ⟨-, rfl⟩ | ⟨-, hk⟩
    · exact (hissued _).mpr (.inr rfl)
    · exact (hissued _).mpr (.inl hk)
  · intro u w k' hu hw
    -- an old ticket is not the new one
    rcases hheld u k' hu with ⟨rfl, rfl⟩ | ⟨hu, hk⟩ <;>
      rcases hheld w k' hw with ⟨rfl, hk'⟩ | ⟨hw, hk'⟩
    · rfl
    · exact absurd hk' hnew
    · exact absurd (hk' ▸ hk) hnew
    · exact h.unique u w k' hu hw
  · intro u k' hu hmem
    rcases hheld u k' hu with ⟨-, rfl⟩ | ⟨hu, -⟩
    · exact hnew (h.used_issued _ hmem)
    · exact h.fresh u k' hu hmem
  · exact fun k' hk' ↦ (hissued k').mpr (.inl (h.used_issued k' hk'))
  · exact h.used_nodup
  · intro k' hk'
    rcases (hissued k').mp hk' with hk' | rfl
    · refine (h.kept k' hk').imp_right fun ⟨u, hu⟩ ↦ ⟨u, ?_⟩
      have hut : u ≠ t := by
        rintro rfl
        rw [ht] at hu
        cases hu
      rw [Function.update_of_ne hut]
      exact hu
    · exact .inr ⟨t, Function.update_self ..⟩

/-- The ticket of `t` is handed in. -/
theorem use (h : Tickets issued held used) (ht : held t = some k) :
    Tickets issued (Function.update held t none) (used ++ [k]) := by
  have hheld : ∀ u k', Function.update held t none u = some k' → u ≠ t ∧ held u = some k' :=
    fun u k' hu ↦ view_of_update_none id rfl hu
  constructor
  · exact fun u k' hu ↦ h.held_issued u k' (hheld u k' hu).2
  · exact fun u w k' hu hw ↦ h.unique u w k' (hheld u k' hu).2 (hheld w k' hw).2
  · intro u k' hu hmem
    obtain ⟨hne, hu⟩ := hheld u k' hu
    rcases List.mem_append.mp hmem with hmem | hmem
    · exact h.fresh u k' hu hmem
    · rw [List.mem_singleton.mp hmem] at hu
      exact hne (h.unique u t k hu ht)
  · intro k' hmem
    rcases List.mem_append.mp hmem with hmem | hmem
    · exact h.used_issued k' hmem
    · rw [List.mem_singleton.mp hmem]
      exact h.held_issued t k ht
  · exact h.used_nodup.append (List.nodup_singleton k)
      (List.disjoint_singleton.mpr (h.fresh t k ht))
  · intro k' hk'
    rcases h.kept k' hk' with hmem | ⟨u, hu⟩
    · exact .inl (List.mem_append_left _ hmem)
    · by_cases hut : u = t
      · rw [hut, ht] at hu
        cases hu
        exact .inl (List.mem_append_right _ (List.mem_singleton_self _))
      · exact .inr ⟨u, by rwa [Function.update_of_ne hut]⟩

end Tickets

end Program

end Nachos
