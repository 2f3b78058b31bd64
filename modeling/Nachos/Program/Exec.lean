import Mathlib.Logic.Function.Basic

/-!
# Fallible programs over an explicit state

A program is an `EStateM ε σ α`: it either returns a value with a new state or stops with an error,
keeping the state it had reached. These judgements about such programs are used everywhere, and
each comes with the rules that follow the program text.

* `Triple P x Q E`: what holds when `x`, started under `P`, returns (`Q`) or stops (`E`).
* `Keeps f x`: a view `f` of the state that no returning run of `x` changes; `KeepsFrom P f x`:
  the same for runs that start under `P`; `Leaves f x`: the same for all runs, those that stop
  included.
* `Simulates P g h x`: a returning run of `x` is matched, value for value, by the run from the
  state moved along `g`, which ends in the state moved along `h`.
* `Refines x y`: a returning run of `x` is a run of `y`, as when `x` is `y` with more tests in it.
-/

namespace Nachos

namespace Program

variable {ε σ τ α β : Type}

/-! ## Running a bind -/

theorem bind_apply (x : EStateM ε σ α) (f : α → EStateM ε σ β) (s : σ) :
    (x >>= f) s = match x s with
      | .ok a s' => f a s'
      | .error e s' => .error e s' := rfl

theorem bind_of_ok {x : EStateM ε σ α} {f : α → EStateM ε σ β} {s s' : σ} {a : α}
    (h : x s = .ok a s') : (x >>= f) s = f a s' := by
  rw [bind_apply, h]

theorem bind_of_error {x : EStateM ε σ α} {f : α → EStateM ε σ β} {s s' : σ} {e : ε}
    (h : x s = .error e s') : (x >>= f) s = .error e s' := by
  rw [bind_apply, h]

theorem bind_get (f : σ → EStateM ε σ β) (s : σ) : (get >>= f) s = f s s := rfl

theorem bind_modify (g : σ → σ) (f : PUnit → EStateM ε σ β) (s : σ) :
    (modify g >>= f) s = f ⟨⟩ (g s) := rfl

/-- A part of a program replaced by what it comes down to. -/
theorem bind_congr {x y : EStateM ε σ α} {s t : σ} (h : x s = y t) (f : α → EStateM ε σ β) :
    (x >>= f) s = (y >>= f) t := by
  rw [bind_apply, bind_apply, h]

theorem bind_eq_ok {x : EStateM ε σ α} {f : α → EStateM ε σ β} {s t : σ} {b : β} :
    (x >>= f) s = .ok b t ↔ ∃ a s', x s = .ok a s' ∧ f a s' = .ok b t := by
  rw [bind_apply]
  cases h : x s with
  | ok a s' =>
    constructor
    · intro hf
      exact ⟨a, s', rfl, hf⟩
    · rintro ⟨_, _, h', hf⟩
      cases h'
      exact hf
  | error e s' =>
    constructor
    · intro hf
      cases hf
    · rintro ⟨_, _, h', _⟩
      cases h'

/-! ## Triples -/

/-- Started under `P`, the program returns under `Q` or stops under `E`. -/
def Triple (P : σ → Prop) (x : EStateM ε σ α) (Q : α → σ → Prop) (E : ε → σ → Prop) : Prop :=
  ∀ s, P s → match x s with
    | .ok a s' => Q a s'
    | .error e s' => E e s'

variable {P : σ → Prop} {Q : α → σ → Prop} {E : ε → σ → Prop}

theorem Triple.pure (a : α) (h : ∀ s, P s → Q a s) :
    Triple P (Pure.pure a : EStateM ε σ α) Q E := fun s hs ↦ h s hs

theorem Triple.throw (e : ε) (h : ∀ s, P s → E e s) :
    Triple P (MonadExcept.throw e : EStateM ε σ α) Q E := fun s hs ↦ h s hs

theorem Triple.bind {x : EStateM ε σ α} {f : α → EStateM ε σ β} {R : β → σ → Prop}
    (hx : Triple P x Q E) (hf : ∀ a, Triple (Q a) (f a) R E) : Triple P (x >>= f) R E := by
  intro s hs
  have hxs := hx s hs
  rw [bind_apply]
  cases h : x s with
  | ok a s' =>
    rw [h] at hxs
    exact hf a s' hxs
  | error e s' =>
    rw [h] at hxs
    exact hxs

theorem Triple.ite {c : Prop} [Decidable c] {x y : EStateM ε σ α}
    (hx : c → Triple P x Q E) (hy : ¬c → Triple P y Q E) : Triple P (if c then x else y) Q E := by
  by_cases hc : c
  · rw [if_pos hc]
    exact hx hc
  · rw [if_neg hc]
    exact hy hc

/-- The rule of consequence. -/
theorem Triple.imp {x : EStateM ε σ α} {P' : σ → Prop} {Q' : α → σ → Prop} {E' : ε → σ → Prop}
    (h : Triple P x Q E) (hP : ∀ s, P' s → P s) (hQ : ∀ a s, Q a s → Q' a s)
    (hE : ∀ e s, E e s → E' e s) : Triple P' x Q' E' := by
  intro s hs
  have hxs := h s (hP s hs)
  cases hx : x s with
  | ok a s' =>
    rw [hx] at hxs
    exact hQ a s' hxs
  | error e s' =>
    rw [hx] at hxs
    exact hE e s' hxs

theorem Triple.of_ok {x : EStateM ε σ α} (h : Triple P x Q E) {s s' : σ} {a : α}
    (hs : P s) (hx : x s = .ok a s') : Q a s' := by
  have := h s hs
  rwa [hx] at this

theorem Triple.of_error {x : EStateM ε σ α} (h : Triple P x Q E) {s s' : σ} {e : ε}
    (hs : P s) (hx : x s = .error e s') : E e s' := by
  have := h s hs
  rwa [hx] at this

/-! ## Views that a program leaves alone -/

/-- No run of `x`, whether it returns or stops, changes the view `f` of the state. -/
def Leaves (f : σ → τ) (x : EStateM ε σ α) : Prop :=
  ∀ v, Triple (fun s ↦ f s = v) x (fun _ s ↦ f s = v) fun _ s ↦ f s = v

/-- Whatever holds of the view holds afterwards. -/
theorem Leaves.triple {f : σ → τ} {x : EStateM ε σ α} (hx : Leaves f x) (p : τ → Prop) :
    Triple (fun s ↦ p (f s)) x (fun _ s ↦ p (f s)) fun _ s ↦ p (f s) := fun s hs ↦
  (hx (f s)).imp (fun _ h ↦ h) (fun _ _ h ↦ h ▸ hs) (fun _ _ h ↦ h ▸ hs) s rfl

theorem Leaves.pure (f : σ → τ) (a : α) : Leaves f (Pure.pure a : EStateM ε σ α) :=
  fun _ ↦ Triple.pure a fun _ h ↦ h

theorem Leaves.throw (f : σ → τ) (e : ε) : Leaves f (MonadExcept.throw e : EStateM ε σ α) :=
  fun _ ↦ Triple.throw e fun _ h ↦ h

theorem Leaves.get (f : σ → τ) : Leaves f (MonadState.get : EStateM ε σ σ) := fun _ _ h ↦ h

theorem Leaves.bind {f : σ → τ} {x : EStateM ε σ α} {g : α → EStateM ε σ β} (hx : Leaves f x)
    (hg : ∀ a, Leaves f (g a)) : Leaves f (x >>= g) :=
  fun v ↦ (hx v).bind fun a ↦ hg a v

theorem Leaves.ite {f : σ → τ} {c : Prop} [Decidable c] {x y : EStateM ε σ α} (hx : Leaves f x)
    (hy : Leaves f y) : Leaves f (if c then x else y) :=
  fun v ↦ Triple.ite (fun _ ↦ hx v) fun _ ↦ hy v

/-! ## Views that a program keeps -/

/-- No returning run of `x` changes the view `f` of the state. -/
def Keeps (f : σ → τ) (x : EStateM ε σ α) : Prop :=
  ∀ s a s', x s = .ok a s' → f s' = f s

variable {f : σ → τ}

theorem Keeps.pure (a : α) : Keeps f (Pure.pure a : EStateM ε σ α) := by
  rintro s b s' h
  cases h
  rfl

theorem Keeps.throw (e : ε) : Keeps f (MonadExcept.throw e : EStateM ε σ α) := by
  rintro s b s' h
  cases h

theorem Keeps.bind {x : EStateM ε σ α} {k : α → EStateM ε σ β}
    (hx : Keeps f x) (hk : ∀ a, Keeps f (k a)) : Keeps f (x >>= k) := by
  intro s b s' h
  obtain ⟨a, t, hxs, hks⟩ := bind_eq_ok.mp h
  rw [hk a t b s' hks, hx s a t hxs]

/-- The first program can only end in `q`. -/
theorem Keeps.bind_of_eq {x : EStateM ε σ α} {k : α → EStateM ε σ β} (q : α) (hx : Keeps f x)
    (hq : ∀ s a s', x s = .ok a s' → a = q) (hk : Keeps f (k q)) : Keeps f (x >>= k) := by
  intro s b s' h
  obtain ⟨a, t, hxs, hks⟩ := bind_eq_ok.mp h
  rw [hq s a t hxs] at hks
  rw [hk t b s' hks, hx s a t hxs]

theorem Keeps.ite {c : Prop} [Decidable c] {x y : EStateM ε σ α}
    (hx : c → Keeps f x) (hy : ¬c → Keeps f y) : Keeps f (if c then x else y) := by
  by_cases hc : c
  · rw [if_pos hc]
    exact hx hc
  · rw [if_neg hc]
    exact hy hc

/-- No returning run of `x` from a state under `P` changes the view `f`. -/
def KeepsFrom (P : σ → Prop) (f : σ → τ) (x : EStateM ε σ α) : Prop :=
  ∀ s, P s → ∀ a s', x s = .ok a s' → f s' = f s

theorem Keeps.from {x : EStateM ε σ α} (hx : Keeps f x) : KeepsFrom P f x :=
  fun s _ a s' h ↦ hx s a s' h

/-- `P` speaks about a view `v` that the first program keeps as well. -/
theorem KeepsFrom.bind {ρ : Type} {v : σ → ρ} {p : ρ → Prop} {x : EStateM ε σ α}
    {k : α → EStateM ε σ β} (hx : Keeps f x) (hv : Keeps v x)
    (hk : ∀ a, KeepsFrom (fun s ↦ p (v s)) f (k a)) :
    KeepsFrom (fun s ↦ p (v s)) f (x >>= k) := by
  intro s hs b s' h
  obtain ⟨a, t, hxs, hks⟩ := bind_eq_ok.mp h
  have ht : p (v t) := by rwa [hv s a t hxs]
  rw [hk a t ht b s' hks, hx s a t hxs]

theorem KeepsFrom.andThen {x : EStateM ε σ α} {k : α → EStateM ε σ β} (hx : KeepsFrom P f x)
    (hk : ∀ a, Keeps f (k a)) : KeepsFrom P f (x >>= k) := by
  intro s hs b s' h
  obtain ⟨a, t, hxs, hks⟩ := bind_eq_ok.mp h
  rw [hk a t b s' hks, hx s hs a t hxs]

/-! ## Programs that write a log -/

/-- Every returning run of `x` adds the entries `es` to the log, in this order, and returns `q`. The
latest entry is in front. -/
def Logs (log : σ → List τ) (x : EStateM ε σ α) (es : List τ) (q : α) : Prop :=
  ∀ s a s', x s = .ok a s' → a = q ∧ log s' = es.reverse ++ log s

section logs

variable {log : σ → List τ} {x : EStateM ε σ α} {k : α → EStateM ε σ β} {es es' : List τ} {q : α}
  {r : β}

theorem Logs.pure (q : α) : Logs log (Pure.pure q : EStateM ε σ α) [] q := by
  intro s a s' h
  cases h
  exact ⟨rfl, rfl⟩

theorem Logs.bind (hx : Logs log x es q) (hk : Logs log (k q) es' r) :
    Logs log (x >>= k) (es ++ es') r := by
  intro s b s' h
  obtain ⟨a, t, hxs, hks⟩ := bind_eq_ok.mp h
  obtain ⟨rfl, hlog⟩ := hx s a t hxs
  obtain ⟨hb, hlog'⟩ := hk t b s' hks
  rw [hlog', hlog, List.reverse_append, List.append_assoc]
  exact ⟨hb, rfl⟩

theorem Keeps.thenLogs (hx : Keeps log x) (hk : ∀ a, Logs log (k a) es r) :
    Logs log (x >>= k) es r := by
  intro s b s' h
  obtain ⟨a, t, hxs, hks⟩ := bind_eq_ok.mp h
  rw [← hx s a t hxs]
  exact hk a t b s' hks

end logs

/-! ## Matching a run from a moved state -/

/-- Every returning run of `x` under `P` is matched, with the same value, by the run from the
state moved along `g`; it ends in the state moved along `h`, and `P` holds again. -/
def Simulates (P : σ → Prop) (g h : σ → σ) (x : EStateM ε σ α) : Prop :=
  ∀ s, P s → ∀ a s', x s = .ok a s' → P s' ∧ x (g s) = .ok a (h s')

variable {g h k : σ → σ}

theorem Simulates.pure (a : α) : Simulates P g g (Pure.pure a : EStateM ε σ α) := by
  rintro s hs b s' hb
  cases hb
  exact ⟨hs, rfl⟩

theorem Simulates.throw (e : ε) : Simulates P g h (MonadExcept.throw e : EStateM ε σ α) := by
  rintro s hs b s' hb
  cases hb

theorem Simulates.bind {x : EStateM ε σ α} {y : α → EStateM ε σ β}
    (hx : Simulates P g h x) (hy : ∀ a, Simulates P h k (y a)) : Simulates P g k (x >>= y) := by
  intro s hs b s' hb
  obtain ⟨a, t, hxs, hys⟩ := bind_eq_ok.mp hb
  obtain ⟨ht, hgx⟩ := hx s hs a t hxs
  obtain ⟨hs', hhy⟩ := hy a t ht b s' hys
  exact ⟨hs', by rw [bind_of_ok hgx, hhy]⟩

theorem Simulates.ite {c : Prop} [Decidable c] {x y : EStateM ε σ α}
    (hx : c → Simulates P g h x) (hy : ¬c → Simulates P g h y) :
    Simulates P g h (if c then x else y) := by
  by_cases hc : c
  · rw [if_pos hc]
    exact hx hc
  · rw [if_neg hc]
    exact hy hc

/-- A run from the very same state matches itself. -/
theorem Simulates.refl (x : EStateM ε σ α) : Simulates (fun _ ↦ True) id id x :=
  fun _ _ _ _ hx ↦ ⟨trivial, hx⟩

/-! ## Programs with more tests -/

/-- Every returning run of `x` is a run of `y`. -/
def Refines (x y : EStateM ε σ α) : Prop := ∀ s a s', x s = .ok a s' → y s = .ok a s'

theorem Refines.refl (x : EStateM ε σ α) : Refines x x := fun _ _ _ h ↦ h

theorem Refines.bind {x x' : EStateM ε σ α} {y y' : α → EStateM ε σ β} (hx : Refines x x')
    (hy : ∀ a, Refines (y a) (y' a)) : Refines (x >>= y) (x' >>= y') := by
  intro s b s' h
  obtain ⟨a, t, hxs, hys⟩ := bind_eq_ok.mp h
  rw [bind_of_ok (hx s a t hxs), hy a t b s' hys]

theorem Refines.ite {c : Prop} [Decidable c] {x x' y y' : EStateM ε σ α} (hx : Refines x x')
    (hy : Refines y y') : Refines (if c then x else y) (if c then x' else y') := by
  by_cases hc : c
  · rwa [if_pos hc, if_pos hc]
  · rwa [if_neg hc, if_neg hc]

end Program

end Nachos
