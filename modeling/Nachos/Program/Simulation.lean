import Nachos.Program.Exec

/-!
# A system that answers calls, and what it is for

A system takes a call and gives an answer, or stops. What it is for is another system: a state in
its own terms, the calls that are legal there, and the answers that are right, of which there may be
several. `Answers` says that the first does what the second allows for as long as the calls are
legal: it does not stop, and each of its answers is right.

A relation between the states of the two that every legal call keeps is enough
(`Answers.of_simulation`).

Where a whole sequence of calls is known to be legal, `execAll` makes the calls and collects the
answers, in whatever monad they run, and `Steps` is the same for a step that is a relation. The rule
is again one about a single call (`Steps.simulates`).
-/

namespace Nachos

namespace Program

variable {σ τ ι ο : Type}

/-- Each call is answered, and as `spec` has it, up to the first one that is not legal. -/
def Answers (exec : σ → ι → Option (ο × σ)) (legal : τ → ι → Prop) (spec : τ → ι → ο → τ → Prop) :
    σ → τ → List ι → Prop
  | _, _, [] => True
  | s, t, i :: is => legal t i → ∃ o s' t', exec s i = some (o, s') ∧ spec t i o t' ∧
      Answers exec legal spec s' t' is

variable {exec : σ → ι → Option (ο × σ)} {legal : τ → ι → Prop} {spec : τ → ι → ο → τ → Prop}

theorem Answers.of_simulation (R : σ → τ → Prop)
    (hstep : ∀ s t i, R s t → legal t i →
      ∃ o s' t', exec s i = some (o, s') ∧ spec t i o t' ∧ R s' t') :
    ∀ {s : σ} {t : τ} (is : List ι), R s t → Answers exec legal spec s t is := by
  intro s t is
  induction is generalizing s t with
  | nil =>
    intro _
    exact trivial
  | cons i is ih =>
    intro hR hlegal
    obtain ⟨o, s', t', hexec, hspec, hR'⟩ := hstep s t i hR hlegal
    exact ⟨o, s', t', hexec, hspec, ih hR'⟩

/-! ## Sequences of calls -/

/-- A sequence of calls, with their answers. -/
def execAll {m : Type → Type} [Monad m] (exec : σ → ι → m (ο × σ)) :
    List ι → σ → m (List ο × σ)
  | [], s => pure ([], s)
  | i :: is, s => do
    let (o, s) ← exec s i
    let (os, s) ← execAll exec is s
    pure (o :: os, s)

/-- A sequence of steps, each with its answer. -/
inductive Steps (step : σ → ι → ο → σ → Prop) : σ → List ι → List ο → σ → Prop
  | nil {s : σ} : Steps step s [] [] s
  | cons {s s₁ s' : σ} {i : ι} {is : List ι} {o : ο} {os : List ο} :
      step s i o s₁ → Steps step s₁ is os s' → Steps step s (i :: is) (o :: os) s'

section steps

variable {s s' : σ} {is : List ι} {os : List ο}

/-- A relation that every call keeps, with the calls that are still to come, carries over to a
sequence: both sides give the same answers. -/
theorem Steps.simulates (step : σ → ι → ο → σ → Prop) (spec : τ → ι → ο → τ → Prop)
    (R : σ → τ → List ι → Prop)
    (hstep : ∀ s t i is, R s t (i :: is) →
      ∃ o s' t', step s i o s' ∧ spec t i o t' ∧ R s' t' is) :
    ∀ {s : σ} {t : τ} (is : List ι), R s t is →
      ∃ os s' t', Steps step s is os s' ∧ Steps spec t is os t' ∧ R s' t' [] := by
  intro s t is
  induction is generalizing s t with
  | nil =>
    intro hR
    exact ⟨[], s, t, .nil, .nil, hR⟩
  | cons i is ih =>
    intro hR
    obtain ⟨o, s₁, t₁, hone, hspec, hR₁⟩ := hstep s t i is hR
    obtain ⟨os, s', t', hrest, hspecs, hR'⟩ := ih hR₁
    exact ⟨o :: os, s', t', .cons hone hrest, .cons hspec hspecs, hR'⟩

/-! `Steps` of a step that is computed is the sequence of calls. -/

theorem Steps.execAll_some {exec : σ → ι → Option (ο × σ)}
    (h : Steps (fun s i o s' ↦ exec s i = some (o, s')) s is os s') :
    execAll exec is s = some (os, s') := by
  induction h with
  | nil => rfl
  | cons hone _ ih =>
    rw [execAll, hone]
    simp only [Option.bind_eq_bind, Option.bind_some, ih]
    rfl

theorem Steps.execAll_pure {exec : σ → ι → ο × σ}
    (h : Steps (fun s i o s' ↦ exec s i = (o, s')) s is os s') :
    execAll (m := Id) exec is s = (os, s') := by
  induction h with
  | nil => rfl
  | cons hone _ ih =>
    rw [execAll, hone]
    exact congrArg (fun r ↦ (_ :: r.1, r.2)) ih

theorem Steps.execAll_ok {ε δ : Type} {exec : σ → ι → EStateM ε δ (ο × σ)} {c c' : σ × δ}
    (h : Steps (fun c i o c' ↦ exec c.1 i c.2 = .ok (o, c'.1) c'.2) c is os c') :
    execAll exec is c.1 c.2 = .ok (os, c'.1) c'.2 := by
  induction h with
  | nil => rfl
  | cons hone _ ih =>
    rw [execAll, bind_of_ok hone]
    exact bind_of_ok ih

theorem Steps.foldlM_eq {exec : σ → ι → Option σ} {os : List Unit}
    (h : Steps (fun s i _ s' ↦ exec s i = some s') s is os s') :
    is.foldlM exec s = some s' := by
  induction h with
  | nil => rfl
  | cons hone _ ih =>
    rw [List.foldlM_cons, hone]
    exact ih

theorem Steps.foldl_eq {f : σ → ι → σ} {os : List Unit}
    (h : Steps (fun s i _ s' ↦ f s i = s') s is os s') : is.foldl f s = s' := by
  induction h with
  | nil => rfl
  | cons hone _ ih =>
    rw [List.foldl_cons, hone]
    exact ih

end steps

end Program

end Nachos
