import Mathlib.Data.Set.Defs

/-!
# Runs of a system that may stop

A system takes one input at a time and either moves to a new state or stops. `Along step P s is`
says that every step of the run from `s` on the inputs `is` satisfies `P`. Two rules carry every
proof about runs: an invariant turns a condition on the steps into a property of the steps
(`Along.imp`), and, when the property implies the condition in turn, the two are the same along
every run (`along_iff`).
-/

namespace Nachos

namespace Program

variable {σ ι : Type}

/-- Each step of the run from `s` on the given inputs satisfies `P`. A run ends where the system
stops. -/
def Along (step : σ → ι → Option σ) (P : σ → ι → Prop) : σ → List ι → Prop
  | _, [] => True
  | s, i :: is => P s i ∧ ∀ s', step s i = some s' → Along step P s' is

/-- Whether a property that can be decided holds along a run can be found out by running. -/
instance Along.decidable {step : σ → ι → Option σ} {P : σ → ι → Prop}
    [∀ s i, Decidable (P s i)] : ∀ s is, Decidable (Along step P s is)
  | _, [] => .isTrue trivial
  | s, i :: is =>
    match hstep : step s i with
    | none =>
      decidable_of_iff (P s i) ⟨fun h ↦ ⟨h, fun t ht ↦ by rw [hstep] at ht; cases ht⟩, And.left⟩
    | some s' =>
      have : Decidable (Along step P s' is) := Along.decidable s' is
      decidable_of_iff (P s i ∧ Along step P s' is)
        ⟨fun ⟨h, hrest⟩ ↦ ⟨h, fun t ht ↦ by rw [hstep] at ht; cases ht; exact hrest⟩,
          fun ⟨h, hrest⟩ ↦ ⟨h, hrest s' hstep⟩⟩

variable {step : σ → ι → Option σ} {P C : σ → ι → Prop} (Inv : σ → Prop)

/-- Under an invariant that the condition `C` maintains, `C` along a run gives `P` along it. -/
theorem Along.imp (hP : ∀ s i, Inv s → C s i → P s i)
    (hInv : ∀ s i s', Inv s → C s i → step s i = some s' → Inv s') :
    ∀ {s : σ} {is : List ι}, Inv s → Along step C s is → Along step P s is := by
  intro s is
  induction is generalizing s with
  | nil => intro _ _; exact trivial
  | cons i is ih =>
    rintro hs ⟨hC, hrest⟩
    exact ⟨hP s i hs hC, fun s' hs' ↦ ih (hInv s i s' hs hC hs') (hrest s' hs')⟩

/-- If the property of a step and the condition on it agree in every state of the invariant, they
agree along every run. -/
theorem along_iff (hP : ∀ s i, Inv s → (P s i ↔ C s i))
    (hInv : ∀ s i s', Inv s → C s i → step s i = some s' → Inv s') {s : σ} {is : List ι}
    (hs : Inv s) : Along step P s is ↔ Along step C s is := by
  constructor
  · exact Along.imp Inv (fun s i h ↦ (hP s i h).mp)
      (fun s i s' h hp ↦ hInv s i s' h ((hP s i h).mp hp)) hs
  · exact Along.imp Inv (fun s i h ↦ (hP s i h).mpr) hInv hs

omit Inv in
/-- Two properties along a run are their conjunction along it. -/
theorem along_and {s : σ} {is : List ι} :
    Along step (fun s i ↦ P s i ∧ C s i) s is ↔ Along step P s is ∧ Along step C s is := by
  induction is generalizing s with
  | nil => exact ⟨fun _ ↦ ⟨trivial, trivial⟩, fun _ ↦ trivial⟩
  | cons i is ih =>
    constructor
    · rintro ⟨⟨hP, hC⟩, hrest⟩
      exact ⟨⟨hP, fun s' hs' ↦ (ih.mp (hrest s' hs')).1⟩, hC,
        fun s' hs' ↦ (ih.mp (hrest s' hs')).2⟩
    · rintro ⟨⟨hP, hrest⟩, hC, hrest'⟩
      exact ⟨⟨hP, hC⟩, fun s' hs' ↦ ih.mpr ⟨hrest s' hs', hrest' s' hs'⟩⟩

end Program

end Nachos
