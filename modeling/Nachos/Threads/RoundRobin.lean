import Nachos.Threads.ContextSwitch

/-!
# Turns on the processor

The ready list is a queue: `ReadyToRun` appends to it and `FindNextToRun` takes from its front,
whatever makes threads ready and whatever takes the processor from them. So a ready thread knows its
turn: it gets the processor as soon as those in front of it had it once each, and a thread that
yields gets it back when every other ready thread had it.
-/

namespace Nachos

namespace Threads

variable {T S : Type} [DecidableEq T] [DecidableEq S]

/-- A run from `k` in which the processor was given to the threads of `ran`, in this order. -/
inductive Kernel.Switches (k : Kernel T S) : List T → Kernel T S → Prop
  | refl : k.Switches [] k
  | step {ran : List T} {k₁ k₂ : Kernel T S} {e : Event T S} (h : k.Switches ran k₁)
      (he : k₁.Allows e) (hstep : Threads.step e k₁ = .ok () k₂) :
      k.Switches (ran ++ (k₁.nextThread e).toList) k₂

section queue

variable {k k' : Kernel T S} {e : Event T S} {ran : List T}

/-- What an event does to the ready list. -/
theorem Kernel.Moves.readyList (hm : k.Moves e k') :
    ∃ readied, k.readyList ++ readied = (k.nextThread e).toList ++ k'.readyList := by
  cases hm with
  | fork hc hnew => exact ⟨[_], rfl⟩
  | yieldAlone hc hr => exact ⟨[], by rw [Kernel.nextThread, hr]; rfl⟩
  | yield hc hr => exact ⟨[k.currentThread], by rw [Kernel.nextThread, hr]; rfl⟩
  | callP hc => exact ⟨[], List.append_nil _⟩
  | sleep hc hv => exact ⟨[], List.append_nil _⟩
  | pass hc hv => exact ⟨[], List.append_nil _⟩
  | post he hq hv => obtain rfl | rfl := he <;> exact ⟨[], List.append_nil _⟩
  | awaken he hq hv => obtain rfl | rfl := he <;> exact ⟨[_], rfl⟩
  | finish hc => exact ⟨[], List.append_nil _⟩
  | dispatch hc hr => exact ⟨[], by rw [Kernel.nextThread, hr, List.append_nil]; rfl⟩

theorem Kernel.Switches.placed (h : k.Switches ran k') (hk : k.Placed) : k'.Placed := by
  induction h with
  | refl => exact hk
  | step _ he hstep ih => exact (moves_of_step ih he hstep).placed ih

/-- First in, first out, over a whole run. -/
theorem Kernel.Switches.readyList (h : k.Switches ran k') (hk : k.Placed) :
    ∃ readied, k.readyList ++ readied = ran ++ k'.readyList := by
  induction h with
  | refl => exact ⟨[], List.append_nil _⟩
  | @step ran k₁ k₂ e h he hstep ih =>
    obtain ⟨readied, heq⟩ := ih
    obtain ⟨readied', heq'⟩ := (moves_of_step (h.placed hk) he hstep).readyList
    refine ⟨readied ++ readied', ?_⟩
    rw [← List.append_assoc, heq, List.append_assoc, heq', List.append_assoc]

/-- A ready thread gets the processor in its turn, or it has moved up. -/
theorem Kernel.Switches.turn (h : k.Switches ran k') (hk : k.Placed) {i : ℕ} {t : T}
    (hi : k.readyList[i]? = some t) :
    (i < ran.length → ran[i]? = some t) ∧
      (ran.length ≤ i → k'.readyList[i - ran.length]? = some t) := by
  obtain ⟨readied, heq⟩ := h.readyList hk
  have hlt : i < k.readyList.length := (List.getElem?_eq_some_iff.mp hi).1
  have hget : (ran ++ k'.readyList)[i]? = some t := by
    rw [← heq, List.getElem?_append_left hlt, hi]
  refine ⟨fun hran ↦ ?_, fun hran ↦ ?_⟩
  · rwa [List.getElem?_append_left hran] at hget
  · rwa [List.getElem?_append_right hran] at hget

/-- **Round robin.** In every run of the kernel, with any forks, semaphores and interrupts in it: a
thread that has `i` ready threads in front of it gets the processor at the switch number `i`,
counting from 0, and as long as there were fewer switches it is on the ready list, that many places
further in front. A thread that yields while `n + 1` others are ready gets it back at switch number
`n` after its own, when each of them had it once. -/
theorem round_robin {main : T} {initialValue : S → ℤ}
    (hk : Kernel.Reachable main initialValue k) :
    (∀ ran k', k.Switches ran k' → ∀ i t, k.readyList[i]? = some t →
      (i < ran.length → ran[i]? = some t) ∧
      (ran.length ≤ i → k'.readyList[i - ran.length]? = some t ∧ k'.status t = .ready)) ∧
    (∀ n k₁, k.control = .running → k.readyList.length = n + 1 → step .yield k = .ok () k₁ →
      k₁.currentThread ≠ k.currentThread ∧
      ∀ ran k', k₁.Switches ran k' → (n < ran.length → ran[n]? = some k.currentThread) ∧
        (∀ i, i < n → i < ran.length → ran[i]? = k.readyList[i + 1]?)) := by
  have hplaced := placed_of_reachable hk
  refine ⟨fun ran k' h i t hi ↦ ?_, fun n k₁ hc hn hyield ↦ ?_⟩
  · obtain ⟨hran, hmoved⟩ := h.turn hplaced hi
    refine ⟨hran, fun hle ↦ ⟨hmoved hle, ?_⟩⟩
    exact ((h.placed hplaced).ready_iff t).mp (List.mem_of_getElem? (hmoved hle))
  · have hm := moves_of_step (e := .yield) hplaced hc hyield
    have hplaced₁ := hm.placed hplaced
    cases hm with
    | yieldAlone _ hr =>
      rw [hr] at hn
      cases hn
    | post he => rcases he with he | he <;> cases he
    | awaken he => rcases he with he | he <;> cases he
    | @yield next rest _ hr =>
      -- the thread goes to the end of the list, behind all those that were on it
      have hlength : rest.length = n := by
        rw [hr, List.length_cons] at hn
        omega
      have hlist : (k.yieldedTo next rest).readyList = rest ++ [k.currentThread] := rfl
      refine ⟨(hplaced.front_of_running hc hr).2.2.1, fun ran k' h ↦ ⟨?_, fun i hi ↦ ?_⟩⟩
      · refine (h.turn hplaced₁ ?_).1
        rw [hlist, List.getElem?_append_right (Nat.le_of_eq hlength), hlength, Nat.sub_self]
        rfl
      · have hlt : i < rest.length := by omega
        have hsame : k.readyList[i + 1]? = some (rest.get ⟨i, hlt⟩) := by
          rw [hr, List.getElem?_cons_succ, List.getElem?_eq_getElem hlt]
          rfl
        rw [hsame]
        refine (h.turn hplaced₁ ?_).1
        rw [hlist, List.getElem?_append_left hlt, List.getElem?_eq_getElem hlt]
        rfl

end queue

/-- Two threads that take turns. -/
theorem round_robin_two : ∃ k k₁ : Kernel Bool Unit, Kernel.Reachable false (fun _ ↦ 0) k ∧
    step .yield k = .ok () k₁ ∧ k₁.currentThread ≠ k.currentThread ∧
    ∀ ran k', k₁.Switches ran k' → 0 < ran.length → ran[0]? = some k.currentThread := by
  have h0 : Kernel.Reachable false (fun _ ↦ 0)
    (Kernel.init false fun _ ↦ 0 : Kernel Bool Unit) := .init
  have h1 := h0.step (e := .fork true) ⟨rfl, rfl⟩ rfl
  obtain ⟨hne, hback⟩ := (round_robin h1).2 0 _ rfl rfl rfl
  exact ⟨_, _, h1, rfl, hne, fun ran k' h ↦ (hback ran k' h).1⟩

end Threads

end Nachos
