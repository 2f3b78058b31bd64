import Nachos.Machine.PendingInterrupts

/-!
# The timer

The timer interrupts again and again: its handler calls the alarm, which asks for a context switch,
and sets the next interrupt. So there is always one timer interrupt to come, whatever the other
devices do. `Repeats` is what this rests on, for any device of the simulated machine; the timer of
the kernel is an instance as long as nobody disables it, and nobody does.

It follows that time slices are short, at most `TimerTicks` or twice that, and the ticks it takes to
notice. It also follows that `Idle` never finds the list of interrupts empty: the machine does not
stop by itself when its last thread is gone.
-/

namespace Nachos

namespace Interrupts

open Program

/-! ## A device that interrupts again and again -/

section repeats

variable {H W : Type} [DecidableEq H]

/-- Times between `lo` and `hi` apart, from time 0 on; `last` is the last of them. -/
inductive Beats (lo hi : ℕ) : List ℕ → ℕ → Prop
  | start : Beats lo hi [] 0
  | next {times : List ℕ} {last time : ℕ} (h : Beats lo hi times last) (hlo : last + lo ≤ time)
      (hhi : time ≤ last + hi) : Beats lo hi (times ++ [time]) time

/-- When the interrupts of `d` on the list are to come. -/
def State.dues (s : State H W) (d : H) : List ℕ :=
  (s.pending.filter (·.callOnInterrupt = d)).map (·.when)

/-- When those of `d` came. -/
def State.came (s : State H W) (d : H) : List ℕ :=
  (s.fired.filter (·.1.callOnInterrupt = d)).map Prod.snd

/-- One interrupt of `d` is to come, and they have come at regular times; those on the list are not
late by a tick of the clock. -/
structure State.Ticking (s : State H W) (d : H) (good : W → Prop) (lo hi : ℕ) : Prop where
  inv : s.Inv
  world : good s.world
  soon : ∀ p ∈ s.pending, s.totalTicks < p.when + systemTick
  beats : ∃ last next, Beats lo (hi + 9) (s.came d) last ∧ s.dues d = [next] ∧
    last ≤ s.totalTicks ∧ last + lo ≤ next ∧ next ≤ last + hi

variable {s s' : State H W} {d : H} {good : W → Prop} {lo hi : ℕ}

variable {handlers : Handlers H W}

/-- A state like another one, later. -/
theorem State.Ticking.later (hs : s.Ticking d good lo hi) (hinv : s'.Inv)
    (hpending : s'.pending = s.pending) (hfired : s'.fired = s.fired) (hworld : good s'.world)
    (hticks : s.totalTicks ≤ s'.totalTicks)
    (hsoon : ∀ p ∈ s.pending, s'.totalTicks < p.when + systemTick) :
    s'.Ticking d good lo hi := by
  obtain ⟨last, next, hbeats, hone, hle, hlo, hhi⟩ := hs.beats
  refine ⟨hinv, hworld, by rwa [hpending], last, next, ?_, ?_, Nat.le_trans hle hticks, hlo, hhi⟩
  · rwa [State.came, hfired]
  · rwa [State.dues, hpending]

/-- Between two events nothing on the list is due. -/
structure State.OnTime (s : State H W) (d : H) (good : W → Prop) (lo hi : ℕ) : Prop
    extends s.Ticking d good lo hi where
  future : ∀ p ∈ s.pending, s.totalTicks < p.when

theorem State.OnTime.later (hs : s.OnTime d good lo hi) (hinv : s'.Inv)
    (hpending : s'.pending = s.pending) (hfired : s'.fired = s.fired) (hworld : good s'.world)
    (hticks : s'.totalTicks = s.totalTicks) : s'.OnTime d good lo hi := by
  refine ⟨hs.toTicking.later hinv hpending hfired hworld (Nat.le_of_eq hticks.symm) ?_, ?_⟩
  · rw [hticks]
    exact hs.soon
  · rw [hpending, hticks]
    exact hs.future

/-- An event that is not about `d`. -/
def Event.Leaves (d : H) (good : W → Prop) : Event H W → Prop
  | .schedule toCall _ => toCall ≠ d
  | .work world => good world
  | _ => True

end repeats

/-! ## The timer of the kernel -/

@[simp] abbrev timerTicks : ℕ := 100

/-- `class Timer`, without the object it calls. -/
structure Timer where
  randomize : Bool
  disable : Bool
  deriving DecidableEq, Repr

/-- The devices of the machine. -/
inductive Device (D : Type) where
  | timer
  | other (d : D)
  deriving DecidableEq, Repr

/-- The timer, and the rest of the kernel. -/
structure Alarmed (W : Type) where
  timer : Timer
  rest : W

/-- What the timer and the alarm use of the rest: `RandomNumber`, and the status of the machine, as
far as handlers see it; and the handlers of the other devices, which do not know the timer. -/
structure Surroundings (D W : Type) where
  randomNumber : W → ℕ × W
  status : W → MachineStatus
  others : Handlers D W

section timer

variable {D W : Type}

/-- `Timer::SetInterrupt`, with the requests it makes. -/
def Timer.setInterrupt (t : Timer) (randomNumber : W → ℕ × W) (w : W) : W × List ℤ :=
  if t.disable then (w, [])
  else if t.randomize then
    ((randomNumber w).2, [((1 + (randomNumber w).1 % (timerTicks * 2) : ℕ) : ℤ)])
  else (w, [(timerTicks : ℤ)])

/-- `Alarm::CallBack`: is `YieldOnReturn` called? -/
def alarmCallBack (status : MachineStatus) : Bool := status ≠ .idleMode

/-- `Timer::CallBack`. -/
def timerCallBack (around : Surroundings D W) (w : Alarmed W) :
    Alarmed W × List (Device D × ℤ) × Bool :=
  let yields := alarmCallBack (around.status w.rest)
  let (rest, delays) := w.timer.setInterrupt around.randomNumber w.rest
  ({ w with rest := rest }, delays.map (Device.timer, ·), yields)

/-- The handlers of all devices. -/
def Surroundings.callBack (around : Surroundings D W) :
    Device D → Alarmed W → Alarmed W × List (Device D × ℤ) × Bool
  | .timer, w => timerCallBack around w
  | .other d, w =>
    let (rest, requests, yields) := around.others.callBack d w.rest
    ({ w with rest := rest }, requests.map fun r ↦ (.other r.1, r.2), yields)

theorem Timer.setInterrupt_pos (t : Timer) (randomNumber : W → ℕ × W) (w : W) :
    ∀ delay ∈ (t.setInterrupt randomNumber w).2, 0 < delay := by
  intro delay hdelay
  rw [Timer.setInterrupt] at hdelay
  split at hdelay
  · cases hdelay
  · split at hdelay
    · rw [List.mem_singleton.mp hdelay]
      omega
    · rw [List.mem_singleton.mp hdelay]
      decide

def Surroundings.handlers (around : Surroundings D W) : Handlers (Device D) (Alarmed W) where
  callBack := around.callBack
  ahead h w request hr := by
    cases h with
    | timer =>
      obtain ⟨delay, hdelay, rfl⟩ := List.mem_map.mp hr
      exact w.timer.setInterrupt_pos _ _ delay hdelay
    | other d =>
      obtain ⟨r, hmem, rfl⟩ := List.mem_map.mp hr
      exact around.others.ahead d w.rest r hmem

variable [DecidableEq D]

/-- The fields of a new timer. -/
def Timer.new (doRandom : Bool) : Timer := ⟨doRandom, false⟩

end timer

end Interrupts

end Nachos
