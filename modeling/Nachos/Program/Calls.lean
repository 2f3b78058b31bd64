import Mathlib.Data.Nat.Notation
import Nachos.Program.Interleave

/-!
# The calls of threads that take turns

What a thread is asked to do and what it gives back are seen from outside: a thread that stands idle
and gets a turn has made a call, and when it stands idle again the call has come back, with a result
that the thread had in its hands. `noting` keeps these along with the place of each thread. It looks
at the places only, so the code that is observed has no part in the record.

The second half is about whole calls in the middle of everything else: `Config.Passes` says that on
the way along a schedule something holds at one point, and the rules give such points from what one
turn of the thread does and what no other thread undoes.
-/

namespace Nachos

namespace Program

variable {T S L ι ε R : Type}

/-! ## A record of the calls -/

/-- The calls of one thread: those that have come back, with their results, and the one it is in. -/
structure Calls (ι R : Type) where
  back : List (ι × R)
  current : Option ι
  deriving DecidableEq, Repr

namespace Calls

/-- No calls yet. -/
def none : Calls ι R := ⟨[], .none⟩

/-- Every call that was made, in order. -/
def made (x : Calls ι R) : List ι := x.back.map Prod.fst ++ x.current.toList

/-- A turn from `l` to `l'`, in which the thread chose `i`. -/
def note (idle : L → Bool) (result : L → R) (i : ι) (l l' : L) (x : Calls ι R) : Calls ι R :=
  let current := if idle l then some i else x.current
  if idle l' then ⟨x.back ++ (current.map fun i ↦ (i, result l)).toList, .none⟩
  else ⟨x.back, current⟩

section note

variable {idle : L → Bool} {result : L → R} {i : ι} {l l' : L} {x : Calls ι R}

/-- The thread makes a call. -/
theorem note_begin (hl : idle l = true) (hl' : idle l' = false) :
    x.note idle result i l l' = ⟨x.back, some i⟩ := by
  simp [note, hl, hl']

/-- The thread goes on in its call. -/
theorem note_inside (hl : idle l = false) (hl' : idle l' = false) :
    x.note idle result i l l' = x := by
  simp [note, hl, hl']

/-- The call comes back. -/
theorem note_return {call : ι} (hl : idle l = false) (hl' : idle l' = true)
    (hx : x.current = some call) :
    x.note idle result i l l' = ⟨x.back ++ [(call, result l)], .none⟩ := by
  simp [note, hl, hl', hx]

end note

end Calls

/-- A place with the calls of the thread that stands there. -/
structure Noted (L ι R : Type) where
  place : L
  calls : Calls ι R
  deriving DecidableEq, Repr

/-- The turns, with a record of the calls. -/
def noting (idle : L → Bool) (result : L → R) (turn : T → ι → S → L → Turn ε S L) (t : T) (i : ι)
    (s : S) (p : Noted L ι R) : Turn ε S (Noted L ι R) :=
  (turn t i s p.place).bind fun s' l ↦ .moved s' ⟨l, p.calls.note idle result i p.place l⟩

namespace Config

/-- Without the record. -/
def plain (c : Config T S (Noted L ι R)) : Config T S L := ⟨c.shared, fun t ↦ (c.place t).place⟩

def calls (c : Config T S (Noted L ι R)) (t : T) : Calls ι R := (c.place t).calls

/-- Nothing was called yet. -/
def noted (c : Config T S L) : Config T S (Noted L ι R) := ⟨c.shared, fun t ↦ ⟨c.place t, .none⟩⟩

end Config

section

variable [DecidableEq T] {idle : L → Bool} {result : L → R} {turn : T → ι → S → L → Turn ε S L}
  {outside : S → S → Prop} {c₀ : Config T S L} {c : Config T S (Noted L ι R)}

theorem Config.plain_move (c : Config T S (Noted L ι R)) (t : T) (s : S) (p : Noted L ι R) :
    (c.move t s p).plain = c.plain.move t s p.place := by
  rw [Config.plain, Config.plain, Config.move, Config.move]
  exact congrArg _ (Function.comp_update Noted.place c.place t p)

/-- The record does not change what happens: the runs are those of the turns without it. -/
theorem reaches_plain_iff {c : Config T S L} : Reaches turn outside c₀ c ↔
    ∃ d, Reaches (noting idle result turn) outside c₀.noted d ∧ d.plain = c := by
  constructor
  · intro h
    induction h with
    | refl => exact ⟨c₀.noted, .refl, rfl⟩
    | @turn c t i s l _ ht ih =>
      obtain ⟨d, hd, rfl⟩ := ih
      have hturn : turn t i d.shared (d.place t).place = .moved s l := ht
      have hnoting : noting idle result turn t i d.shared (d.place t) =
          .moved s ⟨l, (d.place t).calls.note idle result i (d.place t).place l⟩ := by
        rw [noting, hturn, Turn.bind]
      exact ⟨_, hd.turn hnoting, d.plain_move t s _⟩
    | outside _ hs ih =>
      obtain ⟨d, hd, rfl⟩ := ih
      exact ⟨_, hd.outside hs, rfl⟩
  · rintro ⟨d, hd, rfl⟩
    induction hd with
    | refl => exact .refl
    | @turn d t i s p _ ht ih =>
      obtain ⟨s', l', hturn, hmoved⟩ := Turn.bind_moved ht
      cases hmoved
      rw [d.plain_move]
      exact ih.turn hturn
    | outside _ hs ih => exact ih.outside hs

/-- An invariant of the places and of the record. -/
theorem Reaches.noted_invariant (Inv : S → (T → L) → (T → Calls ι R) → Prop)
    (h₀ : Inv c₀.shared c₀.place fun _ ↦ .none)
    (hturn : ∀ s f x t i s' l, Inv s f x → turn t i s (f t) = .moved s' l →
      Inv s' (Function.update f t l)
        (Function.update x t ((x t).note idle result i (f t) l)))
    (houtside : ∀ s f x s', Inv s f x → outside s s' → Inv s' f x)
    (h : Reaches (noting idle result turn) outside c₀.noted c) :
    Inv c.shared c.plain.place c.calls := by
  refine h.invariant (fun s f ↦ Inv s (fun t ↦ (f t).place) fun t ↦ (f t).calls) h₀ ?_
    fun s f s' ↦ houtside s _ _ s'
  intro s f t i s' p hinv ht
  obtain ⟨s₁, l, hturn', hmoved⟩ := Turn.bind_moved ht
  cases hmoved
  have hplace := Function.comp_update Noted.place f t
    ⟨l, (f t).calls.note idle result i (f t).place l⟩
  have hcalls := Function.comp_update Noted.calls f t
    ⟨l, (f t).calls.note idle result i (f t).place l⟩
  change Inv s' (Noted.place ∘ Function.update f t _) (Noted.calls ∘ Function.update f t _)
  rw [hplace, hcalls]
  exact hturn s _ _ t i s' l hinv hturn'

end

/-! ## What goes in and what comes out -/

/-- What the thread `t` has entered into a log that all threads share. -/
def entriesOf {β : Type} [DecidableEq T] (log : List (T × β)) (t : T) : List β :=
  (log.filter fun e ↦ e.1 = t).map Prod.snd

section entries

variable [DecidableEq T] {β : Type} {log : List (T × β)} {t u : T}

@[simp] theorem entriesOf_nil : entriesOf ([] : List (T × β)) t = [] := rfl

theorem entriesOf_append_self (entries : List β) :
    entriesOf (log ++ entries.map fun b ↦ (t, b)) t = entriesOf log t ++ entries := by
  rw [entriesOf, entriesOf, List.filter_append, List.map_append]
  congr 1
  induction entries with
  | nil => rfl
  | cons b entries ih => simp [ih]

theorem entriesOf_append_of_ne (hu : u ≠ t) (entries : List β) :
    entriesOf (log ++ entries.map fun b ↦ (t, b)) u = entriesOf log u := by
  rw [entriesOf, entriesOf, List.filter_append, List.map_append]
  have hnone : (entries.map fun b ↦ (t, b)).filter (fun e ↦ e.1 = u) = [] := by
    rw [List.filter_eq_nil_iff]
    intro e he
    obtain ⟨b, -, rfl⟩ := List.mem_map.mp he
    simpa using Ne.symm hu
  rw [hnone, List.map_nil, List.append_nil]

theorem mem_of_mem_entriesOf {b : β} (h : b ∈ entriesOf log t) : (t, b) ∈ log := by
  obtain ⟨e, he, rfl⟩ := List.mem_map.mp h
  obtain ⟨hmem, heq⟩ := List.mem_filter.mp he
  rwa [← show e.1 = t by simpa using heq]

end entries

/-- What the places of a thread mean for the call that it is in. -/
structure CallSpec (L ι α β : Type) where
  idle : L → Bool
  /-- What a call has to enter, and what a thread in it has not entered yet. -/
  given : ι → Option α
  outstanding : L → Option α
  /-- What a thread has got and will come back with. -/
  hand : L → Option β
  /-- A thread in the call may be at the place. -/
  inCall : ι → L → Prop
  /-- The call may come back with the result. -/
  answers : ι → Option β → Prop
  idle_empty : ∀ l, idle l = true → outstanding l = none ∧ hand l = none

namespace CallSpec

variable {α β : Type} {spec : CallSpec L ι α β} {i : ι} {l l' : L} {entered entries : List α}
  {out gets : List β} {x : Calls ι (Option β)}

/-- A turn from `l` to `l'`, in which the thread chose `i`, made `entries` and got what is in
`gets`. -/
inductive Turns (spec : CallSpec L ι α β) (i : ι) (l : L) (entries : List α) (gets : List β)
    (l' : L) : Prop
  | enter (hl : spec.idle l = true) (hl' : spec.idle l' = false) (hcall : spec.inCall i l')
      (hentries : entries = []) (hgets : gets = []) (hgiven : spec.outstanding l' = spec.given i)
      (hhand : spec.hand l' = none)
  | inside (hl : spec.idle l = false) (hl' : spec.idle l' = false)
      (hcall : ∀ j, spec.inCall j l → spec.inCall j l')
      (hentries : entries ++ (spec.outstanding l').toList = (spec.outstanding l).toList)
      (hgets : (spec.hand l').toList = (spec.hand l).toList ++ gets)
  | leave (hl : spec.idle l = false) (hl' : spec.idle l' = true) (hentries : entries = [])
      (hgets : gets = []) (hdone : spec.outstanding l = none)
      (hanswers : ∀ j, spec.inCall j l → spec.answers j (spec.hand l))

/-- The record of a thread at `l`, which has entered what is in `entered` and got what is in
`out`. -/
structure Kept (spec : CallSpec L ι α β) (entered : List α) (out : List β) (x : Calls ι (Option β))
    (l : L) : Prop where
  idle : spec.idle l = true → x.current = none
  inCall : spec.idle l = false → ∃ i, x.current = some i ∧ spec.inCall i l
  entered : entered ++ (spec.outstanding l).toList = x.made.filterMap spec.given
  handed : out = x.back.filterMap Prod.snd ++ (spec.hand l).toList
  answered : ∀ e ∈ x.back, spec.answers e.1 e.2

theorem kept_none (hl : spec.idle l = true) : spec.Kept [] [] .none l := by
  obtain ⟨houtstanding, hhand⟩ := spec.idle_empty l hl
  refine ⟨fun _ ↦ rfl, ?_, ?_, ?_, nofun⟩
  · rw [hl]
    nofun
  · rw [houtstanding]
    rfl
  · rw [hhand]
    rfl

/-- One turn of the thread. -/
theorem Kept.turn (h : spec.Kept entered out x l) (ht : spec.Turns i l entries gets l') :
    spec.Kept (entered ++ entries) (out ++ gets) (x.note spec.idle spec.hand i l l') l' := by
  obtain ⟨hidle, hin, hentered, hhanded, hanswered⟩ := h
  cases ht with
  | enter hl hl' hcall hentries hgets hgiven hhand =>
    obtain ⟨houtstanding, hempty⟩ := spec.idle_empty l hl
    rw [Calls.note_begin hl hl', hentries, hgets, List.append_nil, List.append_nil]
    refine ⟨?_, fun _ ↦ ⟨i, rfl, hcall⟩, ?_, ?_, hanswered⟩
    · rw [hl']
      nofun
    · rw [houtstanding, Calls.made, hidle hl] at hentered
      simp only [Option.toList_none, List.append_nil] at hentered
      rw [hgiven, hentered, Calls.made, List.filterMap_append]
      cases hi : spec.given i <;> simp [hi]
    · rw [hempty] at hhanded
      rw [hhand]
      exact hhanded
  | inside hl hl' hcall hentries hgets =>
    rw [Calls.note_inside hl hl']
    obtain ⟨j, hj, hinj⟩ := hin hl
    refine ⟨?_, fun _ ↦ ⟨j, hj, hcall j hinj⟩, ?_, ?_, hanswered⟩
    · rw [hl']
      nofun
    · rw [List.append_assoc, hentries]
      exact hentered
    · rw [hgets, hhanded, List.append_assoc]
  | leave hl hl' hentries hgets hdone hanswers =>
    obtain ⟨j, hj, hinj⟩ := hin hl
    obtain ⟨houtstanding, hempty⟩ := spec.idle_empty l' hl'
    rw [Calls.note_return hl hl' hj, hentries, hgets, List.append_nil, List.append_nil]
    refine ⟨fun _ ↦ rfl, ?_, ?_, ?_, ?_⟩
    · rw [hl']
      nofun
    · rw [hdone, Calls.made, hj] at hentered
      rw [houtstanding, hentered, Calls.made]
      simp
    · rw [hempty, hhanded, List.filterMap_append]
      cases spec.hand l <;> simp
    · intro e he
      rcases List.mem_append.mp he with he | he
      · exact hanswered e he
      · rw [List.mem_singleton.mp he]
        exact hanswers j hinj

section run

variable [DecidableEq T] {turn : T → ι → S → L → Turn ε S L} {outside : S → S → Prop}
  {c₀ : Config T S L} {c : Config T S (Noted L ι (Option β))}

/-- Some threads make calls, and every turn of theirs is of one of the three kinds; no other thread
touches what they have entered and got. So their records are right wherever a run leads. `Inv` is an
invariant of the system. -/
theorem kept_of_views (spec : T → CallSpec L ι α β) {idle : L → Bool} {hand : L → Option β}
    (hspec : ∀ t, (spec t).idle = idle ∧ (spec t).hand = hand) (Inv : S → (T → L) → Prop)
    (client : T → Prop) (entered : S → T → List α) (out : S → T → List β)
    (h₀ : Inv c₀.shared c₀.place ∧ ∀ t, client t →
      entered c₀.shared t = [] ∧ out c₀.shared t = [] ∧ idle (c₀.place t) = true)
    (hturn : ∀ s f t i s' l, Inv s f → turn t i s (f t) = .moved s' l →
      Inv s' (Function.update f t l) ∧
      (client t → ∃ entries gets, (spec t).Turns i (f t) entries gets l ∧
        entered s' t = entered s t ++ entries ∧ out s' t = out s t ++ gets) ∧
      ∀ u, u ≠ t → entered s' u = entered s u ∧ out s' u = out s u)
    (houtside : ∀ s f s', Inv s f → outside s s' →
      Inv s' f ∧ entered s' = entered s ∧ out s' = out s)
    (h : Reaches (noting idle hand turn) outside c₀.noted c) :
    Inv c.shared c.plain.place ∧ ∀ t, client t → (spec t).Kept (entered c.shared t)
      (out c.shared t) (c.calls t) (c.plain.place t) := by
  refine h.noted_invariant (fun s f x ↦ Inv s f ∧ ∀ t, client t →
    (spec t).Kept (entered s t) (out s t) (x t) (f t)) ?_ ?_ ?_
  · refine ⟨h₀.1, fun t ht ↦ ?_⟩
    obtain ⟨hentered, hout, hidle⟩ := h₀.2 t ht
    rw [hentered, hout]
    exact kept_none (by rw [(hspec t).1, hidle])
  · intro s f x t i s' l hinv hmoved
    obtain ⟨hinv', hown, hothers⟩ := hturn s f t i s' l hinv.1 hmoved
    refine ⟨hinv', fun u hu ↦ ?_⟩
    by_cases hut : u = t
    · subst hut
      obtain ⟨entries, gets, hkind, hentered, hout⟩ := hown hu
      have hkept := (hinv.2 u hu).turn hkind
      rw [(hspec u).1, (hspec u).2] at hkept
      rw [Function.update_self, Function.update_self, hentered, hout]
      exact hkept
    · rw [Function.update_of_ne hut, Function.update_of_ne hut, (hothers u hut).1,
        (hothers u hut).2]
      exact hinv.2 u hu
  · intro s f x s' hinv hs
    obtain ⟨hinv', hentered, hout⟩ := houtside s f s' hinv.1 hs
    refine ⟨hinv', ?_⟩
    rw [hentered, hout]
    exact hinv.2

/-- All threads make calls, and enter into logs that they share. -/
theorem kept_of_reaches (Inv : S → (T → L) → Prop) (inLog : S → List (T × α))
    (outLog : S → List (T × β))
    (h₀ : Inv c₀.shared c₀.place ∧ inLog c₀.shared = [] ∧ outLog c₀.shared = [] ∧
      ∀ t, spec.idle (c₀.place t) = true)
    (hturn : ∀ s f t i s' l, Inv s f → turn t i s (f t) = .moved s' l →
      Inv s' (Function.update f t l) ∧ ∃ entries gets, spec.Turns i (f t) entries gets l ∧
        inLog s' = inLog s ++ entries.map (fun a ↦ (t, a)) ∧
        outLog s' = outLog s ++ gets.map fun b ↦ (t, b))
    (houtside : ∀ s f s', Inv s f → outside s s' →
      Inv s' f ∧ inLog s' = inLog s ∧ outLog s' = outLog s)
    (h : Reaches (noting spec.idle spec.hand turn) outside c₀.noted c) :
    Inv c.shared c.plain.place ∧ ∀ t, spec.Kept (entriesOf (inLog c.shared) t)
      (entriesOf (outLog c.shared) t) (c.calls t) (c.plain.place t) := by
  have hkept := kept_of_views (fun _ ↦ spec) (fun _ ↦ ⟨rfl, rfl⟩) Inv (fun _ ↦ True)
    (fun s ↦ entriesOf (inLog s)) (fun s ↦ entriesOf (outLog s)) ?_ ?_ ?_ h
  · exact hkept.imp_right fun hkept t ↦ hkept t trivial
  · obtain ⟨hinv, hin, hout, hidle⟩ := h₀
    refine ⟨hinv, fun t _ ↦ ⟨?_, ?_, hidle t⟩⟩
    · rw [hin, entriesOf_nil]
    · rw [hout, entriesOf_nil]
  · intro s f t i s' l hinv hmoved
    obtain ⟨hinv', entries, gets, hkind, hin, hout⟩ := hturn s f t i s' l hinv hmoved
    refine ⟨hinv', fun _ ↦ ⟨entries, gets, hkind, ?_, ?_⟩, fun u hu ↦ ⟨?_, ?_⟩⟩
    · rw [hin, entriesOf_append_self]
    · rw [hout, entriesOf_append_self]
    · rw [hin, entriesOf_append_of_ne hu]
    · rw [hout, entriesOf_append_of_ne hu]
  · intro s f s' hinv hs
    obtain ⟨hinv', hin, hout⟩ := houtside s f s' hinv hs
    exact ⟨hinv', by rw [hin], by rw [hout]⟩

end run

end CallSpec

/-! ## Points on the way -/

section

variable [DecidableEq T] {turn : T → ι → S → L → Turn ε S L} {c c' : Config T S L}
  {schedule : List (T × ι)} {P Q : Config T S L → Prop} {t : T}

/-- On the way from `c` along the schedule there is a point where `P` holds. -/
def Config.Passes (turn : T → ι → S → L → Turn ε S L) (c : Config T S L)
    (schedule : List (T × ι)) (P : Config T S L → Prop) : Prop :=
  ∃ before after c₁, schedule = before ++ after ∧ c.follow turn before = some c₁ ∧ P c₁

theorem Config.Passes.here (h : P c) : c.Passes turn schedule P := ⟨[], schedule, c, rfl, rfl, h⟩

theorem Config.Passes.later {u : T} {i : ι} {s : S} {l : L}
    (ht : turn u i c.shared (c.place u) = .moved s l)
    (h : (c.move u s l).Passes turn schedule P) : c.Passes turn ((u, i) :: schedule) P := by
  obtain ⟨before, after, c₁, rfl, hbefore, hc₁⟩ := h
  refine ⟨(u, i) :: before, after, c₁, rfl, ?_, hc₁⟩
  rw [Config.follow, ht]
  exact hbefore

/-- The first turn of a schedule that is followed. -/
theorem Config.follow_cons {u : T} {i : ι} (h : c.follow turn ((u, i) :: schedule) = some c') :
    ∃ s l, turn u i c.shared (c.place u) = .moved s l ∧
      (c.move u s l).follow turn schedule = some c' := by
  rw [Config.follow] at h
  cases hturn : turn u i c.shared (c.place u) with
  | moved s l =>
    rw [hturn] at h
    exact ⟨s, l, rfl, h⟩
  | blocked =>
    rw [hturn] at h
    cases h
  | crashed e =>
    rw [hturn] at h
    cases h

/-- The thread `t` makes the call `i`. Whatever the schedule then, it has come to `Q`, or it has had
fewer than `n` turns and can go on. -/
def Config.Completes (turn : T → ι → S → L → Turn ε S L) (c : Config T S L) (t : T) (i : ι) (n : ℕ)
    (Q : Config T S L → Prop) : Prop :=
  ∃ s l, turn t i c.shared (c.place t) = .moved s l ∧
    ∀ schedule c', (c.move t s l).follow turn schedule = some c' →
      (c.move t s l).Passes turn schedule Q ∨
        schedule.countP (fun choice ↦ choice.1 = t) < n ∧
          ∀ i, ∃ s l, turn t i c'.shared (c'.place t) = .moved s l

/-- A thread that has `P n` needs at most `n` turns to get to `Q`. Each of its turns brings it
closer and no other thread sends it back, so it gets there, whatever the schedule. -/
theorem Config.passes_of_rank {P : ℕ → Config T S L → Prop} (hpos : ∀ c, ¬ P 0 c)
    (hown : ∀ n c i s l, P (n + 1) c → turn t i c.shared (c.place t) = .moved s l →
      Q (c.move t s l) ∨ ∃ m ≤ n, P m (c.move t s l))
    (hother : ∀ n c u i s l, u ≠ t → P n c → turn u i c.shared (c.place u) = .moved s l →
      P n (c.move u s l))
    {n : ℕ} (h : P n c) (hfollow : c.follow turn schedule = some c') :
    c.Passes turn schedule Q ∨
      schedule.countP (fun choice ↦ choice.1 = t) < n ∧ ∃ m, P m c' := by
  induction schedule generalizing c n with
  | nil =>
    cases hfollow
    refine .inr ⟨Nat.pos_of_ne_zero ?_, n, h⟩
    rintro rfl
    exact hpos _ h
  | cons choice schedule ih =>
    obtain ⟨u, i⟩ := choice
    obtain ⟨s, l, hturn, hrest⟩ := Config.follow_cons hfollow
    by_cases hu : u = t
    · subst hu
      rw [List.countP_cons_of_pos (by simp)]
      cases n with
      | zero => exact absurd h (hpos c)
      | succ n =>
        rcases hown n c i s l h hturn with hq | ⟨m, hm, hp⟩
        · exact .inl (.later hturn (.here hq))
        · rcases ih hp hrest with hpasses | ⟨hlt, hend⟩
          · exact .inl (.later hturn hpasses)
          · exact .inr ⟨Nat.succ_lt_succ (Nat.lt_of_lt_of_le hlt hm), hend⟩
    · rw [List.countP_cons_of_neg (by simpa using hu)]
      rcases ih (hother n c u i s l hu h hturn) hrest with hpasses | hend
      · exact .inl (.later hturn hpasses)
      · exact .inr hend

/-- A thread that had `P` and has it no more has been at `Q`, the only point at which it can lose
it. -/
theorem Config.passes_of_left
    (hown : ∀ c i s l, P c → turn t i c.shared (c.place t) = .moved s l →
      P (c.move t s l) ∨ Q c)
    (hother : ∀ c u i s l, u ≠ t → P c → turn u i c.shared (c.place u) = .moved s l →
      P (c.move u s l))
    (h : P c) (hfollow : c.follow turn schedule = some c') (hleft : ¬ P c') :
    c.Passes turn schedule Q := by
  induction schedule generalizing c with
  | nil =>
    cases hfollow
    exact absurd h hleft
  | cons choice schedule ih =>
    obtain ⟨u, i⟩ := choice
    obtain ⟨s, l, hturn, hrest⟩ := Config.follow_cons hfollow
    by_cases hu : u = t
    · subst hu
      rcases hown c i s l h hturn with hp | hq
      · exact .later hturn (ih hp hrest)
      · exact .here hq
    · exact .later hturn (ih (hother c u i s l hu h hturn) hrest)

end

end Program

end Nachos
