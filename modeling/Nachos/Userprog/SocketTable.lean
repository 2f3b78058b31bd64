import Nachos.Program.Run
import Nachos.Userprog.Return

/-!
# The socket table over runs

The table has twenty slots, `-1` in the free ones. `SocketTCP` puts the descriptor the host gave
out into the first free slot and returns the descriptor, not the slot. `CloseSoc` looks the
descriptor up, and there the two get mixed: `findIndexSocket` answers with the descriptor where its
name and its callers expect the slot, so the slot that is cleared is the one *numbered* like the
descriptor.

A run of the two calls is followed with the list of ids that were returned and not closed since.
The table holds exactly these, one slot each, as long as every `CloseSoc` of a registered id finds
the id in the slot of that number, and no longer.
-/

namespace Nachos

open Program

/-! ## Looking things up -/

private theorem toNat_ofNat_socket {i : ℕ} (hi : i < maxSocket) : (BitVec.ofNat 32 i).toNat = i :=
  toNat_ofNat_of_lt (Nat.lt_trans hi (by decide))

private theorem findIndexSocketFree_cases (k : Kernel) :
    (k.findIndexSocketFree = -1 ∧ ∀ i < maxSocket, k.socket i ≠ -1) ∨
    ∃ i < maxSocket, k.findIndexSocketFree = BitVec.ofNat 32 i ∧ k.socket i = -1 := by
  rw [Kernel.findIndexSocketFree]
  cases h : (List.range maxSocket).find? fun i ↦ k.socket i = -1 with
  | none =>
    refine Or.inl ⟨rfl, fun i hi ↦ ?_⟩
    simpa using List.find?_range_eq_none.mp h i hi
  | some i =>
    obtain ⟨hslot, hi, -⟩ := List.find?_range_eq_some.mp h
    exact Or.inr ⟨i, by simpa using hi, rfl, by simpa using hslot⟩

/-- Is `id` in some slot? -/
def Kernel.Registered (k : Kernel) (id : Word) : Prop := ∃ i < maxSocket, k.socket i = id

theorem findIndexSocket_of_registered {k : Kernel} {id : Word} (h : k.Registered id) :
    k.findIndexSocket id = id := by
  rw [Kernel.findIndexSocket]
  cases hfind : (List.range maxSocket).find? fun i ↦ k.socket i = id with
  | none =>
    obtain ⟨i, hi, hslot⟩ := h
    exact absurd hslot (by simpa using List.find?_range_eq_none.mp hfind i hi)
  | some i => rfl

theorem findIndexSocket_of_not_registered {k : Kernel} {id : Word} (h : ¬k.Registered id) :
    k.findIndexSocket id = -1 := by
  rw [Kernel.findIndexSocket]
  cases hfind : (List.range maxSocket).find? fun i ↦ k.socket i = id with
  | none => rfl
  | some i =>
    obtain ⟨hslot, hi, -⟩ := List.find?_range_eq_some.mp hfind
    exact absurd ⟨i, by simpa using hi, by simpa using hslot⟩ h

/-! ## The two calls -/

private theorem setSocket_of_lt {pos : Word} (h : pos.toNat < maxSocket) (id : Word) (k : Kernel) :
    setSocket pos id k = .ok () { k with socket := Function.update k.socket pos.toNat id } :=
  if_pos h

private theorem setSocket_of_not_lt {pos : Word} (h : ¬pos.toNat < maxSocket) (id : Word)
    (k : Kernel) : setSocket pos id k = .error .tableIndex k := if_neg h

/-- `SocketTCP` fails, changing nothing but `r2`, or registers the new descriptor in a free slot. -/
theorem scSocketTCP_cases (env : Env) (k : Kernel) :
    scSocketTCP env k = .ok () { k with machine := k.machine.setReg 2 (-1) } ∨
    ∃ i < maxSocket, k.socket i = -1 ∧ 0 ≤ env.newFd.toInt ∧ k.host.fds env.newFd = none ∧
      scSocketTCP env k = .ok () { k with
        socket := Function.update k.socket i env.newFd
        host := (k.host.socket env.newFd).2
        machine := k.machine.setReg 2 env.newFd } := by
  rw [scSocketTCP, bind_of_ok (get_eq k)]
  rcases findIndexSocketFree_cases k with ⟨hfull, -⟩ | ⟨i, hi, hfree, hslot⟩
  · rw [if_pos hfull]
    exact Or.inl (setResult_eq _ _)
  · rw [if_neg (by rw [hfree]; exact ofNat_ne_neg_one (Nat.lt_trans hi (by decide))),
      bind_of_ok (onHost_eq _ k)]
    by_cases hfd : k.host.isFree env.newFd = true
    · obtain ⟨hpos, hnone⟩ := Host.isFree_iff.mp hfd
      refine Or.inr ⟨i, hi, hslot, hpos, hnone, ?_⟩
      have hsocket : (k.host.socket env.newFd).1 = env.newFd := by rw [Host.socket, if_pos hfd]
      rw [hsocket, if_neg (by omega), hfree,
        bind_of_ok (setSocket_of_lt (by rwa [toNat_ofNat_socket hi]) _ _), setResult_eq,
        toNat_ofNat_socket hi]
    · left
      have hsocket : k.host.socket env.newFd = (-1, k.host) := by rw [Host.socket, if_neg hfd]
      rw [hsocket, if_pos (show (-1 : Word).toInt < 0 by decide), setResult_eq]

section closeSoc

variable {k : Kernel} {id : Word} (hid : k.machine.registers 4 = id)

include hid

/-- `CloseSoc` of an id that is in no slot. -/
theorem scCloseSoc_of_not_registered (h : id.toInt < 0 ∨ ¬k.Registered id) :
    scCloseSoc k = .ok () { k with machine := k.machine.setReg 2 (-1) } := by
  rw [scCloseSoc, bind_of_ok (readRegister_of_lt (by decide) k), hid]
  by_cases hneg : id.toInt < 0
  · rw [if_pos hneg, setResult_eq]
  · rw [if_neg hneg, bind_of_ok (get_eq k),
      if_neg (by rw [findIndexSocket_of_not_registered (h.resolve_left hneg)]; simp), setResult_eq]

private theorem scCloseSoc_registered (hpos : ¬id.toInt < 0) (h : k.Registered id) :
    scCloseSoc k = (do
      setSocket id (-1)
      let _ ← onHost fun h ↦ (h.record (.close id)).close id
      setResult 0) k := by
  have hne : id ≠ -1 := by
    rintro rfl
    exact hpos (by decide)
  rw [scCloseSoc, bind_of_ok (readRegister_of_lt (by decide) k), hid, if_neg hpos,
    bind_of_ok (get_eq k), findIndexSocket_of_registered h, if_pos hne]

/-- `CloseSoc` of a registered id clears the slot with that number. -/
theorem scCloseSoc_of_lt (hpos : ¬id.toInt < 0) (h : k.Registered id) (hlt : id.toNat < maxSocket) :
    scCloseSoc k = .ok () { k with
      socket := Function.update k.socket id.toNat (-1)
      host := ((k.host.record (.close id)).close id).2
      machine := k.machine.setReg 2 0 } := by
  rw [scCloseSoc_registered hid hpos h, bind_of_ok (setSocket_of_lt hlt _ k),
    bind_of_ok (onHost_eq _ _), setResult_eq]

/-- If there is no such slot, it writes outside the table. -/
theorem scCloseSoc_of_not_lt (hpos : ¬id.toInt < 0) (h : k.Registered id)
    (hlt : ¬id.toNat < maxSocket) : scCloseSoc k = .error .tableIndex k := by
  rw [scCloseSoc_registered hid hpos h, bind_of_error (setSocket_of_not_lt hlt _ k)]

end closeSoc

/-! ## Runs -/

/-- A trap whose call is `SocketTCP` or `CloseSoc`. -/
structure SocketTrap extends Trap where
  code : machine.registers 2 = Syscall.code .socketTCP ∨
    machine.registers 2 = Syscall.code .closeSoc

/-- The kernel, with the ids that `SocketTCP` has returned and that were not closed since. -/
structure SocketState where
  kernel : Kernel
  live : List Word

/-- How the result of a call changes the live ids. -/
def SocketTrap.liveAfter (t : SocketTrap) (live : List Word) (result : Word) : List Word :=
  if t.machine.registers 2 = Syscall.code .socketTCP then
    if 0 ≤ result.toInt then result :: live else live
  else if result = 0 then live.filter (· ≠ t.machine.registers 4) else live

def SocketState.step (s : SocketState) (t : SocketTrap) : Option SocketState :=
  (s.kernel.trap t.toTrap).map fun k ↦ ⟨k, t.liveAfter s.live (k.machine.registers 2)⟩

/-- The table as the constructor leaves it, no id returned yet. -/
def SocketState.initial (machine : Machine) (heap : Heap) (host : Host) (consoleIn : List Byte) :
    SocketState := ⟨Kernel.initial machine heap host consoleIn, []⟩

/-- The table holds exactly the live ids, each in exactly one slot. -/
structure HoldsExactly (socket : ℕ → Word) (live : List Word) : Prop where
  registered : ∀ id ∈ live, ∃ i < maxSocket, socket i = id ∧
    ∀ j < maxSocket, socket j = id → j = i
  live_of_slot : ∀ i < maxSocket, socket i ≠ -1 → socket i ∈ live

/-- A `CloseSoc` that reports success has freed one slot, that of the id, and left the others. -/
def FreesOneSlot (k k' : Kernel) (id : Word) : Prop :=
  (∃ i < maxSocket, k.socket i = id ∧ k'.socket = Function.update k.socket i (-1)) ∧
    k'.findIndexSocket id = -1

/-- The call returns, without a write outside the table, and the table is right again. -/
def SocketState.StepCorrect (s : SocketState) (t : SocketTrap) : Prop :=
  ∃ s', s.step t = some s' ∧ HoldsExactly s'.kernel.socket s'.live ∧
    (t.machine.registers 2 = Syscall.code .closeSoc → s'.kernel.machine.registers 2 = 0 →
      FreesOneSlot s.kernel s'.kernel (t.machine.registers 4))

/-- The branch that goes wrong is not taken: a registered id that is closed is in the slot of that
number. -/
def SocketState.ClosesOwnSlot (s : SocketState) (t : SocketTrap) : Prop :=
  t.machine.registers 2 = Syscall.code .closeSoc → 0 ≤ (t.machine.registers 4).toInt →
    s.kernel.Registered (t.machine.registers 4) →
    (t.machine.registers 4).toNat < maxSocket ∧
      s.kernel.socket (t.machine.registers 4).toNat = t.machine.registers 4

/-- The table is right, and the host knows every live id. -/
structure SocketState.Inv (s : SocketState) : Prop where
  holds : HoldsExactly s.kernel.socket s.live
  nonneg : ∀ id ∈ s.live, 0 ≤ id.toInt
  hostOpen : ∀ id ∈ s.live, s.kernel.host.fds id ≠ none

theorem SocketState.inv_initial (machine : Machine) (heap : Heap) (host : Host)
    (consoleIn : List Byte) : (SocketState.initial machine heap host consoleIn).Inv := by
  refine ⟨⟨?_, ?_⟩, ?_, ?_⟩
  · intro id hid
    cases hid
  · intro i _ hne
    exact absurd rfl hne
  · intro id hid
    cases hid
  · intro id hid
    cases hid

/-! ## The table under the calls -/

theorem HoldsExactly.slot_ne {socket : ℕ → Word} {live : List Word} (h : HoldsExactly socket live)
    {id : Word} (hid : id ≠ -1) (hdead : id ∉ live) : ∀ i < maxSocket, socket i ≠ id := by
  rintro i hi rfl
  exact hdead (h.live_of_slot i hi hid)

section table

variable {socket : ℕ → Word} {live : List Word} (h : HoldsExactly socket live)
  (hlive : ∀ id ∈ live, id ≠ -1) {i : ℕ} (hi : i < maxSocket)

include h hlive hi

/-- A new id in a free slot. -/
theorem HoldsExactly.insert (hfree : socket i = -1) {id : Word} (hid : id ≠ -1)
    (hnew : id ∉ live) : HoldsExactly (Function.update socket i id) (id :: live) := by
  constructor
  · intro id' hid'
    rcases List.mem_cons.mp hid' with rfl | hmem
    · refine ⟨i, hi, Function.update_self _ _ _, fun j hj hslot ↦ ?_⟩
      by_contra hji
      rw [Function.update_of_ne hji] at hslot
      exact hnew (hslot ▸ h.live_of_slot j hj (by rwa [hslot]))
    · obtain ⟨j, hj, hslot, hunique⟩ := h.registered id' hmem
      have hji : j ≠ i := by
        rintro rfl
        exact hlive id' hmem (by rw [← hslot, hfree])
      refine ⟨j, hj, by rw [Function.update_of_ne hji, hslot], fun l hl hslot' ↦ ?_⟩
      by_cases hli : l = i
      · subst hli
        rw [Function.update_self] at hslot'
        exact absurd (hslot' ▸ hmem) hnew
      · rw [Function.update_of_ne hli] at hslot'
        exact hunique l hl hslot'
  · intro j hj hne
    by_cases hji : j = i
    · subst hji
      rw [Function.update_self]
      exact List.mem_cons_self
    · rw [Function.update_of_ne hji] at hne ⊢
      exact List.mem_cons_of_mem _ (h.live_of_slot j hj hne)

/-- The slot of an id cleared. -/
theorem HoldsExactly.remove {id : Word} (hid : id ≠ -1) (hslot : socket i = id) :
    HoldsExactly (Function.update socket i (-1)) (live.filter (· ≠ id)) := by
  have hmem : id ∈ live := hslot ▸ h.live_of_slot i hi (by rwa [hslot])
  obtain ⟨i', -, -, hunique⟩ := h.registered id hmem
  constructor
  · intro id' hid'
    obtain ⟨hmem', hne⟩ := List.mem_filter.mp hid'
    have hne' : id' ≠ id := by simpa using hne
    obtain ⟨j, hj, hslot', hunique'⟩ := h.registered id' hmem'
    have hji : j ≠ i := by
      rintro rfl
      exact hne' (by rw [← hslot', hslot])
    refine ⟨j, hj, by rw [Function.update_of_ne hji, hslot'], fun l hl hl' ↦ ?_⟩
    by_cases hli : l = i
    · subst hli
      rw [Function.update_self] at hl'
      exact absurd hl'.symm (hlive id' hmem')
    · rw [Function.update_of_ne hli] at hl'
      exact hunique' l hl hl'
  · intro j hj hne
    by_cases hji : j = i
    · subst hji
      exact absurd (Function.update_self _ _ _) hne
    · rw [Function.update_of_ne hji] at hne ⊢
      refine List.mem_filter.mpr ⟨h.live_of_slot j hj hne, ?_⟩
      simp only [ne_eq, decide_eq_true_eq]
      intro heq
      exact hji ((hunique j hj heq).trans (hunique i hi hslot).symm)

omit h hlive in
/-- Clearing a slot of another number leaves the id in the table. -/
theorem HoldsExactly.not_remove {id : Word} (hslot : socket i = id) (hid : id ≠ -1) {n : ℕ}
    (hn : socket n ≠ id) :
    ¬HoldsExactly (Function.update socket n (-1)) (live.filter (· ≠ id)) := by
  intro h'
  have hin : i ≠ n := by
    rintro rfl
    exact hn hslot
  exact h'.slot_ne hid (by simp) i hi (by rw [Function.update_of_ne hin, hslot])

end table

/-! ## One call -/

section step

variable {s : SocketState} {t : SocketTrap}

theorem SocketState.Inv.ne_neg_one (hs : s.Inv) : ∀ id ∈ s.live, id ≠ -1 := by
  rintro id hid rfl
  exact absurd (hs.nonneg _ hid) (by decide)

/-- A call that fails changes neither the table nor the live ids. -/
private theorem step_of_failure {call : Syscall} (hcode : t.machine.registers 2 = call.code)
    (hbody : call.body t.env { s.kernel with machine := t.machine }
      = .ok () { s.kernel with machine := t.machine.setReg 2 (-1) }) :
    s.step t = some
      ⟨{ s.kernel with machine := (t.machine.setReg 2 (-1)).skip }, s.live⟩ := by
  rw [SocketState.step, trap_of_body hcode hbody, Option.map_some]
  have hresult : (t.machine.setReg 2 (-1)).skip.registers 2 = -1 := by
    rw [Machine.skip_result, Machine.setReg_registers_self]
  have hlive : t.liveAfter s.live (-1) = s.live := by
    rw [SocketTrap.liveAfter]
    simp
  simp only [hresult, hlive]

theorem SocketState.Inv.setMachine (hs : s.Inv) (m : Machine) :
    SocketState.Inv ⟨{ s.kernel with machine := m }, s.live⟩ := ⟨hs.holds, hs.nonneg, hs.hostOpen⟩

private theorem step_socketTCP (hs : s.Inv)
    (hcode : t.machine.registers 2 = Syscall.code .socketTCP) :
    ∃ s', s.step t = some s' ∧ s'.Inv := by
  rcases scSocketTCP_cases t.env { s.kernel with machine := t.machine } with
    hfail | ⟨i, hi, hslot, hpos, hnone, hok⟩
  · exact ⟨_, step_of_failure hcode hfail, hs.setMachine _⟩
  · have hresult : (t.machine.setReg 2 t.env.newFd).skip.registers 2 = t.env.newFd := by
      rw [Machine.skip_result, Machine.setReg_registers_self]
    have hne : t.env.newFd ≠ -1 := by
      intro h
      rw [h] at hpos
      exact absurd hpos (by decide)
    have hnew : t.env.newFd ∉ s.live := fun hmem ↦ hs.hostOpen _ hmem hnone
    have hfree : s.kernel.host.isFree t.env.newFd = true := Host.isFree_iff.mpr ⟨hpos, hnone⟩
    have hhost : (s.kernel.host.socket t.env.newFd).2.fds
        = Function.update s.kernel.host.fds t.env.newFd (some .stream) := by
      rw [Host.socket, if_pos hfree]
      rfl
    refine ⟨_, by rw [SocketState.step, trap_of_body hcode hok,
      Option.map_some], ?_, ?_, ?_⟩
    · simp only [hresult, SocketTrap.liveAfter, if_pos hcode, if_pos hpos]
      exact hs.holds.insert hs.ne_neg_one hi hslot hne hnew
    · simp only [hresult, SocketTrap.liveAfter, if_pos hcode, if_pos hpos]
      intro id hid
      rcases List.mem_cons.mp hid with rfl | hmem
      · exact hpos
      · exact hs.nonneg id hmem
    · simp only [hresult, SocketTrap.liveAfter, if_pos hcode, if_pos hpos, hhost]
      intro id hid
      rcases List.mem_cons.mp hid with rfl | hmem
      · rw [Function.update_self]
        simp
      · by_cases heq : id = t.env.newFd
        · exact absurd (heq ▸ hmem) hnew
        · rw [Function.update_of_ne heq]
          exact hs.hostOpen id hmem

private theorem closeSoc_ne_socketTCP (hcode : t.machine.registers 2 = Syscall.code .closeSoc) :
    t.machine.registers 2 ≠ Syscall.code .socketTCP := by
  rw [hcode]
  decide

/-- The state after a `CloseSoc` that found its slot. -/
private theorem step_closeSoc (hcode : t.machine.registers 2 = Syscall.code .closeSoc)
    (hpos : ¬(t.machine.registers 4).toInt < 0) (hreg : s.kernel.Registered (t.machine.registers 4))
    (hlt : (t.machine.registers 4).toNat < maxSocket) :
    s.step t = some
      ⟨{ s.kernel with
          socket := Function.update s.kernel.socket (t.machine.registers 4).toNat (-1)
          host := ((s.kernel.host.record (.close (t.machine.registers 4))).close
            (t.machine.registers 4)).2
          machine := (t.machine.setReg 2 0).skip },
        s.live.filter (· ≠ t.machine.registers 4)⟩ := by
  have hok := scCloseSoc_of_lt (k := { s.kernel with machine := t.machine }) rfl hpos hreg hlt
  have hresult : (t.machine.setReg 2 0).skip.registers 2 = 0 := by
    rw [Machine.skip_result, Machine.setReg_registers_self]
  rw [SocketState.step, trap_of_body hcode hok, Option.map_some]
  simp only [hresult, SocketTrap.liveAfter, if_neg (closeSoc_ne_socketTCP hcode), if_true]

/-- A `CloseSoc` that fails: the id is negative or in no slot. -/
private theorem step_closeSoc_of_not_registered
    (hcode : t.machine.registers 2 = Syscall.code .closeSoc)
    (h : (t.machine.registers 4).toInt < 0 ∨ ¬s.kernel.Registered (t.machine.registers 4)) :
    s.step t = some ⟨{ s.kernel with machine := (t.machine.setReg 2 (-1)).skip }, s.live⟩ :=
  step_of_failure hcode
    (scCloseSoc_of_not_registered (k := { s.kernel with machine := t.machine }) rfl h)

/-- A call that meets the condition returns, keeps the invariant, and if it closes a socket frees
its slot. -/
private theorem step_of_closesOwnSlot (hs : s.Inv) (hown : s.ClosesOwnSlot t) :
    ∃ s', s.step t = some s' ∧ s'.Inv ∧
      (t.machine.registers 2 = Syscall.code .closeSoc → s'.kernel.machine.registers 2 = 0 →
        FreesOneSlot s.kernel s'.kernel (t.machine.registers 4)) := by
  rcases t.code with hcode | hcode
  · obtain ⟨s', hstep, hinv⟩ := step_socketTCP hs hcode
    refine ⟨s', hstep, hinv, fun hclose ↦ ?_⟩
    exact absurd hcode (closeSoc_ne_socketTCP hclose)
  · by_cases hreg : (t.machine.registers 4).toInt < 0 ∨
      ¬s.kernel.Registered (t.machine.registers 4)
    · refine ⟨_, step_closeSoc_of_not_registered hcode hreg, hs.setMachine _, fun _ hzero ↦ ?_⟩
      rw [Machine.skip_result, Machine.setReg_registers_self] at hzero
      exact absurd hzero (by decide)
    · rw [not_or, not_not] at hreg
      obtain ⟨hlt, hslot⟩ := hown hcode (Int.not_lt.mp hreg.1) hreg.2
      have hne : t.machine.registers 4 ≠ -1 := by
        intro h
        exact hreg.1 (by rw [h]; decide)
      have hholds := hs.holds.remove hs.ne_neg_one hlt hne hslot
      refine ⟨_, step_closeSoc hcode hreg.1 hreg.2 hlt, ⟨hholds, ?_, ?_⟩, fun _ _ ↦ ?_⟩
      · intro id hid
        exact hs.nonneg id (List.mem_filter.mp hid).1
      · intro id hid
        obtain ⟨hmem, hid'⟩ := List.mem_filter.mp hid
        rw [Host.close_fds, Function.update_of_ne (by simpa using hid')]
        exact hs.hostOpen id hmem
      · refine ⟨⟨_, hlt, hslot, rfl⟩, findIndexSocket_of_not_registered ?_⟩
        rintro ⟨i, hi, hi'⟩
        exact hholds.slot_ne hne (by simp) i hi hi'

/-- **One call.** In a state of the invariant a call is handled correctly exactly when it does not
close a registered id that is in another slot. -/
theorem stepCorrect_iff (hs : s.Inv) : s.StepCorrect t ↔ s.ClosesOwnSlot t := by
  constructor
  · rintro ⟨s', hstep, hholds, -⟩ hcode hpos hreg
    have hpos' : ¬(t.machine.registers 4).toInt < 0 := Int.not_lt.mpr hpos
    have hne : t.machine.registers 4 ≠ -1 := by
      intro h
      exact hpos' (by rw [h]; decide)
    by_cases hlt : (t.machine.registers 4).toNat < maxSocket
    · refine ⟨hlt, ?_⟩
      by_contra hslot
      obtain ⟨i, hi, hi'⟩ := hreg
      rw [step_closeSoc hcode hpos' ⟨i, hi, hi'⟩ hlt] at hstep
      cases hstep
      exact HoldsExactly.not_remove hi hi' hne hslot hholds
    · have herr := scCloseSoc_of_not_lt (k := { s.kernel with machine := t.machine }) rfl hpos' hreg
        hlt
      rw [SocketState.step, trap_of_body_error hcode herr] at hstep
      cases hstep
  · intro hown
    obtain ⟨s', hstep, hinv, hfrees⟩ := step_of_closesOwnSlot hs hown
    exact ⟨s', hstep, hinv.holds, hfrees⟩

/-- A call that meets the condition keeps the invariant. -/
private theorem inv_step (hs : s.Inv) (hown : s.ClosesOwnSlot t) {s' : SocketState}
    (h : s.step t = some s') : s'.Inv := by
  obtain ⟨s'', hstep, hinv, -⟩ := step_of_closesOwnSlot hs hown
  rw [h] at hstep
  cases hstep
  exact hinv

end step

/-! ## Whole runs -/

/-- **The socket table.** Along a run of `SocketTCP` and `CloseSoc` calls from the initial table,
whatever descriptors the host hands out, every call leaves the table holding exactly the live ids,
one slot each, if and only if every `CloseSoc` of a registered id finds the id in the slot of that
number. -/
theorem socketTable_correct_iff (machine : Machine) (heap : Heap) (host : Host)
    (consoleIn : List Byte) (traps : List SocketTrap) :
    Along SocketState.step SocketState.StepCorrect
        (SocketState.initial machine heap host consoleIn) traps ↔
      Along SocketState.step SocketState.ClosesOwnSlot
        (SocketState.initial machine heap host consoleIn) traps :=
  along_iff SocketState.Inv (fun _ _ hs ↦ stepCorrect_iff hs)
    (fun _ _ _ hs hown h ↦ inv_step hs hown h) (SocketState.inv_initial machine heap host consoleIn)

/-! ## The failing run -/

/-- `SocketTCP`, which gets descriptor 5. -/
def socketFive : SocketTrap where
  machine := callMachine 16 0
  env := { Env.quiet with newFd := 5 }
  code := Or.inl (by decide)

/-- `CloseSoc(5)`. -/
def closeFive : SocketTrap where
  machine := callMachine 20 5
  env := Env.quiet
  code := Or.inr (by decide)

/-- Opening one socket and closing it again leaves it in the table. -/
theorem closeFive_leaves_slot :
    ¬∀ (machine : Machine) (heap : Heap) (host : Host) (consoleIn : List Byte)
        (traps : List SocketTrap), Along SocketState.step SocketState.StepCorrect
      (SocketState.initial machine heap host consoleIn) traps := by
  intro h
  obtain ⟨⟨s₁, hs₁, -⟩, hrest⟩ :=
    h (callMachine 0 0) ⟨fun _ ↦ [], []⟩ Host.empty [] [socketFive, closeFive]
  obtain ⟨⟨s₂, hs₂, hholds, -⟩, -⟩ := hrest s₁ hs₁
  have hrun : ((SocketState.initial (callMachine 0 0) ⟨fun _ ↦ [], []⟩ Host.empty []).step
      socketFive).bind (·.step closeFive) = some s₂ := by
    rw [hs₁]
    exact hs₂
  have hfinal : (some s₂).map (fun s ↦ (s.kernel.socket 0, s.live)) = some (5, []) := by
    rw [← hrun]
    decide +kernel
  simp only [Option.map_some, Option.some.injEq, Prod.mk.injEq] at hfinal
  have hmem := hholds.live_of_slot 0 (by decide) (by rw [hfinal.1]; decide)
  rw [hfinal.2] at hmem
  cases hmem

end Nachos
