import Nachos.Userprog.FileCalls

/-!
# The calls that take a file name

`Create`, `Open` and `Remove` fetch a name and hand it to the host, and each goes its own way when
the host refuses: `Open` and `Remove` pass the failure on, while `Create` reaches the host through
`OpenForWrite`, which asserts that the descriptor is not negative, so that the error branch of the
handler is never taken. The name itself is cut to `MaxFileLength + 1` characters without a word, and
the calls then work on the file under the shorter name.
-/

namespace Nachos

open Program

/-! ## What the three calls do -/

/-- The calls that take a file name. -/
def Syscall.TakesName (call : Syscall) : Prop := call = .create ∨ call = .open_ ∨ call = .remove

instance (call : Syscall) : Decidable call.TakesName := inferInstanceAs (Decidable (_ ∨ _))

/-- The call is turned down before the host is asked: an `Open` with another mode or without a free
slot, a `Remove` of a name that an open entry stores. -/
def Kernel.TurnsDown (k : Kernel) (t : CallTrap) (name : Name) : Prop :=
  match t.call with
  | .open_ => ¬ModeOk (t.machine.registers 5) ∨ k.findIndexFree = -1
  | .remove => (k.withString t.machine t.env.kernelBuf name nameLimit).isOpen name = true
  | _ => False

/-- The host call that is made with the name, and its outcome. -/
def Kernel.hostOutcome (k : Kernel) (t : CallTrap) (name : Name) : Word × Host :=
  match t.call with
  | .create => k.host.openTruncate name t.env.openFails t.env.newFd
  | .open_ => k.host.openReadWrite name t.env.openFails t.env.newFd
  | .remove => k.host.unlink name t.env.unlinkFails
  | _ => (0, k.host)

/-- What an operation on the name makes of the host. `Create` closes the descriptor again. -/
def Kernel.hostAfter (k : Kernel) (t : CallTrap) (name : Name) : Host :=
  match t.call with
  | .create => ((k.hostOutcome t name).2.close t.env.newFd).2
  | _ => (k.hostOutcome t name).2

/-- The call returns `-1`, and leaves the table, the files and the descriptors of the host. -/
def Kernel.RefusedBy (k : Kernel) (t : CallTrap) : Prop :=
  ∃ k', k.handle t.toTrap = .ok () k' ∧ k'.machine.registers 2 = -1 ∧ k'.openfile = k.openfile ∧
    k'.host = k.host

/-- The three ways through a call. -/
def Kernel.NameCallOutcome (k : Kernel) (t : CallTrap) (name : Name) : Prop :=
  (k.TurnsDown t name ∧ k.RefusedBy t) ∨
  (¬k.TurnsDown t name ∧ (k.hostOutcome t name).1 = -1 ∧
    ((t.call = .create ∧ ∃ k₁, k.handle t.toTrap = .error .assertFailed k₁) ∨
      (t.call ≠ .create ∧ k.RefusedBy t))) ∨
  (¬k.TurnsDown t name ∧ (k.hostOutcome t name).1 ≠ -1 ∧
    ∃ k', k.handle t.toTrap = .ok () k' ∧ k'.machine.registers 2 ≠ -1 ∧
      k'.host = k.hostAfter t name)

section cases

variable {k : Kernel} {t : CallTrap} {name : Name}

theorem CallTrap.code_of_call {call : Syscall} (hcall : t.call = call) :
    t.machine.registers 2 = call.code := t.code.trans (congrArg Syscall.code hcall)

/-- A `Create` always goes to the host. -/
theorem not_turnsDown_create (hcall : t.call = .create) (name : Name) : ¬k.TurnsDown t name := by
  rw [Kernel.TurnsDown, hcall]
  exact id

variable (hname : t.machine.stringAt (t.machine.registers 4) nameLimit = some name)

include hname

private theorem create_outcome (hcall : t.call = .create) : k.NameCallOutcome t name := by
  have hdown := not_turnsDown_create (k := k) hcall name
  have houtcome : k.hostOutcome t name
      = k.host.openTruncate name t.env.openFails t.env.newFd := by
    rw [Kernel.hostOutcome, hcall]
  by_cases hrefused : t.env.openFails = true ∨ k.host.isFree t.env.newFd = false
  · obtain ⟨k₁, hrun⟩ :=
      scCreate_refused t.env (k := { k with machine := t.machine }) hname hrefused
    refine .inr (.inl ⟨hdown, ?_, .inl ⟨hcall, k₁, ?_⟩⟩)
    · rw [houtcome, Host.openTruncate_refused hrefused]
    · exact handle_of_body_error (CallTrap.code_of_call hcall) hrun
  · simp only [not_or, Bool.not_eq_true, Bool.not_eq_false] at hrefused
    obtain ⟨hok, hfd⟩ := hrefused
    obtain ⟨m, -, hrun⟩ :=
      scCreate_of_free t.env (k := { k with machine := t.machine }) hname hok hfd
    obtain ⟨ino, h', hopen, -⟩ := Host.openTruncate_of_free hfd name
    refine .inr (.inr ⟨hdown, ?_, _, handle_of_body (CallTrap.code_of_call hcall) hrun, ?_, ?_⟩)
    · rw [houtcome, hok, hopen]
      exact newFd_ne_neg_one (Host.isFree_iff.mp hfd).1
    · rw [Machine.skip_result, Machine.setReg_registers_self]
      decide
    · rw [Kernel.hostAfter, hcall, houtcome]

private theorem open_outcome (hcall : t.call = .open_) : k.NameCallOutcome t name := by
  have houtcome : k.hostOutcome t name
      = k.host.openReadWrite name t.env.openFails t.env.newFd := by
    rw [Kernel.hostOutcome, hcall]
  have hturns : k.TurnsDown t name ↔
      ¬ModeOk (t.machine.registers 5) ∨ k.findIndexFree = -1 := by
    rw [Kernel.TurnsDown, hcall]
  by_cases hdown : ¬ModeOk (t.machine.registers 5) ∨ k.findIndexFree = -1
  · have hrun : scOpen t.env { k with machine := t.machine } = _ := scOpen_refused hdown
    refine .inl ⟨hturns.mpr hdown, _, handle_of_body (CallTrap.code_of_call hcall) hrun, ?_, rfl,
      rfl⟩
    rw [Machine.skip_result, Machine.setReg_registers_self]
  · have hnot := not_or.mp hdown
    rcases findIndexFree_cases k with ⟨hfull, -⟩ | ⟨i, hfirst, hidx⟩
    · exact absurd hfull hnot.2
    · obtain ⟨m, -, hfetch⟩ := user2System_name t.env (k := { k with machine := t.machine }) hname
      rcases Host.openReadWrite_cases k.host name t.env.openFails t.env.newFd with
        hfail | ⟨ino, -, -, hpos, -, hok⟩
      · have hrun := scOpen_of_failure (k := { k with machine := t.machine }) (not_not.mp hnot.1)
          ⟨hfirst.two_le, hfirst.lt, hfirst.free, hfirst.least⟩ hidx hname hfetch hfail
        refine .inr (.inl ⟨hturns.not.mpr hdown, by rw [houtcome, hfail], .inr ⟨?_, _,
          handle_of_body (CallTrap.code_of_call hcall) hrun, ?_, rfl, rfl⟩⟩)
        · rw [hcall]
          decide
        · rw [Machine.skip_result]
          exact Machine.setReg_registers_self _ _ _
      · have hrun := scOpen_of_success (k := { k with machine := t.machine }) (not_not.mp hnot.1)
          ⟨hfirst.two_le, hfirst.lt, hfirst.free, hfirst.least⟩ hidx hname hfetch hpos hok
        refine .inr (.inr ⟨hturns.not.mpr hdown, ?_, _,
          handle_of_body (CallTrap.code_of_call hcall) hrun, ?_, ?_⟩)
        · rw [houtcome, hok]
          exact newFd_ne_neg_one hpos
        · rw [Machine.skip_result, Kernel.afterOpen, Machine.setReg_registers_self]
          exact slot_ne_neg_one hfirst.lt
        · rw [Kernel.hostAfter, hcall, houtcome, hok]
          rfl

private theorem remove_outcome (hcall : t.call = .remove) : k.NameCallOutcome t name := by
  have houtcome : k.hostOutcome t name = k.host.unlink name t.env.unlinkFails := by
    rw [Kernel.hostOutcome, hcall]
  have hturns : k.TurnsDown t name ↔
      (k.withString t.machine t.env.kernelBuf name nameLimit).isOpen name = true := by
    rw [Kernel.TurnsDown, hcall]
  obtain ⟨m, -, hrun⟩ := scRemove_eq t.env (k := { k with machine := t.machine }) hname
  obtain ⟨k', hhandle, hresult, hopenfile, hhost⟩ : ∃ k', k.handle t.toTrap = .ok () k' ∧
      k'.machine.registers 2 = (Kernel.removal { k with machine := t.machine } t.env name).1 ∧
      k'.openfile = k.openfile ∧
      k'.host = (Kernel.removal { k with machine := t.machine } t.env name).2 := by
    refine ⟨_, handle_of_body (CallTrap.code_of_call hcall) hrun, ?_, rfl, rfl⟩
    rw [Machine.skip_result, Kernel.afterRemove, Machine.setReg_registers_self]
  by_cases hdown : k.TurnsDown t name
  · have hremoval : Kernel.removal { k with machine := t.machine } t.env name = (-1, k.host) :=
      if_pos (hturns.mp hdown)
    rw [hremoval] at hresult hhost
    exact .inl ⟨hdown, k', hhandle, hresult, hopenfile, hhost⟩
  · have hremoval : Kernel.removal { k with machine := t.machine } t.env name
        = k.host.unlink name t.env.unlinkFails := if_neg (hturns.not.mp hdown)
    rw [hremoval] at hresult hhost
    rcases k.host.unlink_cases name t.env.unlinkFails with hzero | hfail
    · refine .inr (.inr ⟨hdown, ?_, k', hhandle, ?_, ?_⟩)
      · rw [houtcome, hzero]
        decide
      · rw [hresult, hzero]
        decide
      · rw [Kernel.hostAfter, hcall, houtcome, hhost]
    · rw [hfail] at hresult hhost
      refine .inr (.inl ⟨hdown, by rw [houtcome, hfail], .inr ⟨?_, k', hhandle, hresult, hopenfile,
        hhost⟩⟩)
      rw [hcall]
      decide

/-- **One of the three ways.** -/
theorem nameCall_outcome (hcall : t.call.TakesName) : k.NameCallOutcome t name := by
  rcases hcall with hcall | hcall | hcall
  · exact create_outcome hname hcall
  · exact open_outcome hname hcall
  · exact remove_outcome hname hcall

end cases

/-! ## Failures of the host -/

/-- No assertion fails, and a failure of the host call comes back as `-1`, with nothing changed. -/
def Kernel.ReportsFailure (k : Kernel) (t : CallTrap) (name : Name) : Prop :=
  (∀ k₁, k.handle t.toTrap ≠ .error .assertFailed k₁) ∧
    (¬k.TurnsDown t name → (k.hostOutcome t name).1 = -1 → k.RefusedBy t)

theorem Kernel.RefusedBy.not_error {k : Kernel} {t : CallTrap} (h : k.RefusedBy t) (e : Fault)
    (k₁ : Kernel) : k.handle t.toTrap ≠ .error e k₁ := by
  obtain ⟨k', hrun, -⟩ := h
  rw [hrun]
  exact fun herror ↦ by cases herror

/-- **Failures of the host are reported exactly when** the call is not a `Create` that the host
refuses. -/
theorem reportsFailure_iff {k : Kernel} {t : CallTrap} {name : Name} (hcall : t.call.TakesName)
    (hname : t.machine.stringAt (t.machine.registers 4) nameLimit = some name) :
    k.ReportsFailure t name ↔
      (t.call = .create → t.env.openFails = false ∧ k.host.isFree t.env.newFd = true) := by
  have hrefused : t.call = .create → ((k.hostOutcome t name).1 = -1 ↔
      ¬(t.env.openFails = false ∧ k.host.isFree t.env.newFd = true)) := by
    intro hcreate
    rw [Kernel.hostOutcome, hcreate]
    simp only [Host.openTruncate_fails_iff, not_and_or, Bool.not_eq_false, Bool.not_eq_true]
  rcases nameCall_outcome (k := k) hname hcall with
    ⟨hdown, hrefuse⟩ | ⟨hdown, hfail, ⟨hcreate, k₁, hrun⟩ | ⟨hother, hrefuse⟩⟩ |
      ⟨-, hok, k', hrun, -⟩
  · refine iff_of_true ⟨hrefuse.not_error _, fun hnot ↦ absurd hdown hnot⟩ fun hcreate ↦ ?_
    exact absurd hdown (not_turnsDown_create hcreate name)
  · refine iff_of_false (fun h ↦ h.1 k₁ hrun) fun h ↦ ?_
    exact (hrefused hcreate).mp hfail (h hcreate)
  · exact iff_of_true ⟨hrefuse.not_error _, fun _ _ ↦ hrefuse⟩ fun hcreate ↦ absurd hcreate hother
  · refine iff_of_true ⟨fun k₁ ↦ ?_, fun _ hfail ↦ absurd hfail hok⟩ fun hcreate ↦ ?_
    · rw [hrun]
      exact fun herror ↦ by cases herror
    · exact not_not.mp fun hnot ↦ hok ((hrefused hcreate).mpr hnot)

/-- `Create("a")` on a host that refuses it. -/
def createRefused : CallTrap where
  machine := nameMachine 97 4 0 0
  env := { Env.quiet with openFails := true }
  call := .create
  code := by decide

private theorem createRefused_name : createRefused.machine.stringAt 0 nameLimit = some [97] := by
  decide +kernel

/-- The kernel aborts. -/
theorem createRefused_not_reported :
    ¬∀ (k : Kernel) (t : CallTrap) (name : Name), t.call.TakesName →
      t.machine.stringAt (t.machine.registers 4) nameLimit = some name →
      k.ReportsFailure t name := by
  intro h
  have hreport := h (Kernel.boot (callMachine 0 0)) createRefused [97] (by decide)
    createRefused_name
  obtain ⟨k₁, hrun⟩ := scCreate_refused createRefused.env
    (k := { Kernel.boot (callMachine 0 0) with machine := createRefused.machine })
    createRefused_name (.inl rfl)
  exact hreport.1 k₁ (handle_of_body_error createRefused.code hrun)

/-- `Open` of a file that does not exist. -/
theorem openA_reportsFailure :
    openA.machine.stringAt (openA.machine.registers 4) nameLimit = some [97] ∧
      (Kernel.boot (callMachine 0 0)).ReportsFailure openA [97] := by
  have hname : openA.machine.stringAt (openA.machine.registers 4) nameLimit = some [97] := by
    decide +kernel
  exact ⟨hname, (reportsFailure_iff (by decide) hname).mpr fun hcreate ↦ by cases hcreate⟩

/-! ## Long names -/

/-- User memory holds the name at `addr`, with a zero behind it. -/
structure Machine.HoldsName (m : Machine) (addr : Word) (name : Name) : Prop where
  chars : ∀ i < name.length, m.byteAt (addr + BitVec.ofNat 32 i) = name[i]?
  ne_zero : ∀ c ∈ name, c ≠ 0
  zero : m.byteAt (addr + BitVec.ofNat 32 name.length) = some 0

theorem Machine.HoldsName.tail {m : Machine} {addr : Word} {c : Byte} {name : Name}
    (h : m.HoldsName addr (c :: name)) : m.HoldsName (addr + 1) name where
  chars i hi := by
    have hchar := h.chars (i + 1) (Nat.succ_lt_succ hi)
    rwa [← addr_add_one_add, List.getElem?_cons_succ] at hchar
  ne_zero d hd := h.ne_zero d (List.mem_cons_of_mem c hd)
  zero := by
    have hzero := h.zero
    rwa [List.length_cons, ← addr_add_one_add] at hzero

/-- `User2System` cuts the name to its limit. -/
theorem Machine.HoldsName.stringAt {m : Machine} {addr : Word} {name : Name}
    (h : m.HoldsName addr name) (n : ℕ) : m.stringAt addr n = some (name.take n) := by
  induction n generalizing addr name with
  | zero => rfl
  | succ n ih =>
    cases name with
    | nil =>
      have hzero := h.zero
      rw [List.length_nil, BitVec.add_zero] at hzero
      rw [Machine.stringAt, hzero]
      rfl
    | cons c name =>
      have hchar := h.chars 0 (Nat.succ_pos _)
      rw [BitVec.add_zero, List.getElem?_cons_zero] at hchar
      rw [Machine.stringAt, hchar]
      simp only [if_neg (h.ne_zero c List.mem_cons_self), ih h.tail, Option.map_some,
        List.take_succ_cons]

/-- What the call does to the host, if anything, is the operation on this very name; and a name that
does not fit is refused. -/
def Kernel.KeepsName (k : Kernel) (t : CallTrap) (name : Name) : Prop :=
  (∀ k', k.handle t.toTrap = .ok () k' → k'.host = k.host ∨ k'.host = k.hostAfter t name) ∧
    (nameLimit < name.length → k.RefusedBy t)

theorem Kernel.RefusedBy.host_eq {k k' : Kernel} {t : CallTrap} (h : k.RefusedBy t)
    (hrun : k.handle t.toTrap = .ok () k') : k'.host = k.host ∧ k'.machine.registers 2 = -1 := by
  obtain ⟨k'', hrun', hresult, -, hhost⟩ := h
  rw [hrun] at hrun'
  cases hrun'
  exact ⟨hhost, hresult⟩

/-- **The name is respected exactly when** it fits into `MaxFileLength + 1` characters, or the call
is an `Open` or a `Remove` that is turned down or fails under the shorter name. -/
theorem keepsName_iff {k : Kernel} {t : CallTrap} {name : Name} (hcall : t.call.TakesName)
    (hname : t.machine.HoldsName (t.machine.registers 4) name) :
    k.KeepsName t name ↔ name.length ≤ nameLimit ∨
      t.call ≠ .create ∧ (k.TurnsDown t (name.take nameLimit) ∨
        (k.hostOutcome t (name.take nameLimit)).1 = -1) := by
  have hcut := nameCall_outcome (k := k) (hname.stringAt nameLimit) hcall
  by_cases hfits : name.length ≤ nameLimit
  · rw [List.take_of_length_le hfits] at hcut ⊢
    refine iff_of_true ⟨fun k' hrun ↦ ?_, fun hlong ↦ absurd hfits (Nat.not_le.mpr hlong)⟩
      (.inl hfits)
    rcases hcut with ⟨-, hrefuse⟩ | ⟨-, -, ⟨-, k₁, herror⟩ | ⟨-, hrefuse⟩⟩ |
      ⟨-, -, k₁, hok, -, hhost⟩
    · exact .inl (hrefuse.host_eq hrun).1
    · rw [herror] at hrun
      cases hrun
    · exact .inl (hrefuse.host_eq hrun).1
    · rw [hok] at hrun
      cases hrun
      exact .inr hhost
  · have hlong := Nat.not_le.mp hfits
    have hkeeps : k.KeepsName t name ↔ k.RefusedBy t :=
      ⟨fun h ↦ h.2 hlong, fun h ↦ ⟨fun k' hrun ↦ .inl (h.host_eq hrun).1, fun _ ↦ h⟩⟩
    rw [hkeeps, or_iff_right hfits]
    rcases hcut with ⟨hdown, hrefuse⟩ | ⟨-, hfail, ⟨hcreate, k₁, herror⟩ | ⟨hother, hrefuse⟩⟩ |
      ⟨hdown, hok, k₁, hrun, hresult, -⟩
    · exact iff_of_true hrefuse ⟨fun hcreate ↦ not_turnsDown_create hcreate _ hdown, .inl hdown⟩
    · exact iff_of_false (fun h ↦ h.not_error _ _ herror) fun h ↦ h.1 hcreate
    · exact iff_of_true hrefuse ⟨hother, .inr hfail⟩
    · exact iff_of_false (fun h ↦ hresult (h.host_eq hrun).2) fun h ↦ h.2.elim hdown hok

/-- A machine with a name of `n` letters at address 0, about to create it. -/
def longNameMachine (n : ℕ) : Machine :=
  (Machine.start 16 (fun i ↦ if i < n then 97 else 0) identityPageTable).setReg 2 4

def createLong (n : ℕ) : CallTrap where
  machine := longNameMachine n
  env := Env.quiet
  call := .create
  code := rfl

private theorem createLong_holdsName :
    (createLong 34).machine.HoldsName ((createLong 34).machine.registers 4)
      (List.replicate 34 97) where
  chars := by decide +kernel
  ne_zero := by decide
  zero := by decide +kernel

/-- A name of 34 letters: the file that is created has one of 33. -/
theorem createLong_not_keepsName :
    ¬∀ (k : Kernel) (t : CallTrap) (name : Name), t.call.TakesName →
      t.machine.HoldsName (t.machine.registers 4) name → k.KeepsName t name := by
  intro h
  have hkeeps := h (Kernel.boot (callMachine 0 0)) (createLong 34) _ (by decide)
    createLong_holdsName
  obtain ⟨k', hrun, hresult, -⟩ := hkeeps.2 (by decide)
  obtain ⟨m, -, hcreate⟩ := scCreate_of_free (createLong 34).env
    (k := { Kernel.boot (callMachine 0 0) with machine := (createLong 34).machine })
    (createLong_holdsName.stringAt nameLimit) rfl (by decide)
  rw [handle_of_body (createLong 34).code hcreate] at hrun
  cases hrun
  rw [Machine.skip_result, Machine.setReg_registers_self] at hresult
  exact absurd hresult (by decide)

/-- A name of one letter is taken as it is. -/
theorem openA_keepsName :
    openA.machine.HoldsName (openA.machine.registers 4) [97] ∧
      (Kernel.boot (callMachine 0 0)).KeepsName openA [97] := by
  have hname : openA.machine.HoldsName (openA.machine.registers 4) [97] :=
    ⟨by decide +kernel, by decide, by decide +kernel⟩
  exact ⟨hname, (keepsName_iff (by decide) hname).mpr (.inl (by decide))⟩

end Nachos
