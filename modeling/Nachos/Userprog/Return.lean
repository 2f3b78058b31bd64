import Nachos.Machine.Interrupt
import Nachos.Machine.UserMemory
import Nachos.Userprog.Frame

/-!
# Returning from a system call

Every handler writes nothing but `r2` among the general registers, and then sets the program
counters to `PC + 4` and `PC + 8`. An instruction that completes in the simulator goes on at
`NextPC` instead. The two agree when `NextPC` is `PC + 4`; in the delay slot of a taken branch it
is not, and the branch is lost.

The first part of the file is the connection between the kernel and the runs of user programs: what
`ExceptionHandler` does to the machine is what `KernelReturn` allows.
-/

namespace Nachos

open Program

/-! ## What a call leaves of the machine -/

/-- The registers other than the result. -/
def Kernel.otherRegs (k : Kernel) : ℕ → Word := fun i ↦ if i = 2 then 0 else k.machine.registers i

theorem ignoresEffects_otherRegs : IgnoresEffects Kernel.otherRegs where
  tables _ _ _ _ _ _ _ _ := rfl
  memory _ _ _ := rfl
  result k v := by
    funext i
    by_cases hi : i = 2
    · simp [Kernel.otherRegs, hi]
    · simp [Kernel.otherRegs, hi, Machine.setReg_registers]
  heap _ _ := rfl
  host _ _ := rfl
  console _ _ _ := rfl

/-- Which of the two translation tables there are. -/
def Kernel.tables (k : Kernel) : Bool × Bool := (k.machine.tlb.isSome, k.machine.pageTable.isSome)

private theorem ignoresEffects_tables : IgnoresEffects Kernel.tables where
  tables _ _ _ _ _ _ _ h :=
    Prod.ext (alike_of_success h).tlb.isSome_eq (alike_of_success h).pageTable.isSome_eq
  memory _ _ _ := rfl
  result _ _ := rfl
  heap _ _ := rfl
  host _ _ := rfl
  console _ _ _ := rfl

/-! ## The advance -/

/-- The machine after `advancePC`. -/
def Machine.skip (m : Machine) : Machine :=
  ((m.setReg prevPCReg (m.registers pcReg)).setReg pcReg (m.registers pcReg + 4)).setReg nextPCReg
    (m.registers pcReg + 4 + 4)

theorem advancePC_eq (k : Kernel) : advancePC k = .ok () { k with machine := k.machine.skip } := by
  rw [advancePC, bind_of_ok (readRegister_of_lt (by decide) k),
    bind_of_ok (writeRegister_of_lt (by decide) _ _),
    bind_of_ok (writeRegister_of_lt (by decide) _ _),
    bind_of_ok (readRegister_of_lt (by decide) _), writeRegister_of_lt (by decide)]
  simp only [Machine.skip, Machine.setReg_registers_self]

theorem Machine.skip_registers_of_ne (m : Machine) {i : ℕ} (hprev : i ≠ prevPCReg) (hpc : i ≠ pcReg)
    (hnext : i ≠ nextPCReg) : m.skip.registers i = m.registers i := by
  rw [Machine.skip, Machine.setReg_registers_of_ne _ _ hnext,
    Machine.setReg_registers_of_ne _ _ hpc, Machine.setReg_registers_of_ne _ _ hprev]

theorem Syscall.code_of_ofCode {type : Word} {call : Syscall}
    (h : Syscall.ofCode type = some call) :
    call.code = type := by
  simpa using List.find?_some h

/-- A returning handler ran the body of one call and advanced the program counters. -/
private theorem exceptionHandler_eq_ok {env : Env} {which : ExceptionType} {k k' : Kernel}
    {u : Unit} (h : exceptionHandler env which k = .ok u k') :
    which = .syscallException ∧ ∃ call k₁, Syscall.code call = k.machine.registers 2 ∧
      call.body env k = .ok () k₁ ∧ k' = { k₁ with machine := k₁.machine.skip } := by
  rw [exceptionHandler, bind_of_ok (readRegister_of_lt (by decide) k)] at h
  split at h
  · rename_i hwhich
    refine ⟨hwhich, ?_⟩
    rw [syscallHandler] at h
    split at h
    · cases h
    · cases hcall : Syscall.ofCode (k.machine.registers 2) with
      | none =>
        rw [hcall] at h
        cases h
      | some call =>
        rw [hcall] at h
        obtain ⟨_, k₁, hbody, hadv⟩ := bind_eq_ok.mp h
        rw [advancePC_eq] at hadv
        cases hadv
        exact ⟨call, k₁, Syscall.code_of_ofCode hcall, hbody, rfl⟩
  · cases h

/-- Conversely, the call selected by `r2` is run and the program counters advanced. -/
private theorem exceptionHandler_of_body {env : Env} {k k₁ : Kernel} {call : Syscall}
    (hcode : k.machine.registers 2 = call.code) (h : call.body env k = .ok () k₁) :
    exceptionHandler env .syscallException k = .ok () { k₁ with machine := k₁.machine.skip } := by
  have hne : call.code ≠ 0 := by cases call <;> decide
  rw [exceptionHandler, bind_of_ok (readRegister_of_lt (by decide) k), if_pos rfl, hcode,
    syscallHandler, if_neg hne, Syscall.ofCode_code]
  simp only [Syscall.run]
  rw [bind_of_ok h, advancePC_eq]

/-- **The kernel is well behaved.** What a returning handler did to the machine is what runs of
user programs expect of a return from the kernel. -/
theorem kernelReturn_of_exceptionHandler {env : Env} {which : ExceptionType} {k k' : Kernel}
    {u : Unit} (hlinear : k.machine.Linear) (h : exceptionHandler env which k = .ok u k') :
    KernelReturn k.machine k'.machine := by
  obtain ⟨-, call, k₁, -, hbody, rfl⟩ := exceptionHandler_eq_ok h
  have hregs := keeps_body ignoresEffects_otherRegs (fun _ _ ↦ rfl) (fun _ _ ↦ rfl) call
    k () k₁ hbody
  have htables := keeps_body ignoresEffects_tables (fun _ _ ↦ rfl) (fun _ _ ↦ rfl) call
    k () k₁ hbody
  refine ⟨fun i h2 hpc hnext hprev ↦ ?_, ?_, ?_⟩
  · have := congrFun hregs i
    rw [Kernel.otherRegs, Kernel.otherRegs, if_neg h2, if_neg h2] at this
    rw [Machine.skip_registers_of_ne _ hprev hpc hnext, this]
  · have htlb : k₁.machine.tlb.isSome = k.machine.tlb.isSome := congrArg Prod.fst htables
    have hnone : k₁.machine.tlb = none := by
      rw [hlinear.tlb_none] at htlb
      exact Option.not_isSome_iff_eq_none.mp (by rw [htlb]; simp)
    exact hnone
  · obtain ⟨pt, hpt⟩ := hlinear.pageTable_some
    have hsome : k₁.machine.pageTable.isSome = k.machine.pageTable.isSome :=
      congrArg Prod.snd htables
    rw [hpt] at hsome
    exact Option.isSome_iff_exists.mp hsome

/-! ## Traps -/

theorem handle_of_body {k k₁ : Kernel} {t : Trap} {call : Syscall}
    (hcode : t.machine.registers 2 = call.code)
    (hbody : call.body t.env { k with machine := t.machine } = .ok () k₁) :
    k.handle t = .ok () { k₁ with machine := k₁.machine.skip } :=
  exceptionHandler_of_body hcode hbody

theorem handle_of_body_error {k k₁ : Kernel} {t : Trap} {call : Syscall} {e : Fault}
    (hcode : t.machine.registers 2 = call.code)
    (hbody : call.body t.env { k with machine := t.machine } = .error e k₁) :
    k.handle t = .error e k₁ := by
  have hne : call.code ≠ 0 := by cases call <;> decide
  rw [Kernel.handle, exceptionHandler, bind_of_ok (readRegister_of_lt (by decide) _), if_pos rfl,
    hcode, syscallHandler, if_neg hne, Syscall.ofCode_code]
  exact bind_of_error hbody

theorem trap_of_body {k k₁ : Kernel} {t : Trap} {call : Syscall}
    (hcode : t.machine.registers 2 = call.code)
    (hbody : call.body t.env { k with machine := t.machine } = .ok () k₁) :
    k.trap t = some { k₁ with machine := k₁.machine.skip } := by
  rw [Kernel.trap, handle_of_body hcode hbody]

theorem trap_of_body_error {k k₁ : Kernel} {t : Trap} {call : Syscall} {e : Fault}
    (hcode : t.machine.registers 2 = call.code)
    (hbody : call.body t.env { k with machine := t.machine } = .error e k₁) : k.trap t = none := by
  rw [Kernel.trap, handle_of_body_error hcode hbody]

/-- A call that returns ran its body. -/
theorem handle_eq_ok {k k' : Kernel} {t : Trap} {call : Syscall} {u : Unit}
    (hcode : t.machine.registers 2 = call.code) (h : k.handle t = .ok u k') :
    ∃ k₁, call.body t.env { k with machine := t.machine } = .ok () k₁ ∧
      k' = { k₁ with machine := k₁.machine.skip } := by
  cases hbody : call.body t.env { k with machine := t.machine } with
  | ok u k₁ =>
    rw [handle_of_body hcode hbody] at h
    cases h
    exact ⟨k₁, rfl, rfl⟩
  | error e k₁ =>
    rw [handle_of_body_error hcode hbody] at h
    cases h

theorem handle_of_trap {k k' : Kernel} {t : Trap} (h : k.trap t = some k') :
    k.handle t = .ok () k' := by
  rw [Kernel.trap] at h
  split at h
  · rename_i hrun
    cases h
    exact hrun
  · cases h

/-- A trap that returns ran the body of its call. -/
theorem trap_eq_some {k k' : Kernel} {t : Trap} {call : Syscall}
    (hcode : t.machine.registers 2 = call.code) (h : k.trap t = some k') :
    ∃ k₁, call.body t.env { k with machine := t.machine } = .ok () k₁ ∧
      k' = { k₁ with machine := k₁.machine.skip } :=
  handle_eq_ok hcode (handle_of_trap h)

theorem Machine.skip_result (m : Machine) : m.skip.registers 2 = m.registers 2 :=
  m.skip_registers_of_ne (by decide) (by decide) (by decide)

/-! ## The trap of a `SYSCALL` -/

theorem oneInstruction_syscall {m mf : Machine} {raw : Word} (hm : m.WellFormed)
    (hfetch : fetch m = .ok raw mf) (hop : (decode raw).opCode = .syscall) :
    oneInstruction m
      = .error (.trap .syscallException) ((mf.setReg badVAddrReg 0).applyLoad 0 0) := by
  have hload : (mf.registers loadReg).toNat < numTotalRegs := by
    rw [fetch_registers hfetch]
    exact lt_numTotalRegs hm.load_lt
  rw [oneInstruction, bind_of_ok hfetch, runInstruction,
    bind_of_ok (readReg_of_lt (by decide) mf)]
  refine bind_of_error ?_
  simp only [execute, hop]
  exact raiseException_eq hload _ _

/-- At the trap every register but `BadVAddr` is what completing the pending load makes of it. -/
theorem trap_registers {m mf : Machine} (h : mf.registers = m.registers) {i : ℕ}
    (hi : i ≠ badVAddrReg) :
    ((mf.setReg badVAddrReg 0).applyLoad 0 0).registers i = (m.applyLoad 0 0).registers i := by
  simp only [Machine.applyLoad_registers, Machine.setReg_registers, h, badVAddrReg, loadReg,
    loadValueReg] at hi ⊢
  grind

theorem Machine.WellFormed.applyLoad_pc {m : Machine} (hm : m.WellFormed) {i : ℕ}
    (hi : i = pcReg ∨ i = nextPCReg) : (m.applyLoad 0 0).registers i = m.registers i := by
  have := hm.load_lt
  rw [Machine.applyLoad_registers]
  simp only [numGPRegs, pcReg, nextPCReg, loadReg, loadValueReg] at *
  grind

/-! ## Where the call returns to -/

/-- The program goes on behind the call as behind any other instruction, and only `r2` and the
target of the pending load have changed. -/
structure ReturnsToNext (m m' : Machine) : Prop where
  pc : m'.registers pcReg = m.registers nextPCReg
  nextPC : m'.registers nextPCReg = m.registers nextPCReg + 4
  general : ∀ i < numGPRegs, i ≠ 2 → m'.registers i = (m.applyLoad 0 0).registers i

/-- The machine after a system call that returns. -/
private theorem syscall_registers {k k' : Kernel} {env : Env} {raw : Word} {mf : Machine}
    (hk : k.machine.WellFormed) (hfetch : fetch k.machine = .ok raw mf)
    (hop : (decode raw).opCode = .syscall) (hret : k.oneInstruction env = .ok () k') :
    k'.machine.registers pcReg = k.machine.registers pcReg + 4 ∧
      k'.machine.registers nextPCReg = k.machine.registers pcReg + 4 + 4 ∧
      ∀ i < numGPRegs, i ≠ 2 → k'.machine.registers i = (k.machine.applyLoad 0 0).registers i := by
  rw [Kernel.oneInstruction, oneInstruction_syscall hk hfetch hop] at hret
  obtain ⟨-, call, k₁, -, hbody, rfl⟩ := exceptionHandler_eq_ok hret
  have hkeep : ∀ i, i ≠ 2 → i ≠ badVAddrReg →
      k₁.machine.registers i = (k.machine.applyLoad 0 0).registers i := by
    intro i h2 hbad
    have hregs := congrFun (keeps_body ignoresEffects_otherRegs (fun _ _ ↦ rfl)
      (fun _ _ ↦ rfl) call _ () k₁ hbody) i
    rw [Kernel.otherRegs, Kernel.otherRegs, if_neg h2, if_neg h2] at hregs
    rw [hregs, trap_registers (fetch_registers hfetch) hbad]
  have hpc : k₁.machine.registers pcReg = k.machine.registers pcReg := by
    rw [hkeep pcReg (by decide) (by decide), hk.applyLoad_pc (Or.inl rfl)]
  refine ⟨?_, ?_, fun i hi h2 ↦ ?_⟩
  · simp only [Machine.skip, Machine.setReg_registers]
    rw [← hpc]
    rfl
  · simp only [Machine.skip, Machine.setReg_registers]
    rw [← hpc]
    rfl
  · simp only [numGPRegs] at hi
    rw [← hkeep i h2 (by simp only [badVAddrReg]; omega)]
    exact Machine.skip_registers_of_ne _ (by simp only [prevPCReg]; omega)
      (by simp only [pcReg]; omega) (by simp only [nextPCReg]; omega)

/-- **Return from a system call.** When the trap of a `SYSCALL` returns, the program goes on at the
next instruction, with nothing but `r2` changed, exactly when the call was not made in the delay
slot of a taken branch or jump elsewhere. -/
theorem returnsToNext_iff {k k' : Kernel} {env : Env} {raw : Word} {mf : Machine}
    (hk : k.machine.WellFormed) (hfetch : fetch k.machine = .ok raw mf)
    (hop : (decode raw).opCode = .syscall) (hret : k.oneInstruction env = .ok () k') :
    ReturnsToNext k.machine k'.machine ↔
      k.machine.registers nextPCReg = k.machine.registers pcReg + 4 := by
  obtain ⟨hpc, hnext, hgeneral⟩ := syscall_registers hk hfetch hop hret
  constructor
  · intro h
    rw [← h.pc, hpc]
  · intro h
    exact ⟨by rw [hpc, h], by rw [hnext, h], hgeneral⟩

/-! ## A call in a delay slot -/

/-- A host with no files and no open descriptors. -/
def Host.empty : Host :=
  { dir := fun _ ↦ none, content := fun _ ↦ [], fds := fun _ ↦ none, nextIno := 0, calls := [] }

/-- The kernel at boot, on an empty host. -/
def Kernel.boot (m : Machine) : Kernel := Kernel.initial m ⟨fun _ ↦ [], []⟩ Host.empty []

/-- Every buffer in a place of its own, and no failures. -/
def Env.quiet : Env :=
  { kernelBuf := 1, buf := 2, junk := fun _ ↦ 0, object := 3, objectBytes := [], filenameopen := 4,
    newFd := 3, openFails := false, unlinkFails := false, readFails := false, writeFails := false,
    ret := 0, received := [] }

/-- A machine about to make a call with one argument. -/
def callMachine (code arg : Word) : Machine :=
  ((Machine.start 16 (fun _ ↦ 0) identityPageTable).setReg 2 code).setReg 4 arg

/-- A machine with a name of one character at address 0, about to make a call with two arguments. -/
def nameMachine (c : Byte) (code first second : Word) : Machine :=
  (((Machine.start 16 (fun i ↦ if i = 0 then c else 0) identityPageTable).setReg 2 code).setReg 4
    first).setReg 5 second

/-- A host with one file of two bytes, `a`. -/
def Host.oneFile : Host :=
  { Host.empty with
    dir := fun name ↦ if name = [97] then some 0 else none
    content := fun _ ↦ [104, 105]
    nextIno := 1 }

/-- `Open("a", 0)`. -/
def openA : CallTrap where
  machine := nameMachine 97 6 0 0
  env := Env.quiet
  call := .open_
  code := by decide

/-- `addiu r2, r0, 42; beq r0, r0, 0x14; syscall`: the call is `Add`, in the delay slot. -/
def delaySlotProgram : Machine :=
  Machine.start 16 (programImage [0x2402002A, 0x10000003, 0x0000000C]) identityPageTable

/-- The program at its `syscall`. -/
def delaySlotCall : Machine :=
  (delaySlotProgram.after oneInstruction).after oneInstruction

/-- The state a kernel ends an instruction in, if it gets there. -/
def Kernel.after (k : Kernel) (env : Env) : Option Kernel :=
  match k.oneInstruction env with
  | .ok _ k' => some k'
  | .error _ _ => none

private theorem oneInstruction_of_after {k k' : Kernel} {env : Env} (h : k.after env = some k') :
    k.oneInstruction env = .ok () k' := by
  rw [Kernel.after] at h
  split at h
  · rename_i hrun
    cases h
    exact hrun
  · cases h

theorem delaySlotCall_reachable : UserReachable delaySlotCall := by
  have h₁ := run_of_returns (show delaySlotProgram.returns oneInstruction = true by decide +kernel)
  have h₂ := run_of_returns
    (show (delaySlotProgram.after oneInstruction).returns oneInstruction = true by decide +kernel)
  exact ((UserReachable.start _ _ _).step h₁).step h₂

private theorem delaySlotCall_fetch : ∃ mf, fetch delaySlotCall = .ok 0x0000000C mf :=
  fetch_eq_fetched (by decide +kernel) (by decide +kernel)

private theorem exists_of_after {m : Machine} (h : ((Kernel.boot m).after .quiet).isSome = true) :
    ∃ k', (Kernel.boot m).oneInstruction .quiet = .ok () k' := by
  obtain ⟨k', hk'⟩ := Option.isSome_iff_exists.mp h
  exact ⟨k', oneInstruction_of_after hk'⟩

private theorem delaySlotCall_returns :
    ∃ k', (Kernel.boot delaySlotCall).oneInstruction .quiet = .ok () k' :=
  exists_of_after (by decide +kernel)

/-- The branch around a system call in its delay slot is not taken. -/
theorem delaySlotCall_not_returnsToNext :
    ¬∀ (k k' : Kernel) (env : Env) (raw : Word) (mf : Machine), UserReachable k.machine →
      fetch k.machine = .ok raw mf → (decode raw).opCode = .syscall →
      k.oneInstruction env = .ok () k' → ReturnsToNext k.machine k'.machine := by
  intro h
  obtain ⟨mf, hfetch⟩ := delaySlotCall_fetch
  obtain ⟨k', hret⟩ := delaySlotCall_returns
  have hnext := h (Kernel.boot delaySlotCall) k' .quiet 0x0000000C mf delaySlotCall_reachable hfetch
    (by decide) hret
  have hpc := (syscall_registers (k := Kernel.boot delaySlotCall)
    delaySlotCall_reachable.settled.toWellFormed hfetch (by decide) hret).1
  rw [hnext.pc] at hpc
  exact absurd hpc (by decide +kernel)

/-- The same call, behind no branch. -/
def straightCall : Machine :=
  (Machine.start 16 (programImage [0x2402002A, 0x0000000C]) identityPageTable).after oneInstruction

/-- The general theorem at both calls. -/
theorem delaySlotCall_returnsToNext_iff :
    (∃ k', (Kernel.boot delaySlotCall).oneInstruction .quiet = .ok () k' ∧
      (ReturnsToNext delaySlotCall k'.machine ↔
        delaySlotCall.registers nextPCReg = delaySlotCall.registers pcReg + 4)) ∧
    ∃ k', (Kernel.boot straightCall).oneInstruction .quiet = .ok () k' ∧
      ReturnsToNext straightCall k'.machine := by
  obtain ⟨mf, hfetch⟩ := delaySlotCall_fetch
  obtain ⟨k', hret⟩ := delaySlotCall_returns
  obtain ⟨ms, hfetch'⟩ : ∃ ms, fetch straightCall = .ok 0x0000000C ms :=
    fetch_eq_fetched (by decide +kernel) (by decide +kernel)
  obtain ⟨k'', hret'⟩ := exists_of_after (m := straightCall) (by decide +kernel)
  refine ⟨⟨k', hret, returnsToNext_iff (k := Kernel.boot delaySlotCall)
    delaySlotCall_reachable.settled.toWellFormed hfetch (by decide) hret⟩, k'', hret', ?_⟩
  exact (returnsToNext_iff (k := Kernel.boot straightCall) ⟨by decide +kernel, by decide +kernel⟩
    hfetch' (by decide) hret').mpr (by decide +kernel)

end Nachos
