import Nachos.Machine.Text
import Nachos.Userprog.Return

/-!
# The entry points of a user program

Every user program is linked behind `start.S`: `__start` calls `main` and then `Exit`, and there is
one stub for each system call, which puts the code of the call into `r2`, traps and returns. The
words here are the assembler's, which fills the delay slot of a jump with the instruction before it
when that one may move, and with `nop` when it may not.

A stub turns a call in the program into a call of the kernel: the arguments arrive as the caller
left them, the result comes back in `r2`, and every other register is kept. There are stubs for more
calls than the kernel has cases for, `Exit` among them, and so no program survives its `main`.
-/

namespace Nachos

open Program

/-! ## The text of `start.S` -/

/-- The stubs, in the order of `start.S`. -/
inductive Stub where
  | halt | add | socketTCP | connect | send | receive | closeSoc | bind | printString | listen
  | accept | toupper | exit | exec | execV | join | create | remove | open_ | read | write | close
  | seek | readString | threadFork | threadYield | threadExit | threadJoin
  deriving DecidableEq, Repr

/-- All of them. -/
def Stub.all : List Stub :=
  [.halt, .add, .socketTCP, .connect, .send, .receive, .closeSoc, .bind, .printString, .listen,
    .accept, .toupper, .exit, .exec, .execV, .join, .create, .remove, .open_, .read, .write, .close,
    .seek, .readString, .threadFork, .threadYield, .threadExit, .threadJoin]

/-- The code a stub traps with, from `syscall.h`. -/
def Stub.code : Stub → Word
  | .halt => 0
  | .exit => 1
  | .exec => 2
  | .join => 3
  | .create => 4
  | .remove => 5
  | .open_ => 6
  | .read => 7
  | .write => 8
  | .seek => 9
  | .close => 10
  | .threadFork => 11
  | .threadYield => 12
  | .execV => 13
  | .threadExit => 14
  | .threadJoin => 15
  | .socketTCP => 16
  | .connect => 17
  | .send => 18
  | .receive => 19
  | .closeSoc => 20
  | .bind => 21
  | .accept => 22
  | .listen => 23
  | .printString => 24
  | .toupper => 25
  | .readString => 26
  | .add => 42

/-- `addiu $2,$0,code; syscall; j $31`. -/
def Stub.text (s : Stub) : List Word := [0x24020000 ||| s.code, 0x0000000C, 0x03E00008, 0]

/-- Where a stub is: behind the four words of `__start`, each stub four words. -/
def Stub.address (s : Stub) : Word := BitVec.ofNat 32 (16 + 16 * Stub.all.idxOf s)

/-- `jal`, to a word address. -/
def jalWord (target : BitVec 26) : Word := (3 : BitVec 6) ++ target

/-- Where that is. -/
def jumpAddress (target : BitVec 26) : Word := target.setWidth 32 <<< 2

/-- `start.S`: `jal main; jal Exit` with `move $4,$0` in its delay slot, the stubs, and `__main`. -/
def startText (main : BitVec 26) : List Word :=
  [jalWord main, 0, jalWord 52, 0x00002021] ++ Stub.all.flatMap Stub.text ++ [0x03E00008, 0]

example : jumpAddress 52 = Stub.exit.address := by decide

private theorem startText_stub (main : BitVec 26) (s : Stub) {j : ℕ} (hj : j < 4) :
    (startText main)[4 + 4 * Stub.all.idxOf s + j]? = s.text[j]? := by
  obtain rfl | rfl | rfl | rfl : j = 0 ∨ j = 1 ∨ j = 2 ∨ j = 3 := by omega
  all_goals cases s <;> rfl

/-- The words of a stub. -/
theorem Machine.Text.stub {m : Machine} {main : BitVec 26} (h : m.Text 0 (startText main))
    (s : Stub) : m.Text s.address s.text := by
  intro j w hw
  have hj : j < 4 := (List.getElem?_eq_some_iff.mp hw).1
  have hword := h (4 + 4 * Stub.all.idxOf s + j) w (by rw [startText_stub main s hj, hw])
  have haddr : s.address + BitVec.ofNat 32 (4 * j) =
      0 + BitVec.ofNat 32 (4 * (4 + 4 * Stub.all.idxOf s + j)) := by
    have hplace : 16 + 16 * Stub.all.idxOf s + 4 * j = 4 * (4 + 4 * Stub.all.idxOf s + j) := by
      omega
    rw [Stub.address, ← BitVec.ofNat_add, hplace]
    exact (BitVec.zero_add _).symm
  rw [haddr, hword]

/-! ## `Machine::Run` -/

/-- What one turn of the loop of `Machine::Run` depends on: the kernel's environment, should the
instruction trap, and whether `OneTick` finds an interrupt due. -/
structure Tick where
  env : Env
  interrupted : Bool

/-- An instruction, with the kernel under it. -/
def userInstruction (env : Env) : Kern Unit := fun k ↦ k.oneInstruction env

/-- One turn: an instruction, and an interrupt, which completes the pending load. -/
def userStep (t : Tick) : Kern Unit := do
  userInstruction t.env
  if t.interrupted then onMachine (delayedLoad 0 0)

/-- `Machine::Run`, for some turns. -/
def machineRun : List Tick → Kern Unit
  | [] => return
  | t :: ts => do
    userStep t
    machineRun ts

section steps

variable {k : Kernel} {m' : Machine} {ρ : ℕ → Word} {pcAfter : Word}

/-- A turn in which the instruction does not trap. -/
theorem userStep_of_stepsTo (hrun : Nachos.oneInstruction k.machine = .ok () m')
    (h : k.machine.StepsTo ρ pcAfter m') (t : Tick) :
    ∃ m, userStep t k = .ok () { k with machine := m } ∧ k.machine.StepsTo ρ pcAfter m := by
  have hone : userInstruction t.env k = .ok () { k with machine := m' } := by
    rw [userInstruction, Kernel.oneInstruction, hrun]
  cases ht : t.interrupted with
  | false =>
    refine ⟨m', ?_, h⟩
    rw [userStep, bind_of_ok hone, ht]
    rfl
  | true =>
    have hload : (m'.registers loadReg).toNat < numTotalRegs := by
      rw [h.load]
      decide
    refine ⟨m'.applyLoad 0 0, ?_, h.interrupt⟩
    rw [userStep, bind_of_ok hone, ht, if_pos rfl]
    exact onMachine_of_ok (delayedLoad_eq hload 0 0)

theorem machineRun_cons_of_ok {t : Tick} {k k' : Kernel} (h : userStep t k = .ok () k')
    (ts : List Tick) : machineRun (t :: ts) k = machineRun ts k' := by
  rw [machineRun, bind_of_ok h]

private theorem machineRun_cons_of_error {t : Tick} {k k' : Kernel} {e : Fault}
    (h : userStep t k = .error e k') (ts : List Tick) :
    machineRun (t :: ts) k = .error e k' := by
  rw [machineRun, bind_of_error h]

end steps

/-! ## A call -/

/-- The program has jumped to a stub. The caller's delay slot may have left a load to complete, but
not one of `r2`, which would come out on top of the code. -/
structure Kernel.AtStub (k : Kernel) (main : BitVec 26) (s : Stub) : Prop where
  wellFormed : k.machine.WellFormed
  text : k.machine.Text 0 (startText main)
  pc : k.machine.registers pcReg = s.address
  nextPC : k.machine.registers nextPCReg = s.address + 4
  load : (k.machine.registers loadReg).toNat ≠ 2

/-- A call arrives in the kernel: its code is in `r2`, and the other general registers are what the
caller has put there. -/
structure Machine.Asks (m : Machine) (s : Stub) (mt : Machine) : Prop where
  sameText : m.SameText mt
  pc : mt.registers pcReg = s.address + 4
  code : mt.registers 2 = s.code
  general : ∀ i < numGPRegs, i ≠ 2 → mt.registers i = (m.applyLoad 0 0).registers i
  load : mt.registers loadReg = 0

private theorem decode_load_code (s : Stub) : (decode (0x24020000 ||| s.code)).opCode = .addiu ∧
    (decode (0x24020000 ||| s.code)).rs = 0 ∧ (decode (0x24020000 ||| s.code)).rt = 2 ∧
    (decode (0x24020000 ||| s.code)).extra = s.code := by
  cases s <;> decide

private theorem exceptionHandler_syscall (env : Env) (k : Kernel) :
    exceptionHandler env .syscallException k = syscallHandler env (k.machine.registers 2) k := by
  rw [exceptionHandler, bind_of_ok (readRegister_of_lt (by decide) k), if_pos rfl]

section call

variable {k : Kernel} {main : BitVec 26} {s : Stub}

theorem Kernel.AtStub.word (hk : k.AtStub main s) :
    k.machine.wordAt (k.machine.registers pcReg) = some (0x24020000 ||| s.code) := by
  have h := hk.text.stub s 0 _ rfl
  rw [hk.pc]
  rwa [Nat.mul_zero, BitVec.add_zero] at h

/-- The registers of `k.machine` with the load complete, as a `StepsTo` has them. -/
theorem Machine.applyLoad_general (m : Machine) {i : ℕ} (hi : i < numGPRegs) (h0 : i ≠ 0) :
    (m.applyLoad 0 0).registers i =
      if i = (m.registers loadReg).toNat then m.registers loadValueReg else m.registers i := by
  simp only [numGPRegs] at hi
  rw [Machine.applyLoad_registers, if_neg h0, if_neg (by simp only [loadValueReg]; omega),
    if_neg (by simp only [loadReg]; omega)]

/-- The first instruction of a stub. -/
theorem Kernel.AtStub.step (hk : k.AtStub main s) (t : Tick) :
    ∃ m, userStep t k = .ok () { k with machine := m } ∧ k.machine.SameText m ∧ m.WellFormed ∧
      m.registers pcReg = s.address + 4 ∧ m.registers nextPCReg = s.address + 4 + 4 ∧
      m.registers loadReg = 0 ∧ m.registers 2 = s.code ∧
      ∀ i < numGPRegs, i ≠ 2 → m.registers i = (k.machine.applyLoad 0 0).registers i := by
  obtain ⟨hop, hrs, hrt, hextra⟩ := decode_load_code s
  obtain ⟨m', hrun, hstep⟩ := step_addiu hk.wellFormed hk.word hop
  obtain ⟨m, huser, hm⟩ := userStep_of_stepsTo hrun hstep t
  refine ⟨m, huser, hm.sameText, hm.wellFormed, by rw [hm.pc, hk.nextPC],
    by rw [hm.nextPC, hk.nextPC], hm.load, ?_, fun i hi h2 ↦ ?_⟩
  · rw [hm.general 2 (by decide) (by decide), if_neg (Ne.symm hk.load), hrs, hrt, hextra,
      Function.update_self, hk.wellFormed.zero]
    exact BitVec.zero_add _
  · by_cases h0 : i = 0
    · rw [h0, hm.zero]
      rfl
    · rw [hm.general i hi h0, k.machine.applyLoad_general hi h0, hrt,
        Function.update_of_ne h2]

/-- The first two instructions of a stub: the kernel is asked. -/
theorem Kernel.AtStub.asks (hk : k.AtStub main s) (t₀ : Tick) (env : Env) :
    ∃ m mt, userStep t₀ k = .ok () { k with machine := m } ∧ k.machine.Asks s mt ∧
      userInstruction env { k with machine := m } =
        syscallHandler env s.code { k with machine := mt } := by
  obtain ⟨m, huser, hsame, hwf, hpc, hnext, hload, hcode, hgeneral⟩ := hk.step t₀
  have hword : m.wordAt (m.registers pcReg) = some 0x0000000C := by
    rw [hsame.wordAt, hpc]
    exact hk.text.stub s 1 _ rfl
  obtain ⟨mf, hfetch, halike⟩ := fetch_of_wordAt hword
  have htrap := oneInstruction_syscall hwf hfetch (by decide)
  have hregs : ∀ i, i ≠ badVAddrReg → i ≠ 0 → i ≠ loadReg → i ≠ loadValueReg →
      ((mf.setReg badVAddrReg 0).applyLoad 0 0).registers i = m.registers i := by
    intro i hbad h0 hi hvalue
    have htarget : i ≠ (m.registers loadReg).toNat := by rwa [hload]
    rw [trap_registers halike.registers hbad, Machine.applyLoad_registers, if_neg h0,
      if_neg hvalue, if_neg hi, if_neg htarget]
  have hasks : k.machine.Asks s ((mf.setReg badVAddrReg 0).applyLoad 0 0) := by
    refine ⟨hsame.trans ⟨halike.mainMemory, halike.tlb, halike.pageTable, halike.pageTableSize⟩,
      ?_, ?_, fun i hi h2 ↦ ?_, rfl⟩
    · rw [hregs pcReg (by decide) (by decide) (by decide) (by decide), hpc]
    · rw [hregs 2 (by decide) (by decide) (by decide) (by decide), hcode]
    · by_cases h0 : i = 0
      · rw [h0]
        rfl
      · simp only [numGPRegs] at hi
        rw [hregs i (by simp only [badVAddrReg]; omega) h0 (by simp only [loadReg]; omega)
          (by simp only [loadValueReg]; omega), hgeneral i hi h2]
  refine ⟨m, _, huser, hasks, ?_⟩
  rw [userInstruction, Kernel.oneInstruction, htrap]
  exact (exceptionHandler_syscall env _).trans
    (congrArg (fun code ↦ syscallHandler env code _) hasks.code)

end call

/-- The stubs for calls that `ExceptionHandler` has no case for. -/
def Stub.unserved : List Stub :=
  [.exit, .exec, .execV, .join, .readString, .threadFork, .threadYield, .threadExit, .threadJoin]

/-- A call that the kernel has no case for. -/
private theorem syscallHandler_unserved {s : Stub} (hs : s ∈ Stub.unserved) (env : Env)
    (k : Kernel) : syscallHandler env s.code k = .error .assertFailed k := by
  have hcode : s.code ≠ 0 ∧ Syscall.ofCode s.code = none := by
    revert hs
    cases s <;> decide
  rw [syscallHandler, if_neg hcode.1, hcode.2]
  rfl

/-- A call the kernel does not return from ends the run. -/
theorem machineRun_of_error {k : Kernel} {m mt : Machine} {s : Stub} {t₀ t₁ : Tick} {e : Fault}
    {k₁ : Kernel} (hfirst : userStep t₀ k = .ok () { k with machine := m })
    (hsecond : userInstruction t₁.env { k with machine := m } =
      syscallHandler t₁.env s.code { k with machine := mt })
    (h : syscallHandler t₁.env s.code { k with machine := mt } = .error e k₁) (ts : List Tick) :
    machineRun (t₀ :: t₁ :: ts) k = .error e k₁ := by
  rw [machineRun_cons_of_ok hfirst]
  exact machineRun_cons_of_error (bind_of_error (hsecond.trans h)) ts

theorem Kernel.AtStub.aborts {k : Kernel} {main : BitVec 26} {s : Stub} (hk : k.AtStub main s)
    (hs : s ∈ Stub.unserved) (t₀ t₁ : Tick) (ts : List Tick) :
    ∃ mt, k.machine.Asks s mt ∧
      machineRun (t₀ :: t₁ :: ts) k = .error .assertFailed { k with machine := mt } := by
  obtain ⟨m, mt, hfirst, hasks, hsecond⟩ := hk.asks t₀ t₁.env
  exact ⟨mt, hasks, machineRun_of_error hfirst hsecond (syscallHandler_unserved hs _ _) ts⟩

/-- The program whose `main` is `__main`, which returns at once. -/
def emptyProgram : Machine :=
  Machine.start 16 (programImage (startText 116)) identityPageTable

/-- A turn without an interrupt. -/
def Tick.quiet : Tick := ⟨Env.quiet, false⟩

/-- That program at the stub of `Add`, with the arguments 42 and 23 and the return address 8. -/
def addCall : Kernel :=
  Kernel.boot (((((emptyProgram.setReg pcReg Stub.add.address).setReg nextPCReg
    (Stub.add.address + 4)).setReg 4 42).setReg 5 23).setReg retAddrReg 8)

theorem addCall_atStub : addCall.AtStub 116 .add :=
  ⟨⟨by decide, by decide⟩, by decide +kernel, rfl, rfl, by decide⟩

private theorem jumpMask_getLsbD :
    ∀ i : Fin 32, (0x3ffffff : Word).getLsbD i = decide (i.val < 26) := by decide

private theorem jalWord_and (target : BitVec 26) :
    jalWord target &&& 0x3ffffff = target.setWidth 32 := by
  apply BitVec.eq_of_getLsbD_eq
  intro i hi
  rw [BitVec.getLsbD_and, jumpMask_getLsbD ⟨i, hi⟩, BitVec.getLsbD_setWidth, jalWord,
    BitVec.getLsbD_append]
  by_cases h : i < 26
  · simp [h, hi]
  · simp [h, BitVec.getLsbD_of_ge target i (Nat.le_of_not_lt h)]

private theorem decode_jalWord (target : BitVec 26) : (decode (jalWord target)).opCode = .jal ∧
    (decode (jalWord target)).extra = target.setWidth 32 := by
  have hop : (jalWord target).extractLsb' 26 6 = 3 := BitVec.extractLsb'_append_eq_left
  constructor
  · simp only [decode, hop]
    rfl
  · rw [← jalWord_and]
    simp only [decode, hop]
    rfl

section mainCall

variable {k k' : Kernel} {main target : BitVec 26}

/-- A turn at a `jal`. -/
private theorem userStep_jal (hwf : k.machine.WellFormed)
    (hword : k.machine.wordAt (k.machine.registers pcReg) = some (jalWord target)) (t : Tick) :
    ∃ m, userStep t k = .ok () { k with machine := m } ∧ k.machine.StepsTo
      (Function.update k.machine.registers retAddrReg (k.machine.registers nextPCReg + 4))
      (((k.machine.registers nextPCReg + 4) &&& 0xf0000000) ||| jumpAddress target) m := by
  obtain ⟨hop, hextra⟩ := decode_jalWord target
  obtain ⟨m', hrun, hstep⟩ := step_jal hwf hword hop
  rw [hextra] at hstep
  exact userStep_of_stepsTo hrun hstep t

theorem Machine.Text.word {m : Machine} (h : m.Text 0 (startText main)) (i : ℕ) {w : Word}
    (hw : (startText main)[i]? = some w) : m.wordAt (BitVec.ofNat 32 (4 * i)) = some w := by
  rw [← h i w hw]
  exact congrArg m.wordAt (BitVec.zero_add _).symm

/-- `__start` calls `main`. -/
private theorem start_calls_main {numPages : Word} {mainMemory : ℕ → Byte}
    {pageTable : ℕ → TranslationEntry}
    (hk : k.machine = Machine.start numPages mainMemory pageTable)
    (htext : k.machine.Text 0 (startText main)) (t₀ t₁ : Tick) :
    ∃ m, machineRun [t₀, t₁] k = .ok () { k with machine := m } ∧
      m.registers pcReg = jumpAddress main ∧ m.registers retAddrReg = 8 := by
  have hwf : k.machine.WellFormed := by
    rw [hk]
    exact (settled_start numPages mainMemory pageTable).toWellFormed
  have hpc : k.machine.registers pcReg = 0 := by rw [hk]; rfl
  have hnext : k.machine.registers nextPCReg = 4 := by rw [hk]; rfl
  have hload : k.machine.registers loadReg = 0 := by rw [hk]; rfl
  have hword : k.machine.wordAt (k.machine.registers pcReg) = some (jalWord main) := by
    rw [hpc]
    exact htext.word 0 rfl
  obtain ⟨m₀, huser₀, h₀⟩ := userStep_jal hwf hword t₀
  have hnop : m₀.wordAt (m₀.registers pcReg) = some 0 := by
    rw [h₀.sameText.wordAt, h₀.pc, hnext]
    exact htext.word 1 rfl
  obtain ⟨m₁', hrun₁, hstep₁⟩ := step_nop h₀.wellFormed hnop
  obtain ⟨m₁, huser₁, h₁⟩ := userStep_of_stepsTo (k := { k with machine := m₀ }) hrun₁ hstep₁ t₁
  have hlink : m₀.registers retAddrReg = 8 := by
    rw [h₀.general retAddrReg (by decide) (by decide), hload, if_neg (by decide),
      Function.update_self, hnext]
    rfl
  have hmasked : ((4 : Word) + 4) &&& 0xf0000000 = 0 := by decide
  refine ⟨m₁, ?_, ?_, ?_⟩
  · rw [machineRun_cons_of_ok huser₀, machineRun_cons_of_ok huser₁]
    rfl
  · rw [h₁.pc, h₀.nextPC, hnext, hmasked]
    exact BitVec.zero_or
  · rw [h₁.general retAddrReg (by decide) (by decide), h₀.load, if_neg (by decide),
      Function.update_of_ne (by decide), hlink]

/-- Behind the call of `main`: the program jumps to the stub of `Exit`. -/
private theorem return_calls_exit (hwf : k.machine.WellFormed)
    (htext : k.machine.Text 0 (startText main))
    (hpc : k.machine.registers pcReg = 8) (hnext : k.machine.registers nextPCReg = 12)
    (t₀ t₁ : Tick) :
    ∃ m, (∀ ts, machineRun (t₀ :: t₁ :: ts) k = machineRun ts { k with machine := m }) ∧
      ({ k with machine := m } : Kernel).AtStub main .exit := by
  have hword : k.machine.wordAt (k.machine.registers pcReg) = some (jalWord 52) := by
    rw [hpc]
    exact htext.word 2 rfl
  obtain ⟨m₀, huser₀, h₀⟩ := userStep_jal hwf hword t₀
  have hmove : m₀.wordAt (m₀.registers pcReg) = some 0x00002021 := by
    rw [h₀.sameText.wordAt, h₀.pc, hnext]
    exact htext.word 3 rfl
  obtain ⟨m₁', hrun₁, hstep₁⟩ := step_addu h₀.wellFormed hmove (by decide)
  obtain ⟨m₁, huser₁, h₁⟩ := userStep_of_stepsTo (k := { k with machine := m₀ }) hrun₁ hstep₁ t₁
  have htarget : m₀.registers nextPCReg = Stub.exit.address := by
    rw [h₀.nextPC, hnext]
    decide
  refine ⟨m₁, fun ts ↦ ?_, h₁.wellFormed, (h₀.sameText.trans h₁.sameText).text htext, ?_, ?_, ?_⟩
  · rw [machineRun_cons_of_ok huser₀, machineRun_cons_of_ok huser₁]
  · exact h₁.pc.trans htarget
  · exact h₁.nextPC.trans (congrArg (· + 4) htarget)
  · rw [h₁.load]
    decide

private theorem userReachable_userStep {t : Tick} (hk : UserReachable k.machine)
    (h : userStep t k = .ok () k') : UserReachable k'.machine := by
  obtain ⟨_, k₁, hone, hint⟩ := bind_eq_ok.mp h
  have hreach : UserReachable k₁.machine := by
    rw [userInstruction, Kernel.oneInstruction] at hone
    split at hone
    · rename_i hrun
      cases hone
      exact hk.step hrun
    · rename_i which m htrap
      have hdiv : ¬k.machine.AtDivOverflow :=
        not_atDivOverflow hk.settled fun f m'' hf ↦ by rw [htrap] at hf; cases hf
      have hsettled := (triple_oneInstruction.of_error ⟨hk.settled, hdiv⟩ htrap).2
      exact hk.trap htrap (kernelReturn_of_exceptionHandler hsettled.linear hone)
    · cases hone
  split at hint
  · have hload := delayedLoad_eq (lt_numTotalRegs hreach.settled.load_lt) 0 0
    rw [onMachine_of_ok hload] at hint
    cases hint
    exact hreach.interrupt hload
  · cases hint
    exact hreach

/-- A run of a user program stays among its reachable states. -/
private theorem userReachable_machineRun {ts : List Tick} (hk : UserReachable k.machine)
    (h : machineRun ts k = .ok () k') : UserReachable k'.machine := by
  induction ts generalizing k with
  | nil =>
    cases h
    exact hk
  | cons t ts ih =>
    obtain ⟨_, k₁, hstep, hrest⟩ := bind_eq_ok.mp h
    exact ih (userReachable_userStep hk hstep) hrest

/-- **No program survives its `main`.** A program linked behind `start.S` gets to `main` with 8 as
the return address. However long it runs from there and whatever calls it makes: if it comes back to
that address with the text of `start.S` still in place, the kernel fails an assertion three
instructions later, where `start.S` meant the program to exit with 0. The kernel's tables are then
as `main` has left them. -/
theorem return_from_main_aborts {numPages : Word} {mainMemory : ℕ → Byte}
    {pageTable : ℕ → TranslationEntry}
    (hk : k.machine = Machine.start numPages mainMemory pageTable)
    (htext : k.machine.Text 0 (startText main)) (t₀ t₁ : Tick) :
    ∃ k₁, machineRun [t₀, t₁] k = .ok () k₁ ∧
      k₁.machine.registers pcReg = jumpAddress main ∧ k₁.machine.registers retAddrReg = 8 ∧
      ∀ ts k₂, machineRun ts k₁ = .ok () k₂ → k₂.machine.registers pcReg = 8 →
        k₂.machine.registers nextPCReg = 12 → k₂.machine.Text 0 (startText main) →
        ∀ u₀ u₁ u₂ u₃ us, ∃ m, machineRun (u₀ :: u₁ :: u₂ :: u₃ :: us) k₂ =
          .error .assertFailed { k₂ with machine := m } := by
  have hreach : UserReachable k.machine := by
    rw [hk]
    exact .start numPages mainMemory pageTable
  obtain ⟨m₁, hstart, hpc₁, hlink₁⟩ := start_calls_main hk htext t₀ t₁
  refine ⟨_, hstart, hpc₁, hlink₁, fun ts k₂ hrun hpc hnext htext₂ u₀ u₁ u₂ u₃ us ↦ ?_⟩
  have hwf := (userReachable_machineRun (userReachable_machineRun hreach hstart) hrun).settled
  obtain ⟨m, hcall, hexit⟩ := return_calls_exit hwf.toWellFormed htext₂ hpc hnext u₀ u₁
  obtain ⟨mt, -, habort⟩ := hexit.aborts (by decide) u₂ u₃ us
  exact ⟨mt, (hcall _).trans habort⟩

end mainCall

/-- The state after some turns, if they end. -/
def Kernel.ranFor (k : Kernel) (ts : List Tick) : Option Kernel :=
  match machineRun ts k with
  | .ok _ k' => some k'
  | .error _ _ => none

theorem machineRun_of_ranFor {k k' : Kernel} {ts : List Tick} :
    k.ranFor ts = some k' ↔ machineRun ts k = .ok () k' := by
  rw [Kernel.ranFor]
  split <;> rename_i hrun <;> rw [hrun] <;> simp

/-- The program with nothing in its `main`. -/
theorem return_from_main_aborts_empty : ∃ k₁ k₂ k₃,
    machineRun [.quiet, .quiet] (Kernel.boot emptyProgram) = .ok () k₁ ∧
    machineRun [.quiet, .quiet] k₁ = .ok () k₂ ∧
    machineRun [.quiet, .quiet, .quiet, .quiet] k₂ = .error .assertFailed k₃ := by
  obtain ⟨k₁, hstart, -, -, hreturn⟩ := return_from_main_aborts (k := Kernel.boot emptyProgram)
    rfl addCall_atStub.text .quiet .quiet
  have hback : (((Kernel.boot emptyProgram).ranFor [.quiet, .quiet]).bind
      fun k ↦ k.ranFor [.quiet, .quiet]).any (fun k ↦ k.machine.registers pcReg = 8 ∧
        k.machine.registers nextPCReg = 12 ∧ k.machine.Text 0 (startText 116)) = true := by
    decide +kernel
  rw [machineRun_of_ranFor.mpr hstart, Option.bind_some] at hback
  obtain ⟨k₂, hmain, hat⟩ := Option.any_eq_true _ _ |>.mp hback
  obtain ⟨hpc, hnext, htext⟩ := of_decide_eq_true hat
  obtain ⟨m, habort⟩ := hreturn _ k₂ (machineRun_of_ranFor.mp hmain) hpc hnext htext .quiet .quiet
    .quiet .quiet []
  exact ⟨k₁, k₂, _, hstart, machineRun_of_ranFor.mp hmain, habort⟩

end Nachos
