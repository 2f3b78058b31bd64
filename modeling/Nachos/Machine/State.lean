import Nachos.Basic
import Nachos.Program.Exec

/-!
# The simulated machine: registers, delayed loads and traps

The register file holds the 32 general registers and, behind them, the ones the simulator keeps
for itself: `Hi`, `Lo`, the three program counters, the pending delayed load and the faulting
address. A load does not write its register at once; it waits in `LoadReg`/`LoadValueReg` until
the next instruction, interrupt or trap applies it through `delayedLoad`.

`raiseException` is where user mode ends: it stops the instruction with the machine state that
`ExceptionHandler` is given. Every caller in the simulator returns as soon as the handler has, so
nothing of the instruction is left to run after it.
-/

namespace Nachos

/-! ## Sizes and register numbers -/

@[simp] abbrev pageSize : ℕ := 128

@[simp] abbrev numPhysPages : ℕ := 128

@[simp] abbrev memorySize : ℕ := numPhysPages * pageSize

@[simp] abbrev tlbSize : ℕ := 4

@[simp] abbrev stackReg : ℕ := 29

@[simp] abbrev retAddrReg : ℕ := 31

@[simp] abbrev numGPRegs : ℕ := 32

@[simp] abbrev hiReg : ℕ := 32

@[simp] abbrev loReg : ℕ := 33

@[simp] abbrev pcReg : ℕ := 34

@[simp] abbrev nextPCReg : ℕ := 35

@[simp] abbrev prevPCReg : ℕ := 36

@[simp] abbrev loadReg : ℕ := 37

@[simp] abbrev loadValueReg : ℕ := 38

@[simp] abbrev badVAddrReg : ℕ := 39

@[simp] abbrev numTotalRegs : ℕ := 40

inductive ExceptionType where
  | noException
  | syscallException
  | pageFaultException
  | readOnlyException
  | busErrorException
  | addressErrorException
  | overflowException
  | illegalInstrException
  deriving DecidableEq, Repr

/-- One entry of a page table or of the TLB. -/
structure TranslationEntry where
  virtualPage : Word
  physicalPage : Word
  valid : Bool
  readOnly : Bool
  /-- The `use` bit, set whenever the page is referenced. -/
  used : Bool
  dirty : Bool
  deriving DecidableEq, Repr

/-- The state `OneInstruction` works on. A null `tlb` or `pageTable` pointer is `none`. -/
structure Machine where
  registers : ℕ → Word
  mainMemory : ℕ → Byte
  tlb : Option (ℕ → TranslationEntry)
  pageTable : Option (ℕ → TranslationEntry)
  pageTableSize : Word

/-- Why an instruction stops before its end: it trapped, or the simulator itself broke down. -/
inductive Stop where
  | trap (which : ExceptionType)
  | fault (f : Fault)
  deriving DecidableEq, Repr

/-- Code of the simulator. -/
abbrev Exec := EStateM Stop Machine

/-! ## Registers -/

/-- Register `i` replaced by `v`. -/
def Machine.setReg (m : Machine) (i : ℕ) (v : Word) : Machine :=
  { m with registers := Function.update m.registers i v }

section setReg

variable (m : Machine) (i j : ℕ) (v w : Word)

@[simp] theorem Machine.setReg_registers_self : (m.setReg i v).registers i = v :=
  Function.update_self _ _ _

theorem Machine.setReg_registers_of_ne {i j : ℕ} (h : j ≠ i) :
    (m.setReg i v).registers j = m.registers j :=
  Function.update_of_ne h _ _

theorem Machine.setReg_registers :
    (m.setReg i v).registers j = if j = i then v else m.registers j := by
  by_cases h : j = i
  · subst h
    rw [if_pos rfl, Machine.setReg_registers_self]
  · rw [if_neg h, Machine.setReg_registers_of_ne m v h]

@[simp] theorem Machine.setReg_mainMemory : (m.setReg i v).mainMemory = m.mainMemory := rfl

@[simp] theorem Machine.setReg_tlb : (m.setReg i v).tlb = m.tlb := rfl

@[simp] theorem Machine.setReg_pageTable : (m.setReg i v).pageTable = m.pageTable := rfl

@[simp] theorem Machine.setReg_pageTableSize :
    (m.setReg i v).pageTableSize = m.pageTableSize := rfl

@[simp] theorem Machine.setReg_setReg : (m.setReg i v).setReg i w = m.setReg i w := by
  simp [Machine.setReg]

end setReg

/-- Read `registers[i]`. -/
def readReg (i : ℕ) : Exec Word := fun m ↦
  if i < numTotalRegs then .ok (m.registers i) m else .error (.fault .registerIndex) m

/-- Assign `registers[i]`. -/
def writeReg (i : ℕ) (v : Word) : Exec Unit := fun m ↦
  if i < numTotalRegs then .ok () (m.setReg i v) else .error (.fault .registerIndex) m

theorem readReg_of_lt {i : ℕ} (h : i < numTotalRegs) (m : Machine) :
    readReg i m = .ok (m.registers i) m := if_pos h

theorem writeReg_of_lt {i : ℕ} (h : i < numTotalRegs) (v : Word) (m : Machine) :
    writeReg i v m = .ok () (m.setReg i v) := if_pos h

/-! ## Delayed loads and traps -/

/-- `Machine::DelayedLoad`: apply the pending load and make `nextReg := nextValue` the next one. -/
def delayedLoad (nextReg nextValue : Word) : Exec Unit := do
  let target ← readReg loadReg
  let value ← readReg loadValueReg
  writeReg target.toNat value
  writeReg loadReg nextReg
  writeReg loadValueReg nextValue
  writeReg 0 0   -- and always make sure R0 stays zero

/-- The state `delayedLoad` leaves behind when the pending target is a register. -/
def Machine.applyLoad (m : Machine) (nextReg nextValue : Word) : Machine :=
  (((m.setReg (m.registers loadReg).toNat (m.registers loadValueReg)).setReg loadReg
    nextReg).setReg loadValueReg nextValue).setReg 0 0

theorem delayedLoad_eq {m : Machine} (h : (m.registers loadReg).toNat < numTotalRegs)
    (nextReg nextValue : Word) :
    delayedLoad nextReg nextValue m = .ok () (m.applyLoad nextReg nextValue) := by
  rw [delayedLoad, Program.bind_of_ok (readReg_of_lt (by decide) m),
    Program.bind_of_ok (readReg_of_lt (by decide) m),
    Program.bind_of_ok (writeReg_of_lt h _ m),
    Program.bind_of_ok (writeReg_of_lt (by decide) _ _),
    Program.bind_of_ok (writeReg_of_lt (by decide) _ _), writeReg_of_lt (by decide)]
  rfl

/-- `Machine::RaiseException` up to the call of `ExceptionHandler`. The switch of the machine
status to system mode and back is not part of this state. -/
def raiseException {α : Type} (which : ExceptionType) (badVAddr : Word) : Exec α := do
  writeReg badVAddrReg badVAddr
  delayedLoad 0 0
  throw (.trap which)

/-- The machine a trap hands to the kernel. -/
theorem raiseException_eq {α : Type} {m : Machine} (h : (m.registers loadReg).toNat < numTotalRegs)
    (which : ExceptionType) (badVAddr : Word) :
    (raiseException which badVAddr : Exec α) m
      = .error (.trap which) ((m.setReg badVAddrReg badVAddr).applyLoad 0 0) := by
  have hload : ((m.setReg badVAddrReg badVAddr).registers loadReg).toNat < numTotalRegs := by
    rwa [Machine.setReg_registers_of_ne _ _ (by decide)]
  rw [raiseException, Program.bind_of_ok (writeReg_of_lt (by decide) _ m),
    Program.bind_of_ok (delayedLoad_eq hload 0 0)]
  rfl

/-- A failed `ASSERT`. -/
def abort {α : Type} : Exec α := throw (.fault .assertFailed)

/-! ## Well-formed states

What holds between two instructions: register 0 is zero and the pending load is aimed at a
general register. `Machine.applyLoad` re-establishes the first and needs the second. -/

structure Machine.WellFormed (m : Machine) : Prop where
  zero : m.registers 0 = 0
  load_lt : (m.registers loadReg).toNat < numGPRegs

theorem Machine.applyLoad_registers (m : Machine) (nextReg nextValue : Word) (i : ℕ) :
    (m.applyLoad nextReg nextValue).registers i =
      if i = 0 then 0 else if i = loadValueReg then nextValue else if i = loadReg then nextReg
      else if i = (m.registers loadReg).toNat then m.registers loadValueReg
      else m.registers i := by
  simp only [Machine.applyLoad, Machine.setReg_registers]

theorem Machine.wellFormed_applyLoad (m : Machine) {nextReg : Word}
    (h : nextReg.toNat < numGPRegs) (nextValue : Word) :
    (m.applyLoad nextReg nextValue).WellFormed := by
  constructor
  · rw [Machine.applyLoad_registers, if_pos rfl]
  · rw [Machine.applyLoad_registers]
    simpa using h

end Nachos
