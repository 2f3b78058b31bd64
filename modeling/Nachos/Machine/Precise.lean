import Nachos.Machine.Safety
import Nachos.Machine.UserMemory

/-!
# Precise exceptions

When an instruction traps, the kernel wants to see the machine as it was before the instruction, so
that it can repair the cause and start the instruction again. A trap itself completes the load that
was pending and notes the faulting address; translations made on the way have set use and dirty
bits. `Machine.Suspended` says that this is all.

Which instructions trap is decided case by case. Most cases are `Quiet`: no part of them can trap.
For the others `Traps m₀ C r` reads the result `r` of a run that started from `m₀`: it is a trap
other than a system call exactly when `C` holds, and then the machine is `m₀`, suspended.
-/

namespace Nachos

open Program

/-! ## The machine a trap hands over -/

/-- `m'` is `m` with its pending load completed and the load registers cleared; beyond that, only
`BadVAddr` and the use and dirty bits may differ. -/
structure Machine.Suspended (m m' : Machine) : Prop where
  general : ∀ i < numGPRegs, m'.registers i =
    if i ≠ 0 ∧ i = (m.registers loadReg).toNat then m.registers loadValueReg else m.registers i
  load : m'.registers loadReg = 0 ∧ m'.registers loadValueReg = 0
  hiLo : m'.registers hiReg = m.registers hiReg ∧ m'.registers loReg = m.registers loReg
  counters : m'.registers pcReg = m.registers pcReg ∧
    m'.registers nextPCReg = m.registers nextPCReg ∧ m'.registers prevPCReg = m.registers prevPCReg
  mainMemory : m'.mainMemory = m.mainMemory
  tlb : TablesAlike m.tlb m'.tlb
  pageTable : TablesAlike m.pageTable m'.pageTable
  pageTableSize : m'.pageTableSize = m.pageTableSize

theorem Machine.suspended_trap {m₀ m : Machine} (hm₀ : m₀.WellFormed) (h : m₀.Alike m)
    (badVAddr : Word) : m₀.Suspended ((m.setReg badVAddrReg badVAddr).applyLoad 0 0) := by
  have htarget := hm₀.load_lt
  have hreg : ∀ i, i ≠ badVAddrReg →
      ((m.setReg badVAddrReg badVAddr).applyLoad 0 0).registers i
        = (m₀.applyLoad 0 0).registers i := by
    intro i hi
    simp only [Machine.applyLoad_registers, Machine.setReg_registers, h.registers, if_neg hi,
      if_neg (show loadReg ≠ badVAddrReg by decide),
      if_neg (show loadValueReg ≠ badVAddrReg by decide)]
  have hspecial : ∀ i, numGPRegs ≤ i → i ≠ badVAddrReg → i ≠ loadReg → i ≠ loadValueReg →
      ((m.setReg badVAddrReg badVAddr).applyLoad 0 0).registers i = m₀.registers i := by
    intro i hi hbad hload hvalue
    rw [hreg i hbad, Machine.applyLoad_registers]
    simp only [numGPRegs] at hi htarget
    rw [if_neg (by omega), if_neg hvalue, if_neg hload, if_neg (by omega)]
  refine ⟨fun i hi ↦ ?_, ⟨?_, ?_⟩, ⟨?_, ?_⟩, ⟨?_, ?_, ?_⟩, h.mainMemory, h.tlb, h.pageTable,
    h.pageTableSize⟩
  · have hlast : i ≠ badVAddrReg ∧ i ≠ loadValueReg ∧ i ≠ loadReg := by
      simp only [numGPRegs, badVAddrReg, loadValueReg, loadReg] at *
      omega
    rw [hreg i hlast.1, Machine.applyLoad_registers, if_neg hlast.2.1, if_neg hlast.2.2]
    by_cases h0 : i = 0
    · subst h0
      rw [if_pos rfl, if_neg (by simp), hm₀.zero]
    · simp only [h0, ne_eq, not_false_eq_true, true_and, if_false]
  · rw [hreg _ (by decide), Machine.applyLoad_registers]
    rfl
  · rw [hreg _ (by decide), Machine.applyLoad_registers]
    rfl
  all_goals exact hspecial _ (by decide) (by decide) (by decide) (by decide)

/-! ## Cases that cannot trap -/

/-- `x` ends or breaks down, but never traps. -/
def Quiet {α : Type} (x : Exec α) : Prop := ∀ m which m', x m ≠ .error (.trap which) m'

section quiet

variable {α β : Type}

theorem Quiet.pure (a : α) : Quiet (Pure.pure a : Exec α) := by
  intro m which m' h
  cases h

theorem quiet_fault (f : Fault) : Quiet (throw (.fault f) : Exec α) := by
  intro m which m' h
  cases h

theorem Quiet.bind {x : Exec α} {f : α → Exec β} (hx : Quiet x) (hf : ∀ a, Quiet (f a)) :
    Quiet (x >>= f) := by
  intro m which m' h
  rw [bind_apply] at h
  cases hxm : x m with
  | ok a m₁ =>
    rw [hxm] at h
    exact hf a m₁ which m' h
  | error e m₁ =>
    rw [hxm] at h
    cases h
    exact hx m which m' hxm

theorem Quiet.ite {c : Prop} [Decidable c] {x y : Exec α} (hx : Quiet x) (hy : Quiet y) :
    Quiet (if c then x else y) := by
  by_cases hc : c
  · rwa [if_pos hc]
  · rwa [if_neg hc]

theorem quiet_readReg (i : ℕ) : Quiet (readReg i) := by
  intro m which m' h
  rw [readReg] at h
  split at h <;> cases h

theorem quiet_writeReg (i : ℕ) (v : Word) : Quiet (writeReg i v) := by
  intro m which m' h
  rw [writeReg] at h
  split at h <;> cases h

private theorem quiet_delayedLoad (r v : Word) : Quiet (delayedLoad r v) :=
  (quiet_readReg _).bind fun _ ↦ (quiet_readReg _).bind fun _ ↦ (quiet_writeReg _ _).bind fun _ ↦
    (quiet_writeReg _ _).bind fun _ ↦ (quiet_writeReg _ _).bind fun _ ↦ quiet_writeReg _ _

private theorem quiet_finish (next : Next) : Quiet (finish next) :=
  (quiet_delayedLoad _ _).bind fun _ ↦ (quiet_readReg _).bind fun _ ↦
    (quiet_writeReg _ _).bind fun _ ↦ (quiet_readReg _).bind fun _ ↦
      (quiet_writeReg _ _).bind fun _ ↦ quiet_writeReg _ _

variable (instr : Instruction)

private theorem quiet_aluReg (f : Word → Word → Word) : Quiet (aluReg instr f) :=
  (quiet_readReg _).bind fun _ ↦ (quiet_readReg _).bind fun _ ↦ quiet_writeReg _ _

private theorem quiet_aluImm (f : Word → Word) : Quiet (aluImm instr f) :=
  (quiet_readReg _).bind fun _ ↦ quiet_writeReg _ _

private theorem quiet_shiftLeft (a n : Word) : Quiet (shiftLeft a n) :=
  Quiet.ite (Quiet.pure _) (quiet_fault _)

private theorem quiet_shiftRight (a n : Word) : Quiet (shiftRight a n) :=
  Quiet.ite (Quiet.pure _) (quiet_fault _)

theorem quiet_aluShift {shift : Word → Word → Exec Word} (hshift : ∀ a n, Quiet (shift a n))
    (n : Word) : Quiet (aluShift instr shift n) :=
  (quiet_readReg _).bind fun _ ↦ (hshift _ _).bind fun _ ↦ quiet_writeReg _ _

private theorem quiet_linkR31 : Quiet linkR31 := (quiet_readReg _).bind fun _ ↦ quiet_writeReg _ _

private theorem quiet_mergeBase : Quiet (mergeBase instr) :=
  (quiet_readReg _).bind fun _ ↦ Quiet.ite (quiet_readReg _) (quiet_readReg _)

private theorem quiet_multiply (signedArith : Bool) : Quiet (multiply instr signedArith) :=
  (quiet_readReg _).bind fun _ ↦ (quiet_readReg _).bind fun _ ↦
    (quiet_writeReg _ _).bind fun _ ↦ quiet_writeReg _ _

/-- `DIV` and `DIVU` differ in how they divide. -/
private theorem quiet_division {a b : Word} {quot rem : Word → Word → Exec Word}
    (hquot : Quiet (quot a b)) (hrem : Quiet (rem a b)) :
    Quiet (if b = 0 then do
        writeReg loReg 0
        writeReg hiReg 0
      else do
        let q ← quot a b
        writeReg loReg q
        let r ← rem a b
        writeReg hiReg r) :=
  Quiet.ite ((quiet_writeReg _ _).bind fun _ ↦ quiet_writeReg _ _)
    (hquot.bind fun _ ↦ (quiet_writeReg _ _).bind fun _ ↦ hrem.bind fun _ ↦ quiet_writeReg _ _)

private theorem quiet_divide : Quiet (divide instr) :=
  (quiet_readReg _).bind fun _ ↦ (quiet_readReg _).bind fun _ ↦
    quiet_division (Quiet.ite (quiet_fault _) (Quiet.pure _))
      (Quiet.ite (quiet_fault _) (Quiet.pure _))

private theorem quiet_divideUnsigned : Quiet (divideUnsigned instr) :=
  (quiet_readReg _).bind fun _ ↦ (quiet_readReg _).bind fun _ ↦
    quiet_division (Quiet.ite (quiet_fault _) (Quiet.pure _))
      (Quiet.ite (quiet_fault _) (Quiet.pure _))

end quiet

/-- The cases in which an access, an overflow or the operation itself can trap. -/
def OpCode.MayTrap : OpCode → Bool
  | .add | .addi | .sub | .lb | .lbu | .lh | .lhu | .lw | .lwl | .lwr
  | .sb | .sh | .sw | .swl | .swr
  | .syscall | .res | .unimp => true
  | _ => false

/-- Every other case is quiet; the link instructions among them, which write a register first. -/
private theorem quiet_execute {instr : Instruction} (hop : instr.opCode.MayTrap = false)
    (nextPC : Word) : Quiet (execute instr nextPC) := by
  cases hc : instr.opCode with
  | addiu | andi | ori | xori | slti | sltiu =>
    simp only [execute, hc]
    exact (quiet_aluImm instr _).bind fun _ ↦ Quiet.pure _
  | addu | and | nor | or | slt | sltu | subu | xor =>
    simp only [execute, hc]
    exact (quiet_aluReg instr _).bind fun _ ↦ Quiet.pure _
  | beq | bne =>
    simp only [execute, hc]
    exact (quiet_readReg _).bind fun _ ↦ (quiet_readReg _).bind fun _ ↦ Quiet.pure _
  | bgez | bgtz | blez | bltz | jr =>
    simp only [execute, hc]
    exact (quiet_readReg _).bind fun _ ↦ Quiet.pure _
  | bgezal | bltzal =>
    simp only [execute, hc]
    exact quiet_linkR31.bind fun _ ↦ (quiet_readReg _).bind fun _ ↦ Quiet.pure _
  | jal =>
    simp only [execute, hc]
    exact quiet_linkR31.bind fun _ ↦ Quiet.pure _
  | j =>
    simp only [execute, hc]
    exact Quiet.pure _
  | jalr =>
    simp only [execute, hc]
    exact (quiet_writeReg _ _).bind fun _ ↦ (quiet_readReg _).bind fun _ ↦ Quiet.pure _
  | lui =>
    simp only [execute, hc]
    exact (quiet_writeReg _ _).bind fun _ ↦ Quiet.pure _
  | mfhi | mflo | mthi | mtlo =>
    simp only [execute, hc]
    exact (quiet_readReg _).bind fun _ ↦ (quiet_writeReg _ _).bind fun _ ↦ Quiet.pure _
  | mult | multu =>
    simp only [execute, hc]
    exact (quiet_multiply instr _).bind fun _ ↦ Quiet.pure _
  | div =>
    simp only [execute, hc]
    exact (quiet_divide instr).bind fun _ ↦ Quiet.pure _
  | divu =>
    simp only [execute, hc]
    exact (quiet_divideUnsigned instr).bind fun _ ↦ Quiet.pure _
  | sll =>
    simp only [execute, hc]
    exact (quiet_aluShift instr quiet_shiftLeft _).bind fun _ ↦ Quiet.pure _
  | sra | srl =>
    simp only [execute, hc]
    exact (quiet_aluShift instr quiet_shiftRight _).bind fun _ ↦ Quiet.pure _
  | sllv =>
    simp only [execute, hc]
    exact (quiet_readReg _).bind fun _ ↦
      (quiet_aluShift instr quiet_shiftLeft _).bind fun _ ↦ Quiet.pure _
  | srav | srlv =>
    simp only [execute, hc]
    exact (quiet_readReg _).bind fun _ ↦
      (quiet_aluShift instr quiet_shiftRight _).bind fun _ ↦ Quiet.pure _
  | rfe | special | bcond =>
    simp only [execute, hc]
    exact quiet_fault _
  | add | addi | sub | lb | lbu | lh | lhu | lw | lwl | lwr | sb | sh | sw | swl | swr | syscall
  | res | unimp =>
    rw [hc] at hop
    cases hop

/-! ## Cases that trap -/

/-- The result `r` of a run from `m₀` is a trap other than a system call exactly when `C` holds, and
every trap hands over `m₀`, suspended. -/
def Traps {α : Type} (m₀ : Machine) (C : Prop) : EStateM.Result Stop Machine α → Prop
  | .ok _ _ => ¬C
  | .error (.fault _) _ => ¬C
  | .error (.trap which) m' => (C ↔ which ≠ .syscallException) ∧ m₀.Suspended m'

section traps

variable {α β : Type} {m₀ m : Machine} {C D : Prop}

theorem Traps.congr {r : EStateM.Result Stop Machine α} (h : Traps m₀ C r) (hD : C ↔ D) :
    Traps m₀ D r := by
  rwa [← propext hD]

theorem Quiet.traps {x : Exec α} (hx : Quiet x) : Traps m₀ False (x m) := by
  cases h : x m with
  | ok a m' => exact id
  | error e m' =>
    cases e with
    | fault f => exact id
    | trap which => exact absurd h (hx m which m')

/-- What follows a part that may trap is quiet. -/
theorem Traps.bind {x : Exec α} {f : α → Exec β} (hx : Traps m₀ C (x m)) (hf : ∀ a, Quiet (f a)) :
    Traps m₀ C ((x >>= f) m) := by
  rw [bind_apply]
  cases h : x m with
  | error e m' =>
    rw [h] at hx
    cases e with
    | fault f => exact hx
    | trap which => exact hx
  | ok a m' =>
    rw [h] at hx
    exact (hf a).traps.congr ⟨False.elim, hx⟩

theorem Traps.bind_of_trap {x : Exec α} {f : α → Exec β} (hx : Traps m₀ C (x m)) (hC : C) :
    Traps m₀ C ((x >>= f) m) := by
  rw [bind_apply]
  cases h : x m with
  | ok a m' =>
    rw [h] at hx
    exact absurd hC hx
  | error e m' =>
    rw [h] at hx
    cases e with
    | fault f => exact hx
    | trap which => exact hx

theorem traps_raiseException (hm₀ : m₀.WellFormed) (h : m₀.Alike m) (which : ExceptionType)
    (badVAddr : Word) :
    Traps m₀ (which ≠ .syscallException) ((raiseException which badVAddr : Exec α) m) := by
  have hload : (m.registers loadReg).toNat < numTotalRegs := by
    rw [h.registers]
    exact lt_numTotalRegs hm₀.load_lt
  rw [raiseException_eq hload]
  exact ⟨Iff.rfl, Machine.suspended_trap hm₀ h badVAddr⟩

/-- A test of its own in front of `x`, which would have trapped there as well. -/
private theorem traps_guarded {c : Prop} [Decidable c] {x : Exec α} (hm₀ : m₀.WellFormed)
    (h : m₀.Alike m) (hx : Traps m₀ C (x m)) (hc : c → C) (badVAddr : Word) :
    Traps m₀ C ((if c then raiseException .addressErrorException badVAddr else x) m) := by
  by_cases hcase : c
  · rw [if_pos hcase]
    exact (traps_raiseException hm₀ h _ _).congr ⟨fun _ ↦ hc hcase, fun _ ↦ by decide⟩
  · rwa [if_neg hcase]

end traps

/-! ### Memory accesses -/

/-- An access of an instruction to memory. -/
structure Access where
  addr : Word
  size : ℕ
  writing : Bool
  deriving DecidableEq, Repr

/-- The access fails translation or alignment. -/
def Machine.Faults (m : Machine) (acc : Access) : Prop :=
  ∃ which, m.translate acc.addr acc.size acc.writing = .exception which

private theorem outcome_eq_inl {t : Translation} {which : ExceptionType} :
    t.outcome = some (.inl which) ↔ t = .exception which := by
  cases t with
  | abort => simp [Translation.outcome]
  | exception w => simp [Translation.outcome]
  | success a tlb pageTable => simp [Translation.outcome]

theorem Machine.Alike.faults_iff {m m' : Machine} (h : m.Alike m') (acc : Access) :
    m'.Faults acc ↔ m.Faults acc := by
  refine exists_congr fun which ↦ ?_
  rw [← outcome_eq_inl, ← outcome_eq_inl, h.outcome]

private theorem useEntry_ne_syscall {entry : TranslationEntry}
    {tlb pageTable : Option (ℕ → TranslationEntry)} {offset size : ℕ} {writing : Bool} :
    useEntry entry tlb pageTable offset size writing ≠ .exception .syscallException := by
  rw [useEntry]
  split
  · simp
  · split
    · simp
    · split <;> simp

private theorem translate_ne_syscall {m : Machine} {addr : Word} {size : ℕ} {writing : Bool} :
    m.translate addr size writing ≠ .exception .syscallException := by
  rw [Machine.translate]
  split
  · simp
  · dsimp only
    split
    · simp
    · simp
    · split
      · simp
      · split
        · simp
        · exact useEntry_ne_syscall
    · split
      · simp
      · exact useEntry_ne_syscall

section accesses

variable {m₀ m : Machine}

private theorem traps_physicalAddress (hm₀ : m₀.WellFormed) (h : m₀.Alike m) (addr : Word)
    (size : ℕ) (writing : Bool) :
    Traps m₀ (m₀.Faults ⟨addr, size, writing⟩) (physicalAddress addr size writing m) := by
  refine Traps.congr ?_ (h.faults_iff ⟨addr, size, writing⟩)
  rw [physicalAddress, Machine.Faults]
  cases ht : m.translate addr size writing with
  | abort =>
    rintro ⟨which, hw⟩
    cases hw
  | success a tlb pageTable =>
    rintro ⟨which, hw⟩
    cases hw
  | exception which =>
    refine (traps_raiseException hm₀ h which addr).congr ⟨fun _ ↦ ⟨which, rfl⟩, fun _ hw ↦ ?_⟩
    rw [hw] at ht
    exact translate_ne_syscall ht

theorem traps_readMem (hm₀ : m₀.WellFormed) (h : m₀.Alike m) (addr : Word) (size : ℕ) :
    Traps m₀ (m₀.Faults ⟨addr, size, false⟩) (readMem addr size m) := by
  refine (traps_physicalAddress hm₀ h addr size false).bind fun a m₁ which m' hr ↦ ?_
  rw [bind_apply] at hr
  dsimp only [get, getThe, MonadStateOf.get, EStateM.get] at hr
  split at hr <;> cases hr

private theorem traps_writeMem (hm₀ : m₀.WellFormed) (h : m₀.Alike m) (addr : Word) (size : ℕ)
    (value : Word) :
    Traps m₀ (m₀.Faults ⟨addr, size, true⟩) (writeMem addr size value m) := by
  refine (traps_physicalAddress hm₀ h addr size true).bind fun a m₁ which m' hr ↦ ?_
  split at hr <;> cases hr

end accesses

/-- Whether the assertions of `Machine::Translate` hold does not depend on reading or writing. -/
private theorem not_faults_of_abort {m : Machine} {addr : Word} {size : ℕ} {writing : Bool}
    (hsize : size = 1 ∨ size = 2 ∨ size = 4) (h : m.translate addr size writing = .abort) :
    ¬m.Faults ⟨addr, size, !writing⟩ := by
  rintro ⟨which, hw⟩
  rw [Machine.translate] at h hw
  split at h
  · cases h
  · rename_i halign
    have hoff := offset_add_size_le hsize halign
    rw [if_neg halign] at hw
    dsimp only at h hw
    split at h
    · rename_i h1 h2
      rw [h1, h2] at hw
      cases hw
    · rename_i h1 h2
      rw [h1, h2] at hw
      cases hw
    · split at h
      · cases h
      · split at h
        · cases h
        · exact useEntry_ne_abort hoff h
    · split at h
      · cases h
      · exact useEntry_ne_abort hoff h

/-- The word at `addr` is read and then written: the read comes first, and when it succeeds nothing
but bits has changed before the write. -/
private theorem traps_readWrite {α : Type} {m₀ m : Machine} (hm₀ : m₀.WellFormed) (h : m₀.Alike m)
    (addr : Word) {f : Word → Exec α}
    (hf : ∀ v m₁, m₀.Alike m₁ → Traps m₀ (m₀.Faults ⟨addr, 4, true⟩) (f v m₁)) :
    Traps m₀ (m₀.Faults ⟨addr, 4, false⟩ ∨ m₀.Faults ⟨addr, 4, true⟩)
      ((readMem addr 4 >>= f) m) := by
  have hread := traps_readMem hm₀ h addr 4
  cases ht : m.translate addr 4 false with
  | exception which =>
    have hfaults : m₀.Faults ⟨addr, 4, false⟩ := (h.faults_iff _).mp ⟨which, ht⟩
    exact (hread.bind_of_trap hfaults).congr ⟨Or.inl, fun _ ↦ hfaults⟩
  | abort =>
    have habort : readMem addr 4 m = .error (.fault .assertFailed) m := by
      refine bind_of_error ?_
      rw [physicalAddress, ht]
      rfl
    rw [bind_of_error habort]
    rintro (hr | hw)
    · obtain ⟨which, hr⟩ := (h.faults_iff _).mpr hr
      rw [ht] at hr
      cases hr
    · exact not_faults_of_abort (by decide) ht ((h.faults_iff _).mpr hw)
  | success a tlb pageTable =>
    have hok : readMem addr 4 m
        = .ok ((m.setTables tlb pageTable).word a) (m.setTables tlb pageTable) := by
      rw [readMem, bind_of_ok (physicalAddress_eq_ok.mpr ⟨tlb, pageTable, ht, rfl⟩)]
      rfl
    rw [hok] at hread
    rw [bind_of_ok hok]
    exact (hf _ _ (h.trans (alike_of_success ht))).congr ⟨Or.inr, fun hor ↦ hor.resolve_left hread⟩

section families

variable {m₀ m : Machine} {instr : Instruction}

/-- `registers[rs] + extra`. -/
def Instruction.effective (instr : Instruction) (m : Machine) : Word :=
  m.registers instr.rs + instr.extra

/-- The aligned word the unaligned accesses work on. -/
def Instruction.effectiveWord (instr : Instruction) (m : Machine) : Word :=
  instr.effective m - (instr.effective m &&& 0x3)

variable (hm₀ : m₀.WellFormed) (h : m₀.Alike m) (hinstr : instr.InRange)

include h hinstr in
theorem effectiveAddr_eq : effectiveAddr instr m = .ok (instr.effective m₀) m := by
  rw [effectiveAddr, bind_of_ok (readReg_of_lt (lt_numTotalRegs hinstr.rs_lt) m), h.registers]
  rfl

include hm₀ h hinstr

private theorem traps_loadByte :
    Traps m₀ (m₀.Faults ⟨instr.effective m₀, 1, false⟩) (loadByte instr m) := by
  rw [loadByte, bind_of_ok (effectiveAddr_eq h hinstr)]
  exact (traps_readMem hm₀ h _ 1).bind fun _ ↦ Quiet.pure _

private theorem traps_loadHalf :
    Traps m₀ (m₀.Faults ⟨instr.effective m₀, 2, false⟩) (loadHalf instr m) := by
  rw [loadHalf, bind_of_ok (effectiveAddr_eq h hinstr)]
  refine traps_guarded hm₀ h ((traps_readMem hm₀ h _ 2).bind fun _ ↦ Quiet.pure _) (fun hc ↦ ?_) _
  refine ⟨.addressErrorException, ?_⟩
  rw [Machine.translate, if_pos (Or.inr ⟨rfl, hc⟩)]

private theorem traps_loadWord :
    Traps m₀ (m₀.Faults ⟨instr.effective m₀, 4, false⟩) (loadWord instr m) := by
  rw [loadWord, bind_of_ok (effectiveAddr_eq h hinstr)]
  refine traps_guarded hm₀ h (traps_readMem hm₀ h _ 4) (fun hc ↦ ?_) _
  refine ⟨.addressErrorException, ?_⟩
  rw [Machine.translate, if_pos (Or.inl ⟨rfl, hc⟩)]

private theorem traps_loadUnaligned (merge : Word → Word → Word → Word) :
    Traps m₀ (m₀.Faults ⟨instr.effectiveWord m₀, 4, false⟩) (loadUnaligned instr merge m) := by
  rw [loadUnaligned, bind_of_ok (effectiveAddr_eq h hinstr)]
  exact (traps_readMem hm₀ h _ 4).bind fun _ ↦ (quiet_mergeBase instr).bind fun _ ↦ Quiet.pure _

private theorem traps_storeAligned (size : ℕ) :
    Traps m₀ (m₀.Faults ⟨instr.effective m₀, size, true⟩) (storeAligned instr size m) := by
  rw [storeAligned, bind_of_ok (effectiveAddr_eq h hinstr),
    bind_of_ok (readReg_of_lt (lt_numTotalRegs hinstr.rt_lt) m)]
  exact traps_writeMem hm₀ h _ size _

/-- The read comes first; when it succeeds, nothing but bits has changed before the write. -/
private theorem traps_storeUnaligned (change : Word → Word → Word → Word) :
    Traps m₀ (m₀.Faults ⟨instr.effectiveWord m₀, 4, false⟩ ∨
        m₀.Faults ⟨instr.effectiveWord m₀, 4, true⟩) (storeUnaligned instr change m) := by
  rw [storeUnaligned, bind_of_ok (effectiveAddr_eq h hinstr)]
  refine traps_readWrite hm₀ h _ fun v m₁ h₁ ↦ ?_
  rw [bind_of_ok (readReg_of_lt (lt_numTotalRegs hinstr.rt_lt) m₁)]
  exact traps_writeMem hm₀ h₁ _ 4 _

end families

/-! ### Overflow

The tests look at sign bits. They agree with the exact result being no `int`. -/

theorem and_signBit_eq_zero_iff (x : Word) : x &&& signBit = 0 ↔ x.msb = false := by
  rw [BitVec.msb_eq_getLsbD_last]
  constructor
  · intro h
    have h31 := congrArg (fun y : Word ↦ y.getLsbD 31) h
    simpa using h31
  · intro h
    refine BitVec.eq_of_getLsbD_eq fun i hi ↦ ?_
    rw [BitVec.getLsbD_and]
    by_cases h31 : i = 31
    · subst h31
      simpa using h
    · have hsign : ∀ j < 32, j ≠ 31 → signBit.getLsbD j = false := by decide
      rw [hsign i hi h31, Bool.and_false]
      exact BitVec.getLsbD_zero.symm

theorem toInt_range (a : Word) : -2 ^ 31 ≤ a.toInt ∧ a.toInt < 2 ^ 31 := by
  have h := a.isLt
  rw [BitVec.toInt_eq_toNat_cond]
  split <;> omega

/-- Is the exact result `x` an `int`? -/
def IsInt (x : ℤ) : Prop := -2 ^ 31 ≤ x ∧ x < 2 ^ 31

instance (x : ℤ) : Decidable (IsInt x) := inferInstanceAs (Decidable (_ ∧ _))

private theorem addOverflow_iff (a b : Word) :
    ((a ^^^ b) &&& signBit = 0 ∧ (a ^^^ (a + b)) &&& signBit ≠ 0) ↔ ¬IsInt (a.toInt + b.toInt) := by
  have ha := toInt_range a
  have hb := toInt_range b
  rw [ne_eq, and_signBit_eq_zero_iff, and_signBit_eq_zero_iff, BitVec.msb_xor, BitVec.msb_xor,
    BitVec.msb_eq_toInt, BitVec.msb_eq_toInt, BitVec.msb_eq_toInt, BitVec.toInt_add, Int.bmod_def,
    IsInt]
  simp only [bne_eq_false_iff_eq, decide_eq_decide]
  omega

/-- `ADDI` compares the sum with its second operand; where the test matters both have one sign. -/
private theorem addImmOverflow_iff (a b : Word) :
    ((a ^^^ b) &&& signBit = 0 ∧ (b ^^^ (a + b)) &&& signBit ≠ 0) ↔ ¬IsInt (a.toInt + b.toInt) := by
  rw [BitVec.xor_comm a b, BitVec.add_comm a b, add_comm a.toInt]
  exact addOverflow_iff b a

private theorem subOverflow_iff (a b : Word) :
    ((a ^^^ b) &&& signBit ≠ 0 ∧ (a ^^^ (a - b)) &&& signBit ≠ 0) ↔ ¬IsInt (a.toInt - b.toInt) := by
  have ha := toInt_range a
  have hb := toInt_range b
  rw [ne_eq, ne_eq, and_signBit_eq_zero_iff, and_signBit_eq_zero_iff, BitVec.msb_xor,
    BitVec.msb_xor, BitVec.msb_eq_toInt, BitVec.msb_eq_toInt, BitVec.msb_eq_toInt,
    BitVec.toInt_sub, Int.bmod_def, IsInt]
  simp only [bne_eq_false_iff_eq, decide_eq_decide]
  omega

section arithmetic

variable {m₀ m : Machine} {instr : Instruction}

/-- An overflow test in front of a register write. -/
theorem traps_overflow {c : Prop} [Decidable c] {D : Prop} (hm₀ : m₀.WellFormed) (h : m₀.Alike m)
    (hc : c ↔ D) (i : ℕ) (v : Word) :
    Traps m₀ D ((if c then raiseException .overflowException 0 else writeReg i v) m) := by
  by_cases hcase : c
  · rw [if_pos hcase]
    exact (traps_raiseException hm₀ h _ _).congr ⟨fun _ ↦ hc.mp hcase, fun _ ↦ by decide⟩
  · rw [if_neg hcase]
    exact (quiet_writeReg i v).traps.congr ⟨False.elim, fun hD ↦ hcase (hc.mpr hD)⟩

variable (hm₀ : m₀.WellFormed) (h : m₀.Alike m) (hinstr : instr.InRange)

include hm₀ h hinstr

private theorem traps_addTrapping :
    Traps m₀ (¬IsInt ((m₀.registers instr.rs).toInt + (m₀.registers instr.rt).toInt))
      (addTrapping instr m) := by
  rw [addTrapping, bind_of_ok (readReg_of_lt (lt_numTotalRegs hinstr.rs_lt) m),
    bind_of_ok (readReg_of_lt (lt_numTotalRegs hinstr.rt_lt) m), h.registers]
  exact traps_overflow hm₀ h (addOverflow_iff _ _) _ _

private theorem traps_addImmTrapping :
    Traps m₀ (¬IsInt ((m₀.registers instr.rs).toInt + instr.extra.toInt))
      (addImmTrapping instr m) := by
  rw [addImmTrapping, bind_of_ok (readReg_of_lt (lt_numTotalRegs hinstr.rs_lt) m), h.registers]
  exact traps_overflow hm₀ h (addImmOverflow_iff _ _) _ _

private theorem traps_subTrapping :
    Traps m₀ (¬IsInt ((m₀.registers instr.rs).toInt - (m₀.registers instr.rt).toInt))
      (subTrapping instr m) := by
  rw [subTrapping, bind_of_ok (readReg_of_lt (lt_numTotalRegs hinstr.rs_lt) m),
    bind_of_ok (readReg_of_lt (lt_numTotalRegs hinstr.rt_lt) m), h.registers]
  exact traps_overflow hm₀ h (subOverflow_iff _ _) _ _

end arithmetic

/-! ## The switch -/

/-- The accesses to memory an instruction makes from `m` beside its own fetch. -/
def Instruction.accesses (instr : Instruction) (m : Machine) : List Access :=
  match instr.opCode with
  | .lb | .lbu => [⟨instr.effective m, 1, false⟩]
  | .lh | .lhu => [⟨instr.effective m, 2, false⟩]
  | .lw => [⟨instr.effective m, 4, false⟩]
  | .lwl | .lwr => [⟨instr.effectiveWord m, 4, false⟩]
  | .sb => [⟨instr.effective m, 1, true⟩]
  | .sh => [⟨instr.effective m, 2, true⟩]
  | .sw => [⟨instr.effective m, 4, true⟩]
  | .swl | .swr => [⟨instr.effectiveWord m, 4, false⟩, ⟨instr.effectiveWord m, 4, true⟩]
  | _ => []

/-- The exact result of the instructions that test for overflow. -/
def Instruction.exactResult (instr : Instruction) (m : Machine) : Option ℤ :=
  match instr.opCode with
  | .add => some ((m.registers instr.rs).toInt + (m.registers instr.rt).toInt)
  | .addi => some ((m.registers instr.rs).toInt + instr.extra.toInt)
  | .sub => some ((m.registers instr.rs).toInt - (m.registers instr.rt).toInt)
  | _ => none

/-- The instruction has to trap, other than by calling the system, when executed from `m`. -/
def Instruction.Excepts (instr : Instruction) (m : Machine) : Prop :=
  (∃ acc ∈ instr.accesses m, m.Faults acc) ∨ (∃ x ∈ instr.exactResult m, ¬IsInt x) ∨
    instr.opCode = .res ∨ instr.opCode = .unimp

section switch

variable {instr : Instruction} {m : Machine}

/-- The cases without a memory access, an overflow test or a fault of their own. -/
private theorem excepts_none (hacc : instr.accesses m = []) (hres : instr.exactResult m = none)
    (hop : instr.opCode ≠ .res ∧ instr.opCode ≠ .unimp) : False ↔ instr.Excepts m := by
  rw [Instruction.Excepts, hacc, hres]
  simp [hop.1, hop.2]

theorem excepts_access {acc : Access} (hacc : instr.accesses m = [acc])
    (hres : instr.exactResult m = none) (hop : instr.opCode ≠ .res ∧ instr.opCode ≠ .unimp) :
    m.Faults acc ↔ instr.Excepts m := by
  rw [Instruction.Excepts, hacc, hres]
  simp [hop.1, hop.2]

private theorem excepts_accesses {acc acc' : Access} (hacc : instr.accesses m = [acc, acc'])
    (hres : instr.exactResult m = none) (hop : instr.opCode ≠ .res ∧ instr.opCode ≠ .unimp) :
    m.Faults acc ∨ m.Faults acc' ↔ instr.Excepts m := by
  rw [Instruction.Excepts, hacc, hres]
  simp [hop.1, hop.2]

theorem excepts_result {x : ℤ} (hacc : instr.accesses m = []) (hres : instr.exactResult m = some x)
    (hop : instr.opCode ≠ .res ∧ instr.opCode ≠ .unimp) : ¬IsInt x ↔ instr.Excepts m := by
  rw [Instruction.Excepts, hacc, hres]
  simp [hop.1, hop.2]

end switch

/-- Every case of the `switch` traps when it has to, and with the machine as it found it. -/
private theorem traps_execute {m₀ m : Machine} {instr : Instruction} (hm₀ : m₀.WellFormed)
    (h : m₀.Alike m) (hinstr : instr.InRange) (nextPC : Word) :
    Traps m₀ (instr.Excepts m₀) (execute instr nextPC m) := by
  cases hc : instr.opCode with
  | add =>
    simp only [execute, hc]
    exact ((traps_addTrapping hm₀ h hinstr).bind fun _ ↦ Quiet.pure _).congr
      (excepts_result (by simp [Instruction.accesses, hc]) (by simp [Instruction.exactResult, hc])
        (by simp [hc]))
  | addi =>
    simp only [execute, hc]
    exact ((traps_addImmTrapping hm₀ h hinstr).bind fun _ ↦ Quiet.pure _).congr
      (excepts_result (by simp [Instruction.accesses, hc]) (by simp [Instruction.exactResult, hc])
        (by simp [hc]))
  | sub =>
    simp only [execute, hc]
    exact ((traps_subTrapping hm₀ h hinstr).bind fun _ ↦ Quiet.pure _).congr
      (excepts_result (by simp [Instruction.accesses, hc]) (by simp [Instruction.exactResult, hc])
        (by simp [hc]))
  | lb | lbu =>
    simp only [execute, hc]
    exact ((traps_loadByte hm₀ h hinstr).bind fun _ ↦ Quiet.pure _).congr
      (excepts_access (by simp [Instruction.accesses, hc]) (by simp [Instruction.exactResult, hc])
        (by simp [hc]))
  | lh | lhu =>
    simp only [execute, hc]
    exact ((traps_loadHalf hm₀ h hinstr).bind fun _ ↦ Quiet.pure _).congr
      (excepts_access (by simp [Instruction.accesses, hc]) (by simp [Instruction.exactResult, hc])
        (by simp [hc]))
  | lw =>
    simp only [execute, hc]
    exact ((traps_loadWord hm₀ h hinstr).bind fun _ ↦ Quiet.pure _).congr
      (excepts_access (by simp [Instruction.accesses, hc]) (by simp [Instruction.exactResult, hc])
        (by simp [hc]))
  | lwl | lwr =>
    simp only [execute, hc]
    exact ((traps_loadUnaligned hm₀ h hinstr _).bind fun _ ↦ Quiet.pure _).congr
      (excepts_access (by simp [Instruction.accesses, hc]) (by simp [Instruction.exactResult, hc])
        (by simp [hc]))
  | sb | sh | sw =>
    simp only [execute, hc]
    exact ((traps_storeAligned hm₀ h hinstr _).bind fun _ ↦ Quiet.pure _).congr
      (excepts_access (by simp [Instruction.accesses, hc]) (by simp [Instruction.exactResult, hc])
        (by simp [hc]))
  | swl | swr =>
    simp only [execute, hc]
    exact ((traps_storeUnaligned hm₀ h hinstr _).bind fun _ ↦ Quiet.pure _).congr
      (excepts_accesses (by simp [Instruction.accesses, hc])
        (by simp [Instruction.exactResult, hc]) (by simp [hc]))
  | syscall =>
    simp only [execute, hc]
    refine (traps_raiseException hm₀ h _ _).congr ((iff_of_eq ?_).trans (excepts_none
      (by simp [Instruction.accesses, hc]) (by simp [Instruction.exactResult, hc]) (by simp [hc])))
    simp
  | res | unimp =>
    simp only [execute, hc]
    exact (traps_raiseException hm₀ h _ _).congr
      ⟨fun _ ↦ by simp [Instruction.Excepts, hc], fun _ ↦ by decide⟩
  | _ =>
    -- every other case is quiet
    refine Traps.congr (Quiet.traps ?_) (excepts_none (by simp [Instruction.accesses, hc])
      (by simp [Instruction.exactResult, hc]) (by simp [hc]))
    exact quiet_execute (by rw [hc]; rfl) nextPC

/-! ## The whole instruction -/

private theorem traps_fetch {m : Machine} (hm : m.WellFormed) :
    Traps m (m.Faults ⟨m.registers pcReg, 4, false⟩) (fetch m) := by
  rw [fetch, bind_of_ok (readReg_of_lt (by decide) m)]
  exact traps_readMem hm (Machine.Alike.refl m) _ 4

theorem alike_of_fetch {m m₁ : Machine} {raw : Word} (h : fetch m = .ok raw m₁) : m.Alike m₁ := by
  rw [fetch, bind_of_ok (readReg_of_lt (by decide) m)] at h
  obtain ⟨a, tlb, pageTable, ht, rfl⟩ := readMem_eq_ok h
  exact alike_of_success ht

private theorem traps_runInstruction {m₀ m : Machine} (hm₀ : m₀.WellFormed) (h : m₀.Alike m)
    (raw : Word) : Traps m₀ ((decode raw).Excepts m₀) (runInstruction (decode raw) m) := by
  rw [runInstruction, bind_of_ok (readReg_of_lt (by decide) m)]
  exact (traps_execute hm₀ h (decode_inRange raw) _).bind quiet_finish

private theorem traps_oneInstruction {m : Machine} (hm : m.WellFormed) :
    Traps m (m.Faults ⟨m.registers pcReg, 4, false⟩ ∨
        ∃ raw m₁, fetch m = .ok raw m₁ ∧ (decode raw).Excepts m) (oneInstruction m) := by
  have hfetch := traps_fetch hm
  rw [oneInstruction]
  cases hf : fetch m with
  | ok raw m₁ =>
    rw [hf] at hfetch
    rw [bind_of_ok hf]
    refine (traps_runInstruction hm (alike_of_fetch hf) raw).congr ⟨fun he ↦ ?_, ?_⟩
    · exact Or.inr ⟨raw, m₁, rfl, he⟩
    · rintro (hfault | ⟨_, _, h', he⟩)
      · exact absurd hfault hfetch
      · cases h'
        exact he
  | error e m₁ =>
    have hnone : (∃ raw m₂, EStateM.Result.error e m₁ = .ok raw m₂ ∧ (decode raw).Excepts m) ↔
        False := by
      refine ⟨?_, False.elim⟩
      rintro ⟨_, _, h', -⟩
      cases h'
    rw [hf] at hfetch
    rw [bind_of_error hf, hnone, or_false]
    cases e with
    | fault f => exact hfetch
    | trap which => exact hfetch

/-- An instruction raises an exception other than a system call exactly when its fetch or a data
access fails translation or alignment, an overflow test finds an exact result that is no `int`, or
the operation is reserved or unimplemented; and then the machine handed to `ExceptionHandler` is the
one before the instruction, suspended. -/
theorem oneInstruction_precise {m : Machine} (hm : m.WellFormed) :
    ((∃ which m', oneInstruction m = .error (.trap which) m' ∧ which ≠ .syscallException) ↔
      m.Faults ⟨m.registers pcReg, 4, false⟩ ∨
        ∃ raw m₁, fetch m = .ok raw m₁ ∧ (decode raw).Excepts m) ∧
    ∀ which m', oneInstruction m = .error (.trap which) m' → which ≠ .syscallException →
      m.Suspended m' := by
  have key := traps_oneInstruction hm
  cases hr : oneInstruction m with
  | ok u m' =>
    rw [hr] at key
    refine ⟨⟨?_, fun hC ↦ absurd hC key⟩, fun _ _ h' ↦ by cases h'⟩
    rintro ⟨_, _, h', -⟩
    cases h'
  | error e m' =>
    rw [hr] at key
    cases e with
    | fault f =>
      refine ⟨⟨?_, fun hC ↦ absurd hC key⟩, fun _ _ h' ↦ by cases h'⟩
      rintro ⟨_, _, h', -⟩
      cases h'
    | trap which =>
      refine ⟨⟨?_, fun hC ↦ ⟨which, m', rfl, key.1.mp hC⟩⟩, ?_⟩
      · rintro ⟨_, _, h', hw⟩
        cases h'
        exact key.1.mpr hw
      · intro _ _ h' _
        cases h'
        exact key.2

/-- `add r2, r1, r1` when a load is about to put 5 into `r1`. -/
def addPending : Machine :=
  (((Machine.start 16 (programImage [0x00211020]) identityPageTable).setReg 1 0x7FFFFFFF).setReg
    loadReg 1).setReg loadValueReg 5

/-- `swl r2, 130(r0)` when the same load is pending and page 1 is read only. -/
def swlPending : Machine :=
  ((Machine.start 16 (programImage [0xA8020082]) fun i ↦
    { identityPageTable i with readOnly := decide (i = 1) }).setReg loadReg 1).setReg loadValueReg 5

/-- The addition still sees the old value, and overflows; the store reads its word and fails where
it writes. In both cases the load is completed. -/
theorem pending_load_precise :
    (∃ which m', oneInstruction addPending = .error (.trap which) m' ∧
      which ≠ .syscallException ∧ addPending.Suspended m' ∧ m'.registers 1 = 5) ∧
    ∃ which m', oneInstruction swlPending = .error (.trap which) m' ∧
      which ≠ .syscallException ∧ swlPending.Suspended m' ∧ m'.registers 1 = 5 := by
  have hadd := oneInstruction_precise (m := addPending) ⟨rfl, by decide⟩
  have hswl := oneInstruction_precise (m := swlPending) ⟨rfl, by decide⟩
  obtain ⟨m₁, hfetch⟩ : ∃ m₁, fetch addPending = .ok 0x00211020 m₁ :=
    fetch_eq_fetched (by decide +kernel) (by decide +kernel)
  obtain ⟨m₂, hfetch'⟩ : ∃ m₂, fetch swlPending = .ok 0xA8020082 m₂ :=
    fetch_eq_fetched (by decide +kernel) (by decide +kernel)
  have hoverflows : (decode 0x00211020).Excepts addPending :=
    .inr (.inl ⟨0x7FFFFFFF + 0x7FFFFFFF, by decide, by decide⟩)
  have hreadOnly : (decode 0xA8020082).Excepts swlPending :=
    .inl ⟨⟨128, 4, true⟩, by decide, .readOnlyException, by rfl⟩
  obtain ⟨which, m', hrun, hw⟩ := hadd.1.mpr (.inr ⟨_, m₁, hfetch, hoverflows⟩)
  obtain ⟨which', m'', hrun', hw'⟩ := hswl.1.mpr (.inr ⟨_, m₂, hfetch', hreadOnly⟩)
  have hsuspended := hadd.2 which m' hrun hw
  have hsuspended' := hswl.2 which' m'' hrun' hw'
  exact ⟨⟨which, m', hrun, hw, hsuspended, hsuspended.general 1 (by decide)⟩,
    ⟨which', m'', hrun', hw', hsuspended', hsuspended'.general 1 (by decide)⟩⟩

end Nachos
