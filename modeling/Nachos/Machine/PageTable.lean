import Nachos.Machine.OneInstruction

/-!
# The page table register

`Machine::pageTable` and `Machine::pageTableSize` say where the page table is and how long. Only
`AddrSpace::RestoreState` assigns to them: an instruction, also one that traps, and the completion
of a delayed load leave them alone. For the pointer there is nothing to show, since the machine here
holds the table itself.
-/

namespace Nachos

open Program

/-- A program that does not change the size of the page table. -/
abbrev LeavesTable {α : Type} (x : Exec α) : Prop := Leaves Machine.pageTableSize x

section basic

theorem leavesTable_readReg (i : ℕ) : LeavesTable (readReg i) := by
  intro v m hm
  by_cases hi : i < numTotalRegs
  · rwa [readReg_of_lt hi]
  · rwa [readReg, if_neg hi]

theorem leavesTable_writeReg (i : ℕ) (w : Word) : LeavesTable (writeReg i w) := by
  intro v m hm
  by_cases hi : i < numTotalRegs
  · rwa [writeReg_of_lt hi]
  · rwa [writeReg, if_neg hi]

theorem leavesTable_delayedLoad (r w : Word) : LeavesTable (delayedLoad r w) :=
  (leavesTable_readReg _).bind fun _ ↦ (leavesTable_readReg _).bind fun _ ↦
    (leavesTable_writeReg _ _).bind fun _ ↦ (leavesTable_writeReg _ _).bind fun _ ↦
      (leavesTable_writeReg _ _).bind fun _ ↦ leavesTable_writeReg _ _

theorem leavesTable_raiseException {α : Type} (which : ExceptionType) (badVAddr : Word) :
    LeavesTable (raiseException which badVAddr : Exec α) :=
  (leavesTable_writeReg _ _).bind fun _ ↦ (leavesTable_delayedLoad _ _).bind fun _ ↦
    Leaves.throw _ _

private theorem leavesTable_physicalAddress (addr : Word) (size : ℕ) (writing : Bool) :
    LeavesTable (physicalAddress addr size writing) := by
  intro v m hm
  rw [physicalAddress]
  cases m.translate addr size writing with
  | abort => exact hm
  | exception which => exact leavesTable_raiseException which addr v m hm
  | success a tlb pageTable => exact hm

theorem leavesTable_readMem (addr : Word) (size : ℕ) : LeavesTable (readMem addr size) := by
  refine (leavesTable_physicalAddress _ _ _).bind fun a ↦ (Leaves.get _).bind fun m ↦ ?_
  split
  · exact Leaves.pure _ _
  · exact Leaves.pure _ _
  · exact Leaves.pure _ _
  · exact Leaves.throw _ _

private theorem leavesTable_writeMem (addr : Word) (size : ℕ) (value : Word) :
    LeavesTable (writeMem addr size value) := by
  refine (leavesTable_physicalAddress _ _ _).bind fun a ↦ ?_
  split
  · exact fun _ _ hm ↦ hm
  · exact fun _ _ hm ↦ hm
  · exact fun _ _ hm ↦ hm
  · exact Leaves.throw _ _

private theorem leavesTable_shiftLeft (a n : Word) : LeavesTable (shiftLeft a n) :=
  Leaves.ite (Leaves.pure _ _) (Leaves.throw _ _)

private theorem leavesTable_shiftRight (a n : Word) : LeavesTable (shiftRight a n) :=
  Leaves.ite (Leaves.pure _ _) (Leaves.throw _ _)

end basic

section families

variable (instr : Instruction)

private theorem leavesTable_aluReg (f : Word → Word → Word) : LeavesTable (aluReg instr f) :=
  (leavesTable_readReg _).bind fun _ ↦ (leavesTable_readReg _).bind fun _ ↦
    leavesTable_writeReg _ _

private theorem leavesTable_aluImm (f : Word → Word) : LeavesTable (aluImm instr f) :=
  (leavesTable_readReg _).bind fun _ ↦ leavesTable_writeReg _ _

theorem leavesTable_aluShift {shift : Word → Word → Exec Word}
    (hshift : ∀ a n, LeavesTable (shift a n)) (n : Word) : LeavesTable (aluShift instr shift n) :=
  (leavesTable_readReg _).bind fun _ ↦ (hshift _ _).bind fun _ ↦ leavesTable_writeReg _ _

theorem leavesTable_effectiveAddr : LeavesTable (effectiveAddr instr) :=
  (leavesTable_readReg _).bind fun _ ↦ Leaves.pure _ _

private theorem leavesTable_linkR31 : LeavesTable linkR31 :=
  (leavesTable_readReg _).bind fun _ ↦ leavesTable_writeReg _ _

private theorem leavesTable_mergeBase : LeavesTable (mergeBase instr) :=
  (leavesTable_readReg _).bind fun _ ↦ Leaves.ite (leavesTable_readReg _) (leavesTable_readReg _)

private theorem leavesTable_loadUnaligned (merge : Word → Word → Word → Word) :
    LeavesTable (loadUnaligned instr merge) :=
  (leavesTable_effectiveAddr instr).bind fun _ ↦ (leavesTable_readMem _ _).bind fun _ ↦
    (leavesTable_mergeBase instr).bind fun _ ↦ Leaves.pure _ _

private theorem leavesTable_storeUnaligned (change : Word → Word → Word → Word) :
    LeavesTable (storeUnaligned instr change) :=
  (leavesTable_effectiveAddr instr).bind fun _ ↦ (leavesTable_readMem _ _).bind fun _ ↦
    (leavesTable_readReg _).bind fun _ ↦ leavesTable_writeMem _ _ _

private theorem leavesTable_storeAligned (size : ℕ) : LeavesTable (storeAligned instr size) :=
  (leavesTable_effectiveAddr instr).bind fun _ ↦ (leavesTable_readReg _).bind fun _ ↦
    leavesTable_writeMem _ _ _

private theorem leavesTable_loadByte : LeavesTable (loadByte instr) :=
  (leavesTable_effectiveAddr instr).bind fun _ ↦ (leavesTable_readMem _ _).bind fun _ ↦
    Leaves.pure _ _

private theorem leavesTable_loadHalf : LeavesTable (loadHalf instr) :=
  (leavesTable_effectiveAddr instr).bind fun _ ↦ Leaves.ite (leavesTable_raiseException _ _)
    ((leavesTable_readMem _ _).bind fun _ ↦ Leaves.pure _ _)

private theorem leavesTable_loadWord : LeavesTable (loadWord instr) :=
  (leavesTable_effectiveAddr instr).bind fun _ ↦
    Leaves.ite (leavesTable_raiseException _ _) (leavesTable_readMem _ _)

private theorem leavesTable_addTrapping : LeavesTable (addTrapping instr) :=
  (leavesTable_readReg _).bind fun _ ↦ (leavesTable_readReg _).bind fun _ ↦
    Leaves.ite (leavesTable_raiseException _ _) (leavesTable_writeReg _ _)

private theorem leavesTable_addImmTrapping : LeavesTable (addImmTrapping instr) :=
  (leavesTable_readReg _).bind fun _ ↦
    Leaves.ite (leavesTable_raiseException _ _) (leavesTable_writeReg _ _)

private theorem leavesTable_subTrapping : LeavesTable (subTrapping instr) :=
  (leavesTable_readReg _).bind fun _ ↦ (leavesTable_readReg _).bind fun _ ↦
    Leaves.ite (leavesTable_raiseException _ _) (leavesTable_writeReg _ _)

/-- `DIV` and `DIVU` are the same but for the operators. -/
private theorem leavesTable_quotient {quot rem : Word → Word → Exec Word}
    (hquot : ∀ a b, LeavesTable (quot a b)) (hrem : ∀ a b, LeavesTable (rem a b)) :
    LeavesTable (do
      let a ← readReg instr.rs
      let b ← readReg instr.rt
      if b = 0 then
        writeReg loReg 0
        writeReg hiReg 0
      else
        let q ← quot a b
        writeReg loReg q
        let r ← rem a b
        writeReg hiReg r) :=
  (leavesTable_readReg _).bind fun _ ↦ (leavesTable_readReg _).bind fun _ ↦ Leaves.ite
    ((leavesTable_writeReg _ _).bind fun _ ↦ leavesTable_writeReg _ _)
    ((hquot _ _).bind fun _ ↦ (leavesTable_writeReg _ _).bind fun _ ↦ (hrem _ _).bind fun _ ↦
      leavesTable_writeReg _ _)

private theorem leavesTable_divide : LeavesTable (divide instr) :=
  leavesTable_quotient instr (fun _ _ ↦ Leaves.ite (Leaves.throw _ _) (Leaves.pure _ _))
    fun _ _ ↦ Leaves.ite (Leaves.throw _ _) (Leaves.pure _ _)

private theorem leavesTable_divideUnsigned : LeavesTable (divideUnsigned instr) :=
  leavesTable_quotient instr (fun _ _ ↦ Leaves.ite (Leaves.throw _ _) (Leaves.pure _ _))
    fun _ _ ↦ Leaves.ite (Leaves.throw _ _) (Leaves.pure _ _)

private theorem leavesTable_multiply (signedArith : Bool) :
    LeavesTable (multiply instr signedArith) :=
  (leavesTable_readReg _).bind fun _ ↦ (leavesTable_readReg _).bind fun _ ↦
    (leavesTable_writeReg _ _).bind fun _ ↦ leavesTable_writeReg _ _

/-- What ends a case of the `switch`: a value is returned. -/
theorem LeavesTable.andGoto {α : Type} {x : Exec α} (hx : LeavesTable x) (next : α → Next) :
    LeavesTable (do let a ← x; return next a) :=
  hx.bind fun _ ↦ Leaves.pure _ _

private theorem leavesTable_execute (nextPC : Word) : LeavesTable (execute instr nextPC) := by
  cases hc : instr.opCode with
  | add => simpa only [execute, hc] using (leavesTable_addTrapping instr).andGoto _
  | addi => simpa only [execute, hc] using (leavesTable_addImmTrapping instr).andGoto _
  | sub => simpa only [execute, hc] using (leavesTable_subTrapping instr).andGoto _
  | addiu | andi | ori | xori | slti | sltiu =>
    simpa only [execute, hc] using (leavesTable_aluImm instr _).andGoto _
  | addu | and | nor | or | slt | sltu | subu | xor =>
    simpa only [execute, hc] using (leavesTable_aluReg instr _).andGoto _
  | beq | bne =>
    simpa only [execute, hc] using (leavesTable_readReg _).bind fun _ ↦
      (leavesTable_readReg _).andGoto _
  | bgez | bgtz | blez | bltz | jr =>
    simpa only [execute, hc] using (leavesTable_readReg _).andGoto _
  | bgezal | bltzal =>
    simpa only [execute, hc] using leavesTable_linkR31.bind fun _ ↦
      (leavesTable_readReg _).andGoto _
  | div => simpa only [execute, hc] using (leavesTable_divide instr).andGoto _
  | divu => simpa only [execute, hc] using (leavesTable_divideUnsigned instr).andGoto _
  | jal => simpa only [execute, hc] using leavesTable_linkR31.andGoto _
  | j => simpa only [execute, hc] using Leaves.pure _ _
  | jalr =>
    simpa only [execute, hc] using (leavesTable_writeReg _ _).bind fun _ ↦
      (leavesTable_readReg _).andGoto _
  | lb | lbu => simpa only [execute, hc] using (leavesTable_loadByte instr).andGoto _
  | lh | lhu => simpa only [execute, hc] using (leavesTable_loadHalf instr).andGoto _
  | lw => simpa only [execute, hc] using (leavesTable_loadWord instr).andGoto _
  | lwl | lwr => simpa only [execute, hc] using (leavesTable_loadUnaligned instr _).andGoto _
  | lui => simpa only [execute, hc] using (leavesTable_writeReg _ _).andGoto _
  | mfhi | mflo | mthi | mtlo =>
    simpa only [execute, hc] using (leavesTable_readReg _).bind fun _ ↦
      (leavesTable_writeReg _ _).andGoto _
  | mult | multu => simpa only [execute, hc] using (leavesTable_multiply instr _).andGoto _
  | sb | sh | sw => simpa only [execute, hc] using (leavesTable_storeAligned instr _).andGoto _
  | swl | swr => simpa only [execute, hc] using (leavesTable_storeUnaligned instr _).andGoto _
  | sll =>
    simpa only [execute, hc] using (leavesTable_aluShift instr leavesTable_shiftLeft _).andGoto _
  | sra | srl =>
    simpa only [execute, hc] using (leavesTable_aluShift instr leavesTable_shiftRight _).andGoto _
  | sllv =>
    simpa only [execute, hc] using (leavesTable_readReg _).bind fun _ ↦
      (leavesTable_aluShift instr leavesTable_shiftLeft _).andGoto _
  | srav | srlv =>
    simpa only [execute, hc] using (leavesTable_readReg _).bind fun _ ↦
      (leavesTable_aluShift instr leavesTable_shiftRight _).andGoto _
  | syscall | res | unimp => simpa only [execute, hc] using leavesTable_raiseException _ _
  | rfe | special | bcond => simpa only [execute, hc, abort] using Leaves.throw _ _

end families

theorem leavesTable_oneInstruction : LeavesTable oneInstruction := by
  have hfetch : LeavesTable fetch := (leavesTable_readReg _).bind fun _ ↦ leavesTable_readMem _ _
  have hfinish : ∀ next, LeavesTable (finish next) := fun _ ↦
    (leavesTable_delayedLoad _ _).bind fun _ ↦ (leavesTable_readReg _).bind fun _ ↦
      (leavesTable_writeReg _ _).bind fun _ ↦ (leavesTable_readReg _).bind fun _ ↦
        (leavesTable_writeReg _ _).bind fun _ ↦ leavesTable_writeReg _ _
  exact hfetch.bind fun raw ↦ (leavesTable_readReg _).bind fun nextPC ↦
    (leavesTable_execute (decode raw) nextPC).bind hfinish

end Nachos
