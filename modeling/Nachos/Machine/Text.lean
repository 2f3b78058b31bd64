import Nachos.Machine.Interrupt
import Nachos.Machine.UserMemory

/-!
# Straight lines of a program

To follow a program through its instructions one has to know which words it finds there, and that
they stay: an instruction that only works on registers sets a use bit when it is fetched and leaves
memory alone. `Machine.SameText` says so, and `step_of_word` is one such instruction, the load that
was pending included.
-/

namespace Nachos

open Program

/-! ## The words of a program -/

/-- The word a program reads at `addr`, if it may. -/
def Machine.wordAt (m : Machine) (addr : Word) : Option Word :=
  (m.physical addr 4 false).map m.word

/-- The words that a program has from `addr` on. -/
def Machine.Text (m : Machine) (addr : Word) (words : List Word) : Prop :=
  ∀ i w, words[i]? = some w → m.wordAt (addr + BitVec.ofNat 32 (4 * i)) = some w

theorem Machine.text_iff {m : Machine} {addr : Word} {words : List Word} :
    m.Text addr words ↔ ∀ i : Fin words.length,
      m.wordAt (addr + BitVec.ofNat 32 (4 * i.val)) = some (words.get i) := by
  constructor
  · intro h i
    exact h i _ (List.getElem?_eq_getElem i.isLt)
  · intro h i w hw
    obtain ⟨hi, rfl⟩ := List.getElem?_eq_some_iff.mp hw
    exact h ⟨i, hi⟩

instance (m : Machine) (addr : Word) (words : List Word) : Decidable (m.Text addr words) :=
  decidable_of_iff _ Machine.text_iff.symm

/-- The same memory, through tables that translate alike. -/
structure Machine.SameText (m m' : Machine) : Prop where
  mainMemory : m'.mainMemory = m.mainMemory
  tlb : TablesAlike m.tlb m'.tlb
  pageTable : TablesAlike m.pageTable m'.pageTable
  pageTableSize : m'.pageTableSize = m.pageTableSize

section text

variable {m m' m'' : Machine}

/-- Registers are not memory. -/
theorem Machine.sameText_registers (m : Machine) (ρ : ℕ → Word) :
    m.SameText { m with registers := ρ } := ⟨rfl, .refl _, .refl _, rfl⟩

theorem Machine.SameText.trans (h : m.SameText m') (h' : m'.SameText m'') : m.SameText m'' :=
  ⟨h'.mainMemory.trans h.mainMemory, h.tlb.trans h'.tlb, h.pageTable.trans h'.pageTable,
    h'.pageTableSize.trans h.pageTableSize⟩

/-- A program finds the same words. -/
theorem Machine.SameText.wordAt (h : m.SameText m') (addr : Word) :
    m'.wordAt addr = m.wordAt addr := by
  -- the registers are not looked at
  have halike : m.Alike { m' with registers := m.registers } :=
    ⟨rfl, h.mainMemory, h.tlb, h.pageTable, h.pageTableSize⟩
  have hphysical : m'.physical addr 4 false = m.physical addr 4 false :=
    halike.physical addr 4 false
  have hword : m'.word = m.word := by
    funext a
    rw [Machine.word, Machine.word, h.mainMemory]
  rw [Machine.wordAt, Machine.wordAt, hphysical, hword]

theorem Machine.SameText.text (h : m.SameText m') {addr : Word} {words : List Word}
    (ht : m.Text addr words) : m'.Text addr words :=
  fun i w hw ↦ (h.wordAt _).trans (ht i w hw)

/-- The word at the program counter is fetched. -/
theorem fetch_of_wordAt {raw : Word} (h : m.wordAt (m.registers pcReg) = some raw) :
    ∃ mf, fetch m = .ok raw mf ∧ m.Alike mf := by
  obtain ⟨a, ha, rfl⟩ := Option.map_eq_some_iff.mp h
  obtain ⟨tlb, pageTable, ht⟩ := success_of_physical ha
  refine ⟨m.setTables tlb pageTable, ?_, alike_of_success ht⟩
  rw [fetch, bind_of_ok (readReg_of_lt (by decide) m), readMem,
    bind_of_ok (physicalAddress_eq_ok.mpr ⟨tlb, pageTable, ht, rfl⟩)]
  rfl

end text

/-! ## Instructions on registers -/

/-- An instruction went by: it computed the registers `ρ` and goes on to `pcAfter` behind the next
one, and the load that was pending is complete. -/
structure Machine.StepsTo (m : Machine) (ρ : ℕ → Word) (pcAfter : Word) (m' : Machine) : Prop where
  sameText : m.SameText m'
  pc : m'.registers pcReg = m.registers nextPCReg
  nextPC : m'.registers nextPCReg = pcAfter
  load : m'.registers loadReg = 0
  zero : m'.registers 0 = 0
  general : ∀ i < numGPRegs, i ≠ 0 → m'.registers i =
    if i = (m.registers loadReg).toNat then m.registers loadValueReg else ρ i

theorem Machine.StepsTo.wellFormed {m m' : Machine} {ρ : ℕ → Word} {pcAfter : Word}
    (h : m.StepsTo ρ pcAfter m') : m'.WellFormed :=
  ⟨h.zero, by rw [h.load]; decide⟩

/-- An interrupt behind the instruction finds no load to complete. -/
theorem Machine.StepsTo.interrupt {m m' : Machine} {ρ : ℕ → Word} {pcAfter : Word}
    (h : m.StepsTo ρ pcAfter m') : m.StepsTo ρ pcAfter (m'.applyLoad 0 0) := by
  have hkeep : ∀ i, i ≠ 0 → i ≠ loadReg → i ≠ loadValueReg →
      (m'.applyLoad 0 0).registers i = m'.registers i := by
    intro i h0 hload hvalue
    have htarget : i ≠ (m'.registers loadReg).toNat := by rwa [h.load]
    rw [Machine.applyLoad_registers, if_neg h0, if_neg hvalue, if_neg hload, if_neg htarget]
  have hsame : m'.SameText (m'.applyLoad 0 0) := m'.sameText_registers _
  refine ⟨h.sameText.trans hsame, ?_, ?_, rfl, rfl, fun i hi h0 ↦ ?_⟩
  · rw [hkeep pcReg (by decide) (by decide) (by decide), h.pc]
  · rw [hkeep nextPCReg (by decide) (by decide) (by decide), h.nextPC]
  · simp only [numGPRegs] at hi
    rw [hkeep i h0 (by simp only [loadReg]; omega) (by simp only [loadValueReg]; omega)]
    exact h.general i hi h0

/-- The general registers replaced, and the others kept. -/
structure KeepsSpecial (ρ ρ' : ℕ → Word) : Prop where
  nextPC : ρ' nextPCReg = ρ nextPCReg
  load : ρ' loadReg = ρ loadReg
  loadValue : ρ' loadValueReg = ρ loadValueReg

theorem KeepsSpecial.refl (ρ : ℕ → Word) : KeepsSpecial ρ ρ := ⟨rfl, rfl, rfl⟩

theorem KeepsSpecial.update (ρ : ℕ → Word) {i : ℕ} (hi : i < numGPRegs) (v : Word) :
    KeepsSpecial ρ (Function.update ρ i v) := by
  simp only [numGPRegs] at hi
  constructor <;>
    exact Function.update_of_ne (by simp only [nextPCReg, loadReg, loadValueReg]; omega) ..

theorem Machine.advance_pc (m : Machine) (pcAfter : Word) :
    (m.advance pcAfter).registers pcReg = m.registers nextPCReg := by
  rw [Machine.advance, Machine.setReg_registers_of_ne _ _ (by decide),
    Machine.setReg_registers_self]

theorem Machine.advance_nextPC (m : Machine) (pcAfter : Word) :
    (m.advance pcAfter).registers nextPCReg = pcAfter := Machine.setReg_registers_self ..

section step

variable {m : Machine} {raw : Word} {ρ : ℕ → Word} {pcAfter : Word}

/-- An instruction that works on registers only. -/
theorem step_of_word (hm : m.WellFormed) (hword : m.wordAt (m.registers pcReg) = some raw)
    (hkeeps : KeepsSpecial m.registers ρ)
    (hexec : ∀ mf : Machine, mf.registers = m.registers →
      execute (decode raw) (m.registers nextPCReg) mf =
        .ok (.goto pcAfter) { mf with registers := ρ }) :
    ∃ m', oneInstruction m = .ok () m' ∧ m.StepsTo ρ pcAfter m' := by
  obtain ⟨mf, hfetch, halike⟩ := fetch_of_wordAt hword
  have hrun := hexec mf halike.registers
  rw [← halike.registers] at hrun
  have hload : (ρ loadReg).toNat < numGPRegs := by
    rw [hkeeps.load]
    exact hm.load_lt
  have hfinish := finish_eq (m := { mf with registers := ρ }) (lt_numTotalRegs hload)
    (.goto pcAfter)
  have hone := oneInstruction_eq_ok.mpr ⟨raw, mf, _, _, hfetch, hrun, hfinish⟩
  simp only [numGPRegs] at hload
  refine ⟨_, hone, ⟨halike.mainMemory, halike.tlb, halike.pageTable, halike.pageTableSize⟩, ?_, ?_,
    ?_, ?_, fun i hi hi0 ↦ ?_⟩
  · rw [Machine.advance_pc, Machine.applyLoad_registers, if_neg (by decide), if_neg (by decide),
      if_neg (by decide), if_neg (by simp only [nextPCReg]; omega)]
    exact hkeeps.nextPC
  · exact Machine.advance_nextPC _ _
  · rw [Machine.advance_registers_of_ne _ _ (by decide) (by decide) (by decide),
      Machine.applyLoad_registers]
    rfl
  · rw [Machine.advance_registers_of_ne _ _ (by decide) (by decide) (by decide),
      Machine.applyLoad_registers]
    rfl
  · simp only [numGPRegs] at hi
    rw [Machine.advance_registers_of_ne _ _ (by simp only [prevPCReg]; omega)
        (by simp only [pcReg]; omega) (by simp only [nextPCReg]; omega),
      Machine.applyLoad_registers, if_neg hi0, if_neg (by simp only [loadValueReg]; omega),
      if_neg (by simp only [loadReg]; omega), ← hkeeps.load, ← hkeeps.loadValue]

private theorem aluImm_eq {instr : Instruction} (hrs : instr.rs < numGPRegs)
    (hrt : instr.rt < numGPRegs) (f : Word → Word) (m : Machine) :
    aluImm instr f m = .ok () (m.setReg instr.rt (f (m.registers instr.rs))) := by
  rw [aluImm, bind_of_ok (readReg_of_lt (lt_numTotalRegs hrs) m),
    writeReg_of_lt (lt_numTotalRegs hrt)]

private theorem aluReg_eq {instr : Instruction} (hrs : instr.rs < numGPRegs)
    (hrt : instr.rt < numGPRegs)
    (hrd : instr.rd < numGPRegs) (f : Word → Word → Word) (m : Machine) :
    aluReg instr f m =
      .ok () (m.setReg instr.rd (f (m.registers instr.rs) (m.registers instr.rt))) := by
  rw [aluReg, bind_of_ok (readReg_of_lt (lt_numTotalRegs hrs) m),
    bind_of_ok (readReg_of_lt (lt_numTotalRegs hrt) m), writeReg_of_lt (lt_numTotalRegs hrd)]

private theorem linkR31_eq (m : Machine) :
    linkR31 m = .ok () (m.setReg retAddrReg (m.registers nextPCReg + 4)) := by
  rw [linkR31, bind_of_ok (readReg_of_lt (by decide) m), writeReg_of_lt (by decide)]

/-- `ADDIU`. -/
theorem step_addiu (hm : m.WellFormed) (hword : m.wordAt (m.registers pcReg) = some raw)
    (hop : (decode raw).opCode = .addiu) :
    ∃ m', oneInstruction m = .ok () m' ∧ m.StepsTo (Function.update m.registers (decode raw).rt
      (m.registers (decode raw).rs + (decode raw).extra)) (m.registers nextPCReg + 4) m' := by
  refine step_of_word hm hword (.update _ (decode_rt_lt raw) _) fun mf hregs ↦ ?_
  simp only [execute, hop]
  rw [bind_of_ok (aluImm_eq (decode_rs_lt raw) (decode_rt_lt raw) _ mf), Machine.setReg, hregs]
  rfl

/-- `ADDU`. -/
theorem step_addu (hm : m.WellFormed) (hword : m.wordAt (m.registers pcReg) = some raw)
    (hop : (decode raw).opCode = .addu) :
    ∃ m', oneInstruction m = .ok () m' ∧ m.StepsTo (Function.update m.registers (decode raw).rd
      (m.registers (decode raw).rs + m.registers (decode raw).rt))
      (m.registers nextPCReg + 4) m' := by
  refine step_of_word hm hword (.update _ (decode_rd_lt raw) _) fun mf hregs ↦ ?_
  simp only [execute, hop]
  rw [bind_of_ok (aluReg_eq (decode_rs_lt raw) (decode_rt_lt raw) (decode_rd_lt raw) _ mf),
    Machine.setReg, hregs]
  rfl

/-- `JAL`. -/
theorem step_jal (hm : m.WellFormed) (hword : m.wordAt (m.registers pcReg) = some raw)
    (hop : (decode raw).opCode = .jal) :
    ∃ m', oneInstruction m = .ok () m' ∧
      m.StepsTo (Function.update m.registers retAddrReg (m.registers nextPCReg + 4))
        (((m.registers nextPCReg + 4) &&& 0xf0000000) ||| ((decode raw).extra <<< 2)) m' := by
  refine step_of_word hm hword (.update _ (by decide) _) fun mf hregs ↦ ?_
  simp only [execute, hop]
  rw [bind_of_ok (linkR31_eq mf), Machine.setReg, hregs]
  rfl

/-- The instruction that does nothing, `SLL` of register 0 by nothing. -/
theorem step_nop (hm : m.WellFormed) (hword : m.wordAt (m.registers pcReg) = some 0) :
    ∃ m', oneInstruction m = .ok () m' ∧
      m.StepsTo (Function.update m.registers 0 (m.registers 0)) (m.registers nextPCReg + 4) m' := by
  have hop : (decode 0).opCode = .sll := by decide
  have hshift : aluShift (decode 0) shiftLeft (decode 0).extra = fun mf : Machine ↦
      .ok () (mf.setReg 0 (mf.registers 0)) := by
    funext mf
    have hrt : (decode 0).rt = 0 := by decide
    have hrd : (decode 0).rd = 0 := by decide
    have hextra : (decode 0).extra = 0 := by decide
    have hleft : shiftLeft (mf.registers 0) 0 mf = .ok (mf.registers 0) mf := by
      rw [shiftLeft, if_pos (by decide)]
      exact congrArg (EStateM.Result.ok · mf) (by simp)
    rw [aluShift, hrt, hrd, hextra, bind_of_ok (readReg_of_lt (by decide) mf), bind_of_ok hleft,
      writeReg_of_lt (by decide)]
  refine step_of_word hm hword (.update _ (by decide) _) fun mf hregs ↦ ?_
  simp only [execute, hop]
  have hrun : aluShift (decode 0) shiftLeft (decode 0).extra mf =
      .ok () (mf.setReg 0 (mf.registers 0)) := congrFun hshift mf
  rw [bind_of_ok hrun, Machine.setReg, hregs]
  rfl

end step

end Nachos
