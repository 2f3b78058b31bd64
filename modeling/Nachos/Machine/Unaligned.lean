import Nachos.Machine.Interrupt
import Nachos.Machine.Precise
import Nachos.Machine.VirtualMemory

/-!
# Unaligned words

`LWR rt, 0(rs)` and `LWL rt, 3(rs)` together load the word at `rs`, whatever its alignment, and
`SWR` and `SWL` store it. Each works on one aligned word; the sixteen cases of the switches come to
two ways of putting a word together from the bytes of two (`insertLow`, `insertHigh`).

A load is not in its register when the next one merges into it. What counts is the value the
register has once the pending load is applied, `Machine.drained`: `LWL` and `LWR` merge into that
one, and an interrupt in between does not change it.
-/

namespace Nachos

open Program

/-! ## The switches -/

theorem cases_of_toNat_lt_four {byte : Word} (h : byte.toNat < 4) :
    byte = 0 ∨ byte = 1 ∨ byte = 2 ∨ byte = 3 := by
  have hcases : byte.toNat = 0 ∨ byte.toNat = 1 ∨ byte.toNat = 2 ∨ byte.toNat = 3 := by omega
  rcases hcases with h | h | h | h
  · exact .inl (BitVec.eq_of_toNat_eq h)
  · exact .inr (.inl (BitVec.eq_of_toNat_eq h))
  · exact .inr (.inr (.inl (BitVec.eq_of_toNat_eq h)))
  · exact .inr (.inr (.inr (BitVec.eq_of_toNat_eq h)))

section switches

variable {byte : Word} (hbyte : byte.toNat < 4) (a v : Word)

include hbyte

private theorem mergeLeft_eq : mergeLeft byte a v = insertHigh (3 - byte.toNat) a v := by
  rcases cases_of_toNat_lt_four hbyte with rfl | rfl | rfl | rfl
  · rfl
  · rfl
  · rfl
  · exact (insertHigh_zero a v).symm

private theorem mergeRight_eq : mergeRight byte a v = insertLow (4 - byte.toNat) a v := by
  rcases cases_of_toNat_lt_four hbyte with rfl | rfl | rfl | rfl
  · exact (insertLow_four a v).symm
  · rfl
  · rfl
  · rfl

private theorem storeLeft_eq : storeLeft byte a v = insertLow (byte.toNat + 1) a v := by
  rcases cases_of_toNat_lt_four hbyte with rfl | rfl | rfl | rfl
  · rfl
  · rfl
  · rfl
  · exact (insertLow_four a v).symm

private theorem storeRight_eq : storeRight byte a v = insertHigh byte.toNat a v := by
  rcases cases_of_toNat_lt_four hbyte with rfl | rfl | rfl | rfl
  · exact (insertHigh_zero a v).symm
  · rfl
  · rfl
  · rfl

end switches

/-! ## The two aligned words -/

theorem alignDown_toNat (v : Word) : (v - (v &&& 0x3)).toNat = v.toNat - v.toNat % 4 := by
  have hle : v &&& 0x3 ≤ v := by
    rw [BitVec.le_def, and_three_toNat]
    exact Nat.mod_le _ _
  rw [BitVec.toNat_sub_of_le hle, and_three_toNat]

/-- Where a byte may be accessed, the aligned word around it may be. -/
theorem Machine.Maps.alignDown {m : Machine} {pt : ℕ → TranslationEntry} {q : Word}
    {writing : Bool} (h : m.Maps pt q 1 writing) :
    m.Maps pt (q - (q &&& 0x3)) 4 writing ∧
      frameAddress pt q = frameAddress pt (q - (q &&& 0x3)) + q.toNat % 4 := by
  have hdown := alignDown_toNat q
  have hpage : (q - (q &&& 0x3)).toNat / pageSize = q.toNat / pageSize := by
    simp only [pageSize]
    omega
  have haligned : (q - (q &&& 0x3)) &&& 0x3 = 0 := by
    refine BitVec.eq_of_toNat_eq ?_
    rw [and_three_toNat, hdown]
    exact Nat.sub_mod_eq_zero_of_mod_eq (Nat.mod_mod _ _).symm
  refine ⟨⟨?_, ?_, ?_, ?_, ?_⟩, ?_⟩
  · rintro (⟨-, hne⟩ | ⟨hsize, -⟩)
    · exact hne haligned
    · cases hsize
  · rw [hpage]
    exact h.page_lt
  · rw [hpage]
    exact h.valid
  · rw [hpage]
    exact h.writable
  · rw [hpage]
    exact h.frame_lt
  · rw [frameAddress, frameAddress, hpage, hdown]
    simp only [pageSize]
    omega

/-- Byte `k` of the word at an address `b` bytes into the aligned word at `low`; the next aligned
word is at `high`. -/
def splitByte (low high b k : ℕ) : ℕ := if b + k < 4 then low + (b + k) else high + (b + k - 4)

/-- The word at `p` lies in the aligned words at the physical addresses `low` and `high`. -/
structure Machine.Spans (m : Machine) (p : Word) (low high : ℕ) : Prop where
  low_word : ∀ writing, m.physical (p - (p &&& 0x3)) 4 writing = some low
  high_word : ∀ writing, m.physical (p + 3 - ((p + 3) &&& 0x3)) 4 writing = some high
  same : p.toNat % 4 = 0 → high = low
  apart : p.toNat % 4 ≠ 0 → low + 4 ≤ high ∨ high + 4 ≤ low
  byte : ∀ k < 4, ∀ writing, m.physical (p + BitVec.ofNat 32 k) 1 writing
    = some (splitByte low high (p.toNat % 4) k)

theorem Machine.Maps.reading {m : Machine} {pt : ℕ → TranslationEntry} {q : Word} {size : ℕ}
    (h : m.Maps pt q size true) (writing : Bool) : m.Maps pt q size writing :=
  ⟨h.aligned, h.page_lt, h.valid, fun hw ↦ h.writable ⟨hw.1, rfl⟩, h.frame_lt⟩

theorem toNat_add_of_lt_four (p : Word) {k : ℕ} (hk : k < 4) :
    (p + BitVec.ofNat 32 k).toNat = (p.toNat + k) % 2 ^ 32 := by
  rw [BitVec.toNat_add, BitVec.toNat_ofNat, Nat.mod_eq_of_lt (show k < 2 ^ 32 by omega)]

/-- The word that one of the four bytes from `p` on is in. -/
private theorem alignDown_add (p : Word) {k : ℕ} (hk : k < 4) :
    (p + BitVec.ofNat 32 k) - ((p + BitVec.ofNat 32 k) &&& 0x3)
      = if p.toNat % 4 + k < 4 then p - (p &&& 0x3) else p + 3 - ((p + 3) &&& 0x3) := by
  have hplt := p.isLt
  refine BitVec.eq_of_toNat_eq ?_
  rw [alignDown_toNat, toNat_add_of_lt_four p hk]
  by_cases hin : p.toNat % 4 + k < 4
  · rw [if_pos hin, alignDown_toNat]
    omega
  · rw [if_neg hin, alignDown_toNat, show p + 3 = p + BitVec.ofNat 32 3 from rfl,
      toNat_add_of_lt_four p (by decide)]
    omega

/-- Four bytes that may be written. Frames need not be distinct: the two words have different
offsets in their pages. -/
private theorem exists_spans {m : Machine} (hm : m.Linear) {p : Word}
    (h : ∀ k < 4, (m.physical (p + BitVec.ofNat 32 k) 1 true).isSome) :
    ∃ low high, m.Spans p low high := by
  obtain ⟨pt, hpt⟩ := hm.pageTable_some
  have hmaps : ∀ k < 4, m.Maps pt (p + BitVec.ofNat 32 k) 1 true := by
    intro k hk
    obtain ⟨a, ha⟩ := Option.isSome_iff_exists.mp (h k hk)
    obtain ⟨tlb, pageTable, hsucc⟩ := success_of_physical ha
    exact maps_of_success hm.tlb_none hpt hsucc
  have hplt := p.isLt
  have hthree : p + BitVec.ofNat 32 3 = p + 3 := rfl
  have hlow := (hmaps 0 (by decide)).alignDown
  have hhigh := (hmaps 3 (by decide)).alignDown
  rw [show p + BitVec.ofNat 32 0 = p from BitVec.add_zero p] at hlow
  rw [hthree] at hhigh
  have hlowNat := alignDown_toNat p
  have hhighNat := alignDown_toNat (p + 3)
  rw [← hthree, toNat_add_of_lt_four p (by decide), hthree] at hhighNat
  refine ⟨frameAddress pt (p - (p &&& 0x3)), frameAddress pt (p + 3 - ((p + 3) &&& 0x3)),
    ⟨fun writing ↦ ?_, fun writing ↦ ?_, fun hzero ↦ ?_, fun hne ↦ ?_, fun k hk writing ↦ ?_⟩⟩
  · exact physical_of_maps hm.tlb_none hpt (by decide) (hlow.1.reading writing)
  · exact physical_of_maps hm.tlb_none hpt (by decide) (hhigh.1.reading writing)
  · congr 1
    refine BitVec.eq_of_toNat_eq ?_
    omega
  · rw [frameAddress, frameAddress]
    simp only [pageSize]
    omega
  · rw [physical_of_maps hm.tlb_none hpt (by decide) ((hmaps k hk).reading writing),
      (hmaps k hk).alignDown.2, alignDown_add p hk, toNat_add_of_lt_four p hk, splitByte]
    split
    · congr 2
      omega
    · congr 2
      omega

/-! ## One instruction -/

/-- What register `i` holds once the pending load is applied. -/
def Machine.drained (m : Machine) (i : ℕ) : Word :=
  if i = 0 then 0 else if i = (m.registers loadReg).toNat then m.registers loadValueReg
  else m.registers i

/-- A load of another register, or of register 0, does not matter. -/
theorem Machine.ite_drained (m : Machine) {i r : ℕ} (v : Word) (h : i = r → i = 0) :
    (if i = 0 then 0 else if i = r then v else m.drained i) = m.drained i := by
  by_cases hzero : i = 0
  · rw [if_pos hzero, Machine.drained, if_pos hzero]
  · rw [if_neg hzero, if_neg fun hr ↦ hzero (h hr)]

/-- The state after a step that applies the pending load: pages stay in place, memory becomes
`memory`, and `later` is what the registers hold once the next load is applied. -/
structure Machine.Moves (m m' : Machine) (memory : ℕ → Byte) (later : ℕ → Word) : Prop where
  wellFormed : m'.WellFormed
  mainMemory : m'.mainMemory = memory
  physical : ∀ addr size writing, m'.physical addr size writing = m.physical addr size writing
  registers : ∀ i < numGPRegs, m'.registers i = m.drained i
  drained : ∀ i < numGPRegs, m'.drained i = later i

theorem applyLoad_registers_drained (m : Machine) (nextReg nextValue : Word) {i : ℕ}
    (hi : i < numGPRegs) : (m.applyLoad nextReg nextValue).registers i = m.drained i := by
  rw [Machine.applyLoad_registers, if_neg (show i ≠ loadValueReg by simp at *; omega),
    if_neg (show i ≠ loadReg by simp at *; omega), Machine.drained]

/-- An interrupt applies the load early. -/
private theorem moves_interrupt {m m' : Machine} (hm : m.WellFormed)
    (h : delayedLoad 0 0 m = .ok () m') : m.Moves m' m.mainMemory m.drained := by
  rw [delayedLoad_eq (Nat.lt_trans hm.load_lt (by decide))] at h
  cases h
  refine ⟨m.wellFormed_applyLoad (by decide) 0, rfl, fun _ _ _ ↦ rfl,
    fun i hi ↦ applyLoad_registers_drained m 0 0 hi, fun i hi ↦ ?_⟩
  have htarget : (m.applyLoad 0 0).registers loadReg = 0 := by
    rw [Machine.applyLoad_registers]
    rfl
  rw [Machine.drained, htarget, applyLoad_registers_drained m 0 0 hi]
  exact m.ite_drained _ id

/-- The tail of an instruction that has so far changed memory and the bits of the tables. -/
private theorem moves_finish {m : Machine} (m₂ : Machine) (next : Next) (hm : m.WellFormed)
    (hregs : m₂.registers = m.registers)
    (hphys : ∀ addr size writing, m₂.physical addr size writing = m.physical addr size writing)
    (hnext : next.loadTarget.toNat < numGPRegs) :
    ∃ m', finish next m₂ = .ok () m' ∧ m.Moves m' m₂.mainMemory fun i ↦
      if i = 0 then 0 else if i = next.loadTarget.toNat then next.loadValue else m.drained i := by
  have hload : (m₂.registers loadReg).toNat < numTotalRegs := by
    rw [hregs]
    exact Nat.lt_trans hm.load_lt (by decide)
  have hkept : ∀ i, i ≠ prevPCReg → i ≠ pcReg → i ≠ nextPCReg →
      ((m₂.applyLoad next.loadTarget next.loadValue).advance next.pcAfter).registers i
        = (m₂.applyLoad next.loadTarget next.loadValue).registers i := fun i ↦
    Machine.advance_registers_of_ne _ _
  have hdrained : ∀ i, m₂.drained i = m.drained i := fun i ↦ by
    rw [Machine.drained, Machine.drained, hregs]
  have hgeneral : ∀ i < numGPRegs,
      ((m₂.applyLoad next.loadTarget next.loadValue).advance next.pcAfter).registers i
        = m.drained i := by
    intro i hi
    rw [hkept i (by simp at *; omega) (by simp at *; omega) (by simp at *; omega),
      applyLoad_registers_drained m₂ _ _ hi, hdrained]
  have htarget : ((m₂.applyLoad next.loadTarget next.loadValue).advance next.pcAfter).registers
      loadReg = next.loadTarget := by
    rw [hkept _ (by decide) (by decide) (by decide), Machine.applyLoad_registers]
    rfl
  have hvalue : ((m₂.applyLoad next.loadTarget next.loadValue).advance next.pcAfter).registers
      loadValueReg = next.loadValue := by
    rw [hkept _ (by decide) (by decide) (by decide), Machine.applyLoad_registers]
    rfl
  refine ⟨_, finish_eq hload next, ⟨⟨?_, ?_⟩, rfl, hphys, hgeneral, fun i hi ↦ ?_⟩⟩
  · rw [hgeneral 0 (by decide)]
    rfl
  · rw [htarget]
    exact hnext
  · rw [Machine.drained, htarget, hvalue, hgeneral i hi]

/-- The instruction at the program counter is `op rt, offset(rs)`. -/
def Machine.Fetches (m : Machine) (op : OpCode) (rt : ℕ) (offset : Word) (rs : ℕ) : Prop :=
  ∃ raw m', fetch m = .ok raw m' ∧ (decode raw).opCode = op ∧ (decode raw).rt = rt ∧
    (decode raw).extra = offset ∧ (decode raw).rs = rs

theorem Machine.Fetches.regs_lt {m : Machine} {op : OpCode} {rt rs : ℕ} {offset : Word}
    (h : m.Fetches op rt offset rs) : rt < numGPRegs ∧ rs < numGPRegs := by
  obtain ⟨raw, m', -, -, rfl, -, rfl⟩ := h
  exact ⟨decode_rt_lt raw, decode_rs_lt raw⟩

/-- The case of an unaligned load in the `switch`. -/
def OpCode.LoadsBy (op : OpCode) (merge : Word → Word → Word → Word) : Prop :=
  ∀ instr nextPC, instr.opCode = op → execute instr nextPC = do
    let value ← loadUnaligned instr merge
    return ⟨BitVec.ofNat 32 instr.rt, value, nextPC + 4⟩

/-- The case of an unaligned store. -/
def OpCode.StoresBy (op : OpCode) (change : Word → Word → Word → Word) : Prop :=
  ∀ instr nextPC, instr.opCode = op → execute instr nextPC = do
    storeUnaligned instr change
    return .goto (nextPC + 4)

private theorem loadsBy_lwl : OpCode.LoadsBy .lwl mergeLeft := fun _ _ hop ↦ by rw [execute, hop]

private theorem loadsBy_lwr : OpCode.LoadsBy .lwr mergeRight := fun _ _ hop ↦ by rw [execute, hop]

private theorem storesBy_swl : OpCode.StoresBy .swl storeLeft := fun _ _ hop ↦ by rw [execute, hop]

private theorem storesBy_swr : OpCode.StoresBy .swr storeRight := fun _ _ hop ↦ by rw [execute, hop]

private theorem readMem_word {m : Machine} {addr : Word} {a : ℕ}
    (h : m.physical addr 4 false = some a) :
    ∃ m', readMem addr 4 m = .ok (m.word a) m' ∧ m.Alike m' := by
  obtain ⟨tlb, pageTable, ht⟩ := success_of_physical h
  refine ⟨m.setTables tlb pageTable, ?_, alike_of_success ht⟩
  rw [readMem, bind_of_ok (physicalAddress_eq_ok.mpr ⟨tlb, pageTable, ht, rfl⟩)]
  rfl

private theorem writeMem_word {m : Machine} {addr : Word} {a : ℕ}
    (h : m.physical addr 4 true = some a)
    (value : Word) : ∃ m', writeMem addr 4 value m = .ok () (m'.store a 4 value) ∧ m.Alike m' := by
  obtain ⟨tlb, pageTable, ht⟩ := success_of_physical h
  refine ⟨m.setTables tlb pageTable, ?_, alike_of_success ht⟩
  rw [writeMem, bind_of_ok (physicalAddress_eq_ok.mpr ⟨tlb, pageTable, ht, rfl⟩)]
  rfl

theorem Machine.Alike.word {m m' : Machine} (h : m.Alike m') (a : ℕ) : m'.word a = m.word a := by
  rw [Machine.word, Machine.word, h.mainMemory]

/-- `LWL` and `LWR` merge into the value the register is about to have. -/
private theorem mergeBase_drained {instr : Instruction} (hrt : instr.rt < numGPRegs)
    (hrt0 : instr.rt ≠ 0) (m : Machine) : mergeBase instr m = .ok (m.drained instr.rt) m := by
  rw [mergeBase_eq hrt, Machine.drained, if_neg hrt0]
  congr 1
  have hiff : m.registers loadReg = BitVec.ofNat 32 instr.rt
      ↔ instr.rt = (m.registers loadReg).toNat := by
    rw [← BitVec.toNat_inj, toNat_ofNat_reg hrt]
    exact eq_comm
  simp only [hiff]

section step

variable {m : Machine} {op : OpCode} {rt rs : ℕ} {offset q : Word} {a : ℕ}

/-- One unaligned load. -/
private theorem moves_loadUnaligned {merge : Word → Word → Word → Word} (hm : m.WellFormed)
    (hrt0 : rt ≠ 0) (hfetch : m.Fetches op rt offset rs)
    (hop : op.LoadsBy merge)
    (hq : m.registers rs + offset = q) (ha : m.physical (q - (q &&& 0x3)) 4 false = some a) :
    ∃ m', oneInstruction m = .ok () m' ∧ m.Moves m' m.mainMemory
      (Function.update m.drained rt (merge (q &&& 0x3) (m.drained rt) (m.word a))) := by
  obtain ⟨raw, m₁, hraw, hopc, rfl, rfl, rfl⟩ := hfetch
  have halike := alike_of_fetch hraw
  have hrt := decode_rt_lt raw
  obtain ⟨m₂, hread, halike₂⟩ := readMem_word (by rwa [← halike.physical] at ha)
  have h₂ := halike.trans halike₂
  have hdrained : m₂.drained (decode raw).rt = m.drained (decode raw).rt := by
    rw [Machine.drained, Machine.drained, h₂.registers]
  have hexec : execute (decode raw) (m₁.registers nextPCReg) m₁ = .ok
      ⟨BitVec.ofNat 32 (decode raw).rt, merge (q &&& 0x3) (m.drained (decode raw).rt) (m.word a),
        m₁.registers nextPCReg + 4⟩ m₂ := by
    have hload : loadUnaligned (decode raw) merge m₁
        = .ok (merge (q &&& 0x3) (m.drained (decode raw).rt) (m.word a)) m₂ := by
      rw [loadUnaligned, bind_of_ok (effectiveAddr_eq halike (decode_inRange raw)),
        Instruction.effective, hq, bind_of_ok hread,
        bind_of_ok (mergeBase_drained hrt hrt0 m₂), hdrained, halike.word]
      rfl
    rw [hop _ _ hopc, bind_of_ok hload]
    rfl
  have htarget : (BitVec.ofNat 32 (decode raw).rt).toNat = (decode raw).rt := toNat_ofNat_reg hrt
  obtain ⟨m', hfinish, hmoves⟩ := moves_finish m₂ ⟨BitVec.ofNat 32 (decode raw).rt,
      merge (q &&& 0x3) (m.drained (decode raw).rt) (m.word a), m₁.registers nextPCReg + 4⟩
    hm h₂.registers h₂.physical (by rwa [htarget])
  refine ⟨m', ?_, ⟨hmoves.wellFormed, by rw [hmoves.mainMemory, h₂.mainMemory], hmoves.physical,
    hmoves.registers, fun i hi ↦ ?_⟩⟩
  · rw [oneInstruction, bind_of_ok hraw, runInstruction,
      bind_of_ok (readReg_of_lt (by decide) m₁), bind_of_ok hexec, hfinish]
  · rw [hmoves.drained i hi, htarget]
    by_cases hirt : i = (decode raw).rt
    · rw [if_neg (hirt ▸ hrt0), if_pos hirt, hirt, Function.update_self]
    · rw [m.ite_drained _ fun h ↦ absurd h hirt, Function.update_of_ne hirt]

/-- One unaligned store. -/
private theorem moves_storeUnaligned {change : Word → Word → Word → Word} (hm : m.WellFormed)
    (hfetch : m.Fetches op rt offset rs)
    (hop : op.StoresBy change)
    (hq : m.registers rs + offset = q)
    (ha : ∀ writing, m.physical (q - (q &&& 0x3)) 4 writing = some a) :
    ∃ m', oneInstruction m = .ok () m' ∧ m.Moves m'
      (m.store a 4 (change (q &&& 0x3) (m.word a) (m.registers rt))).mainMemory m.drained := by
  obtain ⟨raw, m₁, hraw, hopc, rfl, rfl, rfl⟩ := hfetch
  have halike := alike_of_fetch hraw
  obtain ⟨m₂, hread, halike₂⟩ := readMem_word (m := m₁) (by rw [halike.physical, ha])
  have h₂ := halike.trans halike₂
  obtain ⟨m₃, hwrite, halike₃⟩ := writeMem_word (m := m₂) (by rw [h₂.physical, ha])
    (change (q &&& 0x3) (m.word a) (m.registers (decode raw).rt))
  have h₃ := h₂.trans halike₃
  have hexec : execute (decode raw) (m₁.registers nextPCReg) m₁
      = .ok (.goto (m₁.registers nextPCReg + 4))
        (m₃.store a 4 (change (q &&& 0x3) (m.word a) (m.registers (decode raw).rt))) := by
    have hstore : storeUnaligned (decode raw) change m₁ = .ok ()
        (m₃.store a 4 (change (q &&& 0x3) (m.word a) (m.registers (decode raw).rt))) := by
      rw [storeUnaligned, bind_of_ok (effectiveAddr_eq halike (decode_inRange raw)),
        Instruction.effective, hq, bind_of_ok hread,
        bind_of_ok (readReg_of_lt (lt_numTotalRegs (decode_rt_lt raw)) m₂), halike.word,
        h₂.registers, hwrite]
    rw [hop _ _ hopc, bind_of_ok hstore]
    rfl
  obtain ⟨m', hfinish, hmoves⟩ := moves_finish (m₃.store a 4
      (change (q &&& 0x3) (m.word a) (m.registers (decode raw).rt)))
    (.goto (m₁.registers nextPCReg + 4)) hm h₃.registers h₃.physical (Nat.zero_lt_succ 31)
  refine ⟨m', ?_, ⟨hmoves.wellFormed, ?_, hmoves.physical, hmoves.registers, fun i hi ↦ ?_⟩⟩
  · rw [oneInstruction, bind_of_ok hraw, runInstruction,
      bind_of_ok (readReg_of_lt (by decide) m₁), bind_of_ok hexec, hfinish]
  · rw [hmoves.mainMemory, Machine.store, Machine.store, h₃.mainMemory]
  · rw [hmoves.drained i hi]
    exact m.ite_drained _ id

end step

/-! ## Two instructions -/

/-- Two instructions on `rt` and `rs`, each an opcode and an offset: neither traps, also when an
interrupt is taken between them, and the second ends in a state with `Q`. -/
def Machine.Pair (m : Machine) (rt rs : ℕ) (first second : OpCode × Word) (Q : Machine → Prop) :
    Prop :=
  m.Fetches first.1 rt first.2 rs → ∃ m₁, oneInstruction m = .ok () m₁ ∧
    ∀ m₂, m₂ = m₁ ∨ delayedLoad 0 0 m₁ = .ok () m₂ → m₂.Fetches second.1 rt second.2 rs →
      ∃ m₃, oneInstruction m₂ = .ok () m₃ ∧ Q m₃

/-- `right rt, 0(rs)` and `left rt, 3(rs)` in either order. -/
def Machine.EitherOrder (m : Machine) (rt rs : ℕ) (right left : OpCode) (Q : Machine → Prop) :
    Prop :=
  m.Pair rt rs (right, 0) (left, 3) Q ∧ m.Pair rt rs (left, 3) (right, 0) Q

/-- The state an interrupt may leave: what the registers are about to hold is the same. -/
theorem Machine.Moves.between {m m₁ m₂ : Machine} {memory : ℕ → Byte} {later : ℕ → Word}
    (h : m.Moves m₁ memory later) (h₂ : m₂ = m₁ ∨ delayedLoad 0 0 m₁ = .ok () m₂) :
    m₂.WellFormed ∧ m₂.mainMemory = memory ∧
      (∀ addr size writing, m₂.physical addr size writing = m.physical addr size writing) ∧
      (∀ i < numGPRegs, m₂.drained i = later i) ∧
      ∀ i < numGPRegs, m₂.registers i = m.drained i ∨ m₂.registers i = later i := by
  rcases h₂ with rfl | h₂
  · exact ⟨h.wellFormed, h.mainMemory, h.physical, h.drained, fun i hi ↦ .inl (h.registers i hi)⟩
  · have hmoves := moves_interrupt h.wellFormed h₂
    refine ⟨hmoves.wellFormed, by rw [hmoves.mainMemory, h.mainMemory], fun addr size writing ↦ ?_,
      fun i hi ↦ ?_, fun i hi ↦ .inr ?_⟩
    · rw [hmoves.physical, h.physical]
    · rw [hmoves.drained i hi, h.drained i hi]
    · rw [hmoves.registers i hi, h.drained i hi]

section pair

variable {m : Machine} {rt rs : ℕ} {p w : Word} {op₁ op₂ : OpCode} {o₁ o₂ : Word} {a₁ a₂ : ℕ}
  {f₁ f₂ : Word → Word → Word → Word}

private theorem pair_load (hm : m.WellFormed) (hrt0 : rt ≠ 0) (hne : rs ≠ rt)
    (hbase : m.registers rs = p) (hdrained : m.drained rs = p)
    (hop₁ : op₁.LoadsBy f₁) (hop₂ : op₂.LoadsBy f₂)
    (ha₁ : m.physical (p + o₁ - ((p + o₁) &&& 0x3)) 4 false = some a₁)
    (ha₂ : m.physical (p + o₂ - ((p + o₂) &&& 0x3)) 4 false = some a₂)
    (hw : ∀ x, f₂ ((p + o₂) &&& 0x3) (f₁ ((p + o₁) &&& 0x3) x (m.word a₁)) (m.word a₂) = w) :
    m.Pair rt rs (op₁, o₁) (op₂, o₂) fun m₃ ↦
      ∀ r v, ∃ m₄, delayedLoad r v m₃ = .ok () m₄ ∧ m₄.registers rt = w := by
  intro hfetch
  obtain ⟨hrt, hrs⟩ := hfetch.regs_lt
  obtain ⟨m₁, hrun, hmoves⟩ := moves_loadUnaligned hm hrt0 hfetch hop₁ (by rw [hbase]) ha₁
  refine ⟨m₁, hrun, fun m₂ hm₂ hfetch₂ ↦ ?_⟩
  obtain ⟨hwell, hmem, hphys, hlater, hregs⟩ := hmoves.between hm₂
  -- `rs` is the same for both, and `rt` is about to hold what the first has merged
  have hbase₂ : m₂.registers rs = p := by
    rcases hregs rs hrs with h | h
    · rw [h, hdrained]
    · rw [h, Function.update_of_ne hne, hdrained]
  have hword : m₂.word a₂ = m.word a₂ := by rw [Machine.word, Machine.word, hmem]
  obtain ⟨m₃, hrun₂, hmoves₂⟩ := moves_loadUnaligned hwell hrt0 hfetch₂ hop₂ (by rw [hbase₂])
    (by rwa [hphys])
  refine ⟨m₃, hrun₂, fun r v ↦ ⟨_, delayedLoad_eq (Nat.lt_trans hmoves₂.wellFormed.load_lt
    (by decide)) r v, ?_⟩⟩
  rw [applyLoad_registers_drained m₃ r v hrt, hmoves₂.drained rt hrt, Function.update_self,
    hlater rt hrt, Function.update_self, hword, hw]

private theorem pair_store (hm : m.WellFormed) (hbase : m.registers rs = p)
    (hdrained : m.drained rs = p) (hvalue : m.drained rt = m.registers rt)
    (hop₁ : op₁.StoresBy f₁) (hop₂ : op₂.StoresBy f₂)
    (ha₁ : ∀ writing, m.physical (p + o₁ - ((p + o₁) &&& 0x3)) 4 writing = some a₁)
    (ha₂ : ∀ writing, m.physical (p + o₂ - ((p + o₂) &&& 0x3)) 4 writing = some a₂)
    {memory : ℕ → Byte} (hmemory : ∀ m₁ : Machine, m₁.mainMemory
        = (m.store a₁ 4 (f₁ ((p + o₁) &&& 0x3) (m.word a₁) (m.registers rt))).mainMemory →
      (m₁.store a₂ 4 (f₂ ((p + o₂) &&& 0x3) (m₁.word a₂) (m.registers rt))).mainMemory = memory) :
    m.Pair rt rs (op₁, o₁) (op₂, o₂) fun m₃ ↦ m₃.mainMemory = memory := by
  intro hfetch
  obtain ⟨hrt, hrs⟩ := hfetch.regs_lt
  obtain ⟨m₁, hrun, hmoves⟩ := moves_storeUnaligned hm hfetch hop₁ (by rw [hbase]) ha₁
  refine ⟨m₁, hrun, fun m₂ hm₂ hfetch₂ ↦ ?_⟩
  obtain ⟨hwell, hmem, hphys, -, hregs⟩ := hmoves.between hm₂
  have hregs₂ : ∀ i < numGPRegs, m₂.registers i = m.drained i := fun i hi ↦ by
    rcases hregs i hi with h | h <;> exact h
  obtain ⟨m₃, hrun₂, hmoves₂⟩ := moves_storeUnaligned hwell hfetch₂ hop₂
    (by rw [hregs₂ rs hrs, hdrained]) (fun writing ↦ by rw [hphys, ha₂])
  have hmemory₂ := hmoves₂.mainMemory
  rw [hregs₂ rt hrt, hvalue] at hmemory₂
  exact ⟨m₃, hrun₂, hmemory₂.trans (hmemory m₂ hmem)⟩

end pair

/-! ## The word at any address -/

section bytes

variable {m : Machine} {p : Word} {low high : ℕ} {byte v : Word} {a : ℕ}

theorem wordByte_word (m : Machine) (a : ℕ) {k : ℕ} (hk : k < 4) :
    wordByte (m.word a) k = m.mainMemory (a + k) :=
  wordByte_append (fun k ↦ m.mainMemory (a + k)) hk

private theorem add_three_toNat_mod (p : Word) :
    ((p + 3) &&& 0x3).toNat = (p.toNat % 4 + 3) % 4 := by
  have hthree : (3 : Word).toNat = 3 := rfl
  rw [and_three_toNat, BitVec.toNat_add, hthree]
  omega

private theorem store_mainMemory (m : Machine) (a n : ℕ) (v : Word) (x : ℕ) :
    (m.store a n v).mainMemory x
      = if a ≤ x ∧ x < a + n then wordByte v (x - a) else m.mainMemory x := rfl

/-- What `SWR` makes of memory. -/
private theorem store_storeRight (hbyte : byte.toNat < 4) (m : Machine) (a : ℕ) (v : Word) (x : ℕ) :
    (m.store a 4 (storeRight byte (m.word a) v)).mainMemory x =
      if a + byte.toNat ≤ x ∧ x < a + 4 then wordByte v (x - (a + byte.toNat))
      else m.mainMemory x := by
  rw [store_mainMemory, storeRight_eq hbyte]
  by_cases hin : a ≤ x ∧ x < a + 4
  · rw [if_pos hin, wordByte_insertHigh (by omega) (by omega), wordByte_word m a (by omega)]
    by_cases hlow : x - a < byte.toNat
    · rw [if_pos hlow, if_neg (by omega), Nat.add_sub_cancel' hin.1]
    · rw [if_neg hlow, if_pos (by omega), Nat.sub_add_eq]
  · rw [if_neg hin, if_neg (by omega)]

/-- What `SWL` makes of memory. -/
private theorem store_storeLeft (hbyte : byte.toNat < 4) (m : Machine) (a : ℕ) (v : Word) (x : ℕ) :
    (m.store a 4 (storeLeft byte (m.word a) v)).mainMemory x =
      if a ≤ x ∧ x ≤ a + byte.toNat then wordByte v (x + 3 - (a + byte.toNat))
      else m.mainMemory x := by
  rw [store_mainMemory, storeLeft_eq hbyte]
  by_cases hin : a ≤ x ∧ x < a + 4
  · rw [if_pos hin, wordByte_insertLow (by omega) (by omega), wordByte_word m a (by omega)]
    by_cases hlow : x - a < byte.toNat + 1
    · rw [if_pos hlow, if_pos (by omega)]
      congr 1
      omega
    · rw [if_neg hlow, if_neg (by omega), Nat.add_sub_cancel' hin.1]
  · rw [if_neg hin, if_neg (by omega)]

/-- The bytes `LWR` loads. -/
private theorem wordByte_mergeRight (hbyte : byte.toNat < 4) (m : Machine) (a : ℕ) (x : Word)
    {k : ℕ} (hk : k < 4) : wordByte (mergeRight byte x (m.word a)) k =
      if k + byte.toNat < 4 then m.mainMemory (a + (byte.toNat + k)) else wordByte x k := by
  rw [mergeRight_eq hbyte, wordByte_insertLow (by omega) hk]
  by_cases hlow : k + byte.toNat < 4
  · rw [if_pos hlow, if_pos (by omega), wordByte_word m a (by omega)]
    congr 1
    omega
  · rw [if_neg hlow, if_neg (by omega)]

/-- The bytes `LWL` loads. -/
private theorem wordByte_mergeLeft (hbyte : byte.toNat < 4) (m : Machine) (a : ℕ) (x : Word) {k : ℕ}
    (hk : k < 4) : wordByte (mergeLeft byte x (m.word a)) k =
      if k + byte.toNat < 3 then wordByte x k else m.mainMemory (a + (byte.toNat + k - 3)) := by
  rw [mergeLeft_eq hbyte, wordByte_insertHigh (by omega) hk]
  by_cases hlow : k + byte.toNat < 3
  · rw [if_pos hlow, if_pos (by omega)]
  · rw [if_neg hlow, if_neg (by omega), wordByte_word m a (by omega)]
    congr 1
    omega

private theorem wordByte_combine (c : ℕ → Byte) {k : ℕ} (hk : k < 4) :
    wordByte (combine 4 c) k = c k :=
  wordByte_append c hk

/-- Both merges give the word at `p`, whatever was in the register. -/
private theorem merge_both (hp : m.Spans p low high) (x : Word) :
    mergeLeft ((p + 3) &&& 0x3) (mergeRight (p &&& 0x3) x (m.word low)) (m.word high)
        = combine 4 (fun k ↦ m.mainMemory (splitByte low high (p.toNat % 4) k)) ∧
      mergeRight (p &&& 0x3) (mergeLeft ((p + 3) &&& 0x3) x (m.word high)) (m.word low)
        = combine 4 fun k ↦ m.mainMemory (splitByte low high (p.toNat % 4) k) := by
  have hb := and_three_toNat p
  have hb' := add_three_toNat_mod p
  have hlt := Nat.mod_lt p.toNat (show 0 < 4 by decide)
  constructor
  · refine eq_of_wordByte fun k hk ↦ ?_
    rw [wordByte_combine _ hk, wordByte_mergeLeft (by omega) m high _ hk,
      wordByte_mergeRight (by omega) m low _ hk, hb, hb', splitByte]
    by_cases hzero : p.toNat % 4 = 0
    · rw [hp.same hzero, hzero, if_neg (by omega), if_pos (by omega)]
      congr 1
      omega
    · by_cases hin : p.toNat % 4 + k < 4
      · rw [if_pos hin, if_pos (by omega), if_pos (by omega)]
      · rw [if_neg hin, if_neg (by omega)]
        congr 1
        omega
  · refine eq_of_wordByte fun k hk ↦ ?_
    rw [wordByte_combine _ hk, wordByte_mergeRight (by omega) m low _ hk,
      wordByte_mergeLeft (by omega) m high _ hk, hb, hb', splitByte]
    by_cases hin : p.toNat % 4 + k < 4
    · rw [if_pos hin, if_pos (by omega)]
    · rw [if_neg hin, if_neg (by omega), if_neg (by omega)]
      congr 1
      omega

/-- Memory with the four bytes of `v` at `p`. -/
def Machine.withWord (m : Machine) (low high b : ℕ) (v : Word) (x : ℕ) : Byte :=
  if low + b ≤ x ∧ x < low + 4 then wordByte v (x - (low + b))
  else if high ≤ x ∧ x ≤ high + (b + 3) % 4 then wordByte v (x + 3 - (high + (b + 3) % 4))
  else m.mainMemory x

/-- Both stores give that memory. -/
private theorem store_both (hp : m.Spans p low high) (v : Word) :
    (∀ m₁ : Machine,
      m₁.mainMemory = (m.store low 4 (storeRight (p &&& 0x3) (m.word low) v)).mainMemory →
      (m₁.store high 4 (storeLeft ((p + 3) &&& 0x3) (m₁.word high) v)).mainMemory
        = m.withWord low high (p.toNat % 4) v) ∧
    ∀ m₁ : Machine,
      m₁.mainMemory = (m.store high 4 (storeLeft ((p + 3) &&& 0x3) (m.word high) v)).mainMemory →
      (m₁.store low 4 (storeRight (p &&& 0x3) (m₁.word low) v)).mainMemory
        = m.withWord low high (p.toNat % 4) v := by
  have hb := and_three_toNat p
  have hb' := add_three_toNat_mod p
  have hsame := hp.same
  have hapart := hp.apart
  constructor
  · intro m₁ hm₁
    funext x
    rw [store_storeLeft (by omega), hm₁, store_storeRight (by omega), hb, hb', Machine.withWord]
    by_cases hleft : high ≤ x ∧ x ≤ high + (p.toNat % 4 + 3) % 4
    · rw [if_pos hleft]
      by_cases hright : low + p.toNat % 4 ≤ x ∧ x < low + 4
      · -- the two overlap when `p` is aligned, and agree there
        rw [if_pos hright]
        congr 1
        omega
      · rw [if_neg hright, if_pos hleft]
    · rw [if_neg hleft, if_neg hleft]
  · intro m₁ hm₁
    funext x
    rw [store_storeRight (by omega), hm₁, store_storeLeft (by omega), hb, hb', Machine.withWord]

end bytes

/-- Once the pending load is applied, `rt` holds `w`. -/
def Machine.Loads (m : Machine) (rt : ℕ) (w : Word) : Prop :=
  ∀ r v, ∃ m', delayedLoad r v m = .ok () m' ∧ m'.registers rt = w

/-- The four bytes at `p` are those of `v`, and no other byte of memory has changed. -/
structure Machine.WordReplaced (m m' : Machine) (p v : Word) : Prop where
  replaced : ∀ k < 4, ∀ x, m.physical (p + BitVec.ofNat 32 k) 1 true = some x →
    m'.mainMemory x = wordByte v k
  kept : ∀ x, (∀ k < 4, m.physical (p + BitVec.ofNat 32 k) 1 true ≠ some x) →
    m'.mainMemory x = m.mainMemory x

theorem Machine.Pair.imp {m : Machine} {rt rs : ℕ} {first second : OpCode × Word}
    {Q Q' : Machine → Prop} (h : m.Pair rt rs first second Q) (himp : ∀ m', Q m' → Q' m') :
    m.Pair rt rs first second Q' := by
  intro hfetch
  obtain ⟨m₁, hrun, hrest⟩ := h hfetch
  refine ⟨m₁, hrun, fun m₂ hm₂ hfetch₂ ↦ ?_⟩
  obtain ⟨m₃, hrun₂, hQ⟩ := hrest m₂ hm₂ hfetch₂
  exact ⟨m₃, hrun₂, himp m₃ hQ⟩

private theorem wordReplaced_of_withWord {m m' : Machine} {p v : Word} {low high : ℕ}
    (hp : m.Spans p low high) (h : m'.mainMemory = m.withWord low high (p.toNat % 4) v) :
    m.WordReplaced m' p v := by
  have hsame := hp.same
  have hapart := hp.apart
  have hlt := Nat.mod_lt p.toNat (show 0 < 4 by decide)
  constructor
  · intro k hk x hx
    rw [hp.byte k hk] at hx
    cases hx
    rw [h, Machine.withWord, splitByte]
    by_cases hin : p.toNat % 4 + k < 4
    · rw [if_pos hin, if_pos (by omega)]
      congr 1
      omega
    · rw [if_neg hin, if_neg (by omega), if_pos (by omega)]
      congr 1
      omega
  · intro x hx
    have hout : ∀ k < 4, splitByte low high (p.toNat % 4) k ≠ x := fun k hk heq ↦
      hx k hk (by rw [hp.byte k hk, heq])
    rw [h, Machine.withWord]
    -- a byte in one of the two parts would be one of the four
    have hright : ¬(low + p.toNat % 4 ≤ x ∧ x < low + 4) := by
      rintro ⟨hge, hlt'⟩
      refine hout (x - (low + p.toNat % 4)) (by omega) ?_
      rw [splitByte, if_pos (by omega)]
      omega
    have hleft : ¬(high ≤ x ∧ x ≤ high + (p.toNat % 4 + 3) % 4) := by
      rintro ⟨hge, hle⟩
      by_cases hzero : p.toNat % 4 = 0
      · exact hright (by have := hsame hzero; omega)
      · refine hout (x - high + 4 - p.toNat % 4) (by omega) ?_
        rw [splitByte, if_neg (by omega)]
        omega
    rw [if_neg hright, if_neg hleft]

/-- **The word at any address.** Unless the load that is pending gives the base register another
value, `LWR` and `LWL` leave the four bytes at `p` in `rt` and `SWR` and `SWL` put those of `rt`
there, in either order and with or without an interrupt between them. -/
theorem unaligned_word {m : Machine} {rt rs : ℕ} {p : Word} (hm : m.WellFormed) (hlin : m.Linear)
    (hrt0 : rt ≠ 0) (hne : rs ≠ rt) (hbase : m.registers rs = p)
    (hpages : ∀ k < 4, (m.physical (p + BitVec.ofNat 32 k) 1 true).isSome)
    (hkept : rs ≠ 0 → (m.registers loadReg).toNat = rs → m.registers loadValueReg = p) :
    (∃ c : ℕ → Byte, (∀ k < 4, m.byteAt (p + BitVec.ofNat 32 k) = some (c k)) ∧
      m.EitherOrder rt rs .lwr .lwl fun m' ↦ m'.Loads rt (combine 4 c)) ∧
    ((m.registers loadReg).toNat ≠ rt →
      m.EitherOrder rt rs .swr .swl fun m' ↦ m.WordReplaced m' p (m.registers rt)) := by
  obtain ⟨low, high, hp⟩ := exists_spans hlin hpages
  have hdrained : m.drained rs = p := by
    rw [Machine.drained]
    split
    · next hzero => rw [← hbase, hzero, hm.zero]
    · next hzero =>
      split
      · next htarget => exact hkept hzero htarget.symm
      · exact hbase
  have hzero : p + 0 = p := BitVec.add_zero p
  have hlow : ∀ writing, m.physical (p + 0 - ((p + 0) &&& 0x3)) 4 writing = some low := by
    rw [hzero]
    exact hp.low_word
  refine ⟨⟨fun k ↦ m.mainMemory (splitByte low high (p.toNat % 4) k), fun k hk ↦ ?_, ?_, ?_⟩,
    fun hrt ↦ ?_⟩
  · rw [Machine.byteAt, hp.byte k hk]
    rfl
  · refine pair_load hm hrt0 hne hbase hdrained loadsBy_lwr loadsBy_lwl (hlow false)
      (hp.high_word false) fun x ↦ ?_
    rw [hzero]
    exact (merge_both hp x).1
  · refine pair_load hm hrt0 hne hbase hdrained loadsBy_lwl loadsBy_lwr (hp.high_word false)
      (hlow false) fun x ↦ ?_
    rw [hzero]
    exact (merge_both hp x).2
  · have hvalue : m.drained rt = m.registers rt := by
      rw [Machine.drained, if_neg hrt0, if_neg (Ne.symm hrt)]
    have hboth := store_both hp (m.registers rt)
    constructor
    · exact (pair_store hm hbase hdrained hvalue storesBy_swr storesBy_swl hlow hp.high_word
        (by rw [hzero]; exact hboth.1)).imp fun m' h ↦ wordReplaced_of_withWord hp h
    · exact (pair_store hm hbase hdrained hvalue storesBy_swl storesBy_swr hp.high_word hlow
        (by rw [hzero]; exact hboth.2)).imp fun m' h ↦ wordReplaced_of_withWord hp h

/-! ## A program -/

/-- `lwr r2, 0(r1); lwl r2, 3(r1)`, with the given address in `r1`. -/
def unalignedProgram (p : Word) : Machine :=
  (Machine.start 16 (programImage [0x98220000, 0x88220003]) identityPageTable).setReg 1 p

/-- With a load of zero pending for `r1`. -/
def staleBase : Machine := (unalignedProgram 130).setReg loadReg 1

theorem fetches_of_returns {m : Machine} (h : m.returns fetch = true) :
    m.Fetches (decode m.fetched).opCode (decode m.fetched).rt (decode m.fetched).extra
      (decode m.fetched).rs := by
  obtain ⟨m', hfetch⟩ := fetch_eq_fetched h rfl
  exact ⟨m.fetched, m', hfetch, rfl, rfl, rfl, rfl⟩

/-- The second instruction works on another address than the first. -/
theorem staleBase_not_loaded :
    ¬∀ (m : Machine) (rt rs : ℕ) (p : Word), m.WellFormed → m.Linear → rt ≠ 0 → rs ≠ rt →
      m.registers rs = p → (∀ k < 4, (m.physical (p + BitVec.ofNat 32 k) 1 true).isSome) →
      ∃ c : ℕ → Byte, (∀ k < 4, m.byteAt (p + BitVec.ofNat 32 k) = some (c k)) ∧
        m.EitherOrder rt rs .lwr .lwl fun m' ↦ m'.Loads rt (combine 4 c) := by
  intro h
  obtain ⟨c, hc, hpair, -⟩ := h staleBase 2 1 130 ⟨by decide, by decide⟩ ⟨rfl, _, rfl⟩ (by decide)
    (by decide) (by decide) (by decide +kernel)
  obtain ⟨m₁, hrun, hrest⟩ := hpair
    (fetches_of_returns (show staleBase.returns fetch = true by decide +kernel))
  have hm₁ : m₁ = staleBase.after oneInstruction := by
    rw [Machine.after, hrun]
  have hfetch₂ : m₁.Fetches .lwl 2 3 1 := by
    rw [hm₁]
    exact fetches_of_returns
      (show (staleBase.after oneInstruction).returns fetch = true by decide +kernel)
  obtain ⟨m₃, hrun₂, hloads⟩ := hrest m₁ (.inl rfl) hfetch₂
  obtain ⟨m₄, hdrain, hvalue⟩ := hloads 0 0
  have hm₄ : m₄ = ((staleBase.after oneInstruction).after oneInstruction).after
      (delayedLoad 0 0) := by
    rw [← hm₁, Machine.after, Machine.after, hrun₂, hdrain]
  have hzero : ∀ k < 4, c k = 0 := by
    intro k hk
    have hbyte : ∀ k < 4, staleBase.byteAt (130 + BitVec.ofNat 32 k) = some 0 := by
      decide +kernel
    exact Option.some.inj ((hc k hk).symm.trans (hbyte k hk))
  have hcombine : combine 4 c = 0 := combine_congr (by decide) hzero
  rw [hm₄, hcombine] at hvalue
  exact absurd hvalue (by decide +kernel)

/-- Without it the two instructions load the word at 130. -/
theorem unalignedProgram_loads :
    (unalignedProgram 130).Fetches .lwr 2 0 1 ∧
      (∃ c : ℕ → Byte,
        (∀ k < 4, (unalignedProgram 130).byteAt (130 + BitVec.ofNat 32 k) = some (c k)) ∧
        (unalignedProgram 130).EitherOrder 2 1 .lwr .lwl fun m' ↦ m'.Loads 2 (combine 4 c)) ∧
      (((unalignedProgram 130).registers loadReg).toNat ≠ 2 →
        (unalignedProgram 130).EitherOrder 2 1 .swr .swl fun m' ↦
          (unalignedProgram 130).WordReplaced m' 130 ((unalignedProgram 130).registers 2)) :=
  ⟨fetches_of_returns (show (unalignedProgram 130).returns fetch = true by decide +kernel),
    unaligned_word ⟨by decide, by decide⟩ ⟨rfl, _, rfl⟩ (by decide) (by decide) (by decide)
      (by decide +kernel) (by decide)⟩

end Nachos
