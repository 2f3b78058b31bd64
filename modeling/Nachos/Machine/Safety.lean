import Nachos.Machine.OneInstruction

/-!
# User programs and the interpreter's own safety

Can a user program bring the simulator down? Between instructions the machine keeps two facts about
its registers, `Machine.WellFormed`, and has a linear page table. From such a state every case of
the `switch` stays inside the register file, every shift amount is in range and the default
assertion is not reached, whatever the instruction word is. The one hole is `DIV`: it tests for a
zero divisor and not for `-2³¹ / -1`, whose quotient is no `int`.

`Safe` is the judgement the cases are checked with; it composes along the program text, so each
family of cases is checked once.
-/

namespace Nachos

open Program

/-! ## The invariant inside an instruction -/

/-- What holds while an instruction executes; register 0 is only restored at its end. -/
structure Machine.Ready (m : Machine) : Prop where
  linear : m.Linear
  load_lt : (m.registers loadReg).toNat < numGPRegs

/-- What holds between two instructions. -/
structure Machine.Settled (m : Machine) : Prop extends m.WellFormed where
  linear : m.Linear

theorem Machine.Settled.ready {m : Machine} (h : m.Settled) : m.Ready := ⟨h.linear, h.load_lt⟩

/-- An instruction may stop only by trapping, in a settled state. -/
def TrapsSettled (e : Stop) (m : Machine) : Prop := (∃ which, e = .trap which) ∧ m.Settled

/-- `x` keeps the machine ready and can stop only by a trap. -/
def Safe {α : Type} (x : Exec α) : Prop :=
  Triple Machine.Ready x (fun _ ↦ Machine.Ready) TrapsSettled

section rules

variable {α β : Type}

theorem Safe.pure (a : α) : Safe (Pure.pure a : Exec α) := Triple.pure a fun _ h ↦ h

theorem Safe.bind {x : Exec α} {f : α → Exec β} (hx : Safe x) (hf : ∀ a, Safe (f a)) :
    Safe (x >>= f) := Triple.bind hx hf

theorem Safe.ite {c : Prop} [Decidable c] {x y : Exec α} (hx : c → Safe x) (hy : ¬c → Safe y) :
    Safe (if c then x else y) := Triple.ite hx hy

theorem lt_numTotalRegs {i : ℕ} (h : i < numGPRegs) : i < numTotalRegs := by
  simp only [numGPRegs, numTotalRegs] at *
  omega

theorem safe_readReg {i : ℕ} (h : i < numTotalRegs) : Safe (readReg i) := by
  intro m hm
  rw [readReg_of_lt h]
  exact hm

theorem safe_writeReg {i : ℕ} (h : i < numTotalRegs) (hi : i ≠ loadReg) (v : Word) :
    Safe (writeReg i v) := by
  intro m hm
  rw [writeReg_of_lt h]
  refine ⟨⟨hm.linear.tlb_none, hm.linear.pageTable_some⟩, ?_⟩
  rw [Machine.setReg_registers_of_ne m v hi.symm]
  exact hm.load_lt

/-- Writing a general register. -/
theorem safe_writeGP {i : ℕ} (h : i < numGPRegs) (v : Word) : Safe (writeReg i v) := by
  refine safe_writeReg (lt_numTotalRegs h) ?_ v
  simp only [numGPRegs] at h
  simp only [loadReg]
  omega

theorem applyLoad_linear {m : Machine} (h : m.Linear) (r v : Word) : (m.applyLoad r v).Linear :=
  ⟨h.tlb_none, h.pageTable_some⟩

/-- The tail of every trap: the pending load is applied, and the state is settled. -/
theorem safe_raiseException (which : ExceptionType) (badVAddr : Word) :
    Safe (raiseException which badVAddr : Exec α) := by
  refine Triple.bind (safe_writeReg (by decide) (by decide) badVAddr) fun _ m hm ↦ ?_
  rw [bind_of_ok (delayedLoad_eq (lt_numTotalRegs hm.load_lt) 0 0)]
  exact ⟨⟨which, rfl⟩, m.wellFormed_applyLoad (by decide) 0, applyLoad_linear hm.linear 0 0⟩

private theorem safe_physicalAddress (addr : Word) {size : ℕ}
    (hsize : size = 1 ∨ size = 2 ∨ size = 4)
    (writing : Bool) : Safe (physicalAddress addr size writing) := by
  intro m hm
  rw [physicalAddress]
  cases ht : m.translate addr size writing with
  | abort => exact absurd ht (translate_ne_abort hm.linear hsize writing)
  | exception which => exact safe_raiseException which addr m hm
  | success a tlb pageTable => exact ⟨hm.linear.translate ht, hm.load_lt⟩

theorem safe_readMem (addr : Word) {size : ℕ} (hsize : size = 1 ∨ size = 2 ∨ size = 4) :
    Safe (readMem addr size) := by
  refine (safe_physicalAddress addr hsize false).bind fun a m hm ↦ ?_
  rcases hsize with rfl | rfl | rfl <;> exact hm

private theorem safe_writeMem (addr : Word) {size : ℕ} (hsize : size = 1 ∨ size = 2 ∨ size = 4)
    (value : Word) : Safe (writeMem addr size value) := by
  refine (safe_physicalAddress addr hsize true).bind fun a m hm ↦ ?_
  rcases hsize with rfl | rfl | rfl <;>
    exact ⟨⟨hm.linear.tlb_none, hm.linear.pageTable_some⟩, hm.load_lt⟩

private theorem safe_shiftLeft (a : Word) {n : Word} (h : n.toNat < 32) : Safe (shiftLeft a n) := by
  rw [shiftLeft, if_pos h]
  exact Safe.pure _

private theorem safe_shiftRight (a : Word) {n : Word} (h : n.toNat < 32) :
    Safe (shiftRight a n) := by
  rw [shiftRight, if_pos h]
  exact Safe.pure _

end rules

/-! ## The families of cases -/

/-- The register fields are register numbers, as the decoder makes them. -/
structure Instruction.InRange (instr : Instruction) : Prop where
  rs_lt : instr.rs < numGPRegs
  rt_lt : instr.rt < numGPRegs
  rd_lt : instr.rd < numGPRegs

theorem decode_inRange (value : Word) : (decode value).InRange :=
  ⟨decode_rs_lt value, decode_rt_lt value, decode_rd_lt value⟩

section families

variable {instr : Instruction} (h : instr.InRange)

include h

theorem safe_readRs : Safe (readReg instr.rs) := safe_readReg (lt_numTotalRegs h.rs_lt)

theorem safe_readRt : Safe (readReg instr.rt) := safe_readReg (lt_numTotalRegs h.rt_lt)

private theorem safe_aluReg (f : Word → Word → Word) : Safe (aluReg instr f) :=
  (safe_readRs h).bind fun _ ↦ (safe_readRt h).bind fun _ ↦ safe_writeGP h.rd_lt _

private theorem safe_aluImm (f : Word → Word) : Safe (aluImm instr f) :=
  (safe_readRs h).bind fun _ ↦ safe_writeGP h.rt_lt _

private theorem safe_aluShift {shift : Word → Word → Exec Word} {n : Word}
    (hshift : ∀ a, Safe (shift a n)) : Safe (aluShift instr shift n) :=
  (safe_readRt h).bind fun a ↦ (hshift a).bind fun _ ↦ safe_writeGP h.rd_lt _

theorem safe_effectiveAddr : Safe (effectiveAddr instr) :=
  (safe_readRs h).bind fun _ ↦ Safe.pure _

private theorem safe_addTrapping : Safe (addTrapping instr) :=
  (safe_readRs h).bind fun _ ↦ (safe_readRt h).bind fun _ ↦
    Safe.ite (fun _ ↦ safe_raiseException _ _) fun _ ↦ safe_writeGP h.rd_lt _

private theorem safe_addImmTrapping : Safe (addImmTrapping instr) :=
  (safe_readRs h).bind fun _ ↦
    Safe.ite (fun _ ↦ safe_raiseException _ _) fun _ ↦ safe_writeGP h.rt_lt _

private theorem safe_subTrapping : Safe (subTrapping instr) :=
  (safe_readRs h).bind fun _ ↦ (safe_readRt h).bind fun _ ↦
    Safe.ite (fun _ ↦ safe_raiseException _ _) fun _ ↦ safe_writeGP h.rd_lt _

private theorem safe_multiply (signedArith : Bool) : Safe (multiply instr signedArith) :=
  (safe_readRs h).bind fun _ ↦ (safe_readRt h).bind fun _ ↦
    (safe_writeReg (by decide) (by decide) _).bind fun _ ↦ safe_writeReg (by decide) (by decide) _

private theorem safe_divideUnsigned : Safe (divideUnsigned instr) := by
  refine (safe_readRs h).bind fun a ↦ (safe_readRt h).bind fun b ↦ Safe.ite (fun _ ↦ ?_) fun hb ↦ ?_
  · exact (safe_writeReg (by decide) (by decide) _).bind fun _ ↦
      safe_writeReg (by decide) (by decide) _
  · rw [divUnsigned, modUnsigned, if_neg hb, if_neg hb]
    exact (Safe.pure _).bind fun _ ↦ (safe_writeReg (by decide) (by decide) _).bind fun _ ↦
      (Safe.pure _).bind fun _ ↦ safe_writeReg (by decide) (by decide) _

private theorem safe_loadByte : Safe (loadByte instr) :=
  (safe_effectiveAddr h).bind fun _ ↦ (safe_readMem _ (by decide)).bind fun _ ↦ Safe.pure _

private theorem safe_loadHalf : Safe (loadHalf instr) :=
  (safe_effectiveAddr h).bind fun _ ↦ Safe.ite (fun _ ↦ safe_raiseException _ _) fun _ ↦
    (safe_readMem _ (by decide)).bind fun _ ↦ Safe.pure _

private theorem safe_loadWord : Safe (loadWord instr) :=
  (safe_effectiveAddr h).bind fun _ ↦ Safe.ite (fun _ ↦ safe_raiseException _ _) fun _ ↦
    safe_readMem _ (by decide)

private theorem safe_mergeBase : Safe (mergeBase instr) :=
  (safe_readReg (by decide)).bind fun _ ↦
    Safe.ite (fun _ ↦ safe_readReg (by decide)) fun _ ↦ safe_readRt h

private theorem safe_loadUnaligned (merge : Word → Word → Word → Word) :
    Safe (loadUnaligned instr merge) :=
  (safe_effectiveAddr h).bind fun _ ↦ (safe_readMem _ (by decide)).bind fun _ ↦
    (safe_mergeBase h).bind fun _ ↦ Safe.pure _

private theorem safe_storeUnaligned (change : Word → Word → Word → Word) :
    Safe (storeUnaligned instr change) :=
  (safe_effectiveAddr h).bind fun _ ↦ (safe_readMem _ (by decide)).bind fun _ ↦
    (safe_readRt h).bind fun _ ↦ safe_writeMem _ (by decide) _

private theorem safe_storeAligned {size : ℕ} (hsize : size = 1 ∨ size = 2 ∨ size = 4) :
    Safe (storeAligned instr size) :=
  (safe_effectiveAddr h).bind fun _ ↦ (safe_readRt h).bind fun _ ↦ safe_writeMem _ hsize _

end families

private theorem safe_linkR31 : Safe linkR31 :=
  (safe_readReg (by decide)).bind fun _ ↦ safe_writeReg (by decide) (by decide) _

/-! ## The switch -/

/-- `x` is safe, and the load it leaves to be delayed is aimed at a general register. -/
def Yields (x : Exec Next) : Prop :=
  Triple Machine.Ready x (fun next m ↦ m.Ready ∧ next.loadTarget.toNat < numGPRegs) TrapsSettled

theorem Safe.yields {α : Type} {x : Exec α} {f : α → Exec Next} (hx : Safe x)
    (hf : ∀ a, Yields (f a)) : Yields (x >>= f) := Triple.bind hx hf

theorem yields_goto (pcAfter : Word) : Yields (pure (.goto pcAfter)) :=
  Triple.pure _ fun _ h ↦ ⟨h, Nat.succ_pos _⟩

private theorem yields_load {r : ℕ} (hr : r < numGPRegs) (value pcAfter : Word) :
    Yields (pure ⟨BitVec.ofNat 32 r, value, pcAfter⟩) := by
  refine Triple.pure _ fun _ h ↦ ⟨h, ?_⟩
  rw [BitVec.toNat_ofNat]
  exact Nat.lt_of_le_of_lt (Nat.mod_le _ _) hr

private theorem yields_raiseException (which : ExceptionType) (badVAddr : Word) :
    Yields (raiseException which badVAddr) := by
  intro m hm
  have := safe_raiseException (α := Next) which badVAddr m hm
  cases h : (raiseException which badVAddr : Exec Next) m with
  | ok a m' => exact absurd h raiseException_ne_ok
  | error e m' =>
    rw [h] at this
    exact this

private theorem safe_shift {shift : Word → Word → Exec Word}
    (hshift : shift = shiftLeft ∨ shift = shiftRight) (a : Word) {n : Word} (h : n.toNat < 32) :
    Safe (shift a n) := by
  rcases hshift with rfl | rfl
  · exact safe_shiftLeft a h
  · exact safe_shiftRight a h

theorem Yields.goto {α : Type} {x : Exec α} (hx : Safe x) (target : α → Word) :
    Yields (do let a ← x; return .goto (target a)) := hx.yields fun _ ↦ yields_goto _

theorem Yields.load {x : Exec Word} (hx : Safe x) {r : ℕ} (hr : r < numGPRegs) (pcAfter : Word) :
    Yields (do let value ← x; return ⟨BitVec.ofNat 32 r, value, pcAfter⟩) :=
  hx.yields fun _ ↦ yields_load hr _ _

/-- Every handled case other than `DIV` is safe. -/
private theorem yields_execute {instr : Instruction} (h : instr.InRange)
    (hop : instr.opCode.Handled)
    (hshift : instr.opCode.ShiftsByField → instr.extra.toNat < 32) (hdiv : instr.opCode ≠ .div)
    (nextPC : Word) : Yields (execute instr nextPC) := by
  have hbody := instr.execute_body nextPC
  generalize instr.sources = sources at hbody
  generalize instr.destination = destination at hbody
  generalize execute instr nextPC = x at hbody ⊢
  cases hbody with
  | addTrapping => exact Yields.goto (safe_addTrapping h) _
  | subTrapping => exact Yields.goto (safe_subTrapping h) _
  | addImmTrapping => exact Yields.goto (safe_addImmTrapping h) _
  | aluReg f => exact Yields.goto (safe_aluReg h f) _
  | aluImm f => exact Yields.goto (safe_aluImm h f) _
  | loadUpper => exact Yields.goto (safe_writeGP h.rt_lt _) _
  | shift hs hfield =>
    exact Yields.goto (safe_aluShift h fun a ↦ safe_shift hs a (hshift hfield)) _
  | shiftVar hs =>
    -- the variable shifts mask their amount, the ones by a field do not
    exact (safe_readRs h).yields fun n ↦
      Yields.goto (safe_aluShift h fun a ↦ safe_shift hs a (and_mask_toNat_lt n)) _
  | branchTwo target =>
    exact (safe_readRs h).yields fun a ↦ Yields.goto (safe_readRt h) (target a)
  | branchOne target => exact Yields.goto (safe_readRs h) target
  | branchLink target =>
    exact safe_linkR31.yields fun _ ↦ Yields.goto (safe_readRs h) target
  | jump target => exact yields_goto target
  | jumpLink target => exact Yields.goto safe_linkR31 _
  | jumpLinkReg =>
    exact (safe_writeGP h.rd_lt _).yields fun _ ↦ Yields.goto (safe_readRs h) id
  | divide hop => exact absurd hop hdiv
  | divideUnsigned => exact Yields.goto (safe_divideUnsigned h) _
  | multiply signedArith => exact Yields.goto (safe_multiply h signedArith) _
  | moveFrom hr =>
    refine (safe_readReg ?_).yields fun _ ↦ Yields.goto (safe_writeGP h.rd_lt _) _
    rcases hr with rfl | rfl <;> decide
  | moveTo hr =>
    refine (safe_readRs h).yields fun a ↦ Yields.goto (safe_writeReg ?_ ?_ a) _
    · rcases hr with rfl | rfl <;> decide
    · rcases hr with rfl | rfl <;> decide
  | loadByte => exact Yields.load (safe_loadByte h) h.rt_lt _
  | loadHalf => exact Yields.load (safe_loadHalf h) h.rt_lt _
  | loadWord => exact Yields.load (safe_loadWord h) h.rt_lt _
  | loadUnaligned merge _ => exact Yields.load (safe_loadUnaligned h merge) h.rt_lt _
  | storeAligned hsize => exact Yields.goto (safe_storeAligned h hsize) _
  | storeUnaligned change => exact Yields.goto (safe_storeUnaligned h change) _
  | trap which => exact yields_raiseException which 0
  | unhandled hnot => exact absurd hop hnot

/-! ## Division -/

/-- The instruction is the `DIV` of the most negative `int` by `-1`. -/
def Instruction.DivOverflows (instr : Instruction) (m : Machine) : Prop :=
  instr.opCode = .div ∧ m.registers instr.rs = intMin ∧ m.registers instr.rt = -1

instance (instr : Instruction) (m : Machine) : Decidable (instr.DivOverflows m) :=
  inferInstanceAs (Decidable (_ ∧ _ ∧ _))

/-- After its operands are read, `DIV` depends on them alone. -/
private theorem divide_run {instr : Instruction} (h : instr.InRange) (m : Machine) :
    divide instr m =
      (if m.registers instr.rt = 0 then do
        writeReg loReg 0
        writeReg hiReg 0
      else do
        let q ← divInt (m.registers instr.rs) (m.registers instr.rt)
        writeReg loReg q
        let r ← modInt (m.registers instr.rs) (m.registers instr.rt)
        writeReg hiReg r) m := by
  rw [divide, bind_of_ok (readReg_of_lt (lt_numTotalRegs h.rs_lt) m),
    bind_of_ok (readReg_of_lt (lt_numTotalRegs h.rt_lt) m)]

/-- Away from the overflowing pair `DIV` is as safe as the rest. -/
private theorem yields_div {instr : Instruction} (h : instr.InRange) (hop : instr.opCode = .div)
    (nextPC : Word) :
    Triple (fun m ↦ m.Ready ∧ ¬instr.DivOverflows m) (execute instr nextPC)
      (fun next m ↦ m.Ready ∧ next.loadTarget.toNat < numGPRegs) TrapsSettled := by
  simp only [execute, hop]
  refine Triple.bind (Q := fun _ ↦ Machine.Ready) ?_ fun _ ↦ yields_goto _
  rintro m ⟨hm, hdiv⟩
  rw [divide_run h]
  refine Safe.ite (fun _ ↦ ?_) (fun hb ↦ ?_) m hm
  · exact (safe_writeReg (by decide) (by decide) _).bind fun _ ↦
      safe_writeReg (by decide) (by decide) _
  · have htraps : ¬DivTraps (m.registers instr.rs) (m.registers instr.rt) := by
      rintro (hzero | hover)
      · exact hb hzero
      · exact hdiv ⟨hop, hover⟩
    rw [divInt, modInt, if_neg htraps, if_neg htraps]
    exact (Safe.pure _).bind fun _ ↦ (safe_writeReg (by decide) (by decide) _).bind fun _ ↦
      (Safe.pure _).bind fun _ ↦ safe_writeReg (by decide) (by decide) _

private theorem execute_divOverflows {instr : Instruction} (h : instr.InRange) {m : Machine}
    (hdiv : instr.DivOverflows m) (nextPC : Word) :
    execute instr nextPC m = .error (.fault .division) m := by
  obtain ⟨hop, hrs, hrt⟩ := hdiv
  have hne : m.registers instr.rt ≠ 0 := by
    rw [hrt]
    decide
  have htraps : DivTraps (m.registers instr.rs) (m.registers instr.rt) := Or.inr ⟨hrs, hrt⟩
  simp only [execute, hop]
  refine bind_of_error ?_
  rw [divide_run h, if_neg hne]
  refine bind_of_error ?_
  rw [divInt, if_pos htraps]
  rfl

/-! ## Whole instructions -/

/-- The program counters moved on by one instruction. -/
def Machine.advance (m : Machine) (pcAfter : Word) : Machine :=
  ((m.setReg prevPCReg (m.registers pcReg)).setReg pcReg (m.registers nextPCReg)).setReg nextPCReg
    pcAfter

theorem Machine.advance_registers_of_ne (m : Machine) (pcAfter : Word) {i : ℕ}
    (hprev : i ≠ prevPCReg)
    (hpc : i ≠ pcReg) (hnext : i ≠ nextPCReg) :
    (m.advance pcAfter).registers i = m.registers i := by
  rw [Machine.advance, Machine.setReg_registers_of_ne _ _ hnext,
    Machine.setReg_registers_of_ne _ _ hpc, Machine.setReg_registers_of_ne _ _ hprev]

theorem finish_eq {m : Machine} (h : (m.registers loadReg).toNat < numTotalRegs) (next : Next) :
    finish next m
      = .ok () ((m.applyLoad next.loadTarget next.loadValue).advance next.pcAfter) := by
  rw [finish, bind_of_ok (delayedLoad_eq h _ _), bind_of_ok (readReg_of_lt (by decide) _),
    bind_of_ok (writeReg_of_lt (by decide) _ _), bind_of_ok (readReg_of_lt (by decide) _),
    bind_of_ok (writeReg_of_lt (by decide) _ _), writeReg_of_lt (by decide)]
  rfl

theorem Machine.Settled.advance {m : Machine} (h : m.Settled) (pcAfter : Word) :
    (m.advance pcAfter).Settled := by
  refine ⟨⟨?_, ?_⟩, ⟨h.linear.tlb_none, h.linear.pageTable_some⟩⟩
  · simpa [Machine.advance, Machine.setReg_registers] using h.zero
  · simpa [Machine.advance, Machine.setReg_registers] using h.load_lt

private theorem triple_finish (next : Next) :
    Triple (fun m ↦ m.Ready ∧ next.loadTarget.toNat < numGPRegs) (finish next)
      (fun _ ↦ Machine.Settled) TrapsSettled := by
  rintro m ⟨hm, hnext⟩
  rw [finish_eq (lt_numTotalRegs hm.load_lt)]
  exact Machine.Settled.advance
    ⟨m.wellFormed_applyLoad hnext _, applyLoad_linear hm.linear _ _⟩ _

/-- From a ready state an instruction that is no overflowing `DIV` ends, or traps, settled. -/
private theorem triple_runInstruction (w : Word) :
    Triple (fun m ↦ m.Ready ∧ ¬(decode w).DivOverflows m) (runInstruction (decode w))
      (fun _ ↦ Machine.Settled) TrapsSettled := by
  rintro m ⟨hm, hdiv⟩
  rw [runInstruction, bind_of_ok (readReg_of_lt (by decide) m)]
  refine Triple.bind (P := fun m ↦ m.Ready ∧ ¬(decode w).DivOverflows m) ?_ triple_finish m
    ⟨hm, hdiv⟩
  by_cases hop : (decode w).opCode = .div
  · exact yields_div (decode_inRange w) hop _
  · exact fun m hm ↦ yields_execute (decode_inRange w) (decode_handled w) decode_extra_lt hop _ m
      hm.1

/-- No host fault: the run of `x` from `m` returns or traps. -/
def NoFault {α : Type} (x : Exec α) (m : Machine) : Prop := ∀ f m', x m ≠ .error (.fault f) m'

private theorem noFault_of_triple {α : Type} {x : Exec α} {P : Machine → Prop}
    {Q : α → Machine → Prop}
    {m : Machine} (h : Triple P x Q TrapsSettled) (hm : P m) : NoFault x m := by
  intro f m' hx
  obtain ⟨⟨which, hwhich⟩, -⟩ := h.of_error hm hx
  cases hwhich

private theorem noFault_runInstruction_iff {m : Machine} (hm : m.Ready) (w : Word) :
    NoFault (runInstruction (decode w)) m ↔ ¬(decode w).DivOverflows m := by
  constructor
  · intro h hdiv
    refine h .division m ?_
    rw [runInstruction, bind_of_ok (readReg_of_lt (by decide) m)]
    exact bind_of_error (execute_divOverflows (decode_inRange w) hdiv _)
  · intro h
    exact noFault_of_triple (triple_runInstruction w) ⟨hm, h⟩

private theorem safe_fetch : Safe fetch :=
  (safe_readReg (by decide)).bind fun _ ↦ safe_readMem _ (by decide)

theorem fetch_registers {m m' : Machine} {raw : Word} (h : fetch m = .ok raw m') :
    m'.registers = m.registers := by
  rw [fetch, bind_of_ok (readReg_of_lt (by decide) m)] at h
  obtain ⟨_, _, _, -, rfl⟩ := readMem_eq_ok h
  rfl

/-- The instruction at the program counter is the overflowing `DIV`. -/
def Machine.AtDivOverflow (m : Machine) : Prop :=
  ∃ raw m', fetch m = .ok raw m' ∧ (decode raw).DivOverflows m

/-- A settled machine settles again after its instruction, whether it completes or traps, unless
that instruction is the overflowing `DIV`. -/
theorem triple_oneInstruction :
    Triple (fun m ↦ m.Settled ∧ ¬m.AtDivOverflow) oneInstruction (fun _ ↦ Machine.Settled)
      TrapsSettled := by
  rintro m ⟨hm, hdiv⟩
  have hfetch := safe_fetch m hm.ready
  rw [oneInstruction, bind_apply]
  cases h : fetch m with
  | ok raw m' =>
    rw [h] at hfetch
    refine triple_runInstruction raw m' ⟨hfetch, fun hd ↦ hdiv ⟨raw, m', h, ?_⟩⟩
    rw [Instruction.DivOverflows, fetch_registers h] at hd
    exact hd
  | error e m' =>
    rw [h] at hfetch
    exact hfetch

private theorem noFault_oneInstruction_iff {m : Machine} (hm : m.Settled) :
    NoFault oneInstruction m ↔ ¬m.AtDivOverflow := by
  constructor
  · rintro h ⟨raw, m', hfetch, hdiv⟩
    have hready : m'.Ready := (safe_fetch).of_ok hm.ready hfetch
    have hdiv' : (decode raw).DivOverflows m' := by
      rw [Instruction.DivOverflows, fetch_registers hfetch]
      exact hdiv
    refine (noFault_runInstruction_iff hready raw).mp ?_ hdiv'
    intro f m'' hrun
    exact h f m'' (by rw [oneInstruction, bind_of_ok hfetch, hrun])
  · intro h
    exact noFault_of_triple triple_oneInstruction ⟨hm, h⟩

/-! ## Runs of user programs -/

/-- What a return from the kernel may have changed: the result register, the program counters,
memory, and the tables, which stay linear. -/
structure KernelReturn (m m' : Machine) : Prop where
  registers : ∀ i, i ≠ 2 → i ≠ pcReg → i ≠ nextPCReg → i ≠ prevPCReg →
    m'.registers i = m.registers i
  linear : m'.Linear

/-- The machine states between two instructions of a user program, over any memory contents and
any page table: the program runs, is interrupted, and traps into the kernel and back. -/
inductive UserReachable : Machine → Prop
  | start (numPages : Word) (mainMemory : ℕ → Byte) (pageTable : ℕ → TranslationEntry) :
      UserReachable (Machine.start numPages mainMemory pageTable)
  | step {m m' : Machine} : UserReachable m → oneInstruction m = .ok () m' → UserReachable m'
  | interrupt {m m' : Machine} : UserReachable m → delayedLoad 0 0 m = .ok () m' → UserReachable m'
  | trap {m m' m'' : Machine} {which : ExceptionType} : UserReachable m →
      oneInstruction m = .error (.trap which) m' → KernelReturn m' m'' → UserReachable m''

theorem settled_start (numPages : Word) (mainMemory : ℕ → Byte)
    (pageTable : ℕ → TranslationEntry) :
    (Machine.start numPages mainMemory pageTable).Settled := by
  refine ⟨⟨?_, ?_⟩, ⟨rfl, _, rfl⟩⟩ <;> simp [Machine.start, initRegisters]

theorem KernelReturn.settled {m m' : Machine} (h : KernelReturn m m') (hm : m.Settled) :
    m'.Settled := by
  refine ⟨⟨?_, ?_⟩, h.linear⟩
  · rw [h.registers 0 (by decide) (by decide) (by decide) (by decide)]
    exact hm.zero
  · rw [h.registers loadReg (by decide) (by decide) (by decide) (by decide)]
    exact hm.load_lt

/-- A completed or trapping instruction was no overflowing `DIV`. -/
theorem not_atDivOverflow {m : Machine} (hm : m.Settled)
    (h : ∀ f m', oneInstruction m ≠ .error (.fault f) m') : ¬m.AtDivOverflow :=
  (noFault_oneInstruction_iff hm).mp h

/-- Every reachable state is settled. -/
theorem UserReachable.settled {m : Machine} (h : UserReachable m) : m.Settled := by
  induction h with
  | start numPages mainMemory pageTable => exact settled_start numPages mainMemory pageTable
  | @step m m' _ hstep ih =>
    have hdiv : ¬m.AtDivOverflow :=
      not_atDivOverflow ih fun f m'' hf ↦ by rw [hstep] at hf; cases hf
    exact triple_oneInstruction.of_ok ⟨ih, hdiv⟩ hstep
  | @interrupt m m' _ hload ih =>
    rw [delayedLoad_eq (lt_numTotalRegs ih.load_lt)] at hload
    cases hload
    exact ⟨m.wellFormed_applyLoad (by decide) 0, applyLoad_linear ih.linear 0 0⟩
  | @trap m m' m'' which _ htrap hreturn ih =>
    have hdiv : ¬m.AtDivOverflow :=
      not_atDivOverflow ih fun f m'' hf ↦ by rw [htrap] at hf; cases hf
    exact hreturn.settled (triple_oneInstruction.of_error ⟨ih, hdiv⟩ htrap).2

/-- **Interpreter safety.** In every reachable state register 0 is zero and the pending load is
aimed at a general register; whatever the instruction word, executing it causes no host fault
exactly when it is not the overflowing `DIV`, and so for the instruction at the program counter. -/
theorem userReachable_noFault_iff {m : Machine} (h : UserReachable m) :
    (m.registers 0 = 0 ∧ (m.registers loadReg).toNat < numGPRegs) ∧
      (∀ w, NoFault (runInstruction (decode w)) m ↔ ¬(decode w).DivOverflows m) ∧
      (NoFault oneInstruction m ↔ ¬m.AtDivOverflow) :=
  ⟨⟨h.settled.zero, h.settled.load_lt⟩, noFault_runInstruction_iff h.settled.ready,
    noFault_oneInstruction_iff h.settled⟩

/-! ## Programs on a machine -/

/-- A program laid out from address zero. -/
def programImage (program : List Word) : ℕ → Byte :=
  fun a ↦ wordByte (program.getD (a / 4) 0) (a % 4)

/-- One-to-one page table, everything writable. -/
def identityPageTable : ℕ → TranslationEntry := fun i ↦
  { virtualPage := BitVec.ofNat 32 i, physicalPage := BitVec.ofNat 32 i, valid := true,
    readOnly := false, used := false, dirty := false }

/-- The state after `x`, or the one it stopped in. -/
def Machine.after (m : Machine) (x : Exec Unit) : Machine :=
  match x m with
  | .ok _ m' => m'
  | .error _ m' => m'

/-- Does `x` return? -/
def Machine.returns {α : Type} (m : Machine) (x : Exec α) : Bool :=
  match x m with
  | .ok _ _ => true
  | .error _ _ => false

theorem run_of_returns {m : Machine} {x : Exec Unit} (h : m.returns x = true) :
    x m = .ok () (m.after x) := by
  rw [Machine.returns] at h
  rw [Machine.after]
  split at h
  · rename_i hx
    rw [hx]
  · cases h

/-- The word fetched, zero if there is none. -/
def Machine.fetched (m : Machine) : Word :=
  match fetch m with
  | .ok raw _ => raw
  | .error _ _ => 0

theorem fetch_eq_fetched {m : Machine} {raw : Word} (h : m.returns fetch = true)
    (hraw : m.fetched = raw) : ∃ mf, fetch m = .ok raw mf := by
  rw [Machine.returns] at h
  rw [Machine.fetched] at hraw
  split at h
  · rename_i raw' mf hx
    rw [hx] at hraw
    cases hraw
    exact ⟨mf, hx⟩
  · cases h

/-! ## The failing program -/

/-- Do the next `n` instructions complete and the one after them bring the host down? -/
def Machine.faultsAfter : ℕ → Machine → Bool
  | 0, m => match oneInstruction m with
    | .error (.fault _) _ => true
    | _ => false
  | n + 1, m => match oneInstruction m with
    | .ok _ m' => m'.faultsAfter n
    | .error _ _ => false

private theorem exists_fault_of_faultsAfter {n : ℕ} {m : Machine} (hm : UserReachable m)
    (h : m.faultsAfter n = true) : ∃ m', UserReachable m' ∧ ¬NoFault oneInstruction m' := by
  induction n generalizing m with
  | zero =>
    rw [Machine.faultsAfter] at h
    split at h
    · rename_i f m' hf
      exact ⟨m, hm, fun hn ↦ hn f m' hf⟩
    · cases h
  | succ n ih =>
    rw [Machine.faultsAfter] at h
    split at h
    · rename_i u m' hstep
      exact ih (hm.step hstep) h
    · cases h

/-- `lui r1, 0x8000; addiu r2, r0, -1; div r1, r2`. -/
def divProgram : Machine :=
  Machine.start 16 (programImage [0x3C018000, 0x2402FFFF, 0x0022001A]) identityPageTable

/-- Three instructions of a user program are enough to bring the simulator down. -/
theorem divProgram_faults : ¬∀ m, UserReachable m → NoFault oneInstruction m := by
  intro h
  have hfaults : divProgram.faultsAfter 2 = true := by decide +kernel
  obtain ⟨m, hm, hfault⟩ := exists_fault_of_faultsAfter (UserReachable.start _ _ _) hfaults
  exact hfault (h m hm)

/-- A state the general theorem applies to: the program above, about to start. -/
theorem divProgram_start_noFault :
    UserReachable divProgram ∧
      ((divProgram.registers 0 = 0 ∧ (divProgram.registers loadReg).toNat < numGPRegs) ∧
        (∀ w, NoFault (runInstruction (decode w)) divProgram ↔
          ¬(decode w).DivOverflows divProgram) ∧
        (NoFault oneInstruction divProgram ↔ ¬divProgram.AtDivOverflow)) :=
  ⟨UserReachable.start _ _ _, userReachable_noFault_iff (UserReachable.start _ _ _)⟩

end Nachos
