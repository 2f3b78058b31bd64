import Nachos.Machine.DelayedLoad

/-!
# When an interrupt fires between a load and the next instruction

The two runs that are compared start in the same state, with a load to `r` pending. `direct`
executes the instruction and then drains whatever load is still pending; `interrupted` first takes
an interrupt, which is where `Interrupt::CheckIfDue` calls `DelayedLoad(0, 0)`, and then does the
same.

If the instruction leaves `r` alone, taking the interrupt is a change of registers that the
instruction commutes with, and its tail forgets it: the runs end in one and the same state. If it
writes `r`, then whatever was loaded, `direct` ends with the loaded value in `r` and `interrupted`
with the value the instruction computed, which does not depend on the loaded one.
-/

namespace Nachos

open Program

/-! ## The two runs -/

/-- Execute, then drain the pending load. -/
def direct : Exec Unit := do
  oneInstruction
  delayedLoad 0 0

/-- Take an interrupt, then execute and drain. -/
def interrupted : Exec Unit := do
  delayedLoad 0 0
  direct

/-- Agreement on everything a user program can see. -/
structure SameForUser (m m' : Machine) : Prop where
  general : ∀ i < numGPRegs, m.registers i = m'.registers i
  hi : m.registers hiReg = m'.registers hiReg
  lo : m.registers loReg = m'.registers loReg
  pc : m.registers pcReg = m'.registers pcReg
  nextPC : m.registers nextPCReg = m'.registers nextPCReg
  mainMemory : m.mainMemory = m'.mainMemory

theorem SameForUser.refl (m : Machine) : SameForUser m m :=
  ⟨fun _ _ ↦ rfl, rfl, rfl, rfl, rfl, rfl⟩

/-- Unless the next instruction traps, a program in state `m` cannot tell whether an interrupt
was taken before it. -/
def Machine.InterruptInvisible (m : Machine) : Prop :=
  ∀ m₁, direct m = .ok () m₁ → ∃ m₂, interrupted m = .ok () m₂ ∧ SameForUser m₁ m₂

/-! ## Applying the pending load early -/

/-- The load `r := v` is pending. -/
structure Pending (r : ℕ) (v : Word) (ρ : ℕ → Word) : Prop where
  target : ρ loadReg = BitVec.ofNat 32 r
  value : ρ loadValueReg = v

/-- The pending load dropped. -/
def forgetLoad (ρ : ℕ → Word) : ℕ → Word :=
  Function.update (Function.update ρ loadReg 0) loadValueReg 0

/-- The load `r := v` applied and no other made pending. -/
def drainRegs (r : ℕ) (v : Word) (ρ : ℕ → Word) : ℕ → Word := putReg r v (forgetLoad ρ)

theorem drainRegs_apply (r : ℕ) (v : Word) (ρ : ℕ → Word) (i : ℕ) :
    drainRegs r v ρ i =
      if i = r then v else if i = loadValueReg then 0 else if i = loadReg then 0 else ρ i := by
  simp only [drainRegs, putReg, forgetLoad, Function.update_apply]

theorem toNat_ofNat_reg {r : ℕ} (hr : r < numGPRegs) : (BitVec.ofNat 32 r).toNat = r :=
  toNat_ofNat_of_lt (Nat.lt_trans hr (by decide))

theorem Pending.load_lt {r : ℕ} {v : Word} {m : Machine} (h : Pending r v m.registers)
    (hr : r < numGPRegs) : (m.registers loadReg).toNat < numTotalRegs := by
  rw [h.target, toNat_ofNat_reg hr]
  exact lt_numTotalRegs hr

theorem movesOnly_forgetLoad {r : ℕ} {v : Word} :
    MovesOnly (Pending r v) forgetLoad (fun i ↦ i = loadReg ∨ i = loadValueReg) where
  read ρ i hi := by
    rw [not_or] at hi
    rw [forgetLoad, Function.update_of_ne hi.2, Function.update_of_ne hi.1]
  write ρ i w hi := by
    rw [not_or] at hi
    rw [forgetLoad, forgetLoad, Function.update_comm hi.1, Function.update_comm hi.2]
  keep ρ i w hi h := by
    rw [not_or] at hi
    constructor
    · rw [Function.update_of_ne (Ne.symm hi.1)]
      exact h.target
    · rw [Function.update_of_ne (Ne.symm hi.2)]
      exact h.value

private theorem movesOnly_drainRegs (r : ℕ) (v : Word) :
    MovesOnly (Pending r v) (drainRegs r v)
      (fun i ↦ i = r ∨ i = loadReg ∨ i = loadValueReg) where
  read ρ i hi := by
    rw [not_or] at hi
    have hforget := (movesOnly_forgetLoad (r := r) (v := v)).read ρ i hi.2
    rw [drainRegs, putReg, Function.update_of_ne hi.1, hforget]
  write ρ i w hi := by
    rw [not_or] at hi
    have hforget := (movesOnly_forgetLoad (r := r) (v := v)).write ρ i w hi.2
    rw [drainRegs, drainRegs, hforget, putReg, Function.update_comm hi.1]
  keep ρ i w hi h := by
    rw [not_or] at hi
    exact movesOnly_forgetLoad.keep ρ i w hi.2 h

section pending

variable {r : ℕ} {v : Word} (hr : r < numGPRegs) (hr0 : r ≠ 0)

include hr

theorem Pending.applyLoad_apply {m : Machine} (h : Pending r v m.registers)
    (nextReg nextValue : Word) (i : ℕ) :
    (m.applyLoad nextReg nextValue).registers i =
      if i = 0 then 0 else if i = loadValueReg then nextValue else if i = loadReg then nextReg
      else if i = r then v else m.registers i := by
  rw [Machine.applyLoad_registers, h.target, h.value, toNat_ofNat_reg hr]

/-- The tail of an instruction forgets whether the load was applied early. -/
theorem Pending.applyLoad_drained {m : Machine} (h : Pending r v m.registers)
    (nextReg nextValue : Word) :
    (m.mapRegs (drainRegs r v)).applyLoad nextReg nextValue = m.applyLoad nextReg nextValue := by
  have hregs : ((m.mapRegs (drainRegs r v)).applyLoad nextReg nextValue).registers
      = (m.applyLoad nextReg nextValue).registers := by
    funext i
    rw [h.applyLoad_apply hr, Machine.applyLoad_registers]
    simp only [Machine.mapRegs, drainRegs_apply, numGPRegs, loadReg, loadValueReg] at hr ⊢
    grind
  calc (m.mapRegs (drainRegs r v)).applyLoad nextReg nextValue
      = { m with
          registers := ((m.mapRegs (drainRegs r v)).applyLoad nextReg nextValue).registers } := rfl
    _ = m.applyLoad nextReg nextValue := by rw [hregs]; rfl

include hr0

/-- Taking the interrupt is the change of registers `drainRegs r v`. -/
theorem Pending.applyLoad_eq {m : Machine} (h : Pending r v m.registers)
    (hzero : m.registers 0 = 0) : m.applyLoad 0 0 = m.mapRegs (drainRegs r v) := by
  have hregs : (m.applyLoad 0 0).registers = drainRegs r v m.registers := by
    funext i
    rw [h.applyLoad_apply hr, drainRegs_apply]
    simp only [numGPRegs, loadReg, loadValueReg] at hr ⊢
    by_cases hi : i = r
    · simp [hi, hr0, show r ≠ 38 by omega, show r ≠ 37 by omega]
    · by_cases hi0 : i = 0
      · simp [hi0, hzero, hr0.symm]
      · simp [hi, hi0]
  calc m.applyLoad 0 0 = { m with registers := (m.applyLoad 0 0).registers } := rfl
    _ = m.mapRegs (drainRegs r v) := by rw [hregs, Machine.mapRegs]

end pending

/-! ## The instruction between -/

theorem decode_sources_lt {value : Word} {i : ℕ} (h : i ∈ (decode value).sources) :
    i < numGPRegs := by
  have hrs := decode_rs_lt value
  have hrt := decode_rt_lt value
  cases hc : (decode value).opCode <;> simp only [Instruction.sources, hc] at h <;>
    simp only [List.mem_cons, List.not_mem_nil, or_false] at h <;> grind

theorem decode_destination_lt {value : Word} {i : ℕ} (h : i ∈ (decode value).destination) :
    i < numGPRegs := by
  have hrt := decode_rt_lt value
  have hrd := decode_rd_lt value
  cases hc : (decode value).opCode <;> simp only [Instruction.destination, hc] at h <;> grind

theorem mergeBase_eq {instr : Instruction} (hrt : instr.rt < numGPRegs) (m : Machine) :
    mergeBase instr m = .ok (if m.registers loadReg = BitVec.ofNat 32 instr.rt
      then m.registers loadValueReg else m.registers instr.rt) m := by
  rw [mergeBase, bind_of_ok (readReg_of_lt (by decide) m)]
  split
  · rw [readReg_of_lt (by decide)]
  · rw [readReg_of_lt (lt_numTotalRegs hrt)]

/-- `LWL` and `LWR` find the same value to merge into: before the interrupt in the pending load,
after it in the register. -/
private theorem commutes_mergeBase {instr : Instruction} {r : ℕ} {v : Word} (hr : r < numGPRegs)
    (hr0 : r ≠ 0) (hrt : instr.rt < numGPRegs) :
    Commutes (fun ρ ↦ Pending r v ρ ∧ ρ 0 = 0) (drainRegs r v) (mergeBase instr) := by
  rintro m ⟨hpending, hzero⟩ a m' h
  rw [mergeBase_eq hrt] at h
  cases h
  refine ⟨⟨hpending, hzero⟩, ?_⟩
  rw [mergeBase_eq hrt]
  congr 1
  have hinj : BitVec.ofNat 32 r = BitVec.ofNat 32 instr.rt → r = instr.rt := fun heq ↦ by
    rw [← toNat_ofNat_reg hr, heq, toNat_ofNat_reg hrt]
  have hinj0 : (0 : Word) = BitVec.ofNat 32 instr.rt → instr.rt = 0 := fun heq ↦ by
    rw [← toNat_ofNat_reg hrt, ← heq]
    rfl
  simp only [Machine.mapRegs, drainRegs_apply, hpending.target, hpending.value, numGPRegs, loadReg,
    loadValueReg] at hr hrt ⊢
  simp only [show 37 ≠ r by omega, show 38 ≠ r by omega, show instr.rt ≠ 38 by omega,
    show instr.rt ≠ 37 by omega, show 37 ≠ 38 by decide, if_false, if_true]
  by_cases hsame : instr.rt = r
  · have hne : (0 : Word) ≠ BitVec.ofNat 32 instr.rt := fun heq ↦ hr0 (hsame ▸ hinj0 heq)
    rw [if_neg hne, if_pos hsame, if_pos (by rw [hsame])]
  · have hne : BitVec.ofNat 32 r ≠ BitVec.ofNat 32 instr.rt := fun heq ↦ hsame (hinj heq).symm
    rw [if_neg hsame, if_neg hne]
    by_cases hrt0 : (0 : Word) = BitVec.ofNat 32 instr.rt
    · rw [if_pos hrt0, hinj0 hrt0, hzero]
    · rw [if_neg hrt0]

section execute

variable {raw : Word} {r : ℕ} {v : Word} (hsrc : r ∉ (decode raw).sources) (hr : r < numGPRegs)

private theorem sparesSpecial_of_lt {K : ℕ → Prop} (hr : r < numGPRegs)
    (hK : ∀ i, K i → i = r ∨ i = loadReg ∨ i = loadValueReg) : SparesSpecial K := by
  constructor <;> intro hi <;> have := hK _ hi <;> simp at * <;> omega

include hsrc hr

/-- An instruction that neither reads nor writes `r` commutes with applying the load to `r`. -/
private theorem execute_drained (hr0 : r ≠ 0) (hdst : (decode raw).destination ≠ some r)
    {m m' : Machine} (hpending : Pending r v m.registers) (hzero : m.registers 0 = 0)
    {nextPC : Word} {next : Next} (h : execute (decode raw) nextPC m = .ok next m') :
    Pending r v m'.registers ∧
      execute (decode raw) nextPC (m.mapRegs (drainRegs r v))
        = .ok next (m'.mapRegs (drainRegs r v)) := by
  have hsrc' : ∀ i ∈ (decode raw).sources, ¬(i = r ∨ i = loadReg ∨ i = loadValueReg) := by
    intro i hi
    have hlt := decode_sources_lt hi
    have hne : i ≠ r := fun heq ↦ hsrc (heq ▸ hi)
    simp only [numGPRegs, loadReg, loadValueReg] at *
    omega
  have hdst' : ∀ i ∈ (decode raw).destination, ¬(i = r ∨ i = loadReg ∨ i = loadValueReg) := by
    intro i hi
    have hlt := decode_destination_lt hi
    have hne : i ≠ r := fun heq ↦ hdst (heq ▸ hi)
    simp only [numGPRegs, loadReg, loadValueReg] at *
    omega
  have hmoves := movesOnly_drainRegs r v
  by_cases hunaligned : (decode raw).opCode = .lwl ∨ (decode raw).opCode = .lwr
  · -- the merge needs register 0 to be zero, and nothing is written before it
    have hmerge := commutes_mergeBase (v := v) hr hr0 (decode_rt_lt raw)
    have hrs : Commutes (fun ρ ↦ Pending r v ρ ∧ ρ 0 = 0) (drainRegs r v)
        (readReg (decode raw).rs) := by
      refine commutes_readReg_of_eq fun ρ ↦ hmoves.read ρ _ (hsrc' _ ?_)
      rcases hunaligned with hc | hc <;> simp [Instruction.sources, hc]
    have hcomm : Commutes (fun ρ ↦ Pending r v ρ ∧ ρ 0 = 0) (drainRegs r v)
        (execute (decode raw) nextPC) := by
      rcases hunaligned with hc | hc <;> simp only [execute, hc] <;>
        exact (commutes_loadUnaligned hrs hmerge _).bind fun _ ↦ Simulates.pure _
    obtain ⟨⟨hpending', -⟩, hrun⟩ := hcomm m ⟨hpending, hzero⟩ next m' h
    exact ⟨hpending', hrun⟩
  · exact commutes_execute hmoves (sparesSpecial_of_lt hr fun _ hi ↦ hi) hsrc' hdst'
      (fun hc ↦ absurd hc hunaligned) nextPC m hpending next m' h

/-- An instruction that writes `r` without reading it computes the same, whatever was in `r` and
whether or not a load is pending. -/
private theorem execute_overwritten (hdst : (decode raw).destination = some r) {m m' : Machine}
    (hpending : Pending r v m.registers) {nextPC : Word} {next : Next}
    (h : execute (decode raw) nextPC m = .ok next m') :
    Pending r v m'.registers ∧
      ∀ u, execute (decode raw) nextPC (m.mapRegs (drainRegs r u))
        = .ok next (m'.mapRegs forgetLoad) := by
  have hspare : ∀ i < numGPRegs, ¬(i = loadReg ∨ i = loadValueReg) := by
    intro i hi
    simp only [numGPRegs, loadReg, loadValueReg] at *
    omega
  have hcomm : Commutes (Pending r v) forgetLoad (execute (decode raw) nextPC) := by
    refine commutes_execute movesOnly_forgetLoad (sparesSpecial_of_lt hr fun _ hi ↦ Or.inr hi)
      (fun i hi ↦ hspare i (decode_sources_lt hi)) (fun i hi ↦ hspare i (decode_destination_lt hi))
      (fun hc ↦ ?_) nextPC
    rcases hc with hc | hc <;> simp [Instruction.destination, hc] at hdst
  obtain ⟨hpending', hrun⟩ := hcomm m hpending next m' h
  exact ⟨hpending', fun u ↦ (overwrites_execute hdst hsrc hr nextPC _ trivial next _ hrun).2⟩

end execute

/-! ## Whole instructions -/

private theorem commutes_fetch {p : (ℕ → Word) → Prop} {F : (ℕ → Word) → ℕ → Word}
    (hF : ∀ ρ, F ρ pcReg = ρ pcReg) : Commutes p F fetch :=
  (commutes_readReg_of_eq hF).bind fun _ ↦ simulates_readMem _ _

theorem oneInstruction_eq_ok {m m₁ : Machine} {u : Unit} :
    oneInstruction m = .ok u m₁ ↔ ∃ raw mf next m', fetch m = .ok raw mf ∧
      execute (decode raw) (mf.registers nextPCReg) mf = .ok next m' ∧
      finish next m' = .ok u m₁ := by
  constructor
  · intro h
    obtain ⟨raw, mf, hfetch, h⟩ := bind_eq_ok.mp h
    rw [runInstruction, bind_of_ok (readReg_of_lt (by decide) mf)] at h
    obtain ⟨next, m', hexec, hfinish⟩ := bind_eq_ok.mp h
    exact ⟨raw, mf, next, m', hfetch, hexec, hfinish⟩
  · rintro ⟨raw, mf, next, m', hfetch, hexec, hfinish⟩
    rw [oneInstruction, bind_of_ok hfetch, runInstruction,
      bind_of_ok (readReg_of_lt (by decide) mf), bind_of_ok hexec, hfinish]

section instruction

variable {m mf : Machine} {raw : Word} {r : ℕ} {v : Word} (hfetch : fetch m = .ok raw mf)
  (hsrc : r ∉ (decode raw).sources) (hr : r < numGPRegs) (hr0 : r ≠ 0)
  (hpending : Pending r v m.registers)

private theorem drainRegs_of_ne {i : ℕ} (hi : i ≠ r) (h37 : i ≠ loadReg) (h38 : i ≠ loadValueReg)
    (v : Word) (ρ : ℕ → Word) : drainRegs r v ρ i = ρ i := by
  rw [drainRegs_apply, if_neg hi, if_neg h38, if_neg h37]

include hr in
private theorem drainRegs_pcReg (v : Word) (ρ : ℕ → Word) : drainRegs r v ρ pcReg = ρ pcReg :=
  drainRegs_of_ne (by simp at *; omega) (by decide) (by decide) v ρ

include hr in
private theorem drainRegs_nextPCReg (v : Word) (ρ : ℕ → Word) :
    drainRegs r v ρ nextPCReg = ρ nextPCReg :=
  drainRegs_of_ne (by simp at *; omega) (by decide) (by decide) v ρ

include hr in
private theorem drainRegs_loadReg (v : Word) (ρ : ℕ → Word) : drainRegs r v ρ loadReg = 0 := by
  rw [drainRegs_apply, if_neg (by simp at *; omega), if_neg (by decide), if_pos rfl]

include hfetch hr in
private theorem fetch_drained (u : Word) :
    fetch (m.mapRegs (drainRegs r u)) = .ok raw (mf.mapRegs (drainRegs r u)) :=
  (commutes_fetch (p := fun _ ↦ True) (drainRegs_pcReg hr u) m trivial raw mf hfetch).2

include hfetch in
private theorem oneInstruction_of_fetch {m₁ : Machine} {u : Unit}
    (h : oneInstruction m = .ok u m₁) :
    ∃ next m', execute (decode raw) (mf.registers nextPCReg) mf = .ok next m' ∧
      finish next m' = .ok u m₁ := by
  obtain ⟨raw', mf', next, m', hfetch', hexec, hfinish⟩ := oneInstruction_eq_ok.mp h
  rw [hfetch] at hfetch'
  cases hfetch'
  exact ⟨next, m', hexec, hfinish⟩

include hfetch hsrc hr hr0 hpending

/-- If the instruction leaves `r` alone, the interrupt changes nothing at all. -/
private theorem oneInstruction_drained (hdst : (decode raw).destination ≠ some r)
    (hzero : m.registers 0 = 0) {m₁ : Machine} (h : oneInstruction m = .ok () m₁) :
    oneInstruction (m.mapRegs (drainRegs r v)) = .ok () m₁ := by
  obtain ⟨next, m', hexec, hfinish⟩ := oneInstruction_of_fetch hfetch h
  have hregs := fetch_registers hfetch
  rw [← hregs] at hpending hzero
  obtain ⟨hpending', hexec'⟩ := execute_drained hsrc hr hr0 hdst hpending hzero hexec
  refine oneInstruction_eq_ok.mpr ⟨raw, mf.mapRegs (drainRegs r v), next,
    m'.mapRegs (drainRegs r v), fetch_drained hfetch hr v, ?_, ?_⟩
  · rw [← hexec']
    exact congrArg (execute (decode raw) · _) (drainRegs_nextPCReg hr v _)
  · have hload : ((m'.mapRegs (drainRegs r v)).registers loadReg).toNat < numTotalRegs := by
      rw [Machine.mapRegs_registers, drainRegs_loadReg hr]
      decide
    rw [finish_eq hload, hpending'.applyLoad_drained hr, ← finish_eq (hpending'.load_lt hr),
      hfinish]

private theorem interruptInvisible_of_destination (hdst : (decode raw).destination ≠ some r)
    (hzero : m.registers 0 = 0) : m.InterruptInvisible := by
  intro m₂ h
  obtain ⟨_, m₁, hone, hdrain⟩ := bind_eq_ok.mp h
  refine ⟨m₂, ?_, SameForUser.refl m₂⟩
  have hone' := oneInstruction_drained hfetch hsrc hr hr0 hpending hdst hzero hone
  rw [interrupted, bind_of_ok (delayedLoad_eq (hpending.load_lt hr) 0 0),
    hpending.applyLoad_eq hr hr0 hzero, direct, bind_of_ok hone', hdrain]

omit hsrc hr hr0 hpending in
/-- Draining after an instruction that has left no load changes no general register. -/
private theorem direct_of_noLoad {m' : Machine} {next : Next}
    (hexec : execute (decode raw) (mf.registers nextPCReg) mf = .ok next m')
    (htarget : next.loadTarget = 0) (hload : (m'.registers loadReg).toNat < numTotalRegs) :
    ∃ m₁, direct m = .ok () m₁ ∧ ∀ i < numGPRegs, i ≠ 0 →
      m₁.registers i = (m'.applyLoad 0 next.loadValue).registers i := by
  have hone := oneInstruction_eq_ok.mpr ⟨raw, mf, next, m', hfetch, hexec, finish_eq hload next⟩
  rw [htarget] at hone
  have hzero : (((m'.applyLoad 0 next.loadValue).advance next.pcAfter).registers loadReg).toNat
      = 0 := by
    rw [Machine.advance_registers_of_ne _ _ (by decide) (by decide) (by decide),
      Machine.applyLoad_registers]
    rfl
  refine ⟨_, by rw [direct, bind_of_ok hone, delayedLoad_eq (by rw [hzero]; decide)], ?_⟩
  intro i hi hi0
  simp only [numGPRegs] at hi
  rw [Machine.applyLoad_registers, hzero, if_neg hi0, if_neg (by simp only [loadValueReg]; omega),
    if_neg (by simp only [loadReg]; omega), if_neg hi0,
    Machine.advance_registers_of_ne _ _ (by simp only [prevPCReg]; omega)
      (by simp only [pcReg]; omega) (by simp only [nextPCReg]; omega)]

/-- If the instruction writes `r`, the loaded value stays there without the interrupt and the
computed one with it. -/
private theorem runs_of_destination (hdst : (decode raw).destination = some r)
    (hzero : m.registers 0 = 0) {m' : Machine} {next : Next}
    (hexec : execute (decode raw) (mf.registers nextPCReg) mf = .ok next m') :
    ∃ m₁ m₂, direct m = .ok () m₁ ∧ interrupted m = .ok () m₂ ∧ m₁.registers r = v ∧
      m₂.registers r = m'.registers r := by
  have hregs := fetch_registers hfetch
  have hpendingf : Pending r v mf.registers := by rwa [hregs]
  have htarget := noLoad_execute hdst _ mf next m' hexec
  obtain ⟨hpending', hexec'⟩ := execute_overwritten hsrc hr hdst hpendingf hexec
  obtain ⟨m₁, hdirect, hm₁⟩ :=
    direct_of_noLoad hfetch hexec htarget (hpending'.load_lt hr)
  have hnext : (mf.mapRegs (drainRegs r v)).registers nextPCReg = mf.registers nextPCReg :=
    drainRegs_nextPCReg hr v _
  have hforget : (m'.mapRegs forgetLoad).registers loadReg = 0 := rfl
  obtain ⟨m₂, hinterrupted, hm₂⟩ := direct_of_noLoad (fetch_drained hfetch hr v)
    (by rw [hnext]; exact hexec' v) htarget (by rw [hforget]; decide)
  refine ⟨m₁, m₂, hdirect, ?_, ?_, ?_⟩
  · rw [interrupted, bind_of_ok (delayedLoad_eq (hpending.load_lt hr) 0 0),
      hpending.applyLoad_eq hr hr0 hzero, hinterrupted]
  · rw [hm₁ r hr hr0, hpending'.applyLoad_apply hr]
    simp only [numGPRegs, loadReg, loadValueReg] at hr ⊢
    grind
  · have hread := (movesOnly_forgetLoad (r := r) (v := v)).read m'.registers r
      (by simp only [numGPRegs, loadReg, loadValueReg] at *; omega)
    rw [hm₂ r hr hr0, Machine.applyLoad_registers, hforget, Machine.mapRegs_registers, hread]
    simp only [numGPRegs, loadReg, loadValueReg] at hr ⊢
    grind

end instruction

/-! ## Invisibility -/

/-- The run does not depend on the loaded value, unless it is merged. -/
private theorem execute_setLoadValue {raw : Word} {r : ℕ} (hdst : (decode raw).destination = some r)
    {m m' : Machine} {nextPC : Word} {next : Next}
    (h : execute (decode raw) nextPC m = .ok next m') (v : Word) :
    execute (decode raw) nextPC (m.setReg loadValueReg v)
      = .ok next (m'.setReg loadValueReg v) := by
  have hspare : ∀ i < numGPRegs, i ≠ loadValueReg := by
    intro i hi
    simp only [numGPRegs, loadValueReg] at *
    omega
  refine (commutes_execute (movesOnly_putReg loadValueReg v) ⟨by decide, by decide, by decide⟩
    (fun i hi ↦ hspare i (decode_sources_lt hi)) (fun i hi ↦ hspare i (decode_destination_lt hi))
    (fun hc ↦ ?_) nextPC m trivial next m' h).2
  rcases hc with hc | hc <;> simp [Instruction.destination, hc] at hdst

/-- **Interrupts and delayed loads.** Let a load to a register other than 0 be pending, and let
the next instruction not use that register as a source and complete. Whatever value was loaded, an
interrupt in between is invisible to the program exactly when the instruction does not write the
register itself. -/
theorem interruptInvisible_iff {m mf m₁ : Machine} {raw : Word} (hm : m.WellFormed)
    (hload : m.registers loadReg ≠ 0) (hfetch : fetch m = .ok raw mf)
    (hsrc : (m.registers loadReg).toNat ∉ (decode raw).sources)
    (hone : oneInstruction m = .ok () m₁) :
    (∀ v, (m.setReg loadValueReg v).InterruptInvisible) ↔
      (decode raw).destination ≠ some (m.registers loadReg).toNat := by
  have hr0 : (m.registers loadReg).toNat ≠ 0 := fun h ↦ hload (BitVec.eq_of_toNat_eq h)
  have hpending : ∀ v, Pending (m.registers loadReg).toNat v
      (m.setReg loadValueReg v).registers := by
    intro v
    refine ⟨?_, m.setReg_registers_self _ _⟩
    rw [Machine.setReg_registers_of_ne _ _ (by decide), BitVec.ofNat_toNat]
    rfl
  have hzero : ∀ v, (m.setReg loadValueReg v).registers 0 = 0 := fun v ↦ by
    rw [Machine.setReg_registers_of_ne _ _ (by decide), hm.zero]
  have hfetch' : ∀ v, fetch (m.setReg loadValueReg v) = .ok raw (mf.setReg loadValueReg v) :=
    fun v ↦ (commutes_fetch (p := fun _ ↦ True) (F := putReg loadValueReg v)
      (fun ρ ↦ Function.update_of_ne (by decide) _ _) m trivial raw mf hfetch).2
  constructor
  · intro h hdst
    obtain ⟨next, m', hexec, -⟩ := oneInstruction_of_fetch hfetch hone
    -- load a value that the instruction does not compute
    have hexec' := execute_setLoadValue hdst hexec (m'.registers (m.registers loadReg).toNat + 1)
    obtain ⟨m₁, m₂, hdirect, hinterrupted, hloaded, hcomputed⟩ := runs_of_destination (hfetch' _)
      hsrc hm.load_lt hr0 (hpending _) hdst (hzero _) hexec'
    obtain ⟨m₂', hinterrupted', hsame⟩ := h _ m₁ hdirect
    rw [hinterrupted] at hinterrupted'
    cases hinterrupted'
    have heq := hsame.general _ hm.load_lt
    have hne : (m.registers loadReg).toNat ≠ loadValueReg := by
      have := hm.load_lt
      simp only [numGPRegs, loadValueReg] at *
      omega
    rw [hloaded, hcomputed, Machine.setReg_registers_of_ne _ _ hne] at heq
    exact absurd heq (by simp)
  · intro hdst v
    exact interruptInvisible_of_destination (hfetch' v) hsrc hm.load_lt hr0 (hpending v) hdst
      (hzero v)

/-! ## A program that notices -/

/-- `lw r1, 0(r0); addiu r1, r0, 5`. -/
def loadProgram : Machine :=
  Machine.start 16 (programImage [0x8C010000, 0x24010005]) identityPageTable

/-- The program when its load is pending. -/
def loadPending : Machine := loadProgram.after oneInstruction

private theorem loadPending_fetch : ∃ mf, fetch loadPending = .ok 0x24010005 mf :=
  fetch_eq_fetched (by decide +kernel) (by decide +kernel)

/-- In a reachable state of this program an interrupt decides what the program computes. -/
theorem loadPending_interrupt_visible :
    ¬∀ m raw mf m₁, UserReachable m → m.registers loadReg ≠ 0 → fetch m = .ok raw mf →
      (m.registers loadReg).toNat ∉ (decode raw).sources → oneInstruction m = .ok () m₁ →
      m.InterruptInvisible := by
  intro h
  have hstep := run_of_returns (show loadProgram.returns oneInstruction = true by decide +kernel)
  have hreach : UserReachable loadPending := (UserReachable.start _ _ _).step hstep
  obtain ⟨mf, hfetch⟩ := loadPending_fetch
  have hone := run_of_returns (show loadPending.returns oneInstruction = true by decide +kernel)
  have hsrc : (loadPending.registers loadReg).toNat ∉ (decode 0x24010005).sources := by
    decide +kernel
  obtain ⟨m₂, hinterrupted, hsame⟩ := h loadPending _ mf _ hreach (by decide +kernel) hfetch hsrc
    hone _ (run_of_returns (show loadPending.returns direct = true by decide +kernel))
  have hm₂ : m₂ = loadPending.after interrupted := by
    rw [Machine.after, hinterrupted]
  have heq := hsame.general 1 (by decide)
  rw [hm₂] at heq
  exact absurd heq (by decide +kernel)

/-- The general theorem at that state. -/
theorem loadPending_interruptInvisible_iff :
    (∀ v, (loadPending.setReg loadValueReg v).InterruptInvisible) ↔
      (decode 0x24010005).destination ≠ some (loadPending.registers loadReg).toNat := by
  obtain ⟨mf, hfetch⟩ := loadPending_fetch
  exact interruptInvisible_iff ⟨by decide +kernel, by decide +kernel⟩ (by decide +kernel) hfetch
    (by decide +kernel)
    (run_of_returns (show loadPending.returns oneInstruction = true by decide +kernel))

end Nachos
