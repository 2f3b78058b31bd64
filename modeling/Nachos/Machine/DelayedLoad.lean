import Nachos.Machine.Safety

/-!
# Interrupts and delayed loads

An interrupt that is taken between two instructions applies the pending load early, with
`DelayedLoad(0, 0)`. Does the program notice? Let the load be aimed at `r`, and let the next
instruction not use `r` as a source operand.

If the instruction does not write `r` either, the two runs meet again in the same state. The
argument is that the whole instruction commutes with applying the load: `MovesOnly` collects what
that takes of a change of registers, and `commutes_execute` carries it through the `switch`.

If it does write `r`, the order matters. Without the interrupt the tail of `OneInstruction` applies
the pending load after the instruction's own write and overrules it; with the interrupt the write
comes last. So the result depends on when the interrupt fires, for every loaded value but one.
-/

namespace Nachos

open Program

/-! ## Moving registers an instruction does not touch -/

/-- `F` reads and changes only the registers in `K`, and `p` looks at those alone. -/
structure MovesOnly (p : (ℕ → Word) → Prop) (F : (ℕ → Word) → ℕ → Word) (K : ℕ → Prop) : Prop where
  read : ∀ ρ i, ¬K i → F ρ i = ρ i
  write : ∀ ρ i v, ¬K i → F (Function.update ρ i v) = Function.update (F ρ) i v
  keep : ∀ ρ i v, ¬K i → p ρ → p (Function.update ρ i v)

/-- `x` commutes with moving the registers along `F`. -/
abbrev Commutes {α : Type} (p : (ℕ → Word) → Prop) (F : (ℕ → Word) → ℕ → Word) (x : Exec α) :
    Prop :=
  Simulates (fun m ↦ p m.registers) (Machine.mapRegs F) (Machine.mapRegs F) x

theorem Commutes.andReturn {α β : Type} {p : (ℕ → Word) → Prop} {F : (ℕ → Word) → ℕ → Word}
    {x : Exec α} (hx : Commutes p F x) (f : α → β) : Commutes p F (do let a ← x; return f a) :=
  hx.bind fun _ ↦ Simulates.pure _

theorem simulates_raiseException {α : Type} {P : Machine → Prop} {g h : Machine → Machine}
    (which : ExceptionType) (badVAddr : Word) :
    Simulates P g h (raiseException which badVAddr : Exec α) :=
  fun _ _ _ _ hx ↦ absurd hx raiseException_ne_ok

private theorem readReg_eq_ok {i : ℕ} {m m' : Machine} {v : Word} :
    readReg i m = .ok v m' ↔ i < numTotalRegs ∧ v = m.registers i ∧ m' = m := by
  rw [readReg]
  split
  · rename_i hi
    constructor
    · intro h
      cases h
      exact ⟨hi, rfl, rfl⟩
    · rintro ⟨-, rfl, rfl⟩
      rfl
  · rename_i hi
    constructor
    · intro h
      cases h
    · rintro ⟨hi', -⟩
      exact absurd hi' hi

theorem writeReg_eq_ok {i : ℕ} {v : Word} {m m' : Machine} {u : Unit} :
    writeReg i v m = .ok u m' ↔ i < numTotalRegs ∧ m' = m.setReg i v := by
  rw [writeReg]
  split
  · rename_i hi
    constructor
    · intro h
      cases h
      exact ⟨hi, rfl⟩
    · rintro ⟨-, rfl⟩
      rfl
  · rename_i hi
    constructor
    · intro h
      cases h
    · rintro ⟨hi', -⟩
      exact absurd hi' hi

/-- Reading a register that `F` leaves alone. -/
theorem commutes_readReg_of_eq {p : (ℕ → Word) → Prop} {F : (ℕ → Word) → ℕ → Word} {i : ℕ}
    (hi : ∀ ρ, F ρ i = ρ i) : Commutes p F (readReg i) := by
  intro m hm v m' h
  obtain ⟨hlt, rfl, rfl⟩ := readReg_eq_ok.mp h
  exact ⟨hm, readReg_eq_ok.mpr ⟨hlt, (hi _).symm, rfl⟩⟩

section commutes

variable {p : (ℕ → Word) → Prop} {F : (ℕ → Word) → ℕ → Word} {K : ℕ → Prop}
  (hF : MovesOnly p F K)

include hF

theorem commutes_readReg {i : ℕ} (hi : ¬K i) : Commutes p F (readReg i) :=
  commutes_readReg_of_eq fun ρ ↦ hF.read ρ i hi

theorem commutes_writeReg {i : ℕ} (hi : ¬K i) (v : Word) : Commutes p F (writeReg i v) := by
  intro m hm u m' h
  obtain ⟨hlt, rfl⟩ := writeReg_eq_ok.mp h
  refine ⟨hF.keep _ i v hi hm, writeReg_eq_ok.mpr ⟨hlt, ?_⟩⟩
  simp only [Machine.mapRegs, Machine.setReg, hF.write _ i v hi]

variable {instr : Instruction}

private theorem commutes_aluReg (hrs : ¬K instr.rs) (hrt : ¬K instr.rt) (hrd : ¬K instr.rd)
    (f : Word → Word → Word) : Commutes p F (aluReg instr f) :=
  (commutes_readReg hF hrs).bind fun _ ↦ (commutes_readReg hF hrt).bind fun _ ↦
    commutes_writeReg hF hrd _

private theorem commutes_aluImm (hrs : ¬K instr.rs) (hrt : ¬K instr.rt) (f : Word → Word) :
    Commutes p F (aluImm instr f) :=
  (commutes_readReg hF hrs).bind fun _ ↦ commutes_writeReg hF hrt _

private theorem commutes_aluShift (hrt : ¬K instr.rt) (hrd : ¬K instr.rd)
    {shift : Word → Word → Exec Word} {n : Word} (hshift : ∀ a, Commutes p F (shift a n)) :
    Commutes p F (aluShift instr shift n) :=
  (commutes_readReg hF hrt).bind fun a ↦ (hshift a).bind fun _ ↦ commutes_writeReg hF hrd _

theorem commutes_effectiveAddr (hrs : ¬K instr.rs) : Commutes p F (effectiveAddr instr) :=
  (commutes_readReg hF hrs).bind fun _ ↦ Simulates.pure _

private theorem commutes_addTrapping (hrs : ¬K instr.rs) (hrt : ¬K instr.rt) (hrd : ¬K instr.rd) :
    Commutes p F (addTrapping instr) :=
  (commutes_readReg hF hrs).bind fun _ ↦ (commutes_readReg hF hrt).bind fun _ ↦
    Simulates.ite (fun _ ↦ simulates_raiseException _ _) fun _ ↦ commutes_writeReg hF hrd _

private theorem commutes_addImmTrapping (hrs : ¬K instr.rs) (hrt : ¬K instr.rt) :
    Commutes p F (addImmTrapping instr) :=
  (commutes_readReg hF hrs).bind fun _ ↦
    Simulates.ite (fun _ ↦ simulates_raiseException _ _) fun _ ↦ commutes_writeReg hF hrt _

private theorem commutes_subTrapping (hrs : ¬K instr.rs) (hrt : ¬K instr.rt) (hrd : ¬K instr.rd) :
    Commutes p F (subTrapping instr) :=
  (commutes_readReg hF hrs).bind fun _ ↦ (commutes_readReg hF hrt).bind fun _ ↦
    Simulates.ite (fun _ ↦ simulates_raiseException _ _) fun _ ↦ commutes_writeReg hF hrd _

private theorem commutes_multiply (hrs : ¬K instr.rs) (hrt : ¬K instr.rt) (hhi : ¬K hiReg)
    (hlo : ¬K loReg) (signedArith : Bool) : Commutes p F (multiply instr signedArith) :=
  (commutes_readReg hF hrs).bind fun _ ↦ (commutes_readReg hF hrt).bind fun _ ↦
    (commutes_writeReg hF hhi _).bind fun _ ↦ commutes_writeReg hF hlo _

/-- What `DIV` and `DIVU` share. -/
private theorem commutes_quotient (hrs : ¬K instr.rs) (hrt : ¬K instr.rt) (hhi : ¬K hiReg)
    (hlo : ¬K loReg) {quot rem : Word → Word → Exec Word} (hquot : ∀ a b, Commutes p F (quot a b))
    (hrem : ∀ a b, Commutes p F (rem a b)) :
    Commutes p F (do
      let a ← readReg instr.rs
      let b ← readReg instr.rt
      if b = 0 then
        writeReg loReg 0
        writeReg hiReg 0
      else
        let q ← quot a b
        writeReg loReg q
        let r ← rem a b
        writeReg hiReg r) := by
  refine (commutes_readReg hF hrs).bind fun a ↦ (commutes_readReg hF hrt).bind fun b ↦
    Simulates.ite (fun _ ↦ ?_) fun _ ↦ ?_
  · exact (commutes_writeReg hF hlo _).bind fun _ ↦ commutes_writeReg hF hhi _
  · exact (hquot a b).bind fun _ ↦ (commutes_writeReg hF hlo _).bind fun _ ↦
      (hrem a b).bind fun _ ↦ commutes_writeReg hF hhi _

private theorem commutes_loadByte (hrs : ¬K instr.rs) : Commutes p F (loadByte instr) :=
  (commutes_effectiveAddr hF hrs).bind fun _ ↦ (simulates_readMem _ _).bind fun _ ↦
    Simulates.pure _

private theorem commutes_loadHalf (hrs : ¬K instr.rs) : Commutes p F (loadHalf instr) :=
  (commutes_effectiveAddr hF hrs).bind fun _ ↦
    Simulates.ite (fun _ ↦ simulates_raiseException _ _) fun _ ↦
      (simulates_readMem _ _).bind fun _ ↦ Simulates.pure _

private theorem commutes_loadWord (hrs : ¬K instr.rs) : Commutes p F (loadWord instr) :=
  (commutes_effectiveAddr hF hrs).bind fun _ ↦
    Simulates.ite (fun _ ↦ simulates_raiseException _ _) fun _ ↦ simulates_readMem _ _

private theorem commutes_storeUnaligned (hrs : ¬K instr.rs) (hrt : ¬K instr.rt)
    (change : Word → Word → Word → Word) : Commutes p F (storeUnaligned instr change) :=
  (commutes_effectiveAddr hF hrs).bind fun _ ↦ (simulates_readMem _ _).bind fun _ ↦
    (commutes_readReg hF hrt).bind fun _ ↦ simulates_writeMem _ _ _

private theorem commutes_storeAligned (hrs : ¬K instr.rs) (hrt : ¬K instr.rt) (size : ℕ) :
    Commutes p F (storeAligned instr size) :=
  (commutes_effectiveAddr hF hrs).bind fun _ ↦ (commutes_readReg hF hrt).bind fun _ ↦
    simulates_writeMem _ _ _

private theorem commutes_linkR31 (hnext : ¬K nextPCReg) (h31 : ¬K retAddrReg) :
    Commutes p F linkR31 :=
  (commutes_readReg hF hnext).bind fun _ ↦ commutes_writeReg hF h31 _

end commutes

section arithmetic

variable {p : (ℕ → Word) → Prop} {F : (ℕ → Word) → ℕ → Word}

/-- Only the base register and the merged value matter to `LWL` and `LWR`. -/
theorem commutes_loadUnaligned {instr : Instruction} (hrs : Commutes p F (readReg instr.rs))
    (hmerge : Commutes p F (mergeBase instr)) (merge : Word → Word → Word → Word) :
    Commutes p F (loadUnaligned instr merge) := by
  have haddr : Commutes p F (effectiveAddr instr) := hrs.bind fun _ ↦ Simulates.pure _
  exact haddr.bind fun _ ↦ (simulates_readMem _ _).bind fun _ ↦
    hmerge.bind fun _ ↦ Simulates.pure _

private theorem commutes_shiftLeft (a n : Word) : Commutes p F (shiftLeft a n) :=
  Simulates.ite (fun _ ↦ Simulates.pure _) fun _ ↦ Simulates.throw _

private theorem commutes_shiftRight (a n : Word) : Commutes p F (shiftRight a n) :=
  Simulates.ite (fun _ ↦ Simulates.pure _) fun _ ↦ Simulates.throw _

theorem commutes_shift {shift : Word → Word → Exec Word}
    (hshift : shift = shiftLeft ∨ shift = shiftRight) (a n : Word) : Commutes p F (shift a n) := by
  rcases hshift with rfl | rfl
  · exact commutes_shiftLeft a n
  · exact commutes_shiftRight a n

private theorem commutes_divInt (a b : Word) : Commutes p F (divInt a b) :=
  Simulates.ite (fun _ ↦ Simulates.throw _) fun _ ↦ Simulates.pure _

private theorem commutes_modInt (a b : Word) : Commutes p F (modInt a b) :=
  Simulates.ite (fun _ ↦ Simulates.throw _) fun _ ↦ Simulates.pure _

private theorem commutes_divUnsigned (a b : Word) : Commutes p F (divUnsigned a b) :=
  Simulates.ite (fun _ ↦ Simulates.throw _) fun _ ↦ Simulates.pure _

private theorem commutes_modUnsigned (a b : Word) : Commutes p F (modUnsigned a b) :=
  Simulates.ite (fun _ ↦ Simulates.throw _) fun _ ↦ Simulates.pure _

end arithmetic

/-- The registers the `switch` uses beside the operands. -/
structure SparesSpecial (K : ℕ → Prop) : Prop where
  hi : ¬K hiReg
  lo : ¬K loReg
  nextPC : ¬K nextPCReg

theorem SparesSpecial.of_special {K : ℕ → Prop} (hK : SparesSpecial K) {r : ℕ}
    (hr : r = hiReg ∨ r = loReg) : ¬K r := by
  rcases hr with rfl | rfl
  · exact hK.hi
  · exact hK.lo

/-- An instruction that neither reads nor writes the registers in `K` commutes with moving them.
Only `LWL` and `LWR` look at the pending load; for them that has to be shown separately. -/
theorem commutes_execute {p : (ℕ → Word) → Prop} {F : (ℕ → Word) → ℕ → Word} {K : ℕ → Prop}
    (hF : MovesOnly p F K) (hK : SparesSpecial K) {instr : Instruction}
    (hsrc : ∀ i ∈ instr.sources, ¬K i) (hdst : ∀ i ∈ instr.destination, ¬K i)
    (hmerge : instr.opCode = .lwl ∨ instr.opCode = .lwr → Commutes p F (mergeBase instr))
    (nextPC : Word) : Commutes p F (execute instr nextPC) := by
  have hrs : instr.rs ∈ instr.sources → ¬K instr.rs := hsrc instr.rs
  have hrt : instr.rt ∈ instr.sources → ¬K instr.rt := hsrc instr.rt
  have hbody := instr.execute_body nextPC
  generalize instr.sources = sources at hbody hrs hrt
  generalize instr.destination = destination at hbody hdst
  generalize execute instr nextPC = x at hbody ⊢
  -- every case is the lemmas on the operations its body is made of, one after another
  cases hbody with
  | addTrapping =>
    exact (commutes_addTrapping hF (hrs (by simp)) (hrt (by simp)) (hdst _ rfl)).andReturn _
  | subTrapping =>
    exact (commutes_subTrapping hF (hrs (by simp)) (hrt (by simp)) (hdst _ rfl)).andReturn _
  | addImmTrapping =>
    exact (commutes_addImmTrapping hF (hrs (by simp)) (hdst _ rfl)).andReturn _
  | aluReg f =>
    exact (commutes_aluReg hF (hrs (by simp)) (hrt (by simp)) (hdst _ rfl) f).andReturn _
  | aluImm f => exact (commutes_aluImm hF (hrs (by simp)) (hdst _ rfl) f).andReturn _
  | loadUpper => exact (commutes_writeReg hF (hdst _ rfl) _).andReturn _
  | shift hshift _ =>
    exact (commutes_aluShift hF (hrt (by simp)) (hdst _ rfl) fun a ↦
      commutes_shift hshift a _).andReturn _
  | shiftVar hshift =>
    exact (commutes_readReg hF (hrs (by simp))).bind fun n ↦
      (commutes_aluShift hF (hrt (by simp)) (hdst _ rfl) fun a ↦
        commutes_shift hshift a _).andReturn _
  | branchTwo target =>
    exact (commutes_readReg hF (hrs (by simp))).bind fun a ↦
      (commutes_readReg hF (hrt (by simp))).andReturn _
  | branchOne target => exact (commutes_readReg hF (hrs (by simp))).andReturn _
  | branchLink target =>
    -- R31 is written before the condition is read, taken or not
    exact (commutes_linkR31 hF hK.nextPC (hdst _ rfl)).bind fun _ ↦
      (commutes_readReg hF (hrs (by simp))).andReturn _
  | jump target => exact Simulates.pure _
  | jumpLink target => exact (commutes_linkR31 hF hK.nextPC (hdst _ rfl)).andReturn _
  | jumpLinkReg =>
    exact (commutes_writeReg hF (hdst _ rfl) _).bind fun _ ↦
      (commutes_readReg hF (hrs (by simp))).andReturn _
  | divide _ =>
    exact (commutes_quotient hF (hrs (by simp)) (hrt (by simp)) hK.hi hK.lo commutes_divInt
      commutes_modInt).andReturn _
  | divideUnsigned =>
    exact (commutes_quotient hF (hrs (by simp)) (hrt (by simp)) hK.hi hK.lo commutes_divUnsigned
      commutes_modUnsigned).andReturn _
  | multiply signedArith =>
    exact (commutes_multiply hF (hrs (by simp)) (hrt (by simp)) hK.hi hK.lo signedArith).andReturn _
  | moveFrom hr =>
    exact (commutes_readReg hF (hK.of_special hr)).bind fun _ ↦
      (commutes_writeReg hF (hdst _ rfl) _).andReturn _
  | moveTo hr =>
    exact (commutes_readReg hF (hrs (by simp))).bind fun _ ↦
      (commutes_writeReg hF (hK.of_special hr) _).andReturn _
  | loadByte => exact (commutes_loadByte hF (hrs (by simp))).andReturn _
  | loadHalf => exact (commutes_loadHalf hF (hrs (by simp))).andReturn _
  | loadWord => exact (commutes_loadWord hF (hrs (by simp))).andReturn _
  | loadUnaligned merge hop =>
    -- the bytes that stay come from `rt` or from the load still pending for it
    exact (commutes_loadUnaligned (commutes_readReg hF (hrs (by simp))) (hmerge hop)
      merge).andReturn _
  | storeAligned _ =>
    exact (commutes_storeAligned hF (hrs (by simp)) (hrt (by simp)) _).andReturn _
  | storeUnaligned change =>
    exact (commutes_storeUnaligned hF (hrs (by simp)) (hrt (by simp)) change).andReturn _
  | trap which => exact simulates_raiseException which 0
  | unhandled _ => exact Simulates.throw _

/-! ## Moving a register an instruction overwrites -/

/-- Register `r` replaced by `u`. -/
abbrev putReg (r : ℕ) (u : Word) (ρ : ℕ → Word) : ℕ → Word := Function.update ρ r u

/-- `x` does not depend on what register `r` holds: it is overwritten before it is read. -/
abbrev Overwrites {α : Type} (r : ℕ) (u : Word) (x : Exec α) : Prop :=
  Simulates (fun _ ↦ True) (Machine.mapRegs (putReg r u)) id x

theorem movesOnly_putReg (r : ℕ) (u : Word) :
    MovesOnly (fun _ ↦ True) (putReg r u) (fun i ↦ i = r) where
  read _ _ hi := Function.update_of_ne hi _ _
  write _ _ _ hi := Function.update_comm hi _ _ _
  keep _ _ _ _ _ := trivial

section overwrites

variable {r : ℕ} {u : Word} {instr : Instruction}

theorem overwrites_writeReg (r : ℕ) (u v : Word) : Overwrites r u (writeReg r v) := by
  rintro m - a m' h
  obtain ⟨hlt, rfl⟩ := writeReg_eq_ok.mp h
  refine ⟨trivial, writeReg_eq_ok.mpr ⟨hlt, ?_⟩⟩
  simp [Machine.mapRegs, Machine.setReg]

theorem readThen_overwrites {α : Type} {i : ℕ} (hi : i ≠ r) {f : Word → Exec α}
    (hf : ∀ a, Overwrites r u (f a)) : Overwrites r u (readReg i >>= f) :=
  (commutes_readReg (movesOnly_putReg r u) hi).bind hf

theorem Overwrites.andThen {α β : Type} {x : Exec α} (hx : Overwrites r u x) (f : α → Exec β) :
    Overwrites r u (x >>= f) := hx.bind fun a ↦ Simulates.refl (f a)

/-- A shift of another register into `r`. -/
private theorem aluShift_overwrites (hdst : instr.rd = r) (hrt : instr.rt ≠ r)
    {shift : Word → Word → Exec Word} {n : Word}
    (hshift : ∀ a, Commutes (fun _ ↦ True) (putReg r u) (shift a n)) :
    Overwrites r u (aluShift instr shift n) := by
  subst hdst
  exact readThen_overwrites hrt fun a ↦ (hshift a).bind fun _ ↦ overwrites_writeReg _ _ _

/-- An instruction that writes `r` and does not use it as a source overwrites it. -/
theorem overwrites_execute (hdst : instr.destination = some r) (hsrc : r ∉ instr.sources)
    (hr : r < numGPRegs) (nextPC : Word) : Overwrites r u (execute instr nextPC) := by
  -- the special registers an instruction reads on the way are not `r`
  have hhi : hiReg ≠ r := by simp only [numGPRegs] at hr; simp only [hiReg]; omega
  have hlo : loReg ≠ r := by simp only [numGPRegs] at hr; simp only [loReg]; omega
  have hnext : nextPCReg ≠ r := by simp only [numGPRegs] at hr; simp only [nextPCReg]; omega
  have hrs : instr.rs ∈ instr.sources → instr.rs ≠ r := fun hmem ↦ ne_of_mem_of_not_mem hmem hsrc
  have hrt : instr.rt ∈ instr.sources → instr.rt ≠ r := fun hmem ↦ ne_of_mem_of_not_mem hmem hsrc
  have hbody := instr.execute_body nextPC
  generalize instr.sources = sources at hbody hrs hrt
  rw [hdst] at hbody
  generalize execute instr nextPC = x at hbody ⊢
  -- the loads write theirs through the load delay, not here
  cases hbody with
  | addTrapping =>
    -- on an overflow nothing is written, but only runs without an exception are compared
    refine Overwrites.andThen ?_ _
    exact readThen_overwrites (hrs (by simp)) fun _ ↦ readThen_overwrites (hrt (by simp)) fun _ ↦
      Simulates.ite (fun _ ↦ simulates_raiseException _ _) fun _ ↦ overwrites_writeReg _ _ _
  | subTrapping =>
    refine Overwrites.andThen ?_ _
    exact readThen_overwrites (hrs (by simp)) fun _ ↦ readThen_overwrites (hrt (by simp)) fun _ ↦
      Simulates.ite (fun _ ↦ simulates_raiseException _ _) fun _ ↦ overwrites_writeReg _ _ _
  | addImmTrapping =>
    refine Overwrites.andThen ?_ _
    exact readThen_overwrites (hrs (by simp)) fun _ ↦
      Simulates.ite (fun _ ↦ simulates_raiseException _ _) fun _ ↦ overwrites_writeReg _ _ _
  | aluReg f =>
    refine Overwrites.andThen ?_ _
    exact readThen_overwrites (hrs (by simp)) fun _ ↦ readThen_overwrites (hrt (by simp)) fun _ ↦
      overwrites_writeReg _ _ _
  | aluImm f =>
    refine Overwrites.andThen ?_ _
    exact readThen_overwrites (hrs (by simp)) fun _ ↦ overwrites_writeReg _ _ _
  | loadUpper => exact Overwrites.andThen (overwrites_writeReg _ _ _) _
  | shift hshift _ =>
    exact Overwrites.andThen
      (aluShift_overwrites rfl (hrt (by simp)) fun a ↦ commutes_shift hshift a _) _
  | shiftVar hshift =>
    exact readThen_overwrites (hrs (by simp)) fun _ ↦ Overwrites.andThen
      (aluShift_overwrites rfl (hrt (by simp)) fun a ↦ commutes_shift hshift a _) _
  | branchLink target =>
    exact Overwrites.andThen (readThen_overwrites hnext fun _ ↦ overwrites_writeReg _ _ _) _
  | jumpLink target =>
    exact Overwrites.andThen (readThen_overwrites hnext fun _ ↦ overwrites_writeReg _ _ _) _
  | jumpLinkReg => exact Overwrites.andThen (overwrites_writeReg _ _ _) _
  | moveFrom hspecial =>
    refine readThen_overwrites ?_ fun _ ↦ Overwrites.andThen (overwrites_writeReg _ _ _) _
    rcases hspecial with rfl | rfl
    · exact hhi
    · exact hlo

end overwrites

/-! ## Instructions that write their register themselves -/

/-- No load is left for later. -/
def NoLoad (x : Exec Next) : Prop := ∀ m next m', x m = .ok next m' → next.loadTarget = 0

theorem NoLoad.bind {α : Type} (x : Exec α) {f : α → Exec Next} (hf : ∀ a, NoLoad (f a)) :
    NoLoad (x >>= f) := by
  intro m next m' h
  obtain ⟨a, m₁, -, hfa⟩ := bind_eq_ok.mp h
  exact hf a m₁ next m' hfa

private theorem noLoad_goto (pcAfter : Word) : NoLoad (pure (.goto pcAfter)) := by
  intro m next m' h
  cases h
  rfl

theorem noLoad_execute {instr : Instruction} {r : ℕ} (h : instr.destination = some r)
    (nextPC : Word) : NoLoad (execute instr nextPC) := by
  have hbody := instr.execute_body nextPC
  generalize instr.sources = sources at hbody
  rw [h] at hbody
  generalize execute instr nextPC = x at hbody ⊢
  cases hbody with
  | addTrapping | subTrapping | addImmTrapping | aluReg | aluImm | loadUpper | shift | jumpLink =>
    exact NoLoad.bind _ fun _ ↦ noLoad_goto _
  | shiftVar | branchLink | jumpLinkReg | moveFrom =>
    exact NoLoad.bind _ fun _ ↦ NoLoad.bind _ fun _ ↦ noLoad_goto _

end Nachos
