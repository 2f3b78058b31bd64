import Mathlib.Data.BitVec
import Mathlib.Tactic.Ring
import Nachos.Machine.Interrupt
import Nachos.Machine.Precise

/-!
# Shifts and products

The simulator keeps registers as `int`s. For the shifts this matters: `SRL` and `SRLV` shift through
a temporary that is an `int` too, so they shift the sign in as `SRA` and `SRAV` do. For the product
it does not: `Mult` multiplies bit by bit in two words, and its result is the product of the
operands, read with or without a sign.
-/

namespace Nachos

open Program

/-! ## Shifts -/

/-- The shifts to the left. -/
def OpCode.IsLeftShift (op : OpCode) : Prop := op = .sll ∨ op = .sllv

instance (op : OpCode) : Decidable op.IsLeftShift := inferInstanceAs (Decidable (_ ∨ _))

/-- The shifts to the right that are to shift zeros in. -/
def OpCode.IsLogicalShift (op : OpCode) : Prop := op = .srl ∨ op = .srlv

instance (op : OpCode) : Decidable op.IsLogicalShift := inferInstanceAs (Decidable (_ ∨ _))

/-- The shifts to the right that are to shift the sign in. -/
def OpCode.IsArithmeticShift (op : OpCode) : Prop := op = .sra ∨ op = .srav

instance (op : OpCode) : Decidable op.IsArithmeticShift := inferInstanceAs (Decidable (_ ∨ _))

def OpCode.IsShift (op : OpCode) : Prop :=
  op.IsLeftShift ∨ op.IsLogicalShift ∨ op.IsArithmeticShift

instance (op : OpCode) : Decidable op.IsShift := inferInstanceAs (Decidable (_ ∨ _ ∨ _))

/-- The shift amount: bits 6 to 10 of the instruction, or the low five bits of `rs`. -/
def shiftAmount (raw : Word) (m : Machine) : ℕ :=
  if (decode raw).opCode.ShiftsByField then raw.toNat / 64 % 32
  else (m.registers (decode raw).rs).toNat % 32

/-- What the architecture has in `rd` after a shift. -/
def mipsShift (op : OpCode) (a : Word) (n : ℕ) : Word :=
  if op.IsLeftShift then a <<< n else if op.IsLogicalShift then a >>> n else a.sshiftRight n

/-- What the simulator has there. -/
def hostShift (op : OpCode) (a : Word) (n : ℕ) : Word :=
  if op.IsLeftShift then a <<< n else a.sshiftRight n

private theorem and_mask_toNat (v : Word) : (v &&& 0x1f).toNat = v.toNat % 32 :=
  toNat_and_mask v (n := 5) (by decide)

private theorem decode_extra_toNat {raw : Word} (h : (decode raw).opCode.ShiftsByField) :
    (decode raw).extra.toNat = raw.toNat / 64 % 32 := by
  rw [decode_extra_eq h, and_mask_toNat, BitVec.toNat_ushiftRight, Nat.shiftRight_eq_div_pow]

private theorem aluShift_eq {instr : Instruction} (hrt : instr.rt < numGPRegs)
    (hrd : instr.rd < numGPRegs) {shift : Word → Word → Exec Word} {n r : Word} {m : Machine}
    (hshift : shift (m.registers instr.rt) n m = .ok r m) :
    aluShift instr shift n m = .ok () (m.setReg instr.rd r) := by
  rw [aluShift, bind_of_ok (readReg_of_lt (lt_numTotalRegs hrt) m), bind_of_ok hshift,
    writeReg_of_lt (lt_numTotalRegs hrd)]

theorem shiftLeft_eq (a : Word) {n : Word} (h : n.toNat < 32) (m : Machine) :
    shiftLeft a n m = .ok (a <<< n.toNat) m := by
  rw [shiftLeft, if_pos h]
  rfl

private theorem shiftRight_eq (a : Word) {n : Word} (h : n.toNat < 32) (m : Machine) :
    shiftRight a n m = .ok (a.sshiftRight n.toNat) m := by
  rw [shiftRight, if_pos h]
  rfl

/-- The case of the `switch`. -/
private theorem execute_shift {raw : Word} (hop : (decode raw).opCode.IsShift) (nextPC : Word)
    (m : Machine) :
    execute (decode raw) nextPC m = .ok (.goto (nextPC + 4)) (m.setReg (decode raw).rd
      (hostShift (decode raw).opCode (m.registers (decode raw).rt) (shiftAmount raw m))) := by
  have hrs := readReg_of_lt (lt_numTotalRegs (decode_rs_lt raw)) m
  have hmask := and_mask_toNat_lt (m.registers (decode raw).rs)
  have hamount := and_mask_toNat (m.registers (decode raw).rs)
  have hleft := fun {n : Word} (hn : n.toNat < 32) ↦
    aluShift_eq (decode_rt_lt raw) (decode_rd_lt raw)
      (shiftLeft_eq (m.registers (decode raw).rt) hn m)
  have hright := fun {n : Word} (hn : n.toNat < 32) ↦
    aluShift_eq (decode_rt_lt raw) (decode_rd_lt raw)
      (shiftRight_eq (m.registers (decode raw).rt) hn m)
  have hfield := fun (h : (decode raw).opCode.ShiftsByField) ↦ decode_extra_lt h
  have hextra := fun (h : (decode raw).opCode.ShiftsByField) ↦ decode_extra_toNat h
  rw [shiftAmount, hostShift]
  rcases hop with (h | h) | (h | h) | (h | h) <;> rw [h] at hfield hextra ⊢ <;>
    simp only [execute, h]
  · rw [bind_of_ok (hleft (hfield (by decide))), hextra (by decide)]
    rfl
  · rw [bind_of_ok hrs, bind_of_ok (hleft hmask), hamount]
    rfl
  · rw [bind_of_ok (hright (hfield (by decide))), hextra (by decide)]
    rfl
  · rw [bind_of_ok hrs, bind_of_ok (hright hmask), hamount]
    rfl
  · rw [bind_of_ok (hright (hfield (by decide))), hextra (by decide)]
    rfl
  · rw [bind_of_ok hrs, bind_of_ok (hright hmask), hamount]
    rfl

/-- The whole instruction ends, and the general registers after it: the pending load is applied
behind the shift. -/
private theorem oneInstruction_shift {m m₁ : Machine} {raw : Word} (hm : m.WellFormed)
    (hfetch : fetch m = .ok raw m₁) (hop : (decode raw).opCode.IsShift) :
    ∃ m', oneInstruction m = .ok () m' ∧ ∀ i < numGPRegs, m'.registers i =
      if i = 0 then 0 else if i = (m.registers loadReg).toNat then m.registers loadValueReg
      else if i = (decode raw).rd then
        hostShift (decode raw).opCode (m.registers (decode raw).rt) (shiftAmount raw m)
      else m.registers i := by
  have hregs := fetch_registers hfetch
  have hload := hm.load_lt
  have hrd := decode_rd_lt raw
  have hamount : shiftAmount raw m₁ = shiftAmount raw m := by rw [shiftAmount, shiftAmount, hregs]
  have hexec := execute_shift hop (m₁.registers nextPCReg) m₁
  rw [hamount, hregs] at hexec
  simp only [numGPRegs] at hload hrd
  generalize hostShift (decode raw).opCode (m.registers (decode raw).rt) (shiftAmount raw m) = v
    at hexec ⊢
  have hkept : ∀ i, i ≠ (decode raw).rd →
      (m₁.setReg (decode raw).rd v).registers i = m.registers i := fun i hi ↦ by
    rw [Machine.setReg_registers_of_ne _ _ hi, hregs]
  have htarget : (m₁.setReg (decode raw).rd v).registers loadReg = m.registers loadReg :=
    hkept loadReg (by simp only [loadReg]; omega)
  have hvalue : (m₁.setReg (decode raw).rd v).registers loadValueReg = m.registers loadValueReg :=
    hkept loadValueReg (by simp only [loadValueReg]; omega)
  have hrun : oneInstruction m = .ok () (((m₁.setReg (decode raw).rd v).applyLoad 0 0).advance
      (m.registers nextPCReg + 4)) := by
    rw [oneInstruction, bind_of_ok hfetch, runInstruction,
      bind_of_ok (readReg_of_lt (by decide) m₁), hregs, bind_of_ok hexec,
      finish_eq (by rw [htarget]; simp only [numTotalRegs]; omega), Next.goto]
  refine ⟨_, hrun, fun i hi ↦ ?_⟩
  · simp only [numGPRegs] at hi
    rw [Machine.advance_registers_of_ne _ _ (by simp only [prevPCReg]; omega)
      (by simp only [pcReg]; omega) (by simp only [nextPCReg]; omega), Machine.applyLoad_registers,
      htarget, hvalue]
    simp only [loadReg, loadValueReg, if_neg (show ¬i = 38 by omega),
      if_neg (show ¬i = 37 by omega), Machine.setReg_registers, hregs]

/-- The instruction ends with the architecture's result in `rd`, zero in register 0 and every other
general register as it was, but for the pending load. -/
def Machine.ShiftFollows (m : Machine) (raw : Word) : Prop :=
  ∃ m', oneInstruction m = .ok () m' ∧ m'.registers 0 = 0 ∧
    ((decode raw).rd ≠ 0 → m'.registers (decode raw).rd =
      mipsShift (decode raw).opCode (m.registers (decode raw).rt) (shiftAmount raw m)) ∧
    ∀ i < numGPRegs, i ≠ 0 → i ≠ (decode raw).rd → m'.registers i =
      if i = (m.registers loadReg).toNat then m.registers loadValueReg else m.registers i

/-- Both shifts to the right agree exactly on operands without a sign, and on shifts by nothing. -/
private theorem sshiftRight_eq_ushiftRight_iff {a : Word} {n : ℕ} :
    a.sshiftRight n = a >>> n ↔ a.msb = false ∨ n = 0 := by
  constructor
  · intro heq
    by_contra hnot
    obtain ⟨hmsb, hn⟩ := not_or.mp hnot
    have hbit := congrArg BitVec.msb heq
    rw [BitVec.msb_sshiftRight, BitVec.msb_ushiftRight] at hbit
    rw [decide_eq_true (Nat.pos_of_ne_zero hn), Bool.not_true, Bool.false_and] at hbit
    exact hmsb hbit
  · rintro (hmsb | rfl)
    · exact BitVec.sshiftRight_eq_of_msb_false hmsb
    · rw [BitVec.sshiftRight_zero, BitVec.ushiftRight_zero]

private theorem hostShift_eq_iff {op : OpCode} (a : Word) (n : ℕ) :
    hostShift op a n = mipsShift op a n ↔ ¬op.IsLogicalShift ∨ a.msb = false ∨ n = 0 := by
  rw [hostShift, mipsShift]
  by_cases hleft : op.IsLeftShift
  · have hnot : ¬op.IsLogicalShift := by
      rcases hleft with rfl | rfl <;> decide
    rw [if_pos hleft, if_pos hleft]
    exact iff_of_true rfl (.inl hnot)
  · rw [if_neg hleft, if_neg hleft]
    by_cases hlogical : op.IsLogicalShift
    · rw [if_pos hlogical, sshiftRight_eq_ushiftRight_iff, or_iff_right (not_not.mpr hlogical)]
    · rw [if_neg hlogical]
      exact iff_of_true rfl (.inl hlogical)

/-- **A shift follows the architecture exactly when** it goes to register 0, or `rd` is not waiting
for a load and the shift is not a logical one of an operand with the sign bit set; a load for `rd`
overrules the shift. -/
theorem shiftFollows_iff {m m₁ : Machine} {raw : Word} (hm : m.WellFormed)
    (hfetch : fetch m = .ok raw m₁) (hop : (decode raw).opCode.IsShift) :
    m.ShiftFollows raw ↔
      (decode raw).rd = 0 ∨
      (m.registers loadReg).toNat ≠ (decode raw).rd ∧
        (¬(decode raw).opCode.IsLogicalShift ∨ (m.registers (decode raw).rt).msb = false ∨
          shiftAmount raw m = 0) ∨
      (m.registers loadReg).toNat = (decode raw).rd ∧ m.registers loadValueReg =
        mipsShift (decode raw).opCode (m.registers (decode raw).rt) (shiftAmount raw m) := by
  obtain ⟨m', hrun, hregs⟩ := oneInstruction_shift hm hfetch hop
  have hrd := decode_rd_lt raw
  -- everything but the value in `rd` holds in any case
  have hother : ∀ i < numGPRegs, i ≠ 0 → i ≠ (decode raw).rd → m'.registers i =
      if i = (m.registers loadReg).toNat then m.registers loadValueReg else m.registers i := by
    intro i hi hzero hne
    rw [hregs i hi, if_neg hzero, if_neg hne]
  have hfollows : m.ShiftFollows raw ↔ ((decode raw).rd ≠ 0 → m'.registers (decode raw).rd =
      mipsShift (decode raw).opCode (m.registers (decode raw).rt) (shiftAmount raw m)) := by
    constructor
    · rintro ⟨m'', hrun', -, hvalue, -⟩
      rw [hrun] at hrun'
      cases hrun'
      exact hvalue
    · intro hvalue
      exact ⟨m', hrun, by rw [hregs 0 (by decide), if_pos rfl], hvalue, hother⟩
  rw [hfollows]
  by_cases hzero : (decode raw).rd = 0
  · exact iff_of_true (fun hne ↦ absurd hzero hne) (.inl hzero)
  rw [hregs _ hrd, if_neg hzero, or_iff_right hzero, imp_iff_right hzero]
  by_cases hload : (m.registers loadReg).toNat = (decode raw).rd
  · rw [if_pos hload.symm, or_iff_right fun h ↦ h.1 hload, and_iff_right hload]
  · rw [if_neg (Ne.symm hload), if_pos rfl, or_iff_left (fun h ↦ hload h.1), and_iff_right hload]
    exact hostShift_eq_iff _ _

/-- `srl r2, r1, 1` with the given value in `r1`. -/
def srlProgram (a : Word) : Machine :=
  (Machine.start 16 (programImage [0x00011042]) identityPageTable).setReg 1 a

/-- The sign is shifted in. -/
theorem srlProgram_not_follows :
    (srlProgram 0x80000000).WellFormed ∧
      (∃ m₁, fetch (srlProgram 0x80000000) = .ok 0x00011042 m₁) ∧
      (decode 0x00011042).opCode.IsShift ∧ ¬(srlProgram 0x80000000).ShiftFollows 0x00011042 := by
  refine ⟨⟨rfl, by decide⟩, fetch_eq_fetched (by decide +kernel) (by decide +kernel), by decide, ?_⟩
  rintro ⟨m', hrun, -, hvalue, -⟩
  have hm' : m' = (srlProgram 0x80000000).after oneInstruction := by
    rw [Machine.after, hrun]
  have heq := hvalue (by decide)
  rw [hm'] at heq
  exact absurd heq (by decide +kernel)

/-- Without a sign it is as it should be. -/
theorem srlProgram_follows : (srlProgram 0x40000000).ShiftFollows 0x00011042 := by
  obtain ⟨m₁, hfetch⟩ : ∃ m₁, fetch (srlProgram 0x40000000) = .ok 0x00011042 m₁ :=
    fetch_eq_fetched (by decide +kernel) (by decide +kernel)
  exact (shiftFollows_iff ⟨rfl, by decide⟩ hfetch (by decide)).mpr
    (.inr (.inl ⟨by decide, .inr (.inl (by decide))⟩))

/-! ## Multiplication -/

/-- Two words as one of double length. -/
def wide (hi lo : Word) : BitVec 64 := hi ++ lo

theorem toNat_wide (hi lo : Word) : (wide hi lo).toNat = hi.toNat * 2 ^ 32 + lo.toNat := by
  rw [wide, BitVec.toNat_append, Nat.shiftLeft_eq, Nat.mul_comm]
  exact (Nat.two_pow_add_eq_or_of_lt lo.isLt hi.toNat).symm

private theorem and_one_ne_zero_iff (a : Word) : a &&& 1 ≠ 0 ↔ a.toNat % 2 = 1 := by
  have hone : (a &&& 1).toNat = a.toNat % 2 := by
    rw [BitVec.toNat_and]
    exact Nat.and_one_is_mod a.toNat
  rw [ne_eq, ← BitVec.toNat_inj, hone]
  exact Nat.mod_two_ne_zero

private theorem and_signBit_ne_zero_iff (a : Word) : a &&& 0x80000000 ≠ 0 ↔ 2 ^ 31 ≤ a.toNat := by
  rw [ne_eq, and_signBit_eq_zero_iff, Bool.not_eq_false, BitVec.msb_eq_decide, decide_eq_true_iff]

private theorem and_not_one_eq_zero_iff (a : Word) : a &&& 0xfffffffe = 0 ↔ a.toNat < 2 := by
  constructor
  · intro hzero
    have hmask : ∀ i < 32, (0xfffffffe : Word).getLsbD i = !(1 : Word).getLsbD i := by decide
    have hone : a = a &&& 1 := by
      refine BitVec.eq_of_getLsbD_eq fun i hi ↦ ?_
      have hbit := congrArg (BitVec.getLsbD · i) hzero
      have hnone : (0 : Word).getLsbD i = false := BitVec.getLsbD_zero
      rw [BitVec.getLsbD_and, hmask i hi, hnone] at hbit
      rw [BitVec.getLsbD_and]
      revert hbit
      cases a.getLsbD i <;> cases (1 : Word).getLsbD i <;> decide
    rw [hone, BitVec.toNat_and]
    exact Nat.lt_succ_of_le Nat.and_le_right
  · intro hlt
    have hcases : a = 0 ∨ a = 1 := by
      rcases Nat.lt_succ_iff_lt_or_eq.mp hlt with h0 | h1
      · exact .inl (BitVec.eq_of_toNat_eq (Nat.lt_one_iff.mp h0))
      · exact .inr (BitVec.eq_of_toNat_eq h1)
    rcases hcases with rfl | rfl <;> decide

/-- Adding two double words by hand, with the carry out of the low words. -/
private theorem wide_add (hi lo bHi bLo : Word) :
    wide ((if (lo + bLo).ult bLo then hi + 1 else hi) + bHi) (lo + bLo)
      = wide hi lo + wide bHi bLo := by
  refine BitVec.eq_of_toNat_eq ?_
  have h1 := hi.isLt
  have h2 := lo.isLt
  have h3 := bHi.isLt
  have h4 := bLo.isLt
  rw [BitVec.toNat_add, toNat_wide, toNat_wide, toNat_wide, BitVec.toNat_add, BitVec.toNat_add]
  by_cases hc : (lo + bLo).ult bLo = true
  · rw [if_pos hc]
    rw [BitVec.ult, decide_eq_true_iff, BitVec.toNat_add] at hc
    have hone : (1 : Word).toNat = 1 := rfl
    rw [BitVec.toNat_add]
    omega
  · rw [if_neg hc]
    rw [BitVec.ult, decide_eq_true_iff, BitVec.toNat_add] at hc
    omega

/-- Doubling a double word by hand. -/
private theorem wide_double (bHi bLo : Word) :
    wide (if bLo &&& 0x80000000 ≠ 0 then (bHi <<< 1) ||| 1 else bHi <<< 1) (bLo <<< 1)
      = wide bHi bLo * 2 := by
  have h3 := bHi.isLt
  have h4 := bLo.isLt
  have htwo : (2 : BitVec 64).toNat = 2 := rfl
  have hlo : (bLo <<< 1).toNat = bLo.toNat * 2 % 2 ^ 32 := by
    rw [BitVec.toNat_shiftLeft, Nat.shiftLeft_eq]
  have hhi : (bHi <<< 1).toNat = bHi.toNat * 2 % 2 ^ 32 := by
    rw [BitVec.toNat_shiftLeft, Nat.shiftLeft_eq]
  have hor : ((bHi <<< 1) ||| 1).toNat = bHi.toNat * 2 % 2 ^ 32 + 1 := by
    have heven : bHi.toNat * 2 % 2 ^ 32 = 2 ^ 1 * (bHi.toNat % 2 ^ 31) := by omega
    rw [BitVec.toNat_or, hhi, heven]
    exact (Nat.two_pow_add_eq_or_of_lt (by decide) _).symm
  refine BitVec.eq_of_toNat_eq ?_
  rw [BitVec.toNat_mul, toNat_wide, toNat_wide, hlo, htwo]
  by_cases hc : bLo &&& 0x80000000 ≠ 0
  · rw [if_pos hc, hor]
    rw [and_signBit_ne_zero_iff] at hc
    omega
  · rw [if_neg hc, hhi]
    rw [and_signBit_ne_zero_iff] at hc
    omega

/-- The bits of the multiplier that are left to look at. -/
private theorem sshiftRight_one_mod (a : Word) {n : ℕ} (hn : n < 32) :
    a.toNat % 2 ^ (n + 1) = 2 * ((a.sshiftRight 1).toNat % 2 ^ n) + a.toNat % 2 := by
  have hlt := a.isLt
  -- the sign that is shifted in is above the bits that are looked at
  have hhalf : (a.sshiftRight 1).toNat % 2 ^ n = a.toNat / 2 % 2 ^ n := by
    cases hmsb : a.msb with
    | false =>
      rw [BitVec.sshiftRight_eq_of_msb_false hmsb, BitVec.toNat_ushiftRight,
        Nat.shiftRight_eq_div_pow, Nat.pow_one]
    | true =>
      have hsum : (a.sshiftRight 1).toNat = a.toNat / 2 + 2 ^ n * 2 ^ (31 - n) := by
        rw [← Nat.pow_add, Nat.add_sub_cancel' (Nat.le_of_lt_succ hn),
          BitVec.sshiftRight_eq_of_msb_true hmsb, BitVec.toNat_not, BitVec.toNat_ushiftRight,
          BitVec.toNat_not, Nat.shiftRight_eq_div_pow]
        omega
      rw [hsum, Nat.add_mul_mod_self_left]
  rw [hhalf, Nat.pow_succ, Nat.mul_comm (2 ^ n), Nat.mod_mul, Nat.add_comm]

/-- **The loop of `Mult`**, `n` bits before its end: the bits left of the multiplier, times the
shifted multiplicand, are added to what there is. -/
theorem multLoop_eq {n : ℕ} (hn : n ≤ 32) (a bLo bHi lo hi : Word) :
    wide (multLoop n a bLo bHi lo hi).1 (multLoop n a bLo bHi lo hi).2
      = wide hi lo + wide bHi bLo * BitVec.ofNat 64 (a.toNat % 2 ^ n) := by
  induction n generalizing a bLo bHi lo hi with
  | zero =>
    rw [multLoop, Nat.pow_zero, Nat.mod_one]
    simp
  | succ n ih =>
    rw [multLoop, sshiftRight_one_mod a hn]
    dsimp only
    by_cases hodd : a &&& 1 ≠ 0
    · rw [if_pos hodd]
      rw [and_one_ne_zero_iff] at hodd
      by_cases hlast : a &&& 0xfffffffe = 0
      · -- no other bit is set
        rw [if_pos hlast, wide_add]
        rw [and_not_one_eq_zero_iff] at hlast
        have hbits := sshiftRight_one_mod a hn
        have hmod := Nat.mod_le a.toNat (2 ^ (n + 1))
        have hrest : 2 * ((a.sshiftRight 1).toNat % 2 ^ n) + a.toNat % 2 = 1 := by omega
        rw [hrest]
        exact congrArg (wide hi lo + ·) (BitVec.mul_one _).symm
      · rw [if_neg hlast, ih (by omega), wide_add, wide_double, hodd, BitVec.ofNat_add,
          BitVec.ofNat_mul, show BitVec.ofNat 64 2 = 2 from rfl,
          show BitVec.ofNat 64 1 = 1 from rfl]
        ring
    · rw [if_neg hodd, ih (by omega), wide_double]
      rw [and_one_ne_zero_iff] at hodd
      have heven : a.toNat % 2 = 0 := by omega
      rw [heven, Nat.add_zero, BitVec.ofNat_mul, show BitVec.ofNat 64 2 = 2 from rfl]
      ring

private theorem multLoop_toNat (a b : Word) :
    (wide (multLoop 32 a b 0 0 0).1 (multLoop 32 a b 0 0 0).2).toNat = a.toNat * b.toNat := by
  have ha := a.isLt
  have hb := b.isLt
  have hlt : a.toNat * b.toNat < 2 ^ 64 := by
    calc a.toNat * b.toNat < 2 ^ 32 * 2 ^ 32 := Nat.mul_lt_mul'' ha hb
      _ = 2 ^ 64 := rfl
  have hzero : wide 0 0 = 0 := rfl
  have hb' : (wide 0 b).toNat = b.toNat := by
    rw [toNat_wide]
    exact Nat.zero_add _
  rw [multLoop_eq (Nat.le_refl 32), hzero, zero_add, Nat.mod_eq_of_lt ha, BitVec.toNat_mul,
    hb', BitVec.toNat_ofNat, Nat.mod_eq_of_lt (Nat.lt_trans ha (by decide)), Nat.mul_comm,
    Nat.mod_eq_of_lt hlt]

/-- The two's complement of a double word, by hand. -/
private theorem wide_neg (hi lo : Word) :
    wide (if ~~~lo + 1 = 0 then ~~~hi + 1 else ~~~hi) (~~~lo + 1) = -wide hi lo := by
  have h1 := hi.isLt
  have h2 := lo.isLt
  have hone : (1 : Word).toNat = 1 := rfl
  have hlo : (~~~lo + 1).toNat = (2 ^ 32 - 1 - lo.toNat + 1) % 2 ^ 32 := by
    rw [BitVec.toNat_add, BitVec.toNat_not, hone]
  refine BitVec.eq_of_toNat_eq ?_
  rw [BitVec.toNat_neg, toNat_wide, toNat_wide, hlo]
  by_cases hc : ~~~lo + 1 = 0
  · have hzero := congrArg BitVec.toNat hc
    rw [hlo] at hzero
    have : (0 : Word).toNat = 0 := rfl
    rw [if_pos hc, BitVec.toNat_add, BitVec.toNat_not, hone]
    omega
  · have hzero : (~~~lo + 1).toNat ≠ 0 := fun h ↦ hc (BitVec.eq_of_toNat_eq h)
    rw [hlo] at hzero
    rw [if_neg hc, BitVec.toNat_not]
    omega

private theorem slt_zero_eq (a : Word) : a.slt 0 = decide (a.toInt < 0) := BitVec.slt_eq_decide

/-- What `Mult` makes of an operand: its absolute value, that of the most negative `int`
included. -/
private theorem toNat_abs (a : Word) : (if a.slt 0 then -a else a).toNat = a.toInt.natAbs := by
  have hlt := a.isLt
  have hint := BitVec.toInt_eq_toNat_cond a
  rw [slt_zero_eq]
  by_cases hneg : a.toInt < 0
  · rw [if_pos (decide_eq_true hneg), BitVec.toNat_neg]
    split at hint <;> omega
  · rw [if_neg (by simpa using hneg)]
    split at hint <;> omega

private theorem natAbs_toInt_le (a : Word) : a.toInt.natAbs ≤ 2 ^ 31 := by
  have hrange := toInt_range a
  omega

/-- The product of the absolute values with the sign of the operands. -/
private theorem mul_eq_natAbs (x y : ℤ) :
    x * y = if (xor (decide (x < 0)) (decide (y < 0))) = true then -((x.natAbs * y.natAbs : ℕ) : ℤ)
      else ((x.natAbs * y.natAbs : ℕ) : ℤ) := by
  rw [Int.natCast_mul]
  rcases Int.lt_or_le x 0 with hx | hx <;> rcases Int.lt_or_le y 0 with hy | hy
  · rw [if_neg (by simp [hx, hy]), Int.ofNat_natAbs_of_nonpos hx.le,
      Int.ofNat_natAbs_of_nonpos hy.le, Int.neg_mul_neg]
  · rw [if_pos (by simp [hx, hy]), Int.ofNat_natAbs_of_nonpos hx.le, Int.natAbs_of_nonneg hy,
      Int.neg_mul, Int.neg_neg]
  · rw [if_pos (by simp [hx, hy]), Int.natAbs_of_nonneg hx, Int.ofNat_natAbs_of_nonpos hy.le,
      Int.mul_neg, Int.neg_neg]
  · rw [if_neg (by simp [Int.not_lt.mpr hx, Int.not_lt.mpr hy]), Int.natAbs_of_nonneg hx,
      Int.natAbs_of_nonneg hy]

/-- **`Mult` computes the exact product**, of the operands as unsigned and as signed numbers. -/
theorem mult_exact (a b : Word) :
    (wide (mult a b false).1 (mult a b false).2).toNat = a.toNat * b.toNat ∧
      (wide (mult a b true).1 (mult a b true).2).toInt = a.toInt * b.toInt := by
  by_cases hzero : a = 0 ∨ b = 0
  · have hpair : ∀ signedArith, mult a b signedArith = (0, 0) := fun _ ↦ if_pos hzero
    have hwide : wide 0 0 = 0 := rfl
    rw [hpair, hpair, hwide]
    rcases hzero with rfl | rfl <;> simp
  · constructor
    · rw [mult, if_neg hzero]
      exact multLoop_toNat a b
    · -- the loop works on the absolute values
      have hprod := multLoop_toNat (if a.slt 0 then -a else a) (if b.slt 0 then -b else b)
      rw [toNat_abs, toNat_abs] at hprod
      have hle : a.toInt.natAbs * b.toInt.natAbs ≤ 2 ^ 31 * 2 ^ 31 :=
        Nat.mul_le_mul (natAbs_toInt_le a) (natAbs_toInt_le b)
      rw [mult, if_neg hzero, mul_eq_natAbs]
      simp only [Bool.true_and, slt_zero_eq] at hprod ⊢
      revert hprod
      generalize multLoop 32 _ _ 0 0 0 = p
      intro hprod
      have hint : (wide p.1 p.2).toInt = ((a.toInt.natAbs * b.toInt.natAbs : ℕ) : ℤ) := by
        rw [BitVec.toInt_eq_toNat_of_lt (by omega), hprod]
      split
      · rw [wide_neg, BitVec.toInt_neg, hint, Int.bmod_def]
        omega
      · exact hint

end Nachos
