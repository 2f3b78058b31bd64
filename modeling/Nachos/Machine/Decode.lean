import Mathlib.Tactic.SplitIfs
import Nachos.Machine.State

/-!
# Instruction decoding

`Instruction::Decode` cuts the word into its fields and finds the operation through two tables:
`opTable` for the top six bits and, when that says `SPECIAL`, `specialTable` for the low six;
`BCOND` is told apart by the register field instead. The operations are the `OP_` constants of the
source, with the two table-only codes among them, so that a decoder which let one of those through
would show.
-/

namespace Nachos

/-- The `OP_` codes, and the two codes that only `opTable` uses. -/
inductive OpCode where
  | add | addi | addiu | addu | and | andi | beq | bgez | bgezal | bgtz | blez | bltz | bltzal | bne
  | div | divu | j | jal | jalr | jr | lb | lbu | lh | lhu | lui | lw | lwl | lwr
  | mfhi | mflo | mthi | mtlo | mult | multu | nor | or | ori | rfe | sb | sh | sll | sllv
  | slt | slti | sltiu | sltu | sra | srav | srl | srlv | sub | subu | sw | swl | swr | xor | xori
  | syscall | unimp | res
  | special | bcond
  deriving DecidableEq, Repr

/-- Instruction formats. -/
inductive Format where
  | ifmt | jfmt | rfmt
  deriving DecidableEq, Repr

structure OpInfo where
  opCode : OpCode
  format : Format
  deriving DecidableEq, Repr

/-- What bits 31:26 of an instruction say. -/
def opTable : Vector OpInfo 64 := #v[
  ⟨.special, .rfmt⟩, ⟨.bcond, .ifmt⟩, ⟨.j, .jfmt⟩, ⟨.jal, .jfmt⟩,
  ⟨.beq, .ifmt⟩, ⟨.bne, .ifmt⟩, ⟨.blez, .ifmt⟩, ⟨.bgtz, .ifmt⟩,
  ⟨.addi, .ifmt⟩, ⟨.addiu, .ifmt⟩, ⟨.slti, .ifmt⟩, ⟨.sltiu, .ifmt⟩,
  ⟨.andi, .ifmt⟩, ⟨.ori, .ifmt⟩, ⟨.xori, .ifmt⟩, ⟨.lui, .ifmt⟩,
  ⟨.unimp, .ifmt⟩, ⟨.unimp, .ifmt⟩, ⟨.unimp, .ifmt⟩, ⟨.unimp, .ifmt⟩,
  ⟨.res, .ifmt⟩, ⟨.res, .ifmt⟩, ⟨.res, .ifmt⟩, ⟨.res, .ifmt⟩,
  ⟨.res, .ifmt⟩, ⟨.res, .ifmt⟩, ⟨.res, .ifmt⟩, ⟨.res, .ifmt⟩,
  ⟨.res, .ifmt⟩, ⟨.res, .ifmt⟩, ⟨.res, .ifmt⟩, ⟨.res, .ifmt⟩,
  ⟨.lb, .ifmt⟩, ⟨.lh, .ifmt⟩, ⟨.lwl, .ifmt⟩, ⟨.lw, .ifmt⟩,
  ⟨.lbu, .ifmt⟩, ⟨.lhu, .ifmt⟩, ⟨.lwr, .ifmt⟩, ⟨.res, .ifmt⟩,
  ⟨.sb, .ifmt⟩, ⟨.sh, .ifmt⟩, ⟨.swl, .ifmt⟩, ⟨.sw, .ifmt⟩,
  ⟨.res, .ifmt⟩, ⟨.res, .ifmt⟩, ⟨.swr, .ifmt⟩, ⟨.res, .ifmt⟩,
  ⟨.unimp, .ifmt⟩, ⟨.unimp, .ifmt⟩, ⟨.unimp, .ifmt⟩, ⟨.unimp, .ifmt⟩,
  ⟨.res, .ifmt⟩, ⟨.res, .ifmt⟩, ⟨.res, .ifmt⟩, ⟨.res, .ifmt⟩,
  ⟨.unimp, .ifmt⟩, ⟨.unimp, .ifmt⟩, ⟨.unimp, .ifmt⟩, ⟨.unimp, .ifmt⟩,
  ⟨.res, .ifmt⟩, ⟨.res, .ifmt⟩, ⟨.res, .ifmt⟩, ⟨.res, .ifmt⟩]

/-- What the low six bits of a `SPECIAL` instruction say. -/
def specialTable : Vector OpCode 64 := #v[
  .sll, .res, .srl, .sra, .sllv, .res, .srlv, .srav,
  .jr, .jalr, .res, .res, .syscall, .unimp, .res, .res,
  .mfhi, .mthi, .mflo, .mtlo, .res, .res, .res, .res,
  .mult, .multu, .div, .divu, .res, .res, .res, .res,
  .add, .addu, .sub, .subu, .and, .or, .xor, .nor,
  .res, .res, .slt, .sltu, .res, .res, .res, .res,
  .res, .res, .res, .res, .res, .res, .res, .res,
  .res, .res, .res, .res, .res, .res, .res, .res]

/-- `class Instruction`: the word and its decoded fields. The register fields are `char`s holding
five bits, `extra` is an `int`. -/
structure Instruction where
  value : Word
  opCode : OpCode
  rs : ℕ
  rt : ℕ
  rd : ℕ
  extra : Word
  deriving DecidableEq, Repr

/-- The `extra` field, by format. -/
def decodeExtra (value : Word) : Format → Word
  | .ifmt =>
    if value &&& 0xffff &&& 0x8000 ≠ 0 then (value &&& 0xffff) ||| 0xffff0000 else value &&& 0xffff
  | .rfmt => (value >>> 6) &&& 0x1f
  | .jfmt => value &&& 0x3ffffff

/-- The operation, after the second table or the branch-condition field. -/
def decodeOp (value : Word) : OpCode → OpCode
  | .special => specialTable.get (value.extractLsb' 0 6).toFin
  | .bcond =>
    if value &&& 0x1f0000 = 0 then .bltz
    else if value &&& 0x1f0000 = 0x10000 then .bgez
    else if value &&& 0x1f0000 = 0x100000 then .bltzal
    else if value &&& 0x1f0000 = 0x110000 then .bgezal
    else .unimp
  | op => op

/-- `Instruction::Decode`. -/
def decode (value : Word) : Instruction :=
  let opPtr := opTable.get (value.extractLsb' 26 6).toFin
  { value := value
    rs := ((value >>> 21) &&& 0x1f).toNat
    rt := ((value >>> 16) &&& 0x1f).toNat
    rd := ((value >>> 11) &&& 0x1f).toNat
    extra := decodeExtra value opPtr.format
    opCode := decodeOp value opPtr.opCode }

/-! ## What decoding guarantees -/

theorem and_mask_toNat_lt (v : Word) : (v &&& 0x1f).toNat < numGPRegs := by
  rw [BitVec.toNat_and]
  exact Nat.lt_succ_of_le Nat.and_le_right

theorem decode_rs_lt (value : Word) : (decode value).rs < numGPRegs := and_mask_toNat_lt _

theorem decode_rt_lt (value : Word) : (decode value).rt < numGPRegs := and_mask_toNat_lt _

theorem decode_rd_lt (value : Word) : (decode value).rd < numGPRegs := and_mask_toNat_lt _

/-- The codes `OneInstruction` has a case for. -/
def OpCode.Handled (op : OpCode) : Prop := op ≠ .rfe ∧ op ≠ .special ∧ op ≠ .bcond

instance (op : OpCode) : Decidable op.Handled := inferInstanceAs (Decidable (_ ∧ _ ∧ _))

/-- The shifts by the five-bit field. -/
def OpCode.ShiftsByField (op : OpCode) : Prop := op = .sll ∨ op = .sra ∨ op = .srl

instance (op : OpCode) : Decidable op.ShiftsByField := inferInstanceAs (Decidable (_ ∨ _ ∨ _))

private theorem specialTable_handled : ∀ i : Fin 64, (specialTable.get i).Handled := by decide

private theorem opTable_spec : ∀ i : Fin 64,
    ((opTable.get i).opCode = .special ∧ (opTable.get i).format = .rfmt) ∨
    ((opTable.get i).opCode ≠ .special ∧ (opTable.get i).opCode ≠ .rfe ∧
      ¬(opTable.get i).opCode.ShiftsByField) := by decide

private theorem decodeOp_bcond (value : Word) :
    (decodeOp value .bcond).Handled ∧ ¬(decodeOp value .bcond).ShiftsByField := by
  rw [decodeOp]
  split_ifs <;> decide

private theorem decodeOp_of_ne {value : Word} {op : OpCode} (h1 : op ≠ .special)
    (h2 : op ≠ .bcond) : decodeOp value op = op := by
  cases op <;> first | rfl | exact absurd rfl h1 | exact absurd rfl h2

/-- The decoder never lets a table-only or unhandled code through. -/
theorem decode_handled (value : Word) : (decode value).opCode.Handled := by
  have hdec : (decode value).opCode
      = decodeOp value (opTable.get (value.extractLsb' 26 6).toFin).opCode := rfl
  rw [hdec]
  rcases opTable_spec (value.extractLsb' 26 6).toFin with ⟨hop, -⟩ | ⟨hsp, hrfe, -⟩
  · rw [hop, decodeOp]
    exact specialTable_handled _
  · by_cases hb : (opTable.get (value.extractLsb' 26 6).toFin).opCode = .bcond
    · rw [hb]
      exact (decodeOp_bcond value).1
    · rw [decodeOp_of_ne hsp hb]
      exact ⟨hrfe, hsp, hb⟩

/-- A shift by the field comes from `specialTable`, so `extra` is the five-bit field. -/
theorem decode_extra_eq {value : Word} (h : (decode value).opCode.ShiftsByField) :
    (decode value).extra = (value >>> 6) &&& 0x1f := by
  have hdec : (decode value).opCode
      = decodeOp value (opTable.get (value.extractLsb' 26 6).toFin).opCode := rfl
  rw [hdec] at h
  rcases opTable_spec (value.extractLsb' 26 6).toFin with ⟨-, hfmt⟩ | ⟨hsp, -, hsh⟩
  · have hextra : (decode value).extra
        = decodeExtra value (opTable.get (value.extractLsb' 26 6).toFin).format := rfl
    rw [hextra, hfmt, decodeExtra]
  · by_cases hb : (opTable.get (value.extractLsb' 26 6).toFin).opCode = .bcond
    · rw [hb] at h
      exact absurd h (decodeOp_bcond value).2
    · rw [decodeOp_of_ne hsp hb] at h
      exact absurd h hsh

theorem decode_extra_lt {value : Word} (h : (decode value).opCode.ShiftsByField) :
    (decode value).extra.toNat < 32 := by
  rw [decode_extra_eq h]
  exact and_mask_toNat_lt _

end Nachos
