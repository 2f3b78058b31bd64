import Nachos.Machine.Decode
import Nachos.Machine.Translate

/-!
# One instruction of a user program

`execute` is the `switch` of `Machine::OneInstruction`, case by case; what it hands on to the
common tail is the load to be delayed and the program counter after the next one. `oneInstruction`
is the whole function: fetch, decode, execute, apply the load that was pending, advance the program
counters.

Additions, subtractions and left shifts wrap, as the words do; every other step that could bring
the host down is tested: an index outside the register file, a shift amount outside `0..31`, a
division by zero or one whose quotient is no `int`.

`Instruction.Body` lists what the cases are made of, with the registers they use: cases that differ
in an operator only have the same body, and a proof about every instruction is one about the bodies.

The build defines `SIM_FIX`, so the unaligned accesses are the ones under that switch. Debug output
is left out.
-/

namespace Nachos

/-! ## Host arithmetic -/

@[simp] abbrev signBit : Word := 0x80000000

/-- The most negative `int`. -/
@[simp] abbrev intMin : Word := 0x80000000

/-- `a << n` on `int`. -/
def shiftLeft (a n : Word) : Exec Word :=
  if n.toNat < 32 then pure (a <<< n.toNat) else throw (.fault .shiftAmount)

/-- `a >> n` on `int`: the sign bit is shifted in. -/
def shiftRight (a n : Word) : Exec Word :=
  if n.toNat < 32 then pure (a.sshiftRight n.toNat) else throw (.fault .shiftAmount)

/-- Does the host trap on the `int` division of `a` by `b`? -/
def DivTraps (a b : Word) : Prop := b = 0 ∨ (a = intMin ∧ b = -1)

instance (a b : Word) : Decidable (DivTraps a b) := inferInstanceAs (Decidable (_ ∨ _))

/-- `a / b` on `int`. -/
def divInt (a b : Word) : Exec Word :=
  if DivTraps a b then throw (.fault .division) else pure (a.sdiv b)

/-- `a % b` on `int`. -/
def modInt (a b : Word) : Exec Word :=
  if DivTraps a b then throw (.fault .division) else pure (a.srem b)

/-- `a / b` on `unsigned int`. -/
def divUnsigned (a b : Word) : Exec Word :=
  if b = 0 then throw (.fault .division) else pure (a / b)

/-- `a % b` on `unsigned int`. -/
def modUnsigned (a b : Word) : Exec Word :=
  if b = 0 then throw (.fault .division) else pure (a % b)

/-! ## Multiplication -/

/-- The loop of `Mult`: look at the bits of `a` one at a time and add in a shifted `b`. The result
is the pair `(hi, lo)`. -/
def multLoop : ℕ → Word → Word → Word → Word → Word → Word × Word
  | 0, _, _, _, lo, hi => (hi, lo)
  | n + 1, a, bLo, bHi, lo, hi =>
    let bHi' := if bLo &&& 0x80000000 ≠ 0 then (bHi <<< 1) ||| 1 else bHi <<< 1
    if a &&& 1 ≠ 0 then
      let lo' := lo + bLo
      let hi' := (if lo'.ult bLo then hi + 1 else hi) + bHi
      if a &&& 0xfffffffe = 0 then (hi', lo')
      else multLoop n (a.sshiftRight 1) (bLo <<< 1) bHi' lo' hi'
    else
      multLoop n (a.sshiftRight 1) (bLo <<< 1) bHi' lo hi

/-- `Mult`, returning `(hi, lo)`. -/
def mult (a b : Word) (signedArith : Bool) : Word × Word :=
  if a = 0 ∨ b = 0 then (0, 0)
  else
    let negative := signedArith && (xor (a.slt 0) (b.slt 0))
    let a' := if signedArith && a.slt 0 then -a else a
    let b' := if signedArith && b.slt 0 then -b else b
    let (hi, lo) := multLoop 32 a' b' 0 0 0
    if negative then
      let lo' := ~~~lo + 1
      (if lo' = 0 then ~~~hi + 1 else ~~~hi, lo')
    else
      (hi, lo)

/-! ## Families of cases

Many cases differ in one operator only. Each keeps its own line in `execute`; what they share is
said here. -/

/-- `registers[rd] = f(registers[rs], registers[rt])`. -/
def aluReg (instr : Instruction) (f : Word → Word → Word) : Exec Unit := do
  let a ← readReg instr.rs
  let b ← readReg instr.rt
  writeReg instr.rd (f a b)

/-- `registers[rt] = f(registers[rs])`. -/
def aluImm (instr : Instruction) (f : Word → Word) : Exec Unit := do
  let a ← readReg instr.rs
  writeReg instr.rt (f a)

/-- `registers[rd] = registers[rt] shifted by n`. -/
def aluShift (instr : Instruction) (shift : Word → Word → Exec Word) (n : Word) : Exec Unit := do
  let a ← readReg instr.rt
  let r ← shift a n
  writeReg instr.rd r

/-- `tmp = registers[rs] + extra`. -/
def effectiveAddr (instr : Instruction) : Exec Word := do
  let base ← readReg instr.rs
  return base + instr.extra

/-- `registers[R31] = registers[NextPCReg] + 4`. -/
def linkR31 : Exec Unit := do
  let nextPC ← readReg nextPCReg
  writeReg retAddrReg (nextPC + 4)

/-- The value `LWL` and `LWR` merge into: the pending load if it is aimed at `rt`, and else the
register itself. -/
def mergeBase (instr : Instruction) : Exec Word := do
  let target ← readReg loadReg
  if target = BitVec.ofNat 32 instr.rt then readReg loadValueReg else readReg instr.rt

/-- The `switch` of `LWL`; `byte` is the low two bits of the address. -/
def mergeLeft (byte base value : Word) : Word :=
  match (3 - byte).toNat with
  | 0 => value
  | 1 => (base &&& 0xff) ||| (value <<< 8)
  | 2 => (base &&& 0xffff) ||| (value <<< 16)
  | 3 => (base &&& 0xffffff) ||| (value <<< 24)
  | _ => base

/-- The `switch` of `LWR`. -/
def mergeRight (byte base value : Word) : Word :=
  match (3 - byte).toNat with
  | 0 => (base &&& 0xffffff00) ||| ((value.sshiftRight 24) &&& 0xff)
  | 1 => (base &&& 0xffff0000) ||| ((value.sshiftRight 16) &&& 0xffff)
  | 2 => (base &&& 0xff000000) ||| ((value.sshiftRight 8) &&& 0xffffff)
  | 3 => value
  | _ => base

/-- The `switch` of `SWL`: the word to store over `value`. -/
def storeLeft (byte value r : Word) : Word :=
  match (3 - byte).toNat with
  | 0 => r
  | 1 => (value &&& 0xff000000) ||| ((r.sshiftRight 8) &&& 0xffffff)
  | 2 => (value &&& 0xffff0000) ||| ((r.sshiftRight 16) &&& 0xffff)
  | 3 => (value &&& 0xffffff00) ||| ((r.sshiftRight 24) &&& 0xff)
  | _ => value

/-- The `switch` of `SWR`. -/
def storeRight (byte value r : Word) : Word :=
  match (3 - byte).toNat with
  | 0 => (value &&& 0xffffff) ||| (r <<< 24)
  | 1 => (value &&& 0xffff) ||| (r <<< 16)
  | 2 => (value &&& 0xff) ||| (r <<< 8)
  | 3 => r
  | _ => value

/-- `LWL` and `LWR`: read the aligned word and merge it. The result is `nextLoadValue`. -/
def loadUnaligned (instr : Instruction) (merge : Word → Word → Word → Word) : Exec Word := do
  let tmp ← effectiveAddr instr
  let value ← readMem (tmp - (tmp &&& 0x3)) 4
  let base ← mergeBase instr
  return merge (tmp &&& 0x3) base value

/-- `SWL` and `SWR`: read the aligned word and write it back changed. -/
def storeUnaligned (instr : Instruction) (change : Word → Word → Word → Word) : Exec Unit := do
  let tmp ← effectiveAddr instr
  let value ← readMem (tmp - (tmp &&& 0x3)) 4
  let r ← readReg instr.rt
  writeMem (tmp - (tmp &&& 0x3)) 4 (change (tmp &&& 0x3) value r)

/-- `SB`, `SH` and `SW`. -/
def storeAligned (instr : Instruction) (size : ℕ) : Exec Unit := do
  let tmp ← effectiveAddr instr
  let r ← readReg instr.rt
  writeMem tmp size r

/-- `LB` and `LBU`. -/
def loadByte (instr : Instruction) : Exec Word := do
  let tmp ← effectiveAddr instr
  let value ← readMem tmp 1
  return if value &&& 0x80 ≠ 0 ∧ instr.opCode = .lb then value ||| 0xffffff00 else value &&& 0xff

/-- `LH` and `LHU`. -/
def loadHalf (instr : Instruction) : Exec Word := do
  let tmp ← effectiveAddr instr
  if tmp &&& 0x1 ≠ 0 then
    raiseException .addressErrorException tmp
  else
    let value ← readMem tmp 2
    return if value &&& 0x8000 ≠ 0 ∧ instr.opCode = .lh then value ||| 0xffff0000
      else value &&& 0xffff

/-- `LW`. -/
def loadWord (instr : Instruction) : Exec Word := do
  let tmp ← effectiveAddr instr
  if tmp &&& 0x3 ≠ 0 then raiseException .addressErrorException tmp else readMem tmp 4

/-- `ADD`: trap when the operands agree in sign and the sum does not. -/
def addTrapping (instr : Instruction) : Exec Unit := do
  let a ← readReg instr.rs
  let b ← readReg instr.rt
  if (a ^^^ b) &&& signBit = 0 ∧ (a ^^^ (a + b)) &&& signBit ≠ 0 then
    raiseException .overflowException 0
  else
    writeReg instr.rd (a + b)

/-- `ADDI`; the sum is compared with the immediate's sign. -/
def addImmTrapping (instr : Instruction) : Exec Unit := do
  let a ← readReg instr.rs
  if (a ^^^ instr.extra) &&& signBit = 0 ∧ (instr.extra ^^^ (a + instr.extra)) &&& signBit ≠ 0 then
    raiseException .overflowException 0
  else
    writeReg instr.rt (a + instr.extra)

/-- `SUB`: trap when the operands differ in sign and the difference leaves `rs`'s. -/
def subTrapping (instr : Instruction) : Exec Unit := do
  let a ← readReg instr.rs
  let b ← readReg instr.rt
  if (a ^^^ b) &&& signBit ≠ 0 ∧ (a ^^^ (a - b)) &&& signBit ≠ 0 then
    raiseException .overflowException 0
  else
    writeReg instr.rd (a - b)

/-- `DIV`. -/
def divide (instr : Instruction) : Exec Unit := do
  let a ← readReg instr.rs
  let b ← readReg instr.rt
  if b = 0 then
    writeReg loReg 0
    writeReg hiReg 0
  else
    let q ← divInt a b
    writeReg loReg q
    let r ← modInt a b
    writeReg hiReg r

/-- `DIVU`. -/
def divideUnsigned (instr : Instruction) : Exec Unit := do
  let a ← readReg instr.rs
  let b ← readReg instr.rt
  if b = 0 then
    writeReg loReg 0
    writeReg hiReg 0
  else
    let q ← divUnsigned a b
    writeReg loReg q
    let r ← modUnsigned a b
    writeReg hiReg r

/-- `MULT` and `MULTU`. -/
def multiply (instr : Instruction) (signedArith : Bool) : Exec Unit := do
  let a ← readReg instr.rs
  let b ← readReg instr.rt
  writeReg hiReg (mult a b signedArith).1
  writeReg loReg (mult a b signedArith).2

/-! ## The switch -/

/-- What the `switch` leaves for the tail of `OneInstruction`. -/
structure Next where
  loadTarget : Word
  loadValue : Word
  pcAfter : Word
  deriving DecidableEq, Repr

/-- No load to delay: go on to `pcAfter`. -/
def Next.goto (pcAfter : Word) : Next := ⟨0, 0, pcAfter⟩

/-- `registers[NextPCReg] + 4`, or the branch target when the branch is taken. -/
def branchTo (instr : Instruction) (nextPC : Word) (taken : Prop) [Decidable taken] : Next :=
  .goto (if taken then nextPC + (instr.extra <<< 2) else nextPC + 4)

/-- The `switch` of `Machine::OneInstruction`; `nextPC` is `registers[NextPCReg]`. -/
def execute (instr : Instruction) (nextPC : Word) : Exec Next :=
  match instr.opCode with
  | .add => do addTrapping instr; return .goto (nextPC + 4)
  | .addi => do addImmTrapping instr; return .goto (nextPC + 4)
  | .addiu => do aluImm instr (· + instr.extra); return .goto (nextPC + 4)
  | .addu => do aluReg instr (· + ·); return .goto (nextPC + 4)
  | .and => do aluReg instr (· &&& ·); return .goto (nextPC + 4)
  | .andi => do aluImm instr (· &&& (instr.extra &&& 0xffff)); return .goto (nextPC + 4)
  | .beq => do
    let a ← readReg instr.rs
    let b ← readReg instr.rt
    return branchTo instr nextPC (a = b)
  | .bgezal => do
    linkR31
    let a ← readReg instr.rs
    return branchTo instr nextPC (a &&& signBit = 0)
  | .bgez => do
    let a ← readReg instr.rs
    return branchTo instr nextPC (a &&& signBit = 0)
  | .bgtz => do
    let a ← readReg instr.rs
    return branchTo instr nextPC (0 < a.toInt)
  | .blez => do
    let a ← readReg instr.rs
    return branchTo instr nextPC (a.toInt ≤ 0)
  | .bltzal => do
    linkR31
    let a ← readReg instr.rs
    return branchTo instr nextPC (a &&& signBit ≠ 0)
  | .bltz => do
    let a ← readReg instr.rs
    return branchTo instr nextPC (a &&& signBit ≠ 0)
  | .bne => do
    let a ← readReg instr.rs
    let b ← readReg instr.rt
    return branchTo instr nextPC (a ≠ b)
  | .div => do divide instr; return .goto (nextPC + 4)
  | .divu => do divideUnsigned instr; return .goto (nextPC + 4)
  | .jal => do
    linkR31
    return .goto (((nextPC + 4) &&& 0xf0000000) ||| (instr.extra <<< 2))
  | .j => return .goto (((nextPC + 4) &&& 0xf0000000) ||| (instr.extra <<< 2))
  | .jalr => do
    writeReg instr.rd (nextPC + 4)
    let a ← readReg instr.rs
    return .goto a
  | .jr => do
    let a ← readReg instr.rs
    return .goto a
  | .lb | .lbu => do
    let value ← loadByte instr
    return ⟨BitVec.ofNat 32 instr.rt, value, nextPC + 4⟩
  | .lh | .lhu => do
    let value ← loadHalf instr
    return ⟨BitVec.ofNat 32 instr.rt, value, nextPC + 4⟩
  | .lui => do writeReg instr.rt (instr.extra <<< 16); return .goto (nextPC + 4)
  | .lw => do
    let value ← loadWord instr
    return ⟨BitVec.ofNat 32 instr.rt, value, nextPC + 4⟩
  | .lwl => do
    let value ← loadUnaligned instr mergeLeft
    return ⟨BitVec.ofNat 32 instr.rt, value, nextPC + 4⟩
  | .lwr => do
    let value ← loadUnaligned instr mergeRight
    return ⟨BitVec.ofNat 32 instr.rt, value, nextPC + 4⟩
  | .mfhi => do
    let a ← readReg hiReg
    writeReg instr.rd a
    return .goto (nextPC + 4)
  | .mflo => do
    let a ← readReg loReg
    writeReg instr.rd a
    return .goto (nextPC + 4)
  | .mthi => do
    let a ← readReg instr.rs
    writeReg hiReg a
    return .goto (nextPC + 4)
  | .mtlo => do
    let a ← readReg instr.rs
    writeReg loReg a
    return .goto (nextPC + 4)
  | .mult => do multiply instr true; return .goto (nextPC + 4)
  | .multu => do multiply instr false; return .goto (nextPC + 4)
  | .nor => do aluReg instr (fun a b ↦ ~~~(a ||| b)); return .goto (nextPC + 4)
  | .or => do aluReg instr (· ||| ·); return .goto (nextPC + 4)
  | .ori => do aluImm instr (· ||| (instr.extra &&& 0xffff)); return .goto (nextPC + 4)
  | .sb => do storeAligned instr 1; return .goto (nextPC + 4)
  | .sh => do storeAligned instr 2; return .goto (nextPC + 4)
  | .sll => do aluShift instr shiftLeft instr.extra; return .goto (nextPC + 4)
  | .sllv => do
    let n ← readReg instr.rs
    aluShift instr shiftLeft (n &&& 0x1f)
    return .goto (nextPC + 4)
  | .slt => do
    aluReg instr fun a b ↦ if a.toInt < b.toInt then 1 else 0
    return .goto (nextPC + 4)
  | .slti => do
    aluImm instr fun a ↦ if a.toInt < instr.extra.toInt then 1 else 0
    return .goto (nextPC + 4)
  | .sltiu => do
    aluImm instr fun a ↦ if a.toNat < instr.extra.toNat then 1 else 0
    return .goto (nextPC + 4)
  | .sltu => do
    aluReg instr fun a b ↦ if a.toNat < b.toNat then 1 else 0
    return .goto (nextPC + 4)
  | .sra => do aluShift instr shiftRight instr.extra; return .goto (nextPC + 4)
  | .srav => do
    let n ← readReg instr.rs
    aluShift instr shiftRight (n &&& 0x1f)
    return .goto (nextPC + 4)
  -- the temporary is an `int`, so `SRL` and `SRLV` shift in the sign as well
  | .srl => do aluShift instr shiftRight instr.extra; return .goto (nextPC + 4)
  | .srlv => do
    let n ← readReg instr.rs
    aluShift instr shiftRight (n &&& 0x1f)
    return .goto (nextPC + 4)
  | .sub => do subTrapping instr; return .goto (nextPC + 4)
  | .subu => do aluReg instr (· - ·); return .goto (nextPC + 4)
  | .sw => do storeAligned instr 4; return .goto (nextPC + 4)
  | .swl => do storeUnaligned instr storeLeft; return .goto (nextPC + 4)
  | .swr => do storeUnaligned instr storeRight; return .goto (nextPC + 4)
  | .syscall => raiseException .syscallException 0
  | .xor => do aluReg instr (· ^^^ ·); return .goto (nextPC + 4)
  | .xori => do aluImm instr (· ^^^ (instr.extra &&& 0xffff)); return .goto (nextPC + 4)
  | .res | .unimp => raiseException .illegalInstrException 0
  | .rfe | .special | .bcond => abort

/-! ## Operands -/

/-- The registers an instruction uses as source operands. The register that `LWL` and `LWR` merge
into is not counted. -/
def Instruction.sources (instr : Instruction) : List ℕ :=
  match instr.opCode with
  | .add | .addu | .and | .beq | .bne | .div | .divu | .mult | .multu | .nor | .or | .sb | .sh
  | .sllv | .slt | .sltu | .srav | .srlv | .sub | .subu | .sw | .swl | .swr | .xor =>
    [instr.rs, instr.rt]
  | .addi | .addiu | .andi | .bgez | .bgezal | .bgtz | .blez | .bltz | .bltzal | .jalr | .jr | .lb
  | .lbu | .lh | .lhu | .lw | .lwl | .lwr | .mthi | .mtlo | .ori | .slti | .sltiu | .xori =>
    [instr.rs]
  | .sll | .sra | .srl => [instr.rt]
  | .j | .jal | .lui | .mfhi | .mflo | .rfe | .syscall | .unimp | .res | .special | .bcond => []

/-- The general register an instruction writes itself, as opposed to through a delayed load. -/
def Instruction.destination (instr : Instruction) : Option ℕ :=
  match instr.opCode with
  | .add | .addu | .and | .jalr | .mfhi | .mflo | .nor | .or | .sll | .sllv | .slt | .sltu | .sra
  | .srav | .srl | .srlv | .sub | .subu | .xor => some instr.rd
  | .addi | .addiu | .andi | .lui | .ori | .slti | .sltiu | .xori => some instr.rt
  | .bgezal | .bltzal | .jal => some retAddrReg
  | .beq | .bne | .bgez | .bgtz | .blez | .bltz | .div | .divu | .j | .jr | .lb | .lbu | .lh | .lhu
  | .lw | .lwl | .lwr | .mthi | .mtlo | .mult | .multu | .sb | .sh | .sw | .swl | .swr | .rfe
  | .syscall | .unimp | .res | .special | .bcond => none

/-! ## What a case is made of -/

/-- The bodies of the cases of the `switch`, each with its source operands and the general register
that it writes itself. Cases that differ in an operator only have one body. -/
inductive Instruction.Body (instr : Instruction) (nextPC : Word) :
    List ℕ → Option ℕ → Exec Next → Prop
  | addTrapping : instr.Body nextPC [instr.rs, instr.rt] (some instr.rd) do
      addTrapping instr
      return .goto (nextPC + 4)
  | subTrapping : instr.Body nextPC [instr.rs, instr.rt] (some instr.rd) do
      subTrapping instr
      return .goto (nextPC + 4)
  | addImmTrapping : instr.Body nextPC [instr.rs] (some instr.rt) do
      addImmTrapping instr
      return .goto (nextPC + 4)
  | aluReg (f : Word → Word → Word) : instr.Body nextPC [instr.rs, instr.rt] (some instr.rd) do
      aluReg instr f
      return .goto (nextPC + 4)
  | aluImm (f : Word → Word) : instr.Body nextPC [instr.rs] (some instr.rt) do
      aluImm instr f
      return .goto (nextPC + 4)
  | loadUpper : instr.Body nextPC [] (some instr.rt) do
      writeReg instr.rt (instr.extra <<< 16)
      return .goto (nextPC + 4)
  | shift {shift : Word → Word → Exec Word} (hshift : shift = shiftLeft ∨ shift = shiftRight)
      (hop : instr.opCode.ShiftsByField) : instr.Body nextPC [instr.rt] (some instr.rd) do
      aluShift instr shift instr.extra
      return .goto (nextPC + 4)
  | shiftVar {shift : Word → Word → Exec Word} (hshift : shift = shiftLeft ∨ shift = shiftRight) :
      instr.Body nextPC [instr.rs, instr.rt] (some instr.rd) do
      let n ← readReg instr.rs
      aluShift instr shift (n &&& 0x1f)
      return .goto (nextPC + 4)
  | branchTwo (target : Word → Word → Word) : instr.Body nextPC [instr.rs, instr.rt] none do
      let a ← readReg instr.rs
      let b ← readReg instr.rt
      return .goto (target a b)
  | branchOne (target : Word → Word) : instr.Body nextPC [instr.rs] none do
      let a ← readReg instr.rs
      return .goto (target a)
  | branchLink (target : Word → Word) : instr.Body nextPC [instr.rs] (some retAddrReg) do
      linkR31
      let a ← readReg instr.rs
      return .goto (target a)
  | jump (target : Word) : instr.Body nextPC [] none (return .goto target)
  | jumpLink (target : Word) : instr.Body nextPC [] (some retAddrReg) do
      linkR31
      return .goto target
  | jumpLinkReg : instr.Body nextPC [instr.rs] (some instr.rd) do
      writeReg instr.rd (nextPC + 4)
      let a ← readReg instr.rs
      return .goto a
  | divide (hop : instr.opCode = .div) : instr.Body nextPC [instr.rs, instr.rt] none do
      divide instr
      return .goto (nextPC + 4)
  | divideUnsigned : instr.Body nextPC [instr.rs, instr.rt] none do
      divideUnsigned instr
      return .goto (nextPC + 4)
  | multiply (signedArith : Bool) : instr.Body nextPC [instr.rs, instr.rt] none do
      multiply instr signedArith
      return .goto (nextPC + 4)
  | moveFrom {r : ℕ} (hr : r = hiReg ∨ r = loReg) : instr.Body nextPC [] (some instr.rd) do
      let a ← readReg r
      writeReg instr.rd a
      return .goto (nextPC + 4)
  | moveTo {r : ℕ} (hr : r = hiReg ∨ r = loReg) : instr.Body nextPC [instr.rs] none do
      let a ← readReg instr.rs
      writeReg r a
      return .goto (nextPC + 4)
  | loadByte : instr.Body nextPC [instr.rs] none do
      let value ← loadByte instr
      return ⟨BitVec.ofNat 32 instr.rt, value, nextPC + 4⟩
  | loadHalf : instr.Body nextPC [instr.rs] none do
      let value ← loadHalf instr
      return ⟨BitVec.ofNat 32 instr.rt, value, nextPC + 4⟩
  | loadWord : instr.Body nextPC [instr.rs] none do
      let value ← loadWord instr
      return ⟨BitVec.ofNat 32 instr.rt, value, nextPC + 4⟩
  | loadUnaligned (merge : Word → Word → Word → Word)
      (hop : instr.opCode = .lwl ∨ instr.opCode = .lwr) : instr.Body nextPC [instr.rs] none do
      let value ← loadUnaligned instr merge
      return ⟨BitVec.ofNat 32 instr.rt, value, nextPC + 4⟩
  | storeAligned {size : ℕ} (hsize : size = 1 ∨ size = 2 ∨ size = 4) :
      instr.Body nextPC [instr.rs, instr.rt] none do
      storeAligned instr size
      return .goto (nextPC + 4)
  | storeUnaligned (change : Word → Word → Word → Word) :
      instr.Body nextPC [instr.rs, instr.rt] none do
      storeUnaligned instr change
      return .goto (nextPC + 4)
  | trap (which : ExceptionType) : instr.Body nextPC [] none (raiseException which 0)
  | unhandled (hop : ¬instr.opCode.Handled) : instr.Body nextPC [] none abort

theorem Instruction.execute_body (instr : Instruction) (nextPC : Word) :
    instr.Body nextPC instr.sources instr.destination (execute instr nextPC) := by
  simp only [sources, destination, execute]
  cases hc : instr.opCode with
  | add => exact .addTrapping
  | sub => exact .subTrapping
  | addi => exact .addImmTrapping
  | addu | and | nor | or | slt | sltu | subu | xor => exact .aluReg _
  | addiu | andi | ori | slti | sltiu | xori => exact .aluImm _
  | lui => exact .loadUpper
  | sll => exact .shift (.inl rfl) (hc ▸ by decide)
  | sra | srl => exact .shift (.inr rfl) (hc ▸ by decide)
  | sllv => exact .shiftVar (.inl rfl)
  | srav | srlv => exact .shiftVar (.inr rfl)
  | beq | bne => exact .branchTwo _
  | bgez | bgtz | blez | bltz | jr => exact .branchOne _
  | bgezal | bltzal => exact .branchLink _
  | j => exact .jump _
  | jal => exact .jumpLink _
  | jalr => exact .jumpLinkReg
  | div => exact .divide hc
  | divu => exact .divideUnsigned
  | mult | multu => exact .multiply _
  | mfhi => exact .moveFrom (.inl rfl)
  | mflo => exact .moveFrom (.inr rfl)
  | mthi => exact .moveTo (.inl rfl)
  | mtlo => exact .moveTo (.inr rfl)
  | lb | lbu => exact .loadByte
  | lh | lhu => exact .loadHalf
  | lw => exact .loadWord
  | lwl => exact .loadUnaligned _ (.inl hc)
  | lwr => exact .loadUnaligned _ (.inr hc)
  | sb | sh | sw => exact .storeAligned (by decide)
  | swl | swr => exact .storeUnaligned _
  | syscall | unimp | res => exact .trap _
  | rfe | special | bcond => exact .unhandled (hc ▸ by decide)

/-! ## The whole instruction -/

/-- The tail of `Machine::OneInstruction`. -/
def finish (next : Next) : Exec Unit := do
  delayedLoad next.loadTarget next.loadValue
  let pc ← readReg pcReg
  writeReg prevPCReg pc
  let nextPC ← readReg nextPCReg
  writeReg pcReg nextPC
  writeReg nextPCReg next.pcAfter

/-- Everything after the fetch: execute a decoded instruction and finish it. -/
def runInstruction (instr : Instruction) : Exec Unit := do
  let nextPC ← readReg nextPCReg
  let next ← execute instr nextPC
  finish next

/-- Fetch the word at the program counter. -/
def fetch : Exec Word := do
  let pc ← readReg pcReg
  readMem pc 4

/-- `Machine::OneInstruction`. -/
def oneInstruction : Exec Unit := do
  let raw ← fetch
  runInstruction (decode raw)

/-! ## The initial state -/

/-- The registers `AddrSpace::InitRegisters` sets up: all zero but the next program counter and
the stack pointer at the end of the address space. -/
def initRegisters (numPages : Word) : ℕ → Word :=
  Function.update (Function.update (fun _ ↦ 0) nextPCReg 4) stackReg (numPages * 128 - 16)

/-- The machine as `AddrSpace::Execute` starts it: initial registers, and the address space's page
table installed by `RestoreState`. -/
def Machine.start (numPages : Word) (mainMemory : ℕ → Byte) (pageTable : ℕ → TranslationEntry) :
    Machine :=
  { registers := initRegisters numPages
    mainMemory := mainMemory
    tlb := none
    pageTable := some pageTable
    pageTableSize := numPages }

end Nachos
