import Mathlib.Algebra.Group.Nat.Defs
import Mathlib.Data.Nat.Notation
import Mathlib.Logic.Function.Basic

/-!
# Words, bytes and the ways a run can end badly

The build is for a 32-bit little-endian host with signed `char`. Arrays of the source are functions
from indices, and each access is tested against the array's bound; what the host would do on an
access outside it is not modelled, such a run ends in a `Fault`.
-/

namespace Nachos

/-- A C `int` or `unsigned int`; signed readings go through `BitVec.toInt`. -/
abbrev Word := BitVec 32

/-- A C `char` as stored in memory. -/
abbrev Byte := BitVec 8

/-- Why a run of the simulator or of the kernel does not continue. -/
inductive Fault where
  /-- An `ASSERT` or `ASSERTNOTREACHED` failed: the process aborts. -/
  | assertFailed
  /-- An index outside `registers`. -/
  | registerIndex
  /-- A shift of an `int` by an amount outside `0..31`. -/
  | shiftAmount
  /-- A host division by zero, or one whose quotient is no `int`. -/
  | division
  /-- An index outside a kernel table. -/
  | tableIndex
  /-- A null pointer was followed. -/
  | nullDeref
  /-- `new` was asked for a negative number of bytes. -/
  | badAlloc
  /-- An access outside a buffer. -/
  | bufferIndex
  /-- The caller waits for an event that never comes. -/
  | blocked
  /-- The machine was halted on request. -/
  | halted
  deriving DecidableEq, Repr

/-! ## Small numbers as words -/

theorem toNat_ofNat_of_lt {i : ℕ} (hi : i < 2 ^ 32) : (BitVec.ofNat 32 i).toNat = i :=
  Nat.mod_eq_of_lt hi

theorem ofNat_ne_neg_one {i : ℕ} (hi : i < 2 ^ 32 - 1) : BitVec.ofNat 32 i ≠ (-1 : Word) := by
  intro h
  have hnat := congrArg BitVec.toNat h
  have hmax : (-1 : Word).toNat = 2 ^ 32 - 1 := by decide
  rw [toNat_ofNat_of_lt (by omega), hmax] at hnat
  omega

end Nachos
