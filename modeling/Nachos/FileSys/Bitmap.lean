import Mathlib.Data.Nat.Count
import Nachos.FileSys.OpenFile

/-!
# Bitmaps

`Bitmap` keeps its bits in an array of words; `PersistentBitmap` is one that is read from and
written to a file. `bit` is the abstract view, and for each operation there is one lemma that says
what it does to the bits.
-/

namespace Nachos

open Program

/-- `ASSERT`. -/
def assertThat (p : Prop) [Decidable p] : DiskM Unit := if p then return else throw .assertFailed

theorem assertThat_of {p : Prop} [Decidable p] (h : p) (d : Disk) : assertThat p d = .ok () d := by
  rw [assertThat, if_pos h]
  rfl

@[simp] abbrev bitsInWord : ℕ := 32

/-- `divRoundUp`. -/
def divRoundUp (n s : ℤ) : ℤ := n.tdiv s + if 0 < n.tmod s then 1 else 0

/-- `Bitmap`. -/
structure Bitmap where
  numBits : ℕ
  map : ℕ → Word

namespace Bitmap

/-- `numWords`, set by the constructor. -/
def numWords (b : Bitmap) : ℕ := (divRoundUp b.numBits bitsInWord).toNat

/-- `map[which / BitsInWord]`. -/
def word (b : Bitmap) (which : ℕ) : DiskM Word :=
  if which / bitsInWord < b.numWords then return b.map (which / bitsInWord) else throw .tableIndex

/-- `1 << (which % BitsInWord)`. -/
def mask (which : ℕ) : Word := 1#32 <<< (which % bitsInWord)

/-- The array with one word replaced. -/
def setWord (b : Bitmap) (which : ℕ) (w : Word) : Bitmap :=
  { b with map := Function.update b.map (which / bitsInWord) w }

/-- `Bitmap::Test`. -/
def test (b : Bitmap) (which : ℤ) : DiskM Bool := do
  assertThat (0 ≤ which ∧ which < b.numBits)
  let w ← b.word which.toNat
  return w &&& mask which.toNat ≠ 0

/-- `Bitmap::Mark`. -/
def mark (b : Bitmap) (which : ℤ) : DiskM Bitmap := do
  assertThat (0 ≤ which ∧ which < b.numBits)
  let w ← b.word which.toNat
  let b := b.setWord which.toNat (w ||| mask which.toNat)
  let t ← b.test which
  assertThat (t = true)
  return b

/-- `Bitmap::Clear`. -/
def clear (b : Bitmap) (which : ℤ) : DiskM Bitmap := do
  assertThat (0 ≤ which ∧ which < b.numBits)
  let w ← b.word which.toNat
  let b := b.setWord which.toNat (w &&& ~~~mask which.toNat)
  let t ← b.test which
  assertThat (t = false)
  return b

/-- The loop of the constructor, from bit `i` on. -/
def clearFrom : ℕ → ℕ → Bitmap → DiskM Bitmap
  | _, 0, b => return b
  | i, rest + 1, b => do
    let b ← b.clear i
    clearFrom (i + 1) rest b

/-- `Bitmap::Bitmap`. -/
def create (numItems : ℕ) : DiskM Bitmap := do
  assertThat (0 < numItems)
  clearFrom 0 numItems ⟨numItems, fun _ ↦ 0⟩

/-- The loop of `FindAndSet`, from bit `i` on. -/
def findFrom (b : Bitmap) : ℕ → ℕ → DiskM (ℤ × Bitmap)
  | _, 0 => return (-1, b)
  | i, rest + 1 => do
    let t ← b.test i
    if t then findFrom b (i + 1) rest
    else do
      let b ← b.mark i
      return (i, b)

/-- `Bitmap::FindAndSet`. -/
def findAndSet (b : Bitmap) : DiskM (ℤ × Bitmap) := b.findFrom 0 b.numBits

/-- The loop of `NumClear`, from bit `i` on. -/
def countFrom (b : Bitmap) : ℕ → ℕ → ℕ → DiskM ℕ
  | _, 0, count => return count
  | i, rest + 1, count => do
    let t ← b.test i
    countFrom b (i + 1) rest (if t then count else count + 1)

/-- `Bitmap::NumClear`. -/
def numClear (b : Bitmap) : DiskM ℕ := b.countFrom 0 b.numBits 0

/-- `PersistentBitmap::FetchFrom`. -/
def fetchFrom (b : Bitmap) (file : FileHeader) (junk : ℕ → Byte) : DiskM Bitmap := do
  let (n, data) ← readAt file junk (b.numWords * 4) 0
  return { b with map := fun i ↦ wordAt (blit (layWords b.map) 0 data n.toNat) (4 * i) }

/-- `PersistentBitmap::PersistentBitmap` with a file. -/
def ofFile (file : FileHeader) (numItems : ℕ) (junk : ℕ → Byte) : DiskM Bitmap := do
  let b ← create numItems
  b.fetchFrom file junk

/-- `PersistentBitmap::WriteBack`. -/
def writeBack (b : Bitmap) (file : FileHeader) (junk : ℕ → Byte) : DiskM Unit := do
  let _ ← writeAt file junk (layWords b.map) (b.numWords * 4) 0
  return

/-! ## Bits -/

/-- Bit `i`. -/
def bit (b : Bitmap) (i : ℕ) : Bool := (b.map (i / 32)).getLsbD (i % 32)

/-- The bitmap with bit `i` set. -/
def marked (b : Bitmap) (i : ℕ) : Bitmap := b.setWord i (b.map (i / 32) ||| mask i)

/-- The bitmap with bit `i` clear. -/
def cleared (b : Bitmap) (i : ℕ) : Bitmap := b.setWord i (b.map (i / 32) &&& ~~~mask i)

@[simp] theorem numBits_marked (b : Bitmap) (i : ℕ) : (b.marked i).numBits = b.numBits := rfl

@[simp] theorem numBits_cleared (b : Bitmap) (i : ℕ) : (b.cleared i).numBits = b.numBits := rfl

theorem getLsbD_mask (i k : ℕ) : (mask i).getLsbD k = decide (i % 32 = k) := by
  have hlt : i % 32 < 32 := Nat.mod_lt _ (by decide)
  rw [mask, bitsInWord, ← BitVec.twoPow_eq, BitVec.getLsbD_twoPow, decide_eq_true hlt,
    Bool.true_and]

private theorem and_mask_ne_zero (w : Word) (i : ℕ) :
    decide (w &&& mask i ≠ 0) = w.getLsbD (i % 32) := by
  rw [mask, bitsInWord, ← BitVec.twoPow_eq, BitVec.and_twoPow]
  cases w.getLsbD (i % 32) with
  | false => rfl
  | true =>
    have hne : BitVec.twoPow 32 (i % 32) ≠ 0 := by
      intro hzero
      have hbit : (BitVec.twoPow 32 (i % 32)).getLsbD (i % 32) = true := by
        rw [BitVec.getLsbD_twoPow]
        simpa using Nat.mod_lt i (by decide)
      rw [hzero] at hbit
      simp at hbit
    simpa using hne

/-- A word replaced by one that differs in bit `i` only. -/
private theorem bit_setWord (b : Bitmap) (i j : ℕ) (w : Word) :
    (b.setWord i w).bit j = if j / 32 = i / 32 then w.getLsbD (j % 32) else b.bit j := by
  rw [bit, setWord]
  by_cases h : j / 32 = i / 32
  · rw [if_pos h, h]
    simp only [bitsInWord, Function.update_self]
  · rw [if_neg h]
    simp only [bitsInWord, Function.update_of_ne h, bit]

theorem bit_marked (b : Bitmap) (i j : ℕ) : (b.marked i).bit j = (decide (j = i) || b.bit j) := by
  rw [marked, bit_setWord]
  by_cases h : j / 32 = i / 32
  · rw [if_pos h, BitVec.getLsbD_or, getLsbD_mask, bit, h, Bool.or_comm,
      decide_eq_decide.mpr (show i % 32 = j % 32 ↔ j = i by omega)]
  · rw [if_neg h, decide_eq_false (show ¬j = i by rintro rfl; exact h rfl), Bool.false_or]

theorem bit_cleared (b : Bitmap) (i j : ℕ) :
    (b.cleared i).bit j = (!decide (j = i) && b.bit j) := by
  rw [cleared, bit_setWord]
  by_cases h : j / 32 = i / 32
  · have hlt : j % 32 < 32 := Nat.mod_lt _ (by decide)
    rw [if_pos h, BitVec.getLsbD_and, BitVec.getLsbD_not, getLsbD_mask, bit, h, Bool.and_comm,
      decide_eq_true hlt, Bool.true_and,
      decide_eq_decide.mpr (show i % 32 = j % 32 ↔ j = i by omega)]
  · rw [if_neg h, decide_eq_false (show ¬j = i by rintro rfl; exact h rfl), Bool.not_false,
      Bool.true_and]

/-! ## What the operations do -/

theorem numWords_eq (b : Bitmap) : b.numWords = (b.numBits + 31) / 32 := by
  rw [numWords, divRoundUp, bitsInWord, Int.tdiv_eq_ediv_of_nonneg (by omega),
    Int.tmod_eq_emod_of_nonneg (by omega)]
  split <;> omega

section operations

variable {b : Bitmap} {i : ℕ}

theorem word_eq (hi : i < b.numBits) (d : Disk) : b.word i d = .ok (b.map (i / 32)) d := by
  rw [word, if_pos (by rw [numWords_eq, bitsInWord]; omega)]
  rfl

theorem test_eq (hi : i < b.numBits) (d : Disk) : b.test i d = .ok (b.bit i) d := by
  rw [test, bind_of_ok (assertThat_of (by omega) d), Int.toNat_natCast, bind_of_ok (word_eq hi d),
    and_mask_ne_zero]
  rfl

theorem mark_eq (hi : i < b.numBits) (d : Disk) : b.mark i d = .ok (b.marked i) d := by
  have hbit : (b.marked i).bit i = true := by simp [bit_marked]
  rw [mark, bind_of_ok (assertThat_of (by omega) d), Int.toNat_natCast, bind_of_ok (word_eq hi d)]
  refine (bind_of_ok (test_eq (b := b.marked i) hi d)).trans ?_
  rw [hbit]
  exact bind_of_ok (assertThat_of rfl d)

theorem clear_eq (hi : i < b.numBits) (d : Disk) : b.clear i d = .ok (b.cleared i) d := by
  have hbit : (b.cleared i).bit i = false := by simp [bit_cleared]
  rw [clear, bind_of_ok (assertThat_of (by omega) d), Int.toNat_natCast, bind_of_ok (word_eq hi d)]
  refine (bind_of_ok (test_eq (b := b.cleared i) hi d)).trans ?_
  rw [hbit]
  exact bind_of_ok (assertThat_of rfl d)

end operations

/-- The constructor's loop on an array of zeros. -/
private theorem clearFrom_zero (n : ℕ) (d : Disk) (rest i : ℕ) (h : i + rest ≤ n) :
    clearFrom i rest ⟨n, fun _ ↦ 0⟩ d = .ok ⟨n, fun _ ↦ 0⟩ d := by
  induction rest generalizing i with
  | zero => rfl
  | succ rest ih =>
    have hsame : (⟨n, fun _ ↦ 0⟩ : Bitmap).cleared i = ⟨n, fun _ ↦ 0⟩ := by
      have hzero : (0 : Word) &&& ~~~mask i = 0 := BitVec.zero_and
      rw [cleared, setWord, hzero]
      exact congrArg (Bitmap.mk n) (Function.update_eq_self (i / 32) fun _ ↦ (0 : Word))
    rw [clearFrom, bind_of_ok (clear_eq (show i < n by omega) d), hsame, ih (i + 1) (by omega)]

theorem create_eq {n : ℕ} (hn : 0 < n) (d : Disk) : create n d = .ok ⟨n, fun _ ↦ 0⟩ d := by
  rw [create, bind_of_ok (assertThat_of hn d), clearFrom_zero n d n 0 (by omega)]

/-- `FindAndSet` from bit `i` on: the first clear bit, or none. -/
theorem findFrom_cases (b : Bitmap) (d : Disk) (rest i : ℕ) (h : i + rest ≤ b.numBits) :
    (∃ k, i ≤ k ∧ k < i + rest ∧ b.bit k = false ∧ (∀ j, i ≤ j → j < k → b.bit j = true) ∧
      b.findFrom i rest d = .ok ((k : ℤ), b.marked k) d) ∨
    ((∀ j, i ≤ j → j < i + rest → b.bit j = true) ∧ b.findFrom i rest d = .ok (-1, b) d) := by
  induction rest generalizing i with
  | zero => exact .inr ⟨fun j hj hj' ↦ by omega, rfl⟩
  | succ rest ih =>
    have htest := test_eq (show i < b.numBits by omega) d
    cases hbit : b.bit i with
    | false =>
      refine .inl ⟨i, Nat.le_refl i, by omega, hbit, fun j hj hj' ↦ by omega, ?_⟩
      rw [hbit] at htest
      rw [findFrom, bind_of_ok htest]
      exact bind_of_ok (mark_eq (by omega) d)
    | true =>
      rw [hbit] at htest
      have hrun : b.findFrom i (rest + 1) d = b.findFrom (i + 1) rest d := by
        rw [findFrom, bind_of_ok htest]
        rfl
      rw [hrun]
      have hsplit : ∀ j, i ≤ j → j = i ∨ i + 1 ≤ j := fun j hj ↦ by omega
      rcases ih (i + 1) (by omega) with ⟨k, hik, hk, hclear, hbelow, hfind⟩ | ⟨hall, hfind⟩
      · refine .inl ⟨k, by omega, by omega, hclear, fun j hj hj' ↦ ?_, hfind⟩
        rcases hsplit j hj with rfl | hj
        · exact hbit
        · exact hbelow j hj hj'
      · refine .inr ⟨fun j hj hj' ↦ ?_, hfind⟩
        rcases hsplit j hj with rfl | hj
        · exact hbit
        · exact hall j hj (by omega)

/-- `FindAndSet` sets the first clear bit, or reports that there is none. -/
theorem findAndSet_cases (b : Bitmap) (d : Disk) :
    (∃ k < b.numBits, b.bit k = false ∧ (∀ j < k, b.bit j = true) ∧
      b.findAndSet d = .ok ((k : ℤ), b.marked k) d) ∨
    ((∀ j < b.numBits, b.bit j = true) ∧ b.findAndSet d = .ok (-1, b) d) := by
  rcases findFrom_cases b d b.numBits 0 (by omega) with
    ⟨k, -, hk, hclear, hbelow, hfind⟩ | ⟨hall, hfind⟩
  · exact .inl ⟨k, by omega, hclear, fun j hj ↦ hbelow j (Nat.zero_le j) hj, hfind⟩
  · exact .inr ⟨fun j hj ↦ hall j (Nat.zero_le j) (by omega), hfind⟩

/-- How many bits are clear. -/
def clears (b : Bitmap) : ℕ := Nat.count (fun i ↦ b.bit i = false) b.numBits

private theorem countFrom_eq (b : Bitmap) (d : Disk) (rest i : ℕ) (h : i + rest ≤ b.numBits) :
    b.countFrom i rest (Nat.count (fun i ↦ b.bit i = false) i) d =
      .ok (Nat.count (fun i ↦ b.bit i = false) (i + rest)) d := by
  induction rest generalizing i with
  | zero => rfl
  | succ rest ih =>
    have hcount : (if b.bit i = true then Nat.count (fun i ↦ b.bit i = false) i
        else Nat.count (fun i ↦ b.bit i = false) i + 1) =
        Nat.count (fun i ↦ b.bit i = false) (i + 1) := by
      rw [Nat.count_succ]
      cases b.bit i <;> rfl
    rw [countFrom, bind_of_ok (test_eq (by omega) d), hcount, ih (i + 1) (by omega),
      Nat.add_right_comm i 1 rest, Nat.add_assoc]

theorem numClear_eq (b : Bitmap) (d : Disk) : b.numClear d = .ok b.clears d := by
  have := countFrom_eq b d b.numBits 0 (by omega)
  rwa [Nat.count_zero, Nat.zero_add] at this

/-- Setting a clear bit leaves one less. -/
theorem clears_marked {b : Bitmap} {i : ℕ} (hi : i < b.numBits) (hbit : b.bit i = false) :
    (b.marked i).clears + 1 = b.clears := by
  have hmem : i ∈ (Finset.range b.numBits).filter fun j ↦ b.bit j = false := by
    simpa using ⟨hi, hbit⟩
  have hset : ((Finset.range b.numBits).filter fun j ↦ (b.marked i).bit j = false) =
      ((Finset.range b.numBits).filter fun j ↦ b.bit j = false).erase i := by
    ext j
    simp only [Finset.mem_filter, Finset.mem_erase, bit_marked, Bool.or_eq_false_iff,
      decide_eq_false_iff_not]
    constructor
    · rintro ⟨hj, hne, hclear⟩
      exact ⟨hne, hj, hclear⟩
    · rintro ⟨hne, hj, hclear⟩
      exact ⟨hj, hne, hclear⟩
  rw [clears, clears, Nat.count_eq_card_filter_range, Nat.count_eq_card_filter_range,
    numBits_marked, hset, Finset.card_erase_add_one hmem]

theorem exists_clear_of_clears_pos {b : Bitmap} (h : 0 < b.clears) :
    ∃ i < b.numBits, b.bit i = false := by
  by_contra hnone
  push Not at hnone
  rw [clears, Nat.count_eq_card_filter_range, Finset.card_pos] at h
  obtain ⟨i, hi⟩ := h
  rw [Finset.mem_filter, Finset.mem_range] at hi
  exact hnone i hi.1 hi.2

/-! ## The stored bitmap -/

/-- The bitmap that a file holds. -/
def stored (file : FileHeader) (numBits : ℕ) (d : Disk) : Bitmap where
  numBits := numBits
  map := fun i ↦ wordAt (file.flat d) (4 * i)

section stored

variable {file : FileHeader} (hv : file.Valid) {b : Bitmap} (hlength : file.length = 4 * b.numWords)

include hv hlength

theorem fetchFrom_eq (junk : ℕ → Byte) (d : Disk) :
    ∃ m, b.fetchFrom file junk d = .ok ⟨b.numBits, m⟩ d ∧
      ∀ i < b.numBits, (⟨b.numBits, m⟩ : Bitmap).bit i = (stored file b.numBits d).bit i := by
  obtain ⟨data, hrun, hdata⟩ := readAt_whole hv junk d
  refine ⟨fun i ↦ wordAt (blit (layWords b.map) 0 data file.length) (4 * i), ?_, fun i hi ↦ ?_⟩
  · rw [show (file.length : ℤ) = b.numWords * 4 by omega] at hrun
    rw [fetchFrom, bind_of_ok hrun]
    simp only [show ((b.numWords : ℤ) * 4).toNat = file.length by omega]
    rfl
  · have hnum := b.numWords_eq
    have hword : wordAt (blit (layWords b.map) 0 data file.length) (4 * (i / 32)) =
        wordAt (file.flat d) (4 * (i / 32)) :=
      wordAt_congr fun x hx hx' ↦ by
        rw [blit_of_mem (Nat.zero_le x) (by omega), Nat.sub_zero, hdata x (by omega)]
    exact congrArg (·.getLsbD (i % 32)) hword

theorem writeBack_eq (junk : ℕ → Byte) (d : Disk) :
    ∃ d', b.writeBack file junk d = .ok () d' ∧
      (∀ i < b.numBits, (stored file b.numBits d').bit i = b.bit i) ∧
      ∀ s, (∀ j < file.count, s ≠ file.sectorAt j) → d' s = d s := by
  obtain ⟨d', hrun, hin, hout⟩ := writeAt_whole hv junk (layWords b.map) d
  refine ⟨d', ?_, fun i hi ↦ ?_, hout⟩
  · rw [show (file.length : ℤ) = b.numWords * 4 by omega] at hrun
    rw [writeBack, bind_of_ok hrun]
    rfl
  · have hnum := b.numWords_eq
    have hword : wordAt (file.flat d') (4 * (i / 32)) = b.map (i / 32) := by
      rw [← wordAt_layWords b.map (i / 32)]
      exact wordAt_congr fun x hx hx' ↦ hin x (by omega)
    exact congrArg (·.getLsbD (i % 32)) hword

end stored

end Bitmap

end Nachos
