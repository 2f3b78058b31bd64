import Mathlib.Order.Bounds.Defs
import Nachos.FileSys.Bitmap
import Nachos.Program.Simulation

/-!
# A bitmap is a finite set

The numbers of the bits that are set form a subset of `{0, …, numBits - 1}`. `Mark`, `Clear` and
`FindAndSet` insert and erase in this set, `WriteBack` keeps a copy of it in a file and `FetchFrom`
takes the copy back. That the bits are packed into words shows nowhere: the word of a bit in range
is always one of the array, and the bits of the last word that are not in range are never looked at.
-/

namespace Nachos

open Program

namespace Bitmap

/-! ## The set -/

/-- The bits below `n` that are set. -/
def marks (b : Bitmap) (n : ℕ) : Finset ℕ := (Finset.range n).filter fun i ↦ b.bit i = true

theorem mem_marks {b : Bitmap} {n i : ℕ} : i ∈ b.marks n ↔ i < n ∧ b.bit i = true := by
  rw [marks, Finset.mem_filter, Finset.mem_range]

private theorem marks_marked (b : Bitmap) {n i : ℕ} (hi : i < n) :
    (b.marked i).marks n = insert i (b.marks n) := by
  ext j
  rw [mem_marks, bit_marked, Finset.mem_insert, mem_marks]
  by_cases hj : j = i
  · simp [hj, hi]
  · simp [hj]

private theorem marks_cleared (b : Bitmap) (n i : ℕ) :
    (b.cleared i).marks n = (b.marks n).erase i := by
  ext j
  rw [mem_marks, bit_cleared, Finset.mem_erase, mem_marks]
  by_cases hj : j = i
  · simp [hj]
  · simp [hj]

/-- Bitmaps with the same bits have the same marks. -/
private theorem marks_congr {b b' : Bitmap} {n : ℕ} (h : ∀ i < n, b'.bit i = b.bit i) :
    b'.marks n = b.marks n := by
  ext j
  rw [mem_marks, mem_marks]
  exact and_congr_right fun hj ↦ by rw [h j hj]

/-- `NumClear` is the number of bits less the number of marks. -/
private theorem clears_eq (b : Bitmap) : b.clears = b.numBits - (b.marks b.numBits).card := by
  have hsplit := Finset.card_filter_add_card_filter_not (s := Finset.range b.numBits)
    fun i ↦ b.bit i = true
  simp only [Bool.not_eq_true, Finset.card_range] at hsplit
  rw [clears, Nat.count_eq_card_filter_range, marks]
  omega

/-! ## The calls -/

/-- A call; the bytes are what an uninitialised buffer holds. -/
inductive Op where
  | mark (which : ℕ)
  | clear (which : ℕ)
  | findAndSet
  | writeBack (junk : ℕ → Byte)
  | fetchFrom (junk : ℕ → Byte)

/-- A call, with the result of `FindAndSet`. -/
def Op.exec (file : FileHeader) (b : Bitmap) : Op → DiskM (Option ℤ × Bitmap)
  | .mark which => do
    let b ← b.mark which
    return (none, b)
  | .clear which => do
    let b ← b.clear which
    return (none, b)
  | .findAndSet => do
    let (index, b) ← b.findAndSet
    return (some index, b)
  | .writeBack junk => do
    b.writeBack file junk
    return (none, b)
  | .fetchFrom junk => do
    let b ← b.fetchFrom file junk
    return (none, b)

/-- A sequence of calls, with their results. -/
def execAll (file : FileHeader) (ops : List Op) (b : Bitmap) :
    DiskM (List (Option ℤ) × Bitmap) :=
  Program.execAll (Op.exec file) ops b

/-- The set, and the copy of it in the file. -/
structure MarkSet where
  marked : Finset ℕ
  saved : Finset ℕ

/-- What a call does to the set of marks below `n`, and returns. -/
inductive MarkSet.Step (n : ℕ) (s : MarkSet) : Op → Option ℤ → MarkSet → Prop
  | mark {i : ℕ} : Step n s (.mark i) none { s with marked := insert i s.marked }
  | clear {i : ℕ} : Step n s (.clear i) none { s with marked := s.marked.erase i }
  | found {k : ℕ} : IsLeast {i | i < n ∧ i ∉ s.marked} k →
      Step n s .findAndSet (some k) { s with marked := insert k s.marked }
  | full : (∀ i < n, i ∈ s.marked) → Step n s .findAndSet (some (-1)) s
  | writeBack {junk : ℕ → Byte} : Step n s (.writeBack junk) none { s with saved := s.marked }
  | fetchFrom {junk : ℕ → Byte} : Step n s (.fetchFrom junk) none { s with marked := s.saved }

/-- A sequence of calls on the set. -/
abbrev MarkSet.Steps (n : ℕ) : MarkSet → List Op → List (Option ℤ) → MarkSet → Prop :=
  Program.Steps (MarkSet.Step n)

/-- When a call may be made: the index is in range, or the file has as many words as the bitmap. -/
def Op.Allowed (n : ℕ) (file : FileHeader) : Op → Prop
  | .mark which => which < n
  | .clear which => which < n
  | .findAndSet => True
  | .writeBack _ => file.Valid ∧ file.length = 4 * (divRoundUp n bitsInWord).toNat
  | .fetchFrom _ => file.Valid ∧ file.length = 4 * (divRoundUp n bitsInWord).toNat

/-- The bitmap and the file hold the set and its copy. -/
structure Holds (n : ℕ) (file : FileHeader) (b : Bitmap) (d : Disk) (s : MarkSet) : Prop where
  numBits : b.numBits = n
  marked : b.marks n = s.marked
  saved : (stored file n d).marks n = s.saved

section calls

variable {n : ℕ} {file : FileHeader} {b : Bitmap} {d : Disk} {s : MarkSet}

/-- `FindAndSet` adds the least index that is missing. -/
theorem Holds.findAndSet (h : Holds n file b d s) :
    ∃ result b' s', Op.findAndSet.exec file b d = .ok (result, b') d ∧
      s.Step n .findAndSet result s' ∧ Holds n file b' d s' := by
  obtain ⟨rfl, hmarked, hsaved⟩ := h
  have hmem : ∀ i < b.numBits, i ∈ s.marked ↔ b.bit i = true := by
    intro i hi
    rw [← hmarked, mem_marks]
    exact and_iff_right hi
  rcases findAndSet_cases b d with ⟨k, hk, hclear, hbelow, hrun⟩ | ⟨hall, hrun⟩
  · refine ⟨some k, b.marked k, { s with marked := insert k s.marked }, ?_, .found ?_, ?_⟩
    · rw [Op.exec, bind_of_ok hrun]
      rfl
    · refine ⟨⟨hk, ?_⟩, fun j hj ↦ ?_⟩
      · rw [hmem k hk, hclear]
        exact Bool.false_ne_true
      · by_contra hlt
        exact hj.2 ((hmem j hj.1).mpr (hbelow j (Nat.not_le.mp hlt)))
    · exact ⟨rfl, by rw [marks_marked b hk, hmarked], hsaved⟩
  · refine ⟨some (-1), b, s, ?_, .full fun i hi ↦ (hmem i hi).mpr (hall i hi),
      ⟨rfl, hmarked, hsaved⟩⟩
    rw [Op.exec, bind_of_ok hrun]
    rfl

/-- One call: it returns, and does to the bitmap and the file what it does to the set. -/
theorem Holds.exec (h : Holds n file b d s) {op : Op} (hop : op.Allowed n file) :
    ∃ result b' d' s', op.exec file b d = .ok (result, b') d' ∧ s.Step n op result s' ∧
      Holds n file b' d' s' := by
  cases op with
  | mark i =>
    have hi : i < b.numBits := h.numBits ▸ hop
    refine ⟨none, b.marked i, d, { s with marked := insert i s.marked }, ?_, .mark,
      ⟨h.numBits, ?_, h.saved⟩⟩
    · rw [Op.exec, bind_of_ok (mark_eq hi d)]
      rfl
    · rw [marks_marked b hop, h.marked]
  | clear i =>
    have hi : i < b.numBits := h.numBits ▸ hop
    refine ⟨none, b.cleared i, d, { s with marked := s.marked.erase i }, ?_, .clear,
      ⟨h.numBits, ?_, h.saved⟩⟩
    · rw [Op.exec, bind_of_ok (clear_eq hi d)]
      rfl
    · rw [marks_cleared, h.marked]
  | findAndSet =>
    obtain ⟨result, b', s', hrun, hstep, hholds⟩ := h.findAndSet
    exact ⟨result, b', d, s', hrun, hstep, hholds⟩
  | writeBack junk =>
    obtain ⟨rfl, hmarked, hsaved⟩ := h
    obtain ⟨hv, hlength⟩ := hop
    obtain ⟨d', hrun, hbits, -⟩ := writeBack_eq hv hlength junk d
    refine ⟨none, b, d', { s with saved := s.marked }, ?_, .writeBack, ⟨rfl, hmarked, ?_⟩⟩
    · rw [Op.exec, bind_of_ok hrun]
      rfl
    · rw [marks_congr hbits, hmarked]
  | fetchFrom junk =>
    obtain ⟨rfl, hmarked, hsaved⟩ := h
    obtain ⟨hv, hlength⟩ := hop
    obtain ⟨m, hrun, hbits⟩ := fetchFrom_eq hv hlength junk d
    refine ⟨none, ⟨b.numBits, m⟩, d, { s with marked := s.saved }, ?_, .fetchFrom,
      ⟨rfl, ?_, hsaved⟩⟩
    · rw [Op.exec, bind_of_ok hrun]
      rfl
    · rw [marks_congr hbits, hsaved]

theorem Holds.execAll (h : Holds n file b d s) {ops : List Op}
    (hops : ∀ op ∈ ops, op.Allowed n file) :
    ∃ results b' d' s', execAll file ops b d = .ok (results, b') d' ∧
      s.Steps n ops results s' ∧ Holds n file b' d' s' := by
  obtain ⟨results, c', s', hrun, hsteps, h', -⟩ := Steps.simulates
    (fun (c : Bitmap × Disk) op result c' ↦ op.exec file c.1 c.2 = .ok (result, c'.1) c'.2)
    (MarkSet.Step n)
    (fun (c : Bitmap × Disk) s ops ↦ Holds n file c.1 c.2 s ∧ ∀ op ∈ ops, op.Allowed n file)
    (fun c s op ops hR ↦ by
      obtain ⟨hnow, hlater⟩ := List.forall_mem_cons.mp hR.2
      obtain ⟨result, b₁, d₁, s₁, hrun, hstep, h₁⟩ := hR.1.exec hnow
      exact ⟨result, (b₁, d₁), s₁, hrun, hstep, h₁, hlater⟩)
    (s := (b, d)) (t := s) ops ⟨h, hops⟩
  exact ⟨results, c'.1, c'.2, s', hrun.execAll_ok, hsteps, h'⟩

/-- What the calls that only look find out about the set. -/
structure IsSet (n : ℕ) (b : Bitmap) (d : Disk) (marked : Finset ℕ) : Prop where
  below : ∀ i ∈ marked, i < n
  test : ∀ i < n, b.test i d = .ok (decide (i ∈ marked)) d
  numClear : b.numClear d = .ok (n - marked.card) d
  index : ∀ i < n, i / bitsInWord < b.numWords

theorem Holds.isSet (h : Holds n file b d s) : IsSet n b d s.marked := by
  obtain ⟨rfl, hmarked, -⟩ := h
  constructor
  case below =>
    intro i hi
    rw [← hmarked, mem_marks] at hi
    exact hi.1
  case test =>
    intro i hi
    have hbit : b.bit i = decide (i ∈ s.marked) := by
      rw [← hmarked, Bool.eq_iff_iff, decide_eq_true_iff, mem_marks]
      exact (and_iff_right hi).symm
    rw [test_eq hi, hbit]
  case numClear => rw [numClear_eq, clears_eq, hmarked]
  case index =>
    intro i hi
    rw [numWords_eq, bitsInWord]
    omega

end calls

/-- **A bitmap is a finite set.** For every number of bits, every disk and every sequence of calls,
with the indices in range and a file of as many words as the bitmap for those that use one: a new
bitmap is made and every call returns, so that no assertion fails and no word outside of the array
is used; the calls do to the set of marks, which starts empty, and to its copy in the file, which
starts with what the file holds, what their names say, and `FindAndSet` returns the least index that
is missing, or `-1` if there is none; and in the end `Test` and `NumClear` tell this set. -/
theorem bitmap_refines_set {n : ℕ} (hn : 0 < n) (file : FileHeader) (d : Disk) {ops : List Op}
    (hops : ∀ op ∈ ops, op.Allowed n file) :
    ∃ results b b' d' s', create n d = .ok b d ∧ execAll file ops b d = .ok (results, b') d' ∧
      MarkSet.Steps n ⟨∅, (stored file n d).marks n⟩ ops results s' ∧ IsSet n b' d' s'.marked := by
  have hstart : Holds n file ⟨n, fun _ ↦ 0⟩ d ⟨∅, (stored file n d).marks n⟩ := by
    refine ⟨rfl, ?_, rfl⟩
    ext i
    simp [mem_marks, bit]
  obtain ⟨results, b', d', s', hrun, hsteps, hholds⟩ := hstart.execAll hops
  exact ⟨results, _, b', d', s', create_eq hn d, hrun, hsteps, hholds.isSet⟩

/-- A bitmap of 1590 bits, the last word of which is not full: the last bit is cleared, and comes
back from the file. -/
theorem last_bit_fetched :
    ∃ b b' d', create 1590 (fun _ _ ↦ 0) = .ok b (fun _ _ ↦ 0) ∧
      execAll FileHeader.small [.mark 1589, .writeBack fun _ ↦ 0, .clear 1589, .fetchFrom fun _ ↦ 0]
        b (fun _ _ ↦ 0) = .ok ([none, none, none, none], b') d' ∧
      b'.test 1589 d' = .ok true d' := by
  have hops : ∀ op ∈ [Op.mark 1589, .writeBack fun _ ↦ 0, .clear 1589, .fetchFrom fun _ ↦ 0],
      op.Allowed 1590 FileHeader.small := by
    simp only [List.forall_mem_cons, Op.Allowed]
    exact ⟨by decide, ⟨FileHeader.small_valid, rfl⟩, by decide, ⟨FileHeader.small_valid, rfl⟩,
      fun _ hmem ↦ absurd hmem List.not_mem_nil⟩
  obtain ⟨results, b, b', d', s', hcreate, hrun, hsteps, hset⟩ :=
    bitmap_refines_set (by decide) FileHeader.small (fun _ _ ↦ 0) hops
  have htest := hset.test 1589 (by decide)
  obtain _ | ⟨⟨⟩, _ | ⟨⟨⟩, _ | ⟨⟨⟩, _ | ⟨⟨⟩, ⟨⟩⟩⟩⟩⟩ := hsteps
  exact ⟨b, b', d', hcreate, hrun, htest.trans (by simp)⟩

end Bitmap

end Nachos
