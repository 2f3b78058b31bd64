import Nachos.FileSys.Bitmap

/-!
# Allocating the sectors of a file

`FileHeader::Allocate` takes data sectors for a new file from the map of free sectors and
`FileHeader::Deallocate` gives them back. A header owns the data sectors it lists.
-/

namespace Nachos

open Program

namespace FileHeader

/-- Word `i` of the header replaced. -/
def setWord (h : FileHeader) (i : ℕ) (w : Word) : FileHeader :=
  ⟨Function.update h.word (index i) w⟩

/-- `dataSectors[i] = value`, inside the table. -/
def setDataSector (h : FileHeader) (i : ℕ) (value : ℤ) : DiskM FileHeader :=
  if i < numDirect then return h.setWord (i + 2) (.ofInt 32 value) else throw .tableIndex

/-- The loop of `Allocate`, from data sector `i` on. -/
def allocateFrom : ℕ → ℕ → FileHeader → Bitmap → DiskM (FileHeader × Bitmap)
  | _, 0, h, freeMap => return (h, freeMap)
  | i, rest + 1, h, freeMap => do
    let (sector, freeMap) ← freeMap.findAndSet
    let h ← h.setDataSector i sector
    assertThat (0 ≤ (h.dataSectors i).toInt)
    allocateFrom (i + 1) rest h freeMap

/-- The header with its two counts filled in. -/
def withSize (h : FileHeader) (fileSize : ℤ) : FileHeader :=
  (h.setWord 0 (.ofInt 32 fileSize)).setWord 1 (.ofInt 32 (divRoundUp fileSize sectorSize))

/-- `FileHeader::Allocate`: the result, and what becomes of the header and of the map. -/
def allocate (h : FileHeader) (freeMap : Bitmap) (fileSize : ℤ) :
    DiskM (Bool × FileHeader × Bitmap) := do
  let h := h.withSize fileSize
  let clear ← freeMap.numClear
  if clear < h.numSectors.toInt then return (false, h, freeMap)
  else do
    let (h, freeMap) ← allocateFrom 0 h.count h freeMap
    return (true, h, freeMap)

/-- The loop of `Deallocate`, from data sector `i` on. -/
def deallocateFrom (h : FileHeader) : ℕ → ℕ → Bitmap → DiskM Bitmap
  | _, 0, freeMap => return freeMap
  | i, rest + 1, freeMap => do
    let sector ← h.dataSector i
    let t ← freeMap.test sector
    assertThat (t = true)
    let freeMap ← freeMap.clear sector
    deallocateFrom h (i + 1) rest freeMap

/-- `FileHeader::Deallocate`. -/
def deallocate (h : FileHeader) (freeMap : Bitmap) : DiskM Bitmap :=
  h.deallocateFrom 0 h.count freeMap

/-- The sector is one of the data sectors. -/
def Owns (h : FileHeader) (s : ℕ) : Prop := ∃ j < h.count, h.sectorAt j = s

/-! ## Words of a header -/

private theorem word_setWord_of_ne (h : FileHeader) {i : ℕ} (w : Word) {m : Fin 32} (hm : m.val < i)
    (hi : i < 32) : (h.setWord i w).word m = h.word m := by
  refine Function.update_of_ne (fun heq ↦ ?_) _ _
  rw [heq, Fin.val_ofNat, Nat.mod_eq_of_lt hi] at hm
  exact Nat.lt_irrefl i hm

theorem word_setWord_self (h : FileHeader) (i : ℕ) (w : Word) :
    (h.setWord i w).word (Fin.ofNat 32 i) = w := Function.update_self _ _ _

private theorem sectorAt_setWord (h : FileHeader) (i k : ℕ) (hk : k < 1024) :
    (h.setWord (i + 2) (.ofInt 32 k)).sectorAt i = k := by
  rw [sectorAt, dataSectors, word_setWord_self, BitVec.ofInt_natCast, BitVec.toNat_ofNat]
  omega

private theorem setDataSector_eq (h : FileHeader) {i : ℕ} (hi : i < 30) (value : ℤ) (d : Disk) :
    h.setDataSector i value d = .ok (h.setWord (i + 2) (.ofInt 32 value)) d := by
  rw [setDataSector, if_pos hi]
  rfl

private theorem numBytes_withSize (h : FileHeader) (fileSize : ℤ) :
    (h.withSize fileSize).numBytes = .ofInt 32 fileSize := by
  rw [numBytes, withSize, word_setWord_of_ne _ _ (by decide) (by decide)]
  exact word_setWord_self h 0 _

private theorem numSectors_withSize (h : FileHeader) (fileSize : ℤ) :
    (h.withSize fileSize).numSectors = .ofInt 32 (divRoundUp fileSize sectorSize) :=
  word_setWord_self _ 1 _

/-! ## Allocation -/

/-- The loop finds a fresh sector for each place. -/
private theorem allocateFrom_eq (d : Disk) (rest i : ℕ) (h : FileHeader) (b : Bitmap)
    (hbits : b.numBits = 1024) (hi : i + rest ≤ 30) (hclears : rest ≤ b.clears) :
    ∃ h' b', allocateFrom i rest h b d = .ok (h', b') d ∧ b'.numBits = 1024 ∧
      b'.clears + rest = b.clears ∧
      (∀ m : Fin 32, m.val < i + 2 → h'.word m = h.word m) ∧
      (∀ j, i ≤ j → j < i + rest → h'.sectorAt j < 1024 ∧ b.bit (h'.sectorAt j) = false) ∧
      (∀ j k, i ≤ j → j < k → k < i + rest → h'.sectorAt j ≠ h'.sectorAt k) ∧
      (∀ j, i ≤ j → j < i + rest → ∀ u < h'.sectorAt j,
        b.bit u = true ∨ ∃ l, i ≤ l ∧ l < j ∧ h'.sectorAt l = u) ∧
      ∀ s, b'.bit s = true ↔
        b.bit s = true ∨ ∃ j, i ≤ j ∧ j < i + rest ∧ h'.sectorAt j = s := by
  induction rest generalizing i h b with
  | zero =>
    refine ⟨h, b, rfl, hbits, rfl, fun _ _ ↦ rfl, fun j hj hj' ↦ by omega,
      fun j k hj hjk hk ↦ by omega, fun j hj hj' ↦ by omega, fun s ↦ ⟨.inl, ?_⟩⟩
    rintro (hs | ⟨j, hj, hj', -⟩)
    · exact hs
    · omega
  | succ rest ih =>
    obtain ⟨k₀, hk₀, hclear₀⟩ := Bitmap.exists_clear_of_clears_pos (show 0 < b.clears by omega)
    rcases b.findAndSet_cases d with ⟨k, hk, hclear, hbelow, hfind⟩ | ⟨hall, -⟩
    swap
    · rw [hall k₀ hk₀] at hclear₀
      cases hclear₀
    have hless := Bitmap.clears_marked hk hclear
    rw [hbits] at hk
    obtain ⟨h', b', hrun, hbits', hclears', hkeep, hfresh, hdistinct, hleast, hmarks⟩ :=
      ih (i + 1) (h.setWord (i + 2) (.ofInt 32 k)) (b.marked k) hbits (by omega) (by omega)
    -- place `i` is not written again
    have hself : h'.sectorAt i = k := by
      rw [← sectorAt_setWord h i k hk, sectorAt, sectorAt, dataSectors, dataSectors, hkeep]
      rw [Fin.val_ofNat, Nat.mod_eq_of_lt (by omega)]
      omega
    have hsplit : ∀ j, i ≤ j → j = i ∨ i + 1 ≤ j := fun j hj ↦ by omega
    have hne : ∀ j, i + 1 ≤ j → j < i + (rest + 1) → h'.sectorAt j ≠ k ∧
        b.bit (h'.sectorAt j) = false := fun j hj hj' ↦ by
      have := (hfresh j hj (by omega)).2
      rw [Bitmap.bit_marked, Bool.or_eq_false_iff, decide_eq_false_iff_not] at this
      exact this
    refine ⟨h', b', ?_, hbits', by omega, fun m hm ↦ ?_, fun j hj hj' ↦ ?_,
      fun j l hj hjl hl ↦ ?_, fun j hj hj' u hu ↦ ?_, fun s ↦ ?_⟩
    · rw [allocateFrom, bind_of_ok hfind]
      refine (bind_of_ok (setDataSector_eq h (by omega) k d)).trans ?_
      refine (bind_of_ok (assertThat_of ?_ d)).trans hrun
      have hsector := sectorAt_setWord h i k hk
      rw [sectorAt] at hsector
      rw [BitVec.toInt_eq_toNat_of_lt (by omega), hsector]
      omega
    · rw [hkeep m (by omega), word_setWord_of_ne h _ hm (by omega)]
    · rcases hsplit j hj with rfl | hj
      · rw [hself]
        exact ⟨hk, hclear⟩
      · exact ⟨(hfresh j hj (by omega)).1, (hne j hj hj').2⟩
    · rcases hsplit j hj with rfl | hj
      · rw [hself]
        exact (hne l (by omega) hl).1.symm
      · exact hdistinct j l hj hjl (by omega)
    · rcases hsplit j hj with rfl | hj
      · exact .inl (hbelow u (by omega))
      · rcases hleast j hj (by omega) u hu with hbit | ⟨l, hl, hlj, hlu⟩
        · rw [Bitmap.bit_marked, Bool.or_eq_true, decide_eq_true_iff] at hbit
          rcases hbit with rfl | hbit
          · exact .inr ⟨i, Nat.le_refl i, by omega, hself⟩
          · exact .inl hbit
        · exact .inr ⟨l, by omega, hlj, hlu⟩
    · rw [hmarks s, Bitmap.bit_marked, Bool.or_eq_true, decide_eq_true_iff]
      constructor
      · rintro ((rfl | hs) | ⟨j, hj, hj', hs⟩)
        · exact .inr ⟨i, Nat.le_refl i, by omega, hself⟩
        · exact .inl hs
        · exact .inr ⟨j, by omega, by omega, hs⟩
      · rintro (hs | ⟨j, hj, hj', hs⟩)
        · exact .inl (.inr hs)
        · rcases hsplit j hj with rfl | hj
          · exact .inl (.inl (hs ▸ hself))
          · exact .inr ⟨j, hj, by omega, hs⟩

/-- What a successful `Allocate` leaves: a proper header whose data sectors were free and are now
taken. -/
structure Taken (h : FileHeader) (freeMap freeMap' : Bitmap) : Prop where
  valid : h.Valid
  numBits : freeMap'.numBits = 1024
  clears : freeMap'.clears + h.count = freeMap.clears
  free : ∀ s, h.Owns s → freeMap.bit s = false
  first : ∀ j < h.count, ∀ u < h.sectorAt j, freeMap.bit u = true ∨ ∃ l < j, h.sectorAt l = u
  marks : ∀ s, freeMap'.bit s = true ↔ freeMap.bit s = true ∨ h.Owns s

private theorem divRoundUp_sectorSize (n : ℤ) : divRoundUp n sectorSize = (n + 127) / 128 := by
  have hdiv := Int.tdiv_eq_ediv (a := n) (b := 128)
  have hmod := Int.tmod_eq_emod (a := n) (b := 128)
  have hsign : Int.sign 128 = 1 := rfl
  have habs : Int.natAbs 128 = 128 := rfl
  rw [hsign] at hdiv
  rw [habs] at hmod
  rw [show divRoundUp n sectorSize = n.tdiv 128 + if 0 < n.tmod 128 then 1 else 0 from rfl]
  by_cases h : 0 ≤ n ∨ (128 : ℤ) ∣ n
  · rw [if_pos h] at hdiv hmod
    split <;> omega
  · rw [if_neg h] at hdiv hmod
    split <;> omega

theorem toInt_numSectors_withSize (h : FileHeader) {size : ℤ} (hlow : -2 ^ 31 ≤ size)
    (hhigh : size < 2 ^ 31) : (h.withSize size).numSectors.toInt = (size + 127) / 128 := by
  rw [numSectors_withSize, BitVec.toInt_ofInt, divRoundUp_sectorSize]
  exact wrap32_of_range (by omega) (by omega)

section sizes

variable {size : ℤ} (hlow : -2 ^ 31 ≤ size) (hhigh : size ≤ maxFileSize)

include hlow hhigh

private theorem fileLength_withSize (h : FileHeader) : (h.withSize size).fileLength = size := by
  simp only [maxFileSize] at hhigh
  rw [fileLength, numBytes_withSize, BitVec.toInt_ofInt]
  exact wrap32_of_range hlow (by omega)

/-- `Allocate` succeeds exactly when enough sectors are free. -/
theorem allocate_cases (h : FileHeader) {b : Bitmap} (hbits : b.numBits = 1024) (d : Disk) :
    (∃ h' b', h.allocate b size d = .ok (true, h', b') d ∧ (size + 127) / 128 ≤ b.clears ∧
      h'.fileLength = size ∧ h'.Taken b b') ∨
    (b.clears < (size + 127) / 128 ∧ ∃ h', h.allocate b size d = .ok (false, h', b) d) := by
  have hlength := fileLength_withSize hlow hhigh h
  simp only [maxFileSize] at hhigh
  have hnum := toInt_numSectors_withSize h hlow (by omega)
  have hcount : (h.withSize size).count = ((size + 127) / 128).toNat := by rw [count, hnum]
  by_cases hfew : (b.clears : ℤ) < (size + 127) / 128
  · refine .inr ⟨hfew, h.withSize size, ?_⟩
    rw [allocate, bind_of_ok (b.numClear_eq d), if_pos (by rwa [hnum])]
    rfl
  · obtain ⟨h', b', hrun, hbits', hclears, hkeep, hfresh, hdistinct, hleast, hmarks⟩ :=
      allocateFrom_eq d (h.withSize size).count 0 (h.withSize size) b hbits (by omega) (by omega)
    -- the two counts are as they were set
    have hnumBytes : h'.numBytes = (h.withSize size).numBytes := hkeep 0 (by decide)
    have hnumSectors : h'.numSectors = (h.withSize size).numSectors := hkeep 1 (by decide)
    have hcount' : h'.count = (h.withSize size).count := by rw [count, count, hnumSectors]
    have hlength' : h'.fileLength = size := (congrArg BitVec.toInt hnumBytes).trans hlength
    refine .inl ⟨h', b', ?_, by omega, hlength', ?_⟩
    · rw [allocate, bind_of_ok (b.numClear_eq d), if_neg (by rwa [hnum]), bind_of_ok hrun]
      rfl
    · refine ⟨⟨?_, ?_, fun i hi ↦ ?_, fun i hi j hj heq ↦ ?_⟩, hbits', by omega, ?_,
        fun j hj u hu ↦ ?_, fun s ↦ ?_⟩
      · rw [hnumSectors, hnum, hlength']
      · rw [hnumSectors, hnum]
        simp only [numDirect]
        omega
      · exact (hfresh i (Nat.zero_le i) (by omega)).1
      · by_contra hne
        rcases Nat.lt_or_gt_of_ne hne with hlt | hlt
        · exact hdistinct i j (Nat.zero_le i) hlt (by omega) heq
        · exact hdistinct j i (Nat.zero_le j) hlt (by omega) heq.symm
      · rintro s ⟨j, hj, rfl⟩
        exact (hfresh j (Nat.zero_le j) (by omega)).2
      · rcases hleast j (Nat.zero_le j) (by omega) u hu with hbit | ⟨l, -, hl, hlu⟩
        · exact .inl hbit
        · exact .inr ⟨l, hl, hlu⟩
      · rw [hmarks s]
        refine or_congr_right ⟨?_, ?_⟩
        · rintro ⟨j, -, hj, hs⟩
          exact ⟨j, by omega, hs⟩
        · rintro ⟨j, hj, hs⟩
          exact ⟨j, Nat.zero_le j, by omega, hs⟩

end sizes

/-- The table has no place for a data sector behind the last one. -/
private theorem allocateFrom_ne_ok (d : Disk) (rest i : ℕ) (h : FileHeader) (b : Bitmap)
    (hi : i ≤ 30) (hrest : 30 < i + rest) (r : FileHeader × Bitmap) (d' : Disk) :
    allocateFrom i rest h b d ≠ .ok r d' := by
  induction rest generalizing i h b d with
  | zero => omega
  | succ rest ih =>
    intro hrun
    rw [allocateFrom] at hrun
    obtain ⟨⟨sector, b'⟩, d₁, -, hrun⟩ := bind_eq_ok.mp hrun
    obtain ⟨h', d₂, hset, hrun⟩ := bind_eq_ok.mp hrun
    obtain ⟨-, d₃, -, hrun⟩ := bind_eq_ok.mp hrun
    by_cases hlt : i < 30
    · exact ih d₃ (i + 1) h' b' (by omega) (by omega) hrun
    · rw [setDataSector, if_neg hlt] at hset
      cases hset

/-- `Allocate` never succeeds for more bytes than a header can list, and it returns only if there
are too few free sectors for them. -/
theorem allocate_of_large (h : FileHeader) (b : Bitmap) {size : ℤ} (hlarge : maxFileSize < size)
    (hrange : size < 2 ^ 31) (d : Disk) {r : Bool × FileHeader × Bitmap} {d' : Disk}
    (hrun : h.allocate b size d = .ok r d') :
    (b.clears : ℤ) < (size + 127) / 128 ∧ r.1 = false ∧ d' = d := by
  simp only [maxFileSize] at hlarge
  have hnum := toInt_numSectors_withSize h (by omega) hrange
  rw [allocate, bind_of_ok (b.numClear_eq d)] at hrun
  by_cases hfew : (b.clears : ℤ) < (h.withSize size).numSectors.toInt
  · rw [if_pos hfew] at hrun
    cases hrun
    exact ⟨by omega, rfl, rfl⟩
  · rw [if_neg hfew] at hrun
    obtain ⟨⟨h', b'⟩, d₁, hloop, -⟩ := bind_eq_ok.mp hrun
    refine absurd hloop (allocateFrom_ne_ok d _ 0 _ b (by omega) ?_ _ _)
    rw [count, hnum]
    omega

/-- `Allocate` returns, and where it succeeds the header lists the sectors of a file of that size,
all of them in its table. -/
def FitsHeader (h : FileHeader) (b : Bitmap) (size : ℤ) (d : Disk) : Prop :=
  ∃ r h' b', h.allocate b size d = .ok (r, h', b') d ∧
    (r = true → h'.numSectors.toInt ≤ numDirect ∧ h'.fileLength = size ∧ h'.Taken b b')

/-- **The capacity of a header is respected exactly when** the file fits into a header or does not
fit onto the disk: `Allocate` compares the size with the free sectors only. -/
theorem allocate_fits_iff (h : FileHeader) {b : Bitmap} (hbits : b.numBits = 1024) {size : ℤ}
    (hlow : 0 ≤ size) (hrange : size < 2 ^ 31) (d : Disk) :
    h.FitsHeader b size d ↔ size ≤ maxFileSize ∨ (b.clears : ℤ) < (size + 127) / 128 := by
  constructor
  · rintro ⟨r, h', b', hrun, -⟩
    by_cases hsmall : size ≤ maxFileSize
    · exact .inl hsmall
    · exact .inr (h.allocate_of_large b (Int.not_le.mp hsmall) hrange d hrun).1
  · intro hcond
    by_cases hsmall : size ≤ maxFileSize
    · rcases allocate_cases (by omega) hsmall h hbits d with
        ⟨h', b', hrun, -, hlength, htaken⟩ | ⟨-, h', hrun⟩
      · exact ⟨true, h', b', hrun, fun _ ↦ ⟨htaken.valid.numSectors_le, hlength, htaken⟩⟩
      · exact ⟨false, h', b, hrun, fun hfalse ↦ absurd hfalse (by decide)⟩
    · have hnum := toInt_numSectors_withSize h (by omega) hrange
      have hfew := hcond.resolve_left hsmall
      refine ⟨false, h.withSize size, b, ?_, fun hfalse ↦ absurd hfalse (by decide)⟩
      rw [allocate, bind_of_ok (b.numClear_eq d), if_pos (by rwa [hnum])]
      rfl

/-- The bitmap of an empty disk. -/
def emptyMap : Bitmap := ⟨1024, fun _ ↦ 0⟩

private theorem clears_emptyMap : emptyMap.clears = 1024 :=
  Nat.count_of_forall fun _ _ ↦ BitVec.getLsbD_zero

/-- One byte more than a header can list, on an empty disk: a sector is entered behind the end of
the table. -/
theorem not_fits_of_large :
    ¬∀ (h : FileHeader) (b : Bitmap) (size : ℤ) (d : Disk), b.numBits = 1024 → 0 ≤ size →
      size < 2 ^ 31 → h.FitsHeader b size d := by
  intro hfits
  obtain ⟨r, h', b', hrun, -⟩ := hfits ⟨fun _ ↦ 0⟩ emptyMap 3841 (fun _ _ ↦ 0) rfl (by decide)
    (by decide)
  have hfew := (allocate_of_large _ emptyMap (by decide) (by decide) _ hrun).1
  rw [clears_emptyMap] at hfew
  exact absurd hfew (by decide)

/-- The largest file that fits. -/
theorem fits_largest : FitsHeader ⟨fun _ ↦ 0⟩ emptyMap 3840 fun _ _ ↦ 0 :=
  (allocate_fits_iff _ rfl (by decide) (by decide) _).mpr (.inl (by decide))

/-! ## Deallocation -/

section deallocation

variable {h : FileHeader} (hv : h.Valid)

include hv

/-- The loop clears the remaining data sectors; the assertion holds as they are all marked. -/
private theorem deallocateFrom_eq (d : Disk) (rest i : ℕ) (b : Bitmap) (hbits : b.numBits = 1024)
    (hi : i + rest = h.count) (hmarked : ∀ j, i ≤ j → j < h.count → b.bit (h.sectorAt j) = true) :
    ∃ b', h.deallocateFrom i rest b d = .ok b' d ∧ b'.numBits = 1024 ∧
      ∀ s, b'.bit s = true ↔ b.bit s = true ∧ ∀ j, i ≤ j → j < h.count → h.sectorAt j ≠ s := by
  induction rest generalizing i b with
  | zero => exact ⟨b, rfl, hbits, fun s ↦ ⟨fun hs ↦ ⟨hs, fun j hj hj' ↦ by omega⟩, And.left⟩⟩
  | succ rest ih =>
    have hcount : i < h.count := by omega
    have hlt : h.sectorAt i < b.numBits := hbits ▸ hv.sectorAt_lt i hcount
    have hsplit : ∀ j, i ≤ j → j = i ∨ i + 1 ≤ j := fun j hj ↦ by omega
    have hrest : ∀ j, i + 1 ≤ j → j < h.count →
        (b.cleared (h.sectorAt i)).bit (h.sectorAt j) = true := fun j hj hj' ↦ by
      have hne : h.sectorAt j ≠ h.sectorAt i := fun heq ↦ by
        have := hv.distinct j hj' i hcount heq
        omega
      rw [Bitmap.bit_cleared, decide_eq_false hne, hmarked j (by omega) hj']
      rfl
    obtain ⟨b', hrun, hbits', hmarks⟩ :=
      ih (i + 1) (b.cleared (h.sectorAt i)) hbits (by omega) hrest
    refine ⟨b', ?_, hbits', fun s ↦ ?_⟩
    · have htest := Bitmap.test_eq hlt d
      rw [hmarked i (Nat.le_refl i) hcount] at htest
      rw [deallocateFrom, bind_of_ok (hv.dataSector hcount d), bind_of_ok htest,
        bind_of_ok (assertThat_of rfl d), bind_of_ok (Bitmap.clear_eq hlt d), hrun]
    · rw [hmarks s, Bitmap.bit_cleared, Bool.and_eq_true, Bool.not_eq_true',
        decide_eq_false_iff_not]
      constructor
      · rintro ⟨⟨hne, hs⟩, hothers⟩
        refine ⟨hs, fun j hj hj' ↦ ?_⟩
        rcases hsplit j hj with rfl | hj
        · exact Ne.symm hne
        · exact hothers j hj hj'
      · rintro ⟨hs, hothers⟩
        exact ⟨⟨(hothers i (Nat.le_refl i) hcount).symm, hs⟩,
          fun j hj hj' ↦ hothers j (by omega) hj'⟩

theorem deallocate_eq {b : Bitmap} (hbits : b.numBits = 1024)
    (hmarked : ∀ s, h.Owns s → b.bit s = true) (d : Disk) :
    ∃ b', h.deallocate b d = .ok b' d ∧ b'.numBits = 1024 ∧
      ∀ s, b'.bit s = true ↔ b.bit s = true ∧ ¬h.Owns s := by
  obtain ⟨b', hrun, hbits', hmarks⟩ := deallocateFrom_eq hv d h.count 0 b hbits (by omega)
    fun j _ hj ↦ hmarked _ ⟨j, hj, rfl⟩
  refine ⟨b', hrun, hbits', fun s ↦ (hmarks s).trans (and_congr_right fun _ ↦ ⟨?_, ?_⟩)⟩
  · rintro hothers ⟨j, hj, hs⟩
    exact hothers j (Nat.zero_le j) hj hs
  · exact fun hnot j _ hj hs ↦ hnot ⟨j, hj, hs⟩

end deallocation

end FileHeader

end Nachos
