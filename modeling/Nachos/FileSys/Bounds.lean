import Nachos.FileSys.Operations

/-!
# Which requests stay inside the file

`ReadAt` and `WriteAt` test `position >= fileLength` and clip by comparing `position + numBytes`
with the length. A negative position passes the first test, and a sum past the largest `int` passes
the second one. To see which indices of `dataSectors` are used, the code is taken over another
`ByteToSector`: with `checkedSector` in it a run stops at the first index outside the table, and
otherwise does what the code does.
-/

namespace Nachos

open Program

/-! ## Looking up a data sector -/

/-- `dataSectors[i]`, for the indices the header describes. -/
def FileHeader.checkedSector (h : FileHeader) (i : ℤ) : DiskM ℤ :=
  if 0 ≤ i ∧ i < h.numSectors.toInt then h.dataSector i else throw .tableIndex

/-- `ByteToSector` with this test. -/
def FileHeader.checkedByteToSector (h : FileHeader) (offset : ℤ) : DiskM ℤ :=
  h.checkedSector (offset.tdiv sectorSize)

/-! ## More tests -/

section refines

variable {look look' : ℤ → DiskM ℤ} (h : ∀ i, Refines (look i) (look' i))

include h

private theorem refines_readSectorsVia (firstSector : ℤ) (j rest : ℕ) (buf : Buffer) :
    Refines (readSectorsVia look firstSector j rest buf)
      (readSectorsVia look' firstSector j rest buf) := by
  induction rest generalizing j buf with
  | zero => exact .refl _
  | succ rest ih =>
    exact .bind (h _) fun _ ↦ .bind (.refl _) fun _ ↦ .bind (.refl _) fun _ ↦ ih _ _

private theorem refines_writeSectorsVia (firstSector : ℤ) (buf : Buffer) (j rest : ℕ) :
    Refines (writeSectorsVia look firstSector buf j rest)
      (writeSectorsVia look' firstSector buf j rest) := by
  induction rest generalizing j with
  | zero => exact .refl _
  | succ rest ih =>
    exact .bind (h _) fun _ ↦ .bind (.refl _) fun _ ↦ .bind (.refl _) fun _ ↦ ih _

variable (hdr : FileHeader)

private theorem refines_readAtVia (junk : ℕ → Byte) (numBytes position : ℤ) :
    Refines (readAtVia look hdr junk numBytes position)
      (readAtVia look' hdr junk numBytes position) :=
  .ite (.refl _) <| .bind (.refl _) fun _ ↦ .bind (refines_readSectorsVia h _ _ _ _) fun _ ↦
    .bind (.refl _) fun _ ↦ .refl _

private theorem refines_readIntoVia (junk : ℕ → Byte) (buf : Buffer) (i position : ℤ) :
    Refines (readIntoVia look hdr junk buf i position)
      (readIntoVia look' hdr junk buf i position) :=
  .bind (refines_readAtVia h hdr _ _ _) fun _ ↦ .refl _

private theorem refines_writeAtVia (junk src : ℕ → Byte) (numBytes position : ℤ) :
    Refines (writeAtVia look hdr junk src numBytes position)
      (writeAtVia look' hdr junk src numBytes position) := by
  refine .ite (.refl _) <| .bind (.refl _) fun buf ↦ .bind ?_ fun _ ↦
    .bind (refines_writeSectorsVia h _ _ _ _) fun _ ↦ .refl _
  exact .bind (.ite (refines_readIntoVia h hdr _ _ _ _) (.refl _)) fun _ ↦
    .bind (.ite (refines_readIntoVia h hdr _ _ _ _) (.refl _)) fun _ ↦ .refl _

end refines

private theorem refines_checkedByteToSector (hdr : FileHeader) (offset : ℤ) :
    Refines (hdr.checkedByteToSector offset) (hdr.byteToSector offset) := by
  intro d s d' hrun
  rw [FileHeader.checkedByteToSector, FileHeader.checkedSector] at hrun
  split at hrun
  · exact hrun
  · cases hrun

/-! ## Requests inside the file -/

/-- The header of a file of at most `MaxFileSize` bytes: it lists as many data sectors as the length
needs, all of them on the disk. -/
structure FileHeader.Listed (h : FileHeader) : Prop where
  length_nonneg : 0 ≤ h.fileLength
  length_le : h.fileLength ≤ maxFileSize
  numSectors_eq : h.numSectors.toInt = (h.fileLength + 127) / 128
  sectorAt_lt : ∀ i < h.count, h.sectorAt i < Nachos.numSectors

section inside

variable {h : FileHeader} (hl : h.Listed)

include hl

theorem FileHeader.Listed.count_eq : (h.count : ℤ) = h.numSectors.toInt := by
  have hlength := hl.length_nonneg
  have hnum := hl.numSectors_eq
  rw [FileHeader.count]
  omega

theorem FileHeader.Listed.count_le : h.count ≤ 30 := by
  have hle := hl.length_le
  have hnum := hl.numSectors_eq
  have hcount := hl.count_eq
  simp only [maxFileSize] at hle
  omega

theorem FileHeader.Listed.length_eq : (h.length : ℤ) = h.fileLength := by
  have hlength := hl.length_nonneg
  rw [FileHeader.length]
  omega

theorem FileHeader.Listed.length_le' : h.length ≤ 3840 := by
  have hle := hl.length_le
  have hlength := hl.length_eq
  simp only [maxFileSize] at hle
  omega

theorem FileHeader.Listed.count_length : h.count = (h.length + 127) / 128 := by
  have hnum := hl.numSectors_eq
  have hcount := hl.count_eq
  have hlength := hl.length_eq
  omega

theorem FileHeader.Listed.look {i : ℕ} (hi : i < h.count) (d : Disk) :
    h.checkedByteToSector (wrap32 (i * sectorSize)) d = .ok (h.sectorAt i : ℤ) d := by
  have hcount := hl.count_eq
  have hle := hl.count_le
  have hlt := hl.sectorAt_lt i hi
  have hindex : (wrap32 (i * sectorSize)).tdiv sectorSize = i := by
    rw [wrap32_sectors (by omega), Int.natCast_mul]
    exact Int.mul_tdiv_cancel _ (by decide)
  have hsector : (h.sectorAt i : ℤ) = (h.dataSectors i).toInt := by
    simp only [FileHeader.sectorAt, Nachos.numSectors] at hlt
    exact (BitVec.toInt_eq_toNat_of_lt (by omega)).symm
  rw [FileHeader.checkedByteToSector, hindex, FileHeader.checkedSector, if_pos (by omega),
    FileHeader.dataSector, if_pos (by simp only [numDirect]; omega), hsector]
  rfl

theorem FileHeader.Listed.foundBy : h.FoundBy h.checkedByteToSector :=
  ⟨hl.count_le, hl.count_length, hl.sectorAt_lt, fun _ hi d ↦ hl.look hi d⟩

end inside

/-! ## Indices of a run -/

/-- Division as in C, rounding towards zero. -/
theorem tdiv_sectorSize (x : ℤ) :
    (0 ≤ x → x.tdiv sectorSize = x / 128) ∧ (x ≤ 0 → x.tdiv sectorSize = -(-x / 128)) := by
  constructor
  · intro hx
    exact Int.tdiv_eq_ediv_of_nonneg hx
  · intro hx
    have hneg := Int.neg_tdiv (a := -x) (b := sectorSize)
    rw [Int.neg_neg] at hneg
    rw [hneg, Int.tdiv_eq_ediv_of_nonneg (by omega)]
    rfl

section bounds

variable {h : FileHeader} {first : ℤ} {m : ℕ}

private theorem index_eq (hlow : -2 ^ 24 ≤ first + m) (hhigh : first + m < 2 ^ 24) :
    (wrap32 ((first + m) * sectorSize)).tdiv sectorSize = first + m := by
  rw [wrap32_of_range (by simp only [sectorSize]; omega) (by simp only [sectorSize]; omega)]
  exact Int.mul_tdiv_cancel _ (by decide)

private theorem checkedSector_eq_ok {i : ℤ} {d d' : Disk} {s : ℤ}
    (hrun : h.checkedSector i d = .ok s d') : 0 ≤ i ∧ i < h.numSectors.toInt := by
  rw [FileHeader.checkedSector] at hrun
  split at hrun
  · assumption
  · cases hrun

variable (hlow : -2 ^ 24 ≤ first + m) (hhigh : first + m < 2 ^ 24)

include hlow hhigh

/-- A loop that returns has used indices inside the table only. -/
private theorem readSectorsVia_bounds {rest j : ℕ} {buf b : Buffer} {d d' : Disk}
    (hrun : readSectorsVia h.checkedByteToSector first j rest buf d = .ok b d') (hj : j ≤ m)
    (hm : m < j + rest) : 0 ≤ first + m ∧ first + m < h.numSectors.toInt := by
  induction rest generalizing j buf d with
  | zero => omega
  | succ rest ih =>
    rw [readSectorsVia] at hrun
    obtain ⟨s, d₁, hlook, hrun⟩ := bind_eq_ok.mp hrun
    obtain ⟨_, d₂, -, hrun⟩ := bind_eq_ok.mp hrun
    obtain ⟨_, d₃, -, hrun⟩ := bind_eq_ok.mp hrun
    rcases Nat.eq_or_lt_of_le hj with rfl | hlt
    · rw [← index_eq hlow hhigh]
      exact checkedSector_eq_ok hlook
    · exact ih hrun hlt (by omega)

private theorem writeSectorsVia_bounds {rest j : ℕ} {buf : Buffer} {d d' : Disk} {u : Unit}
    (hrun : writeSectorsVia h.checkedByteToSector first buf j rest d = .ok u d') (hj : j ≤ m)
    (hm : m < j + rest) : 0 ≤ first + m ∧ first + m < h.numSectors.toInt := by
  induction rest generalizing j d with
  | zero => omega
  | succ rest ih =>
    rw [writeSectorsVia] at hrun
    obtain ⟨s, d₁, hlook, hrun⟩ := bind_eq_ok.mp hrun
    obtain ⟨_, d₂, -, hrun⟩ := bind_eq_ok.mp hrun
    obtain ⟨_, d₃, -, hrun⟩ := bind_eq_ok.mp hrun
    rcases Nat.eq_or_lt_of_le hj with rfl | hlt
    · rw [← index_eq hlow hhigh]
      exact checkedSector_eq_ok hlook
    · exact ih hrun hlt (by omega)

end bounds

theorem Buffer.load_eq_ok {buf : Buffer} {i n : ℤ} {d d' : Disk} {data : ℕ → Byte}
    (hrun : buf.load i n d = .ok data d') : 0 ≤ i := by
  rw [Buffer.load] at hrun
  split at hrun
  · rename_i hroom
    exact hroom.1
  · cases hrun

theorem Buffer.store_eq_ok {buf b : Buffer} {i n : ℤ} {src : ℕ → Byte} {d d' : Disk}
    (hrun : buf.store i src n d = .ok b d') : 0 ≤ i := by
  rw [Buffer.store] at hrun
  split at hrun
  · rename_i hroom
    exact hroom.1
  · cases hrun

/-! ## Negative positions -/

section negative

variable {L n p : ℤ} (hL : 0 ≤ L) (hL' : L ≤ 3840) (hn : 0 < n) (hn' : n < 2 ^ 31)
  (hp : -2 ^ 31 ≤ p) (hp' : p < 0)

include hL hL' hn hn' hp hp'

/-- The first sector is sector 0, with the position before its start, or has a negative number. -/
private theorem extent_of_neg :
    (extent (clip L n p) p).firstSector = 0 ∨
      -2 ^ 24 ≤ (extent (clip L n p) p).firstSector ∧ (extent (clip L n p) p).firstSector < 0 ∧
        0 < (extent (clip L n p) p).count := by
  have hfirst : (extent (clip L n p) p).firstSector = -(-p / 128) :=
    (tdiv_sectorSize p).2 (by omega)
  -- the last byte is not before the first one
  have hlast : p ≤ wrap32 (wrap32 (p + clip L n p) - 1) := by
    rw [clip]
    obtain ⟨hlow₁, hhigh₁, k₁, hk₁⟩ := wrap32_spec (L - p)
    obtain ⟨hlow₂, hhigh₂, k₂, hk₂⟩ := wrap32_spec (p + wrap32 (L - p))
    rw [wrap32_of_range (x := p + n) (by omega) (by omega)]
    split
    · rw [wrap32_of_range (x := wrap32 (p + wrap32 (L - p)) - 1) (by omega) (by omega)]
      omega
    · rw [wrap32_of_range (x := p + n) (by omega) (by omega),
        wrap32_of_range (by omega) (by omega)]
      omega
  rcases Int.lt_or_le (-128) p with hnear | hfar
  · left
    omega
  · refine .inr ⟨by omega, by omega, ?_⟩
    have hle : (extent (clip L n p) p).firstSector ≤ (extent (clip L n p) p).lastSector := by
      have hdiv := tdiv_sectorSize (wrap32 (wrap32 (p + clip L n p) - 1))
      rw [hfirst, extent]
      simp only
      rcases Int.le_total 0 (wrap32 (wrap32 (p + clip L n p) - 1)) with hx | hx
      · rw [hdiv.1 hx]
        omega
      · rw [hdiv.2 hx]
        omega
    rw [Extent.count]
    omega

omit hL hL' hn hn' in
/-- Where the request starts in the buffer. -/
private theorem offset_of_first_eq_zero (hzero : (extent (clip L n p) p).firstSector = 0) :
    wrap32 (p - wrap32 ((extent (clip L n p) p).firstSector * sectorSize)) < 0 := by
  rw [hzero, Int.zero_mul, wrap32_of_range (x := 0) (by omega) (by omega),
    wrap32_of_range (by omega) (by omega)]
  omega

end negative

section requests

variable {h : FileHeader} (hl : h.Listed) (junk : ℕ → Byte) {n p : ℤ}

include hl

/-- No read at a negative position returns. -/
theorem readAtVia_of_neg (hn : 0 < n) (hn' : n < 2 ^ 31) (hp : -2 ^ 31 ≤ p) (hp' : p < 0)
    (d : Disk) (r : ℤ × (ℕ → Byte)) (d' : Disk) :
    readAtVia h.checkedByteToSector h junk n p d ≠ .ok r d' := by
  intro hrun
  have hL := hl.length_nonneg
  have hL' : h.fileLength ≤ 3840 := hl.length_le
  rw [readAtVia, if_neg (by omega)] at hrun
  obtain ⟨_, d₁, -, hrun⟩ := bind_eq_ok.mp hrun
  obtain ⟨_, d₂, hread, hrun⟩ := bind_eq_ok.mp hrun
  obtain ⟨_, d₃, hload, -⟩ := bind_eq_ok.mp hrun
  rcases extent_of_neg hL hL' hn hn' hp hp' with hzero | ⟨hlow, hneg, hcount⟩
  · have hoffset := offset_of_first_eq_zero hp hp' hzero
    have := Buffer.load_eq_ok hload
    omega
  · have := (readSectorsVia_bounds (m := 0) (by omega) (by omega) hread (Nat.le_refl 0)
      (by omega)).1
    omega

/-- No write at a negative position returns. -/
private theorem writeAtVia_of_neg (src : ℕ → Byte) (hn : 0 < n) (hn' : n < 2 ^ 31)
    (hp : -2 ^ 31 ≤ p) (hp' : p < 0) (d : Disk) (r : ℤ) (d' : Disk) :
    writeAtVia h.checkedByteToSector h junk src n p d ≠ .ok r d' := by
  intro hrun
  have hL := hl.length_nonneg
  have hL' : h.fileLength ≤ 3840 := hl.length_le
  rw [writeAtVia, if_neg (by omega)] at hrun
  obtain ⟨_, d₁, -, hrun⟩ := bind_eq_ok.mp hrun
  obtain ⟨_, d₂, hfill, hrun⟩ := bind_eq_ok.mp hrun
  obtain ⟨_, d₃, hwrite, -⟩ := bind_eq_ok.mp hrun
  obtain ⟨_, d₄, -, hfill⟩ := bind_eq_ok.mp hfill
  obtain ⟨_, d₅, -, hstore⟩ := bind_eq_ok.mp hfill
  rcases extent_of_neg hL hL' hn hn' hp hp' with hzero | ⟨hlow, hneg, hcount⟩
  · have hoffset := offset_of_first_eq_zero hp hp' hzero
    have := Buffer.store_eq_ok hstore
    omega
  · have := (writeSectorsVia_bounds (m := 0) (by omega) (by omega) hwrite (Nat.le_refl 0)
      (by omega)).1
    omega

end requests

/-! ## Sums past the largest `int` -/

section overflow

variable {L n p : ℤ} (hp : 0 ≤ p) (hpL : p < L) (hL : L ≤ 3840) (hn : n < 2 ^ 31)

include hp hpL hL hn

/-- The sum is negative, so nothing is clipped. -/
theorem clip_of_overflow (hover : 2 ^ 31 ≤ p + n) : clip L n p = n := by
  obtain ⟨hlow, hhigh, k, hk⟩ := wrap32_spec (p + n)
  rw [clip, if_neg (by omega)]

omit hpL hL hn in
/-- One past the largest `int`: its predecessor is the largest `int` again. -/
private theorem extent_of_eq (hover : p + n = 2 ^ 31) :
    extent n p = ⟨p / 128, 2 ^ 24 - 1⟩ := by
  have hlast : wrap32 (wrap32 (p + n) - 1) = 2 ^ 31 - 1 := by
    obtain ⟨hlow, hhigh, k, hk⟩ := wrap32_spec (p + n)
    obtain ⟨hlow', hhigh', k', hk'⟩ := wrap32_spec (wrap32 (p + n) - 1)
    omega
  rw [extent, hlast, (tdiv_sectorSize p).1 hp]
  rfl

/-- Further past it the last sector has a negative number. -/
theorem extent_of_gt (hover : 2 ^ 31 < p + n) :
    extent n p = ⟨p / 128, (p + n + 126 - 2 ^ 31) / 128 - 2 ^ 24⟩ := by
  have hlast : wrap32 (wrap32 (p + n) - 1) = p + n - 1 - 2 ^ 32 := by
    obtain ⟨hlow, hhigh, k, hk⟩ := wrap32_spec (p + n)
    obtain ⟨hlow', hhigh', k', hk'⟩ := wrap32_spec (wrap32 (p + n) - 1)
    omega
  rw [extent, hlast, (tdiv_sectorSize p).1 hp, (tdiv_sectorSize _).2 (by omega)]
  congr 1
  omega

end overflow

section overflowing

variable {h : FileHeader} (hl : h.Listed) (junk : ℕ → Byte) {n p : ℤ} (hp : 0 ≤ p)
  (hpL : p < h.fileLength) (hn' : n < 2 ^ 31)

/-- The number of the sectors is so negative that the size of the buffer comes out positive: there
is a buffer, the loop over the sectors is empty, and what is delivered was never read. -/
def Wraps (numBytes position : ℤ) : Prop :=
  2 ^ 31 < position + numBytes ∧ (position + numBytes + 126 - 2 ^ 31) / 128 + 1 < position / 128

instance (numBytes position : ℤ) : Decidable (Wraps numBytes position) :=
  inferInstanceAs (Decidable (_ ∧ _))

include hl hp hpL hn'

/-- The sector behind the last one of the file is among those of a request up to the largest
`int`. -/
private theorem past_table_of_eq (hover : p + n = 2 ^ 31) :
    ∃ m : ℕ, m < (extent n p).count ∧ (extent n p).firstSector + m = h.numSectors.toInt ∧
      0 ≤ h.numSectors.toInt ∧ h.numSectors.toInt ≤ 30 := by
  have hnum := hl.numSectors_eq
  have hL' : h.fileLength ≤ 3840 := hl.length_le
  rw [extent_of_eq hp hover, Extent.count]
  refine ⟨(h.numSectors.toInt - p / 128).toNat, ?_, ?_, by omega, by omega⟩
  · simp only
    omega
  · simp only
    omega

private theorem readAtVia_of_eq (hover : p + n = 2 ^ 31) (d : Disk) (r : ℤ × (ℕ → Byte))
    (d' : Disk) : readAtVia h.checkedByteToSector h junk n p d ≠ .ok r d' := by
  intro hrun
  obtain ⟨m, hm, heq, hnonneg, hle⟩ := past_table_of_eq hl hp hpL hn' hover
  have hL' : h.fileLength ≤ 3840 := hl.length_le
  rw [readAtVia, if_neg (by omega)] at hrun
  simp only [clip_of_overflow hp hpL hL' hn' (by omega)] at hrun
  obtain ⟨_, d₁, -, hrun⟩ := bind_eq_ok.mp hrun
  obtain ⟨_, d₂, hread, -⟩ := bind_eq_ok.mp hrun
  have := readSectorsVia_bounds (m := m) (by omega) (by omega) hread (Nat.zero_le m) (by omega)
  omega

private theorem writeAtVia_of_eq (src : ℕ → Byte) (hover : p + n = 2 ^ 31) (d : Disk) (r : ℤ)
    (d' : Disk) : writeAtVia h.checkedByteToSector h junk src n p d ≠ .ok r d' := by
  intro hrun
  obtain ⟨m, hm, heq, hnonneg, hle⟩ := past_table_of_eq hl hp hpL hn' hover
  have hL' : h.fileLength ≤ 3840 := hl.length_le
  rw [writeAtVia, if_neg (by omega)] at hrun
  simp only [clip_of_overflow hp hpL hL' hn' (by omega)] at hrun
  obtain ⟨_, d₁, -, hrun⟩ := bind_eq_ok.mp hrun
  obtain ⟨_, d₂, -, hrun⟩ := bind_eq_ok.mp hrun
  obtain ⟨_, d₃, hwrite, -⟩ := bind_eq_ok.mp hrun
  have := writeSectorsVia_bounds (m := m) (by omega) (by omega) hwrite (Nat.zero_le m) (by omega)
  omega

/-- The size of the buffer of a request further past the largest `int`. -/
private theorem bufferSize_of_gt (hover : 2 ^ 31 < p + n) :
    (extent n p).count = 0 ∧
      wrap32 ((extent n p).numSectors * sectorSize) =
        if Wraps n p then 2 ^ 31 + 128 * (1 + (p + n + 126 - 2 ^ 31) / 128 - p / 128)
        else -2 ^ 31 + 128 * (1 + (p + n + 126 - 2 ^ 31) / 128 - p / 128) := by
  have hL' : h.fileLength ≤ 3840 := hl.length_le
  rw [extent_of_gt hp hpL hL' hn' hover, Extent.count, Extent.numSectors]
  simp only [sectorSize]
  rw [wrap32_of_range (x := 1 + _ - _) (by omega) (by omega)]
  refine ⟨by omega, ?_⟩
  obtain ⟨hlow, hhigh, k, hk⟩ :=
    wrap32_spec ((1 + ((p + n + 126 - 2 ^ 31) / 128 - 2 ^ 24) - p / 128) * (128 : ℕ))
  by_cases hwraps : Wraps n p
  · have hbound := hwraps.2
    rw [if_pos hwraps]
    omega
  · have hbound : ¬(p + n + 126 - 2 ^ 31) / 128 + 1 < p / 128 := fun hlt ↦ hwraps ⟨hover, hlt⟩
    rw [if_neg hwraps]
    omega

/-- A read further past the largest `int` returns if its buffer can be allocated. -/
private theorem readAtVia_of_gt (hover : 2 ^ 31 < p + n) (d : Disk) :
    (Wraps n p → ∃ data, readAtVia h.checkedByteToSector h junk n p d = .ok (n, data) d) ∧
      (¬Wraps n p → ∀ r d', readAtVia h.checkedByteToSector h junk n p d ≠ .ok r d') := by
  have hL' : h.fileLength ≤ 3840 := hl.length_le
  obtain ⟨hcount, hsize⟩ := bufferSize_of_gt hl hp hpL hn' hover
  have hfirst : (extent n p).firstSector = p / 128 := by rw [extent_of_gt hp hpL hL' hn' hover]
  rw [readAtVia, if_neg (by omega)]
  simp only [clip_of_overflow hp hpL hL' hn' (by omega), hcount, hsize, readSectorsVia]
  constructor
  · intro hwraps
    have hbound := hwraps.2
    rw [if_pos hwraps]
    generalize hs : 2 ^ 31 + 128 * (1 + (p + n + 126 - 2 ^ 31) / 128 - p / 128) = size
    refine ⟨fun x ↦ junk ((p % 128).toNat + x), ?_⟩
    have hbuf : newBuffer size junk d = .ok ⟨size.toNat, junk⟩ d := by
      rw [newBuffer, if_neg (by omega)]
      rfl
    have hoffset : wrap32 (p - wrap32 ((extent n p).firstSector * sectorSize)) = p % 128 := by
      rw [hfirst]
      simp only [sectorSize]
      rw [wrap32_of_range (x := p / 128 * _) (by omega) (by omega),
        wrap32_of_range (by omega) (by omega)]
      omega
    rw [bind_of_ok hbuf]
    refine (bind_of_ok (x := (Pure.pure _ : DiskM Buffer)) rfl).trans ?_
    have hload : (⟨size.toNat, junk⟩ : Buffer).load (p % 128) n d
        = .ok (fun x ↦ junk ((p % 128).toNat + x)) d := by
      rw [Buffer.load, if_pos (by simp only; omega)]
      rfl
    rw [hoffset, bind_of_ok hload]
    rfl
  · intro hwraps r d' hrun
    rw [if_neg hwraps] at hrun
    have hbound : ¬(p + n + 126 - 2 ^ 31) / 128 + 1 < p / 128 := fun hlt ↦ hwraps ⟨hover, hlt⟩
    obtain ⟨_, d₁, hbuf, -⟩ := bind_eq_ok.mp hrun
    rw [newBuffer, if_pos (by omega)] at hbuf
    cases hbuf

/-- A write further past the largest `int` reads its last sector, at a negative position. -/
private theorem writeAtVia_of_gt (src : ℕ → Byte) (hover : 2 ^ 31 < p + n) (d : Disk) (r : ℤ)
    (d' : Disk) : writeAtVia h.checkedByteToSector h junk src n p d ≠ .ok r d' := by
  intro hrun
  have hL' : h.fileLength ≤ 3840 := hl.length_le
  rw [writeAtVia, if_neg (by omega)] at hrun
  simp only [clip_of_overflow hp hpL hL' hn' (by omega)] at hrun
  obtain ⟨_, d₁, -, hrun⟩ := bind_eq_ok.mp hrun
  obtain ⟨_, d₂, hfill, -⟩ := bind_eq_ok.mp hrun
  rw [fillBufferVia, extent_of_gt hp hpL hL' hn' hover] at hfill
  obtain ⟨buf, d₃, -, hfill⟩ := bind_eq_ok.mp hfill
  obtain ⟨_, d₄, hlast, -⟩ := bind_eq_ok.mp hfill
  simp only [sectorSize] at hlast
  -- the last sector is not aligned
  have hsum : wrap32 (p + n) = p + n - 2 ^ 32 := by
    obtain ⟨hlow, hhigh, k, hk⟩ := wrap32_spec (p + n)
    omega
  have hneg : wrap32 (((p + n + 126 - 2 ^ 31) / 128 - 2 ^ 24) * (128 : ℕ))
      = ((p + n + 126 - 2 ^ 31) / 128 - 2 ^ 24) * 128 :=
    wrap32_of_range (by omega) (by omega)
  have hnext : wrap32 (wrap32 ((p + n + 126 - 2 ^ 31) / 128 - 2 ^ 24 + 1) * (128 : ℕ))
      = ((p + n + 126 - 2 ^ 31) / 128 - 2 ^ 24 + 1) * 128 := by
    rw [wrap32_of_range (x := _ + 1) (by omega) (by omega), wrap32_of_range (by omega) (by omega)]
    rfl
  rw [hsum, hneg, hnext, if_pos ⟨by omega, by omega⟩] at hlast
  obtain ⟨_, d₅, hread, -⟩ := bind_eq_ok.mp hlast
  exact readAtVia_of_neg hl junk (by decide) (by decide) (by omega) (by omega) _ _ _ hread

end overflowing

/-! ## The requests that stay inside -/

/-- `ReadAt` returns, with the same result when every index into the table is checked; it has
delivered nothing or at most what it was asked for. -/
def ReadBounded (hdr : FileHeader) (junk : ℕ → Byte) (numBytes position : ℤ) (d : Disk) : Prop :=
  ∃ r d', readAt hdr junk numBytes position d = .ok r d' ∧
    readAtVia hdr.checkedByteToSector hdr junk numBytes position d = .ok r d' ∧
    (r.1 = 0 ∨ 1 ≤ r.1 ∧ r.1 ≤ numBytes)

/-- The same for `WriteAt`. -/
def WriteBounded (hdr : FileHeader) (junk src : ℕ → Byte) (numBytes position : ℤ) (d : Disk) :
    Prop :=
  ∃ r d', writeAt hdr junk src numBytes position d = .ok r d' ∧
    writeAtVia hdr.checkedByteToSector hdr junk src numBytes position d = .ok r d' ∧
    (r = 0 ∨ 1 ≤ r ∧ r ≤ numBytes)

section bounded

variable {h : FileHeader} (junk src : ℕ → Byte) {n p : ℤ} {d d' : Disk}

theorem ReadBounded.of_checked {r : ℤ × (ℕ → Byte)}
    (hrun : readAtVia h.checkedByteToSector h junk n p d = .ok r d')
    (hr : r.1 = 0 ∨ 1 ≤ r.1 ∧ r.1 ≤ n) : ReadBounded h junk n p d := by
  refine ⟨r, d', ?_, hrun, hr⟩
  exact refines_readAtVia (refines_checkedByteToSector h) h junk n p d r d' hrun

theorem WriteBounded.of_checked {r : ℤ}
    (hrun : writeAtVia h.checkedByteToSector h junk src n p d = .ok r d')
    (hr : r = 0 ∨ 1 ≤ r ∧ r ≤ n) : WriteBounded h junk src n p d := by
  refine ⟨r, d', ?_, hrun, hr⟩
  exact refines_writeAtVia (refines_checkedByteToSector h) h junk src n p d r d' hrun

variable (hl : h.Listed)

include hl

/-- A proper request comes down to one inside the file. -/
private theorem bounded_of_proper (hproper : Proper h n p) (d : Disk) :
    ReadBounded h junk n p d ∧ WriteBounded h junk src n p d := by
  by_cases hc : n ≤ 0 ∨ h.fileLength ≤ p
  · have hread : readAtVia h.checkedByteToSector h junk n p d = .ok (0, fun _ ↦ 0) d := by
      rw [readAtVia, if_pos hc]
      rfl
    have hwrite : writeAtVia h.checkedByteToSector h junk src n p d = .ok 0 d := by
      rw [writeAtVia, if_pos hc]
      rfl
    exact ⟨ReadBounded.of_checked junk hread (.inl rfl),
      WriteBounded.of_checked junk src hwrite (.inl rfl)⟩
  · obtain ⟨hpos, hlt⟩ : 0 ≤ p ∧ p + n < 2 ^ 31 := by
      rcases hproper with hp | hp | hp
      · exact absurd (.inl hp) hc
      · exact absurd (.inr hp) hc
      · exact hp
    lift p to ℕ using hpos
    obtain ⟨k, hmoved, hr, hreads, hwrites⟩ := FileHeader.clipped hl.length_le' hc hlt
    rw [FileHeader.transferred, if_neg hc] at hmoved
    have hk : (k : ℤ) ≤ n := hmoved ▸ Int.min_le_left _ _
    have hpos := hr.pos
    obtain ⟨data, hread, -⟩ := readAtVia_of_inside hl.foundBy hr junk d
    obtain ⟨d', hwrite, -⟩ := writeAtVia_of_inside hl.foundBy hr junk src d
    rw [← hreads] at hread
    rw [← hwrites] at hwrite
    exact ⟨ReadBounded.of_checked junk hread (.inr ⟨by simp only; omega, hk⟩),
      WriteBounded.of_checked junk src hwrite (.inr ⟨by omega, hk⟩)⟩

/-- A request that is not proper goes wrong, but for the reads that wrap twice. -/
private theorem not_bounded_of_improper (hp : -2 ^ 31 ≤ p) (hn' : n < 2 ^ 31)
    (himproper : ¬Proper h n p) (d : Disk) :
    (ReadBounded h junk n p d ↔ Wraps n p) ∧ ¬WriteBounded h junk src n p d := by
  rw [Proper] at himproper
  have hL' : h.fileLength ≤ 3840 := hl.length_le
  have hn : 0 < n := by omega
  have hpL : p < h.fileLength := by omega
  rcases Int.lt_or_le p 0 with hneg | hpos
  · refine ⟨iff_of_false ?_ ?_, ?_⟩
    · rintro ⟨r, d', -, hrun, -⟩
      exact readAtVia_of_neg hl junk hn hn' hp hneg d r d' hrun
    · rintro ⟨hover, -⟩
      omega
    · rintro ⟨r, d', -, hrun, -⟩
      exact writeAtVia_of_neg hl junk src hn hn' hp hneg d r d' hrun
  rcases Int.lt_or_le (2 ^ 31) (p + n) with hover | hle
  · obtain ⟨hreads, hstops⟩ := readAtVia_of_gt hl junk hpos hpL hn' hover d
    refine ⟨⟨?_, fun hwraps ↦ ?_⟩, ?_⟩
    · rintro ⟨r, d', -, hrun, -⟩
      by_contra hwraps
      exact hstops hwraps r d' hrun
    · obtain ⟨data, hrun⟩ := hreads hwraps
      exact ReadBounded.of_checked junk hrun (.inr ⟨by simp only; omega, Int.le_refl n⟩)
    · rintro ⟨r, d', -, hrun, -⟩
      exact writeAtVia_of_gt hl junk hpos hpL hn' src hover d r d' hrun
  · have heq : p + n = 2 ^ 31 := by omega
    refine ⟨iff_of_false ?_ ?_, ?_⟩
    · rintro ⟨r, d', -, hrun, -⟩
      exact readAtVia_of_eq hl junk hpos hpL hn' heq d r d' hrun
    · rintro ⟨hover, -⟩
      omega
    · rintro ⟨r, d', -, hrun, -⟩
      exact writeAtVia_of_eq hl junk hpos hpL hn' src heq d r d' hrun

end bounded

/-- **A write stays inside the file exactly when** it is refused, or its position is not negative
and its last byte has an `int` for its position. The same holds for a read, but for the ones that
wrap twice: they touch nothing of the file and deliver what was in the buffer. -/
theorem readAt_writeAt_bounded_iff {h : FileHeader} (hl : h.Listed) (junk src : ℕ → Byte)
    (numBytes position : Word) (d : Disk) :
    (ReadBounded h junk numBytes.toInt position.toInt d ↔
      Proper h numBytes.toInt position.toInt ∨
        position.toInt < h.fileLength ∧ Wraps numBytes.toInt position.toInt) ∧
    (WriteBounded h junk src numBytes.toInt position.toInt d ↔
      Proper h numBytes.toInt position.toInt) := by
  have hn' := numBytes.toInt_lt
  have hp := position.le_toInt
  simp only [Nat.reduceSub] at hn' hp
  by_cases hproper : Proper h numBytes.toInt position.toInt
  · obtain ⟨hread, hwrite⟩ := bounded_of_proper junk src hl hproper d
    exact ⟨iff_of_true hread (.inl hproper), iff_of_true hwrite hproper⟩
  · obtain ⟨hread, hwrite⟩ := not_bounded_of_improper junk src hl hp hn' hproper d
    refine ⟨?_, iff_of_false hwrite hproper⟩
    have hpL : position.toInt < h.fileLength := by
      rw [Proper] at hproper
      omega
    rw [hread, or_iff_right hproper, and_iff_right hpL]

theorem FileHeader.small_listed : FileHeader.small.Listed where
  length_nonneg := by decide
  length_le := by decide
  numSectors_eq := by decide
  sectorAt_lt := by decide

/-- A read and a write over the border of the two sectors. -/
theorem small_bounded :
    ReadBounded FileHeader.small (fun _ ↦ 0) 50 100 (fun _ _ ↦ 1) ∧
      WriteBounded FileHeader.small (fun _ ↦ 0) (fun _ ↦ 7) 50 100 (fun _ _ ↦ 1) := by
  obtain ⟨hread, hwrite⟩ := readAt_writeAt_bounded_iff FileHeader.small_listed (fun _ ↦ 0)
    (fun _ ↦ 7) 50 100 (fun _ _ ↦ 1)
  exact ⟨hread.mpr (.inl (.inr (.inr (by decide)))), hwrite.mpr (.inr (.inr (by decide)))⟩

/-- Four bytes from eight bytes before the start of the file. -/
theorem not_bounded_before_start :
    ¬∀ (h : FileHeader), h.Listed → ∀ (junk src : ℕ → Byte) (numBytes position : Word) (d : Disk),
      ReadBounded h junk numBytes.toInt position.toInt d ∧
        WriteBounded h junk src numBytes.toInt position.toInt d := by
  intro hbounded
  obtain ⟨⟨r, d', -, hrun, -⟩, -⟩ := hbounded FileHeader.small FileHeader.small_listed (fun _ ↦ 0)
    (fun _ ↦ 0) 4 (-8) fun _ _ ↦ 0
  exact readAtVia_of_neg FileHeader.small_listed _ (by decide) (by decide) (by decide) (by decide)
    _ r d' hrun

end Nachos
