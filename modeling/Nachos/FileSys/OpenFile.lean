import Mathlib.Tactic.Common
import Nachos.FileSys.Disk

/-!
# A file is a flat array of bytes

`ReadAt` and `WriteAt` work in whole sectors, with a read of the first and of the last sector before
a write that covers them only in part. Seen through a proper header they read and write an array of
bytes of fixed length, the data sectors one after the other: `flat`. What a request moves is
`transferred`.
-/

namespace Nachos

open Program

theorem wrap32_sectors {j : ℕ} (hj : j < 2 ^ 24) :
    wrap32 (j * sectorSize) = ((j * 128 : ℕ) : ℤ) := by
  rw [wrap32_of_range (by simp only [sectorSize]; omega) (by simp only [sectorSize]; omega),
    Int.natCast_mul]

/-! ## Proper headers -/

namespace FileHeader

/-- The length as a natural number. -/
def length (h : FileHeader) : ℕ := h.fileLength.toNat

/-- How many data sectors the header lists. -/
def count (h : FileHeader) : ℕ := h.numSectors.toInt.toNat

/-- Data sector `i`. -/
def sectorAt (h : FileHeader) (i : ℕ) : ℕ := (h.dataSectors i).toNat

/-- The data sectors are as many as the length needs, are sectors of the disk and are distinct. -/
structure Valid (h : FileHeader) : Prop where
  numSectors_eq : h.numSectors.toInt = (h.fileLength + 127) / 128
  numSectors_le : h.numSectors.toInt ≤ numDirect
  sectorAt_lt : ∀ i < h.count, h.sectorAt i < Nachos.numSectors
  distinct : ∀ i < h.count, ∀ j < h.count, h.sectorAt i = h.sectorAt j → i = j

/-- Byte `x` of the data sectors one after the other. -/
def flat (h : FileHeader) (d : Disk) (x : ℕ) : Byte :=
  (d (h.sectorAt (x / sectorSize))).byte (x % sectorSize)

variable {h : FileHeader}

theorem Valid.count_le (hv : h.Valid) : h.count ≤ 30 := by
  have := hv.numSectors_le
  simp only [numDirect] at this
  simp only [count]
  omega

theorem Valid.count_eq (hv : h.Valid) : h.count = (h.length + 127) / 128 := by
  have := hv.numSectors_eq
  simp only [count, length]
  omega

theorem Valid.length_le (hv : h.Valid) : h.length ≤ 3840 := by
  have := hv.count_le
  have := hv.count_eq
  omega

theorem Valid.coe_sectorAt (hv : h.Valid) {i : ℕ} (hi : i < h.count) :
    (h.sectorAt i : ℤ) = (h.dataSectors i).toInt := by
  have hlt := hv.sectorAt_lt i hi
  simp only [sectorAt, Nachos.numSectors] at hlt
  exact (BitVec.toInt_eq_toNat_of_lt (by omega)).symm

theorem Valid.dataSector (hv : h.Valid) {i : ℕ} (hi : i < h.count) (d : Disk) :
    h.dataSector i d = .ok (h.sectorAt i : ℤ) d := by
  have := hv.count_le
  rw [FileHeader.dataSector, if_pos (by simp only [numDirect]; omega), hv.coe_sectorAt hi]
  rfl

theorem Valid.byteToSector (hv : h.Valid) {i : ℕ} (hi : i < h.count) (d : Disk) :
    h.byteToSector (wrap32 (i * sectorSize)) d = .ok (h.sectorAt i : ℤ) d := by
  have := hv.count_le
  have hoffset : (wrap32 (i * sectorSize)).tdiv sectorSize = i := by
    rw [wrap32_sectors (by omega), Int.natCast_mul]
    exact Int.mul_tdiv_cancel _ (by decide)
  rw [FileHeader.byteToSector, hoffset, hv.dataSector hi]

/-- The data sectors of the file can be found with `byteToSector`. -/
structure FoundBy (h : FileHeader) (byteToSector : ℤ → DiskM ℤ) : Prop where
  count_le : h.count ≤ 30
  count_eq : h.count = (h.length + 127) / 128
  sectorAt_lt : ∀ i < h.count, h.sectorAt i < Nachos.numSectors
  look : ∀ i < h.count, ∀ d : Disk,
    byteToSector (wrap32 (i * sectorSize)) d = .ok (h.sectorAt i : ℤ) d

theorem Valid.foundBy (hv : h.Valid) : h.FoundBy h.byteToSector :=
  ⟨hv.count_le, hv.count_eq, hv.sectorAt_lt, fun _ hi d ↦ hv.byteToSector hi d⟩

theorem FoundBy.length_le {byteToSector : ℤ → DiskM ℤ} (hf : h.FoundBy byteToSector) :
    h.length ≤ 3840 := by
  have := hf.count_le
  have := hf.count_eq
  omega

/-- No sector holds two parts of the file. -/
def Distinct (h : FileHeader) : Prop :=
  ∀ i < h.count, ∀ j < h.count, h.sectorAt i = h.sectorAt j → i = j

end FileHeader

/-! ## Sectors and buffers -/

theorem readSector_of_lt {s : ℕ} (hs : s < 1024) (d : Disk) : readSector s d = .ok (d s) d := by
  rw [readSector, if_pos (by simp only [numSectors]; omega)]
  rfl

theorem writeSector_of_lt {s : ℕ} (hs : s < 1024) (data : Sector) (d : Disk) :
    writeSector s data d = .ok () (Function.update d s data) := by
  rw [writeSector, if_pos (by simp only [numSectors]; omega)]
  rfl

private theorem newBuffer_coe (n : ℕ) (junk : ℕ → Byte) (d : Disk) :
    newBuffer n junk d = .ok ⟨n, junk⟩ d := by
  rw [newBuffer, if_neg (by omega)]
  rfl

theorem Buffer.store_coe {buf : Buffer} {i n : ℕ} (hroom : i + n ≤ buf.size) (src : ℕ → Byte)
    (d : Disk) : buf.store i src n d = .ok ⟨buf.size, blit buf.bytes i src n⟩ d := by
  rw [Buffer.store, if_pos (by omega)]
  rfl

theorem Buffer.load_coe {buf : Buffer} {i n : ℕ} (hroom : i + n ≤ buf.size) (d : Disk) :
    buf.load i n d = .ok (fun x ↦ buf.bytes (i + x)) d := by
  rw [Buffer.load, if_pos (by omega)]
  rfl

/-! ## The loops -/

section loops

variable {h : FileHeader} {byteToSector : ℤ → DiskM ℤ} (hf : h.FoundBy byteToSector)

include hf

/-- The loop of `ReadAt` lays the sectors out in the buffer. -/
private theorem readSectorsVia_eq (first : ℕ) (d : Disk) (rest j : ℕ) (buf : Buffer)
    (hcount : first + j + rest ≤ h.count) (hsize : (j + rest) * 128 ≤ buf.size) :
    ∃ b, readSectorsVia byteToSector first j rest buf d = .ok ⟨buf.size, b⟩ d ∧
      (∀ x, j * 128 ≤ x → x < (j + rest) * 128 → b x = h.flat d (first * 128 + x)) ∧
      ∀ x, x < j * 128 → b x = buf.bytes x := by
  induction rest generalizing j buf with
  | zero => exact ⟨buf.bytes, rfl, fun x hx hx' ↦ by omega, fun _ _ ↦ rfl⟩
  | succ rest ih =>
    have hle := hf.count_le
    -- one sector, then the loop from the next one on
    have hi : first + j < h.count := by omega
    obtain ⟨b, hrun, hin, hout⟩ := ih (j + 1)
      ⟨buf.size, blit buf.bytes (j * 128) (d (h.sectorAt (first + j))).byte 128⟩
      (by omega) (by simp only; omega)
    refine ⟨b, ?_, fun x hx hx' ↦ ?_, fun x hx ↦ ?_⟩
    · have hsector := hf.look _ hi d
      rw [Int.natCast_add] at hsector
      rw [readSectorsVia, bind_of_ok hsector,
        bind_of_ok (readSector_of_lt (hf.sectorAt_lt _ hi) d), wrap32_sectors (by omega)]
      exact (bind_of_ok (Buffer.store_coe (n := 128) (by omega) _ d)).trans hrun
    · by_cases hx1 : (j + 1) * 128 ≤ x
      · exact hin x hx1 (by omega)
      · refine (hout x (by omega)).trans ((blit_of_mem hx (by omega)).trans ?_)
        rw [FileHeader.flat,
          show (first * 128 + x) / sectorSize = first + j by simp only [sectorSize]; omega,
          show (first * 128 + x) % sectorSize = x - j * 128 by simp only [sectorSize]; omega]
    · exact (hout x (by omega)).trans (blit_of_lt hx)

/-- The loop of `WriteAt` puts the buffer into the sectors and touches no other. -/
private theorem writeSectorsVia_eq (first : ℕ) (buf : Buffer) (rest j : ℕ) (d : Disk)
    (hcount : first + j + rest ≤ h.count) (hsize : (j + rest) * 128 ≤ buf.size) :
    ∃ d', writeSectorsVia byteToSector first buf j rest d = .ok () d' ∧
      (h.Distinct → ∀ i, j ≤ i → i < j + rest →
        d' (h.sectorAt (first + i)) = .ofBytes fun x ↦ buf.bytes (i * 128 + x)) ∧
      ∀ s, (∀ i, j ≤ i → i < j + rest → s ≠ h.sectorAt (first + i)) → d' s = d s := by
  induction rest generalizing j d with
  | zero => exact ⟨d, rfl, fun _ i hi hi' ↦ by omega, fun _ _ ↦ rfl⟩
  | succ rest ih =>
    have hle := hf.count_le
    have hi : first + j < h.count := by omega
    obtain ⟨d', hrun, hin, hout⟩ := ih (j + 1)
      (Function.update d (h.sectorAt (first + j)) (.ofBytes fun x ↦ buf.bytes (j * 128 + x)))
      (by omega) (by omega)
    refine ⟨d', ?_, fun hdistinct i hi hi' ↦ ?_, fun s hs ↦ ?_⟩
    · have hsector := hf.look _ hi d
      rw [Int.natCast_add] at hsector
      rw [writeSectorsVia, bind_of_ok hsector, wrap32_sectors (by omega)]
      refine (bind_of_ok (Buffer.load_coe (n := 128) (by omega) d)).trans ?_
      rw [bind_of_ok (writeSector_of_lt (hf.sectorAt_lt _ hi) _ d), hrun]
    · rcases Nat.eq_or_lt_of_le hi with rfl | hi
      · -- the later rounds write other sectors
        rw [hout _ fun i hi hi' heq ↦ ?_, Function.update_self]
        have := hdistinct _ (by omega) _ (by omega) heq
        omega
      · exact hin hdistinct i hi (by omega)
    · rw [hout s fun i hi hi' ↦ hs i (by omega) (by omega), Function.update_of_ne]
      exact hs j (Nat.le_refl j) (by omega)

end loops

/-! ## One request inside the file -/

/-- The sectors of a request, in natural numbers. -/
theorem extent_coe {n p : ℕ} (hn : 0 < n) (hlt : p + n < 2 ^ 31) :
    extent n p = ⟨(p / 128 : ℕ), ((p + n - 1) / 128 : ℕ)⟩ := by
  have hlast : wrap32 (wrap32 ((p : ℤ) + n) - 1) = ((p + n - 1 : ℕ) : ℤ) := by
    rw [wrap32_of_range (x := (p : ℤ) + n) (by omega) (by omega),
      wrap32_of_range (by omega) (by omega)]
    omega
  rw [extent, hlast]
  rfl

/-- A request inside the file: `n` bytes from `p` on, at least one. -/
structure FileHeader.Inside (h : FileHeader) (n p : ℕ) : Prop where
  pos : 0 < n
  le : p + n ≤ h.length

section request

variable {h : FileHeader} {byteToSector : ℤ → DiskM ℤ} (hf : h.FoundBy byteToSector) {n p : ℕ}
  (hr : h.Inside n p)

include hr in
theorem FileHeader.Inside.not_refused : ¬((n : ℤ) ≤ 0 ∨ h.fileLength ≤ (p : ℤ)) := by
  have := hr.pos
  have := hr.le
  simp only [FileHeader.length] at this
  omega

include hr in
theorem FileHeader.Inside.clip_eq (hlength : h.length ≤ 3840) : clip h.fileLength n p = n := by
  have := hr.pos
  have := hr.le
  simp only [FileHeader.length] at *
  rw [clip, if_neg]
  rw [wrap32_of_range (by omega) (by omega)]
  omega

/-- How many sectors a request is about. -/
def sectorsOf (n p : ℕ) : ℕ := (p + n - 1) / 128 - p / 128 + 1

include hf hr in
theorem FileHeader.Inside.sectors_le : p / 128 + sectorsOf n p ≤ h.count := by
  have := hr.le
  have := hr.pos
  have := hf.count_eq
  rw [sectorsOf]
  omega

include hr in
theorem FileHeader.Inside.count_extent (hlength : h.length ≤ 3840) :
    (extent n p).count = sectorsOf n p := by
  have := hr.le
  rw [extent_coe hr.pos (by omega), Extent.count, sectorsOf]
  have := hr.pos
  simp only
  omega

include hr in
/-- The buffer holds exactly the sectors of the request. -/
theorem FileHeader.Inside.newBuffer_eq (hlength : h.length ≤ 3840) (junk : ℕ → Byte) (d : Disk) :
    newBuffer (wrap32 ((extent n p).numSectors * sectorSize)) junk d =
      .ok ⟨sectorsOf n p * 128, junk⟩ d := by
  have := hr.le
  have := hr.pos
  have hsectors : sectorsOf n p ≤ 30 := by
    rw [sectorsOf]
    omega
  have hnum : (extent n p).numSectors = (sectorsOf n p : ℕ) := by
    rw [extent_coe hr.pos (by omega), Extent.numSectors]
    simp only
    rw [wrap32_of_range (by omega) (by omega), sectorsOf]
    omega
  rw [hnum, wrap32_sectors (by omega), newBuffer_coe]

/-- Where in the buffer the request starts. -/
private theorem offset_coe {p : ℕ} (hlt : p < 2 ^ 31) :
    wrap32 (p - wrap32 (((p / 128 : ℕ) : ℤ) * sectorSize)) = ((p % 128 : ℕ) : ℤ) := by
  rw [wrap32_sectors (by omega), wrap32_of_range (by omega) (by omega)]
  omega

include hf hr in
/-- `ReadAt` inside the file. -/
theorem readAtVia_of_inside (junk : ℕ → Byte) (d : Disk) :
    ∃ data, readAtVia byteToSector h junk n p d = .ok ((n : ℤ), data) d ∧
      ∀ x < n, data x = h.flat d (p + x) := by
  have hle := hr.sectors_le hf
  have := hr.le
  have := hr.pos
  have := hf.length_le
  obtain ⟨b, hrun, hin, -⟩ := readSectorsVia_eq hf (p / 128) d (sectorsOf n p) 0
    ⟨sectorsOf n p * 128, junk⟩ (by omega) (by simp only; omega)
  have hroom : p % 128 + n ≤ sectorsOf n p * 128 := by
    rw [sectorsOf]
    omega
  refine ⟨fun x ↦ b (p % 128 + x), ?_, fun x hx ↦ ?_⟩
  · rw [readAtVia, if_neg hr.not_refused]
    simp only [hr.clip_eq hf.length_le]
    rw [bind_of_ok (hr.newBuffer_eq hf.length_le junk d), hr.count_extent hf.length_le,
      extent_coe hr.pos (by omega)]
    simp only
    rw [bind_of_ok hrun, offset_coe (by omega)]
    exact bind_of_ok (Buffer.load_coe hroom d)
  · rw [show p + x = p / 128 * 128 + (p % 128 + x) by omega]
    exact hin _ (by omega) (by omega)

/-- What a request moves: nothing when it is refused, else what the file has of it. -/
def FileHeader.transferred (h : FileHeader) (numBytes position : ℤ) : ℤ :=
  if numBytes ≤ 0 ∨ h.fileLength ≤ position then 0 else min numBytes (h.fileLength - position)

theorem FileHeader.transferred_of_refused {numBytes position : ℤ}
    (hc : numBytes ≤ 0 ∨ h.fileLength ≤ position) : h.transferred numBytes position = 0 := if_pos hc

/-- A request that is not refused comes down to one inside the file. -/
theorem FileHeader.inside_of_accepted (hlength : h.length ≤ 3840) {numBytes : ℤ}
    (hc : ¬(numBytes ≤ 0 ∨ h.fileLength ≤ (p : ℤ))) (hlt : p + numBytes < 2 ^ 31) :
    ∃ k : ℕ, h.transferred numBytes p = k ∧ clip h.fileLength numBytes p = k ∧ h.Inside k p := by
  have hle : h.fileLength.toNat ≤ 3840 := hlength
  refine ⟨(h.transferred numBytes p).toNat, ?_, ?_, ?_, ?_⟩
  · rw [transferred, if_neg hc]
    omega
  · rw [transferred, if_neg hc, clip, wrap32_of_range (by omega) (by omega)]
    split
    · rw [wrap32_of_range (by omega) (by omega)]
      omega
    · omega
  · rw [transferred, if_neg hc]
    omega
  · rw [transferred, if_neg hc, FileHeader.length]
    omega

/-- It then does what that one does. -/
theorem FileHeader.clipped (hlength : h.length ≤ 3840) {numBytes : ℤ}
    (hc : ¬(numBytes ≤ 0 ∨ h.fileLength ≤ (p : ℤ))) (hlt : p + numBytes < 2 ^ 31) :
    ∃ k : ℕ, h.transferred numBytes p = k ∧ h.Inside k p ∧
      (∀ look junk, readAtVia look h junk numBytes p = readAtVia look h junk k p) ∧
      ∀ look junk src, writeAtVia look h junk src numBytes p = writeAtVia look h junk src k p := by
  obtain ⟨k, hmoved, hclip, hr⟩ := inside_of_accepted hlength hc hlt
  refine ⟨k, hmoved, hr, fun look junk ↦ ?_, fun look junk src ↦ ?_⟩
  · rw [readAtVia, readAtVia, if_neg hc, if_neg hr.not_refused]
    simp only [hclip, hr.clip_eq hlength]
  · rw [writeAtVia, writeAtVia, if_neg hc, if_neg hr.not_refused]
    simp only [hclip, hr.clip_eq hlength]

include hf in
/-- One sector of the file read into the buffer, as far as the file goes. -/
theorem readIntoVia_eq (junk : ℕ → Byte) (d : Disk) (buf : Buffer) {i s : ℕ} (hs : s < h.count)
    (hroom : i + 128 ≤ buf.size) :
    ∃ b, readIntoVia byteToSector h junk buf i (wrap32 (s * sectorSize)) d = .ok ⟨buf.size, b⟩ d ∧
      (∀ x < 128, s * 128 + x < h.length → b (i + x) = h.flat d (s * 128 + x)) ∧
      ∀ x, x < i ∨ i + 128 ≤ x → b x = buf.bytes x := by
  have := hf.count_le
  have hlength := hf.count_eq
  have hc : ¬(((sectorSize : ℕ) : ℤ) ≤ 0 ∨ h.fileLength ≤ ((s * 128 : ℕ) : ℤ)) := by
    rw [FileHeader.length] at hlength
    simp only [sectorSize]
    omega
  obtain ⟨k, hmoved, hr, hclipped, -⟩ :=
    FileHeader.clipped hf.length_le hc (by simp only [sectorSize]; omega)
  obtain ⟨data, hread, hdata⟩ := readAtVia_of_inside hf hr junk d
  -- the whole sector, or what the file has of its last one
  rw [FileHeader.transferred, if_neg hc] at hmoved
  have hk : k = min 128 (h.length - s * 128) := by
    clear hc hclipped
    rw [FileHeader.length]
    simp only [sectorSize] at hmoved
    omega
  clear hmoved
  refine ⟨blit buf.bytes i data k, ?_, fun x hx hx' ↦ ?_, fun x hx ↦ ?_⟩
  · rw [readIntoVia, wrap32_sectors (by omega), hclipped, bind_of_ok hread]
    exact Buffer.store_coe (by omega) data d
  · rw [blit_of_mem (by omega) (by omega), hdata _ (by omega), show i + x - i = x by omega]
  · rcases hx with hx | hx
    · exact blit_of_lt hx
    · exact blit_of_le (by omega)

include hf in
/-- The same under a condition. -/
private theorem readIntoVia_ite (junk : ℕ → Byte) (d : Disk) (buf : Buffer) {i s : ℕ}
    (hs : s < h.count) (hroom : i + 128 ≤ buf.size) (c : Prop) [Decidable c] :
    ∃ b, (if c then readIntoVia byteToSector h junk buf i (wrap32 (s * sectorSize))
        else return buf : DiskM Buffer) d = .ok ⟨buf.size, b⟩ d ∧
      (c → ∀ x < 128, s * 128 + x < h.length → b (i + x) = h.flat d (s * 128 + x)) ∧
      ∀ x, ¬c ∨ x < i ∨ i + 128 ≤ x → b x = buf.bytes x := by
  by_cases hc : c
  · rw [if_pos hc]
    obtain ⟨b, hrun, hin, hout⟩ := readIntoVia_eq hf junk d buf hs hroom
    exact ⟨b, hrun, fun _ ↦ hin, fun x hx ↦ hout x (hx.resolve_left (not_not.mpr hc))⟩
  · rw [if_neg hc]
    exact ⟨buf.bytes, rfl, fun hc' ↦ absurd hc' hc, fun _ _ ↦ rfl⟩

private theorem firstAligned_iff {p : ℕ} (hlt : p < 2 ^ 31) :
    (p : ℤ) = wrap32 (((p / 128 : ℕ) : ℤ) * sectorSize) ↔ p % 128 = 0 := by
  rw [wrap32_sectors (by omega)]
  omega

private theorem lastAligned_iff {n p : ℕ} (hn : 0 < n) (hlt : p + n < 2 ^ 31 - 128) :
    wrap32 ((p : ℤ) + n) = wrap32 (wrap32 ((((p + n - 1) / 128 : ℕ) : ℤ) + 1) * sectorSize) ↔
      (p + n) % 128 = 0 := by
  rw [wrap32_of_range (x := _ + 1) (by omega) (by omega), ← Int.natCast_succ,
    wrap32_sectors (by omega), wrap32_of_range (by omega) (by omega)]
  omega

private theorem lastOffset_coe {n p : ℕ} (hn : 0 < n) (hlt : p + n < 2 ^ 31) :
    wrap32 (wrap32 ((((p + n - 1) / 128 : ℕ) : ℤ) - ((p / 128 : ℕ) : ℤ)) * sectorSize) =
      (((sectorsOf n p - 1) * 128 : ℕ) : ℤ) := by
  have hgap : (((p + n - 1) / 128 : ℕ) : ℤ) - ((p / 128 : ℕ) : ℤ)
      = ((sectorsOf n p - 1 : ℕ) : ℤ) := by
    rw [sectorsOf]
    omega
  have hlt' : sectorsOf n p - 1 < 2 ^ 24 := by
    rw [sectorsOf]
    omega
  rw [hgap, wrap32_of_range (x := (sectorsOf n p - 1 : ℕ)) (by omega) (by omega),
    wrap32_sectors hlt']

/-- A byte behind the new ones, but in a sector of theirs, is in the last of these. -/
private theorem behind_range {n p y : ℕ} (hn : 0 < n) (hge : p + n ≤ y)
    (hlt : y < (p / 128 + sectorsOf n p) * 128) :
    ¬(p + n) % 128 = 0 ∧ ∃ x < 128, y = (p + n - 1) / 128 * 128 + x ∧
      y - p / 128 * 128 = (sectorsOf n p - 1) * 128 + x := by
  rw [sectorsOf] at hlt ⊢
  refine ⟨by omega, y - (p + n - 1) / 128 * 128, by omega, by omega, by omega⟩

include hf hr in
/-- What `WriteAt` has in its buffer before the write: the new bytes, and around them the file. -/
private theorem fillBufferVia_eq (junk src : ℕ → Byte) (d : Disk) :
    ∃ b, fillBufferVia byteToSector h junk src n p ⟨sectorsOf n p * 128, junk⟩ d
        = .ok ⟨sectorsOf n p * 128, b⟩ d ∧
      ∀ y, p / 128 * 128 ≤ y → y < h.length → y < (p / 128 + sectorsOf n p) * 128 →
        b (y - p / 128 * 128) = if p ≤ y ∧ y < p + n then src (y - p) else h.flat d y := by
  have hle := hr.sectors_le hf
  have hpos := hr.pos
  have hend := hr.le
  have hlength := hf.length_le
  have hsectors : sectorsOf n p = (p + n - 1) / 128 - p / 128 + 1 := rfl
  -- the first and the last sector are read if they are written in part
  obtain ⟨b₁, hrun₁, hin₁, -⟩ := readIntoVia_ite hf junk d ⟨sectorsOf n p * 128, junk⟩
    (i := 0) (s := p / 128) (by omega) (by simp only; omega) (¬p % 128 = 0)
  obtain ⟨b₂, hrun₂, hin₂, hout₂⟩ := readIntoVia_ite hf junk d ⟨sectorsOf n p * 128, b₁⟩
    (i := (sectorsOf n p - 1) * 128) (s := (p + n - 1) / 128) (by omega) (by simp only; omega)
    (¬(p + n) % 128 = 0 ∧
      (((p / 128 : ℕ) : ℤ) ≠ (((p + n - 1) / 128 : ℕ) : ℤ) ∨ p % 128 = 0))
  refine ⟨blit b₂ (p % 128) src n, ?_, fun y hy hy' hy'' ↦ ?_⟩
  · rw [fillBufferVia, extent_coe hpos (by omega)]
    simp only [firstAligned_iff (show p < 2 ^ 31 by omega),
      lastAligned_iff hpos (show p + n < 2 ^ 31 - 128 by omega),
      lastOffset_coe hpos (show p + n < 2 ^ 31 by omega), offset_coe (show p < 2 ^ 31 by omega)]
    refine (bind_of_ok hrun₁).trans ((bind_of_ok hrun₂).trans ?_)
    exact Buffer.store_coe (by simp only; omega) src d
  · by_cases hlow : y < p
    · -- before the new bytes: in the first sector, which was read
      rw [if_neg (by omega), blit_of_lt (by omega), hout₂ _ (by omega)]
      have := hin₁ (by omega) (y - p / 128 * 128) (by omega) (by omega)
      rwa [Nat.zero_add, show p / 128 * 128 + (y - p / 128 * 128) = y by omega] at this
    · by_cases hhigh : y < p + n
      · rw [if_pos ⟨by omega, hhigh⟩, blit_of_mem (by omega) (by omega),
          show y - p / 128 * 128 - p % 128 = y - p by omega]
      · -- behind the new bytes: in the last sector, read with the first one or on its own
        rw [if_neg (by omega), blit_of_le (by omega)]
        obtain ⟨hpart, x, hx, rfl, hoffset⟩ := behind_range hpos (Nat.not_lt.mp hhigh) hy''
        rw [hoffset]
        by_cases hone : p / 128 = (p + n - 1) / 128 ∧ ¬p % 128 = 0
        · obtain ⟨hsame, hfirst⟩ := hone
          have hlast : sectorsOf n p - 1 = 0 := by rw [hsectors, hsame, Nat.sub_self]
          rw [← hsame] at hy' ⊢
          rw [hlast, Nat.zero_mul, hout₂ _ (.inl ?_)]
          · exact hin₁ hfirst x hx hy'
          · rintro ⟨-, hne | hzero⟩
            · exact hne (congrArg _ hsame)
            · exact hfirst hzero
        · refine hin₂ ⟨hpart, ?_⟩ x hx hy'
          by_cases hsame : p / 128 = (p + n - 1) / 128
          · exact .inr (not_not.mp fun hfirst ↦ hone ⟨hsame, hfirst⟩)
          · exact .inl fun heq ↦ hsame (Int.ofNat.inj heq)

include hf hr in
/-- `WriteAt` inside the file. -/
theorem writeAtVia_of_inside (junk src : ℕ → Byte) (d : Disk) :
    ∃ d', writeAtVia byteToSector h junk src n p d = .ok (n : ℤ) d' ∧
      (h.Distinct → ∀ y < h.length,
        h.flat d' y = if p ≤ y ∧ y < p + n then src (y - p) else h.flat d y) ∧
      ∀ s, (∀ y, p ≤ y → y < p + n → s ≠ h.sectorAt (y / 128)) → d' s = d s := by
  have hle := hr.sectors_le hf
  have hpos := hr.pos
  have hend := hr.le
  have hlength := hf.length_le
  have hcount := hf.count_eq
  have hsectors : sectorsOf n p = (p + n - 1) / 128 - p / 128 + 1 := rfl
  obtain ⟨b, hfill, hb⟩ := fillBufferVia_eq hf hr junk src d
  obtain ⟨d', hrun, hin, hout⟩ := writeSectorsVia_eq hf (p / 128) ⟨sectorsOf n p * 128, b⟩
    (sectorsOf n p) 0 d (by omega) (by simp only; omega)
  refine ⟨d', ?_, fun hdistinct y hy ↦ ?_, fun s hs ↦ hout s fun i _ hi ↦ ?_⟩
  · rw [writeAtVia, if_neg hr.not_refused]
    simp only [hr.clip_eq hf.length_le]
    rw [bind_of_ok (hr.newBuffer_eq hf.length_le junk d), bind_of_ok hfill,
      hr.count_extent hf.length_le, extent_coe hpos (by omega), bind_of_ok hrun]
    rfl
  · by_cases hy' : p / 128 ≤ y / 128 ∧ y / 128 < p / 128 + sectorsOf n p
    · -- a sector that was written
      rw [FileHeader.flat, sectorSize, show y / 128 = p / 128 + (y / 128 - p / 128) by omega,
        hin hdistinct _ (by omega) (by omega),
        Sector.byte_ofBytes _ (by simp only [sectorSize]; omega),
        show (y / 128 - p / 128) * 128 + y % 128 = y - p / 128 * 128 by omega]
      exact hb y (by omega) hy (by omega)
    · rw [FileHeader.flat, hout _ fun i _ hi heq ↦ ?_, if_neg (by omega), FileHeader.flat]
      have := hdistinct _ (by simp only [sectorSize]; omega) _ (by omega) heq
      simp only [sectorSize] at this
      omega
  · -- every written sector holds a byte of the request
    have := hs (max p ((p / 128 + i) * 128)) (by omega) (by omega)
    rwa [show max p ((p / 128 + i) * 128) / 128 = p / 128 + i by omega] at this

end request

/-! ## The refinement -/

section refinement

variable {h : FileHeader} (hv : h.Valid) (junk : ℕ → Byte) {numBytes position : ℤ}
  (hpos : 0 ≤ position) (hlt : position + numBytes < 2 ^ 31)

include hv hpos hlt

theorem readAt_flat (d : Disk) :
    ∃ data, readAt h junk numBytes position d = .ok (h.transferred numBytes position, data) d ∧
      ∀ x : ℕ, x < h.transferred numBytes position → data x = h.flat d (position.toNat + x) := by
  by_cases hc : numBytes ≤ 0 ∨ h.fileLength ≤ position
  · refine ⟨fun _ ↦ 0, ?_, fun x hx ↦ ?_⟩
    · rw [readAt, readAtVia, if_pos hc, FileHeader.transferred_of_refused hc]
      rfl
    · rw [FileHeader.transferred_of_refused hc] at hx
      omega
  · lift position to ℕ using hpos
    obtain ⟨k, hmoved, hr, hclipped, -⟩ := FileHeader.clipped hv.length_le hc hlt
    obtain ⟨data, hrun, hdata⟩ := readAtVia_of_inside hv.foundBy hr junk d
    refine ⟨data, ?_, fun x hx ↦ hdata x ?_⟩
    · rw [hmoved, readAt, hclipped, hrun]
    · rw [hmoved] at hx
      omega

theorem writeAt_flat (src : ℕ → Byte) (d : Disk) :
    ∃ d', writeAt h junk src numBytes position d = .ok (h.transferred numBytes position) d' ∧
      (∀ y < h.length, h.flat d' y =
        if position ≤ y ∧ y < position + h.transferred numBytes position then
          src (y - position.toNat)
        else h.flat d y) ∧
      ∀ s, (∀ y : ℕ, position ≤ y → y < position + h.transferred numBytes position →
        s ≠ h.sectorAt (y / sectorSize)) → d' s = d s := by
  by_cases hc : numBytes ≤ 0 ∨ h.fileLength ≤ position
  · refine ⟨d, ?_, fun y hy ↦ ?_, fun _ _ ↦ rfl⟩
    · rw [writeAt, writeAtVia, if_pos hc, FileHeader.transferred_of_refused hc]
      rfl
    · rw [FileHeader.transferred_of_refused hc, if_neg (by omega)]
  · lift position to ℕ using hpos
    obtain ⟨k, hmoved, hr, -, hclipped⟩ := FileHeader.clipped hv.length_le hc hlt
    obtain ⟨d', hrun, hin, hout⟩ := writeAtVia_of_inside hv.foundBy hr junk src d
    rw [hmoved]
    refine ⟨d', ?_, fun y hy ↦ ?_, fun s hs ↦ hout s fun y hy hy' ↦ hs y (by omega) (by omega)⟩
    · rw [writeAt, hclipped, hrun]
    · rw [hin hv.distinct y hy]
      exact if_congr (by omega) rfl rfl

/-- A file reads and writes as a flat array of bytes: `ReadAt` delivers the bytes of the range,
`WriteAt` replaces exactly these, and no sector outside the range changes. -/
theorem readAt_writeAt_refine_flat (d : Disk) :
    (∃ data, readAt h junk numBytes position d = .ok (h.transferred numBytes position, data) d ∧
      ∀ x : ℕ, x < h.transferred numBytes position → data x = h.flat d (position.toNat + x)) ∧
    ∀ src : ℕ → Byte, ∃ d',
      writeAt h junk src numBytes position d = .ok (h.transferred numBytes position) d' ∧
      (∀ y < h.length, h.flat d' y =
        if position ≤ y ∧ y < position + h.transferred numBytes position then
          src (y - position.toNat)
        else h.flat d y) ∧
      ∀ s, (∀ y : ℕ, position ≤ y → y < position + h.transferred numBytes position →
        s ≠ h.sectorAt (y / sectorSize)) → d' s = d s :=
  ⟨readAt_flat hv junk hpos hlt d, fun src ↦ writeAt_flat hv junk hpos hlt src d⟩

end refinement

/-- A file of 200 bytes in sectors 5 and 9. -/
def FileHeader.small : FileHeader where
  word := fun i ↦ if i.val = 0 then 200 else if i.val = 1 then 2 else if i.val = 2 then 5 else 9

theorem FileHeader.small_valid : FileHeader.small.Valid where
  numSectors_eq := by decide
  numSectors_le := by decide
  sectorAt_lt := by decide
  distinct := by decide

/-- A write over the border of the two sectors. -/
theorem readAt_writeAt_refine_flat_small :
    FileHeader.small.Valid ∧ ∃ d',
      writeAt FileHeader.small (fun _ ↦ 0) (fun _ ↦ 7) 50 100 (fun _ _ ↦ 1) = .ok 50 d' ∧
      FileHeader.small.flat d' 99 = 1 ∧ FileHeader.small.flat d' 149 = 7 ∧ d' 6 = fun _ ↦ 1 := by
  obtain ⟨-, hwrite⟩ := readAt_writeAt_refine_flat FileHeader.small_valid (fun _ ↦ 0)
    (show (0 : ℤ) ≤ 100 by decide) (show (100 : ℤ) + 50 < 2 ^ 31 by decide) (fun _ _ ↦ 1)
  obtain ⟨d', hrun, hin, hout⟩ := hwrite fun _ ↦ 7
  refine ⟨FileHeader.small_valid, d', hrun, hin 99 (by decide), hin 149 (by decide), hout 6 ?_⟩
  intro y hy hy'
  have hsectors : ∀ i < 2, 6 ≠ FileHeader.small.sectorAt i := by decide
  have hmoved : FileHeader.small.transferred 50 100 = 50 := by decide
  rw [hmoved] at hy'
  exact hsectors _ (by simp only [sectorSize]; omega)

/-! ## Whole files -/

section whole

variable {h : FileHeader} (hv : h.Valid) (junk : ℕ → Byte)

theorem FileHeader.transferred_length (h : FileHeader) : h.transferred h.length 0 = h.length := by
  rw [FileHeader.transferred, FileHeader.length]
  split <;> omega

include hv

theorem readAt_whole (d : Disk) :
    ∃ data, readAt h junk h.length 0 d = .ok ((h.length : ℤ), data) d ∧
      ∀ x < h.length, data x = h.flat d x := by
  have := hv.length_le
  obtain ⟨data, hrun, hdata⟩ := readAt_flat hv junk (Int.le_refl 0)
    (show (0 : ℤ) + h.length < 2 ^ 31 by omega) d
  rw [h.transferred_length] at hrun hdata
  exact ⟨data, hrun, fun x hx ↦ by simpa using hdata x (by omega)⟩

theorem writeAt_whole (src : ℕ → Byte) (d : Disk) :
    ∃ d', writeAt h junk src h.length 0 d = .ok (h.length : ℤ) d' ∧
      (∀ x < h.length, h.flat d' x = src x) ∧
      ∀ s, (∀ i < h.count, s ≠ h.sectorAt i) → d' s = d s := by
  have := hv.length_le
  have hcount := hv.count_eq
  obtain ⟨d', hrun, hin, hout⟩ := writeAt_flat hv junk (Int.le_refl 0)
    (show (0 : ℤ) + h.length < 2 ^ 31 by omega) src d
  rw [h.transferred_length] at hrun hin hout
  refine ⟨d', hrun, fun x hx ↦ ?_, fun s hs ↦ hout s fun y hy hy' ↦ hs _ ?_⟩
  · rw [hin x hx, if_pos (by omega)]
    rfl
  · simp only [sectorSize]
    omega

end whole

end Nachos
