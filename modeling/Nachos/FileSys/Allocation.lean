import Nachos.FileSys.Operations
import Nachos.Program.Run

/-!
# Every sector in use is marked and has one owner

A formatted disk is consistent, and every operation keeps it so: `Create` gives free sectors to new
owners, `Remove` takes sectors back, and a write to a file touches nothing but the data sectors of
that file. The last one needs a position that is not negative: `WriteAt` tests its position against
the length only.
-/

namespace Nachos

open Program

/-- Owners whose headers are in the same place on two disks have the same sectors there. -/
theorem Owner.sector_congr {d d' : Disk}
    (hmap : headerAt d' freeMapSector = headerAt d freeMapSector)
    (hdir : headerAt d' directorySector = headerAt d directorySector)
    (hkeep : ∀ i, InUse d i →
      headerSector d' i = headerSector d i ∧ fileHeader d' i = fileHeader d i)
    {o : Owner} (ho : o.Live d) : o.sector d' = o.sector d := by
  cases o with
  | freeMapHeader => rfl
  | directoryHeader => rfl
  | freeMapData j => simp only [Owner.sector, hmap]
  | directoryData j => simp only [Owner.sector, hdir]
  | header i => exact (hkeep i ho).1
  | data i j => simp only [Owner.sector, (hkeep i ho.1).2]

namespace Consistent

variable {fs : FileSystem} {d d' : Disk} (c : Consistent fs d)

include c

/-! ## One step -/

/-- The header sector of a file is no data sector of the bitmap or of the directory. -/
theorem not_owns_header {i : ℕ} (hi : InUse d i) :
    ¬(headerAt d freeMapSector).Owns (headerSector d i) ∧
      ¬(headerAt d directorySector).Owns (headerSector d i) := by
  constructor
  · rintro ⟨j, hj, heq⟩
    have := c.allocated.injective (.freeMapData j) (.header i) hj hi heq
    cases this
  · rintro ⟨j, hj, heq⟩
    have := c.allocated.injective (.directoryData j) (.header i) hj hi heq
    cases this

/-- What must be known of a new disk whose two well-known sectors are as before. -/
theorem of_owned (hmap : headerAt d' freeMapSector = headerAt d freeMapSector)
    (hdir : headerAt d' directorySector = headerAt d directorySector)
    (hfiles : ∀ i, InUse d' i → (fileHeader d' i).Valid) (hallocated : Allocated d') :
    Consistent fs d' where
  freeMapFile := c.freeMapFile.trans hmap.symm
  directoryFile := c.directoryFile.trans hdir.symm
  freeMap_valid := by
    rw [hmap]
    exact c.freeMap_valid
  freeMap_length := by
    rw [hmap]
    exact c.freeMap_length
  directory_valid := by
    rw [hdir]
    exact c.directory_valid
  directory_length := by
    rw [hdir]
    exact c.directory_length
  file_valid := hfiles
  allocated := hallocated

/-- The views of the disk after `Create`. -/
theorem created_views {name : List Byte} {size : ℤ} {k s : ℕ} {h : FileHeader}
    (hc : Created d d' name size k s h) :
    headerAt d' freeMapSector = headerAt d freeMapSector ∧
      headerAt d' directorySector = headerAt d directorySector ∧
      (∀ i, InUse d' i ↔ InUse d i ∨ i = k) ∧
      headerSector d' k = s ∧ fileHeader d' k = h ∧
      ∀ i, InUse d i → headerSector d' i = headerSector d i ∧ fileHeader d' i = fileHeader d i := by
  -- the new header goes to a sector nobody owns, so no old header is overwritten
  have hne : ∀ o : Owner, o.Live d → o.sector d ≠ s := fun o ho ↦
    c.allocated.place_ne ho (by rw [hc.sector_free]; exact Bool.false_ne_true)
  have hsector : headerSector d' k = s := by
    have hlt := hc.sector_lt
    rw [headerSector, hc.directory.sector hc.entry_lt, Directory.sector_put_self,
      BitVec.toNat_ofNat]
    omega
  refine ⟨?_, ?_, fun i ↦ ?_, hsector, ?_, fun i hi ↦ ?_⟩
  · exact headerAt_congr (hc.frame _ (hne .freeMapHeader trivial) c.not_owns_system.1
      c.not_owns_system.2.1)
  · exact headerAt_congr (hc.frame _ (hne .directoryHeader trivial) c.not_owns_system.2.2.1
      c.not_owns_system.2.2.2)
  · by_cases hik : i = k
    · subst hik
      refine iff_of_true ⟨hc.entry_lt, ?_⟩ (.inr rfl)
      rw [hc.directory.inUse hc.entry_lt, Directory.inUse_put_self]
    · rw [or_iff_left hik]
      refine and_congr_right fun hi ↦ ?_
      rw [hc.directory.inUse hi, Directory.inUse_put_of_ne _ _ _ hik]
  · rw [fileHeader, hsector, hc.header]
  · have hik : i ≠ k := by
      rintro rfl
      have hbusy := hi.2
      rw [hc.entry_free] at hbusy
      cases hbusy
    have hsector : headerSector d' i = headerSector d i := by
      rw [headerSector, headerSector, hc.directory.sector hi.1,
        Directory.sector_put_of_ne _ _ _ hik]
    refine ⟨hsector, ?_⟩
    rw [fileHeader, fileHeader, hsector]
    exact headerAt_congr (hc.frame _ (hne (.header i) hi) (c.not_owns_header hi).1
      (c.not_owns_header hi).2)

/-- `Create` keeps the disk consistent. -/
theorem created {name : List Byte} {size : ℤ} {k s : ℕ} {h : FileHeader}
    (hc : Created d d' name size k s h) : Consistent fs d' := by
  obtain ⟨hmap, hdir, huse, hsector, hheader, hkeep⟩ := c.created_views hc
  refine c.of_owned hmap hdir (fun i hi ↦ ?_) ?_
  · rcases (huse i).mp hi with hi | rfl
    · rw [(hkeep i hi).2]
      exact c.file_valid i hi
    · rw [hheader]
      exact hc.valid
  -- the new owners are the header and the data sectors of the new file
  refine c.allocated.grow (fun o ↦ o = .header k ∨ ∃ j < h.count, o = .data k j) (fun o ↦ ?_)
    (fun o ho ↦ ?_) ?_ ?_ ?_ fun t ht ↦ ?_
  · cases o with
    | freeMapHeader => simp [Owner.Live]
    | directoryHeader => simp [Owner.Live]
    | freeMapData j => simp [Owner.Live, hmap]
    | directoryData j => simp [Owner.Live, hdir]
    | header i => simp [Owner.Live, huse i]
    | data i j =>
      simp only [Owner.Live, huse i, reduceCtorEq, false_or, Owner.data.injEq]
      constructor
      · rintro ⟨hi | rfl, hj⟩
        · rw [(hkeep i hi).2] at hj
          exact .inl ⟨hi, hj⟩
        · rw [hheader] at hj
          exact .inr ⟨j, hj, rfl, rfl⟩
      · rintro (⟨hi, hj⟩ | ⟨j', hj, rfl, rfl⟩)
        · rw [(hkeep i hi).2]
          exact ⟨.inl hi, hj⟩
        · rw [hheader]
          exact ⟨.inr rfl, hj⟩
  · exact Owner.sector_congr hmap hdir hkeep ho
  · rintro o (rfl | ⟨j, hj, rfl⟩)
    · simp only [Owner.sector, hsector]
      exact hc.sector_lt
    · simp only [Owner.sector, hheader]
      exact hc.valid.sectorAt_lt j hj
  · rintro o (rfl | ⟨j, hj, rfl⟩)
    · simp only [Owner.sector, hsector, hc.sector_free]
      exact Bool.false_ne_true
    · simp only [Owner.sector, hheader, (hc.free _ ⟨j, hj, rfl⟩).2]
      exact Bool.false_ne_true
  · rintro o o' (rfl | ⟨j, hj, rfl⟩) (rfl | ⟨i, hi, rfl⟩) heq
    · rfl
    · simp only [Owner.sector, hsector, hheader] at heq
      exact absurd heq.symm (hc.free _ ⟨i, hi, rfl⟩).1
    · simp only [Owner.sector, hsector, hheader] at heq
      exact absurd heq (hc.free _ ⟨j, hj, rfl⟩).1
    · simp only [Owner.sector, hheader] at heq
      rw [hc.valid.distinct j hj i hi heq]
  · rw [hc.bit t ht]
    refine or_congr_right ⟨?_, ?_⟩
    · rintro (rfl | ⟨j, hj, rfl⟩)
      · exact ⟨.header k, .inl rfl, hsector⟩
      · exact ⟨.data k j, .inr ⟨j, hj, rfl⟩, by simp only [Owner.sector, hheader]⟩
    · rintro ⟨o, rfl | ⟨j, hj, rfl⟩, rfl⟩
      · exact .inl hsector
      · simp only [Owner.sector, hheader]
        exact .inr ⟨j, hj, rfl⟩

/-- The views of the disk after `Remove`. -/
theorem removed_views {k : ℕ} (hr : Removed d d' k) :
    headerAt d' freeMapSector = headerAt d freeMapSector ∧
      headerAt d' directorySector = headerAt d directorySector ∧
      (∀ i, InUse d' i ↔ InUse d i ∧ i ≠ k) ∧
      ∀ i, InUse d i → headerSector d' i = headerSector d i ∧ fileHeader d' i = fileHeader d i := by
  refine ⟨headerAt_congr (hr.frame _ c.not_owns_system.1 c.not_owns_system.2.1),
    headerAt_congr (hr.frame _ c.not_owns_system.2.2.1 c.not_owns_system.2.2.2), fun i ↦ ?_,
    fun i hi ↦ ?_⟩
  · rw [InUse, InUse, and_assoc]
    refine and_congr_right fun hi ↦ ?_
    rw [hr.directory.inUse hi, Directory.inUse_setInUse]
    by_cases hik : i = k <;> simp [hik]
  · have hsector : headerSector d' i = headerSector d i := by
      rw [headerSector, headerSector, hr.directory.sector hi.1, Directory.sector_setInUse]
    refine ⟨hsector, ?_⟩
    rw [fileHeader, fileHeader, hsector]
    exact headerAt_congr (hr.frame _ (c.not_owns_header hi).1 (c.not_owns_header hi).2)

/-- `Remove` keeps the disk consistent. -/
theorem removed {k : ℕ} (hr : Removed d d' k) : Consistent fs d' := by
  obtain ⟨hmap, hdir, huse, hkeep⟩ := c.removed_views hr
  refine c.of_owned hmap hdir (fun i hi ↦ ?_) ?_
  · have hi := ((huse i).mp hi).1
    rw [(hkeep i hi).2]
    exact c.file_valid i hi
  -- the header and the data sectors of the file have no owner any more
  have hlive : ∀ o : Owner, o.Live d' ↔ o.Live d ∧ ¬(o = .header k ∨ ∃ j, o = .data k j) := by
    intro o
    cases o with
    | freeMapHeader => simp [Owner.Live]
    | directoryHeader => simp [Owner.Live]
    | freeMapData j => simp [Owner.Live, hmap]
    | directoryData j => simp [Owner.Live, hdir]
    | header i => simp [Owner.Live, huse i]
    | data i j =>
      simp only [Owner.Live, huse i, reduceCtorEq, false_or, Owner.data.injEq, not_exists, not_and]
      constructor
      · rintro ⟨⟨hi, hik⟩, hj⟩
        rw [(hkeep i hi).2] at hj
        exact ⟨⟨hi, hj⟩, fun _ heq ↦ absurd heq hik⟩
      · rintro ⟨⟨hi, hj⟩, hold⟩
        rw [(hkeep i hi).2]
        exact ⟨⟨hi, fun heq ↦ hold j heq rfl⟩, hj⟩
  refine c.allocated.shrink _ hlive (fun o ho ↦ ?_) fun t ht ↦ ?_
  · exact Owner.sector_congr hmap hdir hkeep ((hlive o).mp ho).1
  · rw [hr.bit t ht]
    refine and_congr_right fun _ ↦ ⟨?_, fun hold ↦ ⟨?_, ?_⟩⟩
    · rintro ⟨hheader, hdata⟩ o ho (rfl | ⟨j, rfl⟩)
      · exact Ne.symm hheader
      · exact fun heq ↦ hdata ⟨j, ho.2, heq⟩
    · exact (hold (.header k) hr.inUse (.inl rfl)).symm
    · rintro ⟨j, hj, heq⟩
      exact hold (.data k j) ⟨hr.inUse, hj⟩ (.inr ⟨j, rfl⟩) heq

/-- The views of the disk after a change of nothing but the data sectors of one file. -/
theorem written_views {k : ℕ} (hk : InUse d k)
    (hframe : ∀ t, ¬(fileHeader d k).Owns t → d' t = d t) :
    headerAt d' freeMapSector = headerAt d freeMapSector ∧
      headerAt d' directorySector = headerAt d directorySector ∧
      (∀ t < 1024, (freeMapOn d').bit t = (freeMapOn d).bit t) ∧
      (directoryOn d').Same (directoryOn d) ∧
      ∀ i, InUse d i → headerSector d' i = headerSector d i ∧ fileHeader d' i = fileHeader d i := by
  -- a sector with another owner is not written
  have hother : ∀ o : Owner, o.Live d → (∀ j, o ≠ .data k j) →
      d' (o.sector d) = d (o.sector d) := by
    refine fun o ho hne ↦ hframe _ ?_
    rintro ⟨j, hj, heq⟩
    exact hne j (c.allocated.injective (.data k j) o ⟨hk, hj⟩ ho heq).symm
  have hmap := headerAt_congr (hother .freeMapHeader trivial fun j hj ↦ by cases hj)
  have hdir := headerAt_congr (hother .directoryHeader trivial fun j hj ↦ by cases hj)
  have hdirectory : (directoryOn d').Same (directoryOn d) := by
    simp only [Owner.sector] at hdir
    rw [directoryOn, hdir]
    refine Directory.same_stored c.directory_valid c.directory_length ?_
    rintro t ⟨j, hj, rfl⟩
    exact hother (.directoryData j) hj fun _ h ↦ by cases h
  refine ⟨hmap, hdir, fun t ht ↦ ?_, hdirectory, fun i hi ↦ ?_⟩
  · simp only [Owner.sector] at hmap
    rw [freeMapOn, hmap]
    refine Bitmap.bit_stored_congr c.freeMap_valid c.freeMap_length ?_ ht
    rintro t ⟨j, hj, rfl⟩
    exact hother (.freeMapData j) hj fun _ h ↦ by cases h
  · have hsector : headerSector d' i = headerSector d i := by
      rw [headerSector, headerSector, hdirectory.sector hi.1]
    refine ⟨hsector, ?_⟩
    rw [fileHeader, fileHeader, hsector]
    exact headerAt_congr (hother (.header i) hi fun _ h ↦ by cases h)

/-- A change of the data sectors of one file keeps the disk consistent. -/
theorem written {k : ℕ} (hk : InUse d k) (hframe : ∀ t, ¬(fileHeader d k).Owns t → d' t = d t) :
    Consistent fs d' := by
  obtain ⟨hmap, hdir, hbit, hdirectory, hkeep⟩ := c.written_views hk hframe
  have huse : ∀ i, InUse d' i ↔ InUse d i := fun i ↦
    and_congr_right fun hi ↦ by rw [hdirectory.inUse hi]
  refine c.of_owned hmap hdir (fun i hi ↦ ?_) ?_
  · have hi := (huse i).mp hi
    rw [(hkeep i hi).2]
    exact c.file_valid i hi
  refine c.allocated.congr (fun o ↦ ?_) (fun o ho ↦ ?_) fun t ht ↦ by rw [hbit t ht]
  · cases o with
    | freeMapHeader => rfl
    | directoryHeader => rfl
    | freeMapData j => simp only [Owner.Live, hmap]
    | directoryData j => simp only [Owner.Live, hdir]
    | header i => exact huse i
    | data i j =>
      simp only [Owner.Live, huse i]
      exact and_congr_right fun hi ↦ by rw [(hkeep i hi).2]
  · exact Owner.sector_congr hmap hdir hkeep ho

end Consistent

/-! ## A formatted disk -/

/-- The bitmap right after the two header sectors are marked. -/
private theorem marked_system :
    let b := (Bitmap.marked ⟨numSectors, fun _ ↦ 0⟩ freeMapSector).marked directorySector
    b.clears = 1022 ∧ ∀ t, b.bit t = true ↔ t = freeMapSector ∨ t = directorySector := by
  have hzero : ∀ t, (⟨numSectors, fun _ ↦ 0⟩ : Bitmap).bit t = false := fun t ↦ by
    rw [Bitmap.bit]
    exact BitVec.getLsbD_zero
  have hnew : (⟨numSectors, fun _ ↦ 0⟩ : Bitmap).clears = 1024 := by
    rw [Bitmap.clears]
    exact Nat.count_of_forall fun t _ ↦ hzero t
  have h₀ := Bitmap.clears_marked (b := ⟨numSectors, fun _ ↦ 0⟩) (i := freeMapSector) (by decide)
    (hzero _)
  have hbit : ((⟨numSectors, fun _ ↦ 0⟩ : Bitmap).marked freeMapSector).bit directorySector
      = false := by
    rw [Bitmap.bit_marked, hzero]
    decide
  have h₁ := Bitmap.clears_marked (b := .marked ⟨numSectors, fun _ ↦ 0⟩ freeMapSector)
    (i := directorySector) (by decide) hbit
  refine ⟨by omega, fun t ↦ ?_⟩
  rw [Bitmap.bit_marked, Bitmap.bit_marked, hzero, Bool.or_false, Bool.or_eq_true,
    decide_eq_true_iff, decide_eq_true_iff, or_comm]

/-- What `format` leaves behind. -/
structure Formatted (fs : FileSystem) (d : Disk) : Prop where
  consistent : Consistent fs d
  empty : ∀ i < 20, (directoryOn d).inUse i = false
  clears : (freeMapOn d).clears = 1017
  freeMap_count : (headerAt d freeMapSector).count = 1
  freeMap_sector : (headerAt d freeMapSector).sectorAt 0 = 2

/-- The sectors that `Allocate` takes get owners. -/
theorem FileHeader.Taken.grow {ι : Type} {live : ι → Prop} {place : ι → ℕ} {h : FileHeader}
    {b b' : Bitmap} (ht : h.Taken b b') (hown : Owned 1024 live place fun t ↦ b.bit t = true)
    (f : ℕ → ι) (hplace : ∀ j < h.count, place (f j) = h.sectorAt j) :
    Owned 1024 (fun o ↦ live o ∨ ∃ j < h.count, o = f j) place fun t ↦ b'.bit t = true := by
  refine hown.grow (fun o ↦ ∃ j < h.count, o = f j) (fun _ ↦ Iff.rfl) (fun _ _ ↦ rfl) ?_ ?_ ?_
    fun t _ ↦ ?_
  · rintro o ⟨j, hj, rfl⟩
    rw [hplace j hj]
    exact ht.valid.sectorAt_lt j hj
  · rintro o ⟨j, hj, rfl⟩
    rw [hplace j hj, ht.free _ ⟨j, hj, rfl⟩]
    exact Bool.false_ne_true
  · rintro o o' ⟨j, hj, rfl⟩ ⟨i, hi, rfl⟩ heq
    rw [hplace j hj, hplace i hi] at heq
    rw [ht.valid.distinct j hj i hi heq]
  · rw [ht.marks t]
    refine or_congr_right ⟨?_, ?_⟩
    · rintro ⟨j, hj, rfl⟩
      exact ⟨f j, ⟨j, hj, rfl⟩, hplace j hj⟩
    · rintro ⟨o, ⟨j, hj, rfl⟩, rfl⟩
      exact ⟨j, hj, (hplace j hj).symm⟩

/-- The two files that `format` allocates, from the bitmap `b` with the two header sectors on. -/
structure SystemFiles (b b₁ b₂ : Bitmap) (h₀ h₁ : FileHeader) : Prop where
  clears : b.clears = 1022
  bit : ∀ t, b.bit t = true ↔ t = freeMapSector ∨ t = directorySector
  length₀ : h₀.fileLength = freeMapFileSize
  length₁ : h₁.fileLength = directoryFileSize
  taken₀ : h₀.Taken b b₁
  taken₁ : h₁.Taken b₁ b₂

private theorem exists_systemFiles {b : Bitmap} (hbits : b.numBits = 1024)
    (hclears : b.clears = 1022)
    (hbit : ∀ t, b.bit t = true ↔ t = freeMapSector ∨ t = directorySector) (h h' : FileHeader)
    (d : Disk) :
    ∃ h₀ b₁ h₁ b₂, h.allocate b freeMapFileSize d = .ok (true, h₀, b₁) d ∧
      h'.allocate b₁ directoryFileSize d = .ok (true, h₁, b₂) d ∧ SystemFiles b b₁ b₂ h₀ h₁ := by
  have hlow : (-2 ^ 31 : ℤ) ≤ (freeMapFileSize : ℕ) := by decide
  have hlow' : (-2 ^ 31 : ℤ) ≤ (directoryFileSize : ℕ) := by decide
  rcases FileHeader.allocate_cases hlow (by decide) h hbits d with
    ⟨h₀, b₁, hrun₀, -, hlength₀, htaken₀⟩ | ⟨hfew, -⟩
  swap
  · rw [hclears] at hfew
    exact absurd hfew (by decide)
  have hclears₁ := htaken₀.clears
  have hcount₀ := htaken₀.valid.count_le
  rcases FileHeader.allocate_cases hlow' (by decide) h' htaken₀.numBits d with
    ⟨h₁, b₂, hrun₁, -, hlength₁, htaken₁⟩ | ⟨hfew, -⟩
  swap
  · simp only [directoryFileSize] at hfew
    omega
  exact ⟨h₀, b₁, h₁, b₂, hrun₀, hrun₁, hclears, hbit, hlength₀, hlength₁, htaken₀, htaken₁⟩

section systemFiles

variable {b b₁ b₂ : Bitmap} {h₀ h₁ : FileHeader} (hs : SystemFiles b b₁ b₂ h₀ h₁)

include hs

theorem SystemFiles.length_eq : h₀.length = 128 ∧ h₁.length = 400 := by
  have := hs.length₀
  have := hs.length₁
  simp only [freeMapFileSize, directoryFileSize] at *
  simp only [FileHeader.length]
  omega

theorem SystemFiles.count_eq : h₀.count = 1 ∧ h₁.count = 4 := by
  have := hs.taken₀.valid.count_eq
  have := hs.taken₁.valid.count_eq
  have := hs.length_eq
  omega

/-- The header sectors are data of neither file. -/
theorem SystemFiles.not_owns {t : ℕ} (ht : t = freeMapSector ∨ t = directorySector) :
    ¬h₀.Owns t ∧ ¬h₁.Owns t := by
  have hbit := (hs.bit t).mpr ht
  constructor
  · intro howns
    rw [hs.taken₀.free t howns] at hbit
    cases hbit
  · intro howns
    have hbit₁ := (hs.taken₀.marks t).mpr (.inl hbit)
    rw [hs.taken₁.free t howns] at hbit₁
    cases hbit₁

theorem SystemFiles.disjoint (t : ℕ) (ht : h₀.Owns t) : ¬h₁.Owns t := by
  intro howns
  have hbit₁ := (hs.taken₀.marks t).mpr (.inr ht)
  rw [hs.taken₁.free t howns] at hbit₁
  cases hbit₁

/-- The first free sector is the one behind the two headers. -/
theorem SystemFiles.sectorAt_zero : h₀.sectorAt 0 = 2 := by
  have hcount := hs.count_eq.1
  have hfree := hs.taken₀.free _ ⟨0, by omega, rfl⟩
  have hfirst := hs.taken₀.first 0 (by omega)
  by_contra hne
  rcases Nat.lt_or_gt_of_ne hne with hlt | hlt
  · have hbit := (hs.bit (h₀.sectorAt 0)).mpr (by simp only [freeMapSector, directorySector]; omega)
    rw [hfree] at hbit
    cases hbit
  · rcases hfirst 2 hlt with hbit | ⟨l, hl, -⟩
    · exact absurd ((hs.bit 2).mp hbit) (by decide)
    · omega

/-- A disk with these two files and an empty directory is a formatted one. -/
theorem SystemFiles.formatted {d d' : Disk} {junk : ℕ → Byte} (hmap : headerAt d freeMapSector = h₀)
    (hdir : headerAt d directorySector = h₁)
    (hf : Flushed h₀ h₁ b₂ (.create numDirEntries junk) d d') :
    Formatted ⟨h₀, h₁⟩ d' := by
  have hmap' : headerAt d' freeMapSector = h₀ := by
    rw [headerAt_congr (hf.frame _ (hs.not_owns (.inl rfl)).1 (hs.not_owns (.inl rfl)).2), hmap]
  have hdir' : headerAt d' directorySector = h₁ := by
    rw [headerAt_congr (hf.frame _ (hs.not_owns (.inr rfl)).1 (hs.not_owns (.inr rfl)).2), hdir]
  have hbit : ∀ t < 1024, (freeMapOn d').bit t = b₂.bit t := fun t ht ↦ by
    rw [freeMapOn, hmap', hf.freeMap t ht]
  have hempty : ∀ i < 20, (directoryOn d').inUse i = false := fun i hi ↦ by
    rw [directoryOn, hdir', hf.directory.inUse hi, Directory.inUse, Directory.create]
    simp only [entrySize, Nat.mul_mod_right, numDirEntries]
    rw [if_pos ⟨trivial, by omega⟩]
    rfl
  have hunused : ∀ i, ¬InUse d' i := fun i hi ↦ by
    have hbusy := hi.2
    rw [hempty i hi.1] at hbusy
    cases hbusy
  -- the books are opened with the two headers, then the data of the one and of the other file
  have hheaders : Owned 1024 (fun o : Owner ↦ o = .freeMapHeader ∨ o = .directoryHeader)
      (Owner.sector d') fun t ↦ b.bit t = true := by
    refine ⟨?_, ?_, fun t ht ↦ ?_⟩
    · rintro o (rfl | rfl) <;> simp [Owner.sector]
    · rintro o o' (rfl | rfl) (rfl | rfl) heq <;> first | rfl | cases heq
    · rw [hs.bit t]
      constructor
      · rintro (rfl | rfl)
        · exact ⟨.freeMapHeader, .inl rfl, rfl⟩
        · exact ⟨.directoryHeader, .inr rfl, rfl⟩
      · rintro ⟨o, rfl | rfl, rfl⟩
        · exact .inl rfl
        · exact .inr rfl
  have hmapData := hs.taken₀.grow hheaders .freeMapData fun j _ ↦ by simp only [Owner.sector, hmap']
  have hdirData := hs.taken₁.grow hmapData .directoryData fun j _ ↦ by
    simp only [Owner.sector, hdir']
  have hallocated : Allocated d' := by
    refine hdirData.congr (fun o ↦ ?_) (fun _ _ ↦ rfl) fun t ht ↦ by rw [hbit t ht]
    cases o with
    | freeMapHeader => simp [Owner.Live]
    | directoryHeader => simp [Owner.Live]
    | freeMapData j => simp [Owner.Live, hmap']
    | directoryData j => simp [Owner.Live, hdir']
    | header i => simp [Owner.Live, hunused i]
    | data i j => simp [Owner.Live, hunused i]
  have hclears : (freeMapOn d').clears = b₂.clears :=
    Bitmap.clears_congr hs.taken₁.numBits.symm hbit
  have := hs.taken₀.clears
  have := hs.taken₁.clears
  have := hs.clears
  have hcount := hs.count_eq
  refine ⟨⟨hmap'.symm, hdir'.symm, ?_, ?_, ?_, ?_, fun i hi ↦ absurd hi (hunused i), hallocated⟩,
    hempty, by omega, ?_, ?_⟩
  · exact hmap' ▸ hs.taken₀.valid
  · exact hmap' ▸ hs.length_eq.1
  · exact hdir' ▸ hs.taken₁.valid
  · exact hdir' ▸ hs.length_eq.2
  · rw [hmap', hcount.1]
  · rw [hmap', hs.sectorAt_zero]

end systemFiles

/-- Formatting passes its assertions. -/
theorem format_eq (junk : Garbage) (d : Disk) :
    ∃ fs d', FileSystem.format junk d = .ok fs d' ∧ Formatted fs d' := by
  obtain ⟨hclears, hbit⟩ := marked_system
  obtain ⟨h₀, b₁, h₁, b₂, hrun₀, hrun₁, hs⟩ := exists_systemFiles rfl hclears hbit
    (.ofMemory (junk 1)) (.ofMemory (junk 2)) d
  -- the headers in their sectors
  have hmap : headerAt (Function.update (Function.update d freeMapSector h₀.toSector)
      directorySector h₁.toSector) freeMapSector = h₀ := by
    rw [headerAt_congr (Function.update_of_ne (by decide) _ _), headerAt_update]
  have hdir := headerAt_update (Function.update d freeMapSector h₀.toSector) directorySector h₁
  obtain ⟨d₁, d₂, hflush₁, hflush₂, hflushed⟩ := flush_directory_last hs.taken₀.valid hs.length_eq.1
    hs.taken₁.valid hs.length_eq.2 hs.disjoint hs.taken₁.numBits
    (show (Directory.create numDirEntries (junk 0)).tableSize = 20 from rfl) (junk 3) (junk 4) _
  refine ⟨⟨h₀, h₁⟩, d₂, ?_, hs.formatted hmap hdir hflushed⟩
  rw [FileSystem.format, bind_of_ok (Bitmap.create_eq (by decide) d),
    bind_of_ok (Bitmap.mark_eq (show freeMapSector < numSectors by decide) d)]
  refine (bind_of_ok (Bitmap.mark_eq (show directorySector < numSectors by decide) d)).trans ?_
  refine (bind_of_ok hrun₀).trans ((bind_of_ok (assertThat_of rfl d)).trans ?_)
  refine (bind_of_ok hrun₁).trans ((bind_of_ok (assertThat_of rfl d)).trans ?_)
  refine (bind_of_ok (writeSector_of_lt (s := freeMapSector) (by decide) _ d)).trans ?_
  refine (bind_of_ok (writeSector_of_lt (s := directorySector) (by decide) _ _)).trans ?_
  rw [bind_of_ok (fetchFrom_of_lt (s := freeMapSector) (by decide) _), hmap,
    bind_of_ok (fetchFrom_of_lt (s := directorySector) (by decide) _), hdir, bind_of_ok hflush₁,
    bind_of_ok hflush₂]
  rfl

/-! ## The system after its start -/

/-- Which names the entries are in use under after `Create`. -/
theorem Created.holds_iff {d d' : Disk} {name : List Byte} {size : ℤ} {k s : ℕ} {h : FileHeader}
    (hc : Created d d' name size k s h) (name' : List Byte) {i : ℕ} (hi : i < 20) :
    (directoryOn d').Holds name' i ↔
      if i = k then strncmp (strncpy (cstr name)) (cstr name') fileNameMaxLen = 0
      else (directoryOn d).Holds name' i := by
  rw [hc.directory.holds hi]
  by_cases hik : i = k
  · subst hik
    rw [if_pos rfl, Directory.Holds, and_iff_right (Directory.inUse_put_self ..),
      strncmp_congr fun x hx ↦ Directory.name_put_self _ _ _ _ hx]
  · rw [if_neg hik, Directory.Holds, Directory.Holds, Directory.inUse_put_of_ne _ _ _ hik,
      strncmp_congr fun x hx ↦ Directory.name_put_of_ne _ _ _ hik (Nat.lt_succ_of_lt hx)]

theorem Created.count_eq {d d' : Disk} {name : List Byte} {size : ℤ} {k s : ℕ} {h : FileHeader}
    (hc : Created d d' name size k s h) : h.count = (size.toNat + 127) / 128 := by
  rw [hc.valid.count_eq, FileHeader.length, hc.length]

/-- The disk with its first `n` entries in use, under the given names. -/
structure Listing (fs : FileSystem) (d : Disk) (names : List (List Byte)) : Prop where
  consistent : Consistent fs d
  length_lt : names.length < 20
  inUse_iff : ∀ i < 20, (directoryOn d).inUse i = true ↔ i < names.length
  holds : ∀ name, ∀ i < 20, (directoryOn d).Holds name i →
    ∃ n ∈ names, strncmp (strncpy (cstr n)) (cstr name) fileNameMaxLen = 0
  freeMap_count : (headerAt d freeMapSector).count = 1
  freeMap_sector : (headerAt d freeMapSector).sectorAt 0 = 2

/-- A new name with space enough for it goes to the next entry. -/
theorem Listing.create {fs : FileSystem} {d : Disk} {names : List (List Byte)}
    (hl : Listing fs d names) (junk : Garbage) (name : List Byte) (size : ℤ) (hlow : 0 ≤ size)
    (hhigh : size ≤ maxFileSize) (hroom : names.length + 1 < 20)
    (hnew : ∀ n ∈ names, strncmp (strncpy (cstr n)) (cstr name) fileNameMaxLen ≠ 0)
    (hclears : 1 + (size + 127) / 128 ≤ (freeMapOn d).clears) :
    ∃ d' s h, fs.create junk name size d = .ok true d' ∧
      Created d d' name size names.length s h ∧ Listing fs d' (names ++ [name]) := by
  rcases hl.consistent.create_cases junk name (by omega) hhigh with
    ⟨d', k, s, h, hrun, hc⟩ | ⟨-, ⟨j, hj, hholds⟩ | hall | hnone | hfew⟩
  · -- the first free entry is the one behind the names
    have hk : k = names.length := by
      by_contra hne
      rcases Nat.lt_or_gt_of_ne hne with hlt | hlt
      · have hbusy := (hl.inUse_iff k hc.entry_lt).mpr hlt
        rw [hc.entry_free] at hbusy
        cases hbusy
      · have hbusy := hc.entry_first names.length hlt
        exact Nat.lt_irrefl _ ((hl.inUse_iff _ hl.length_lt).mp hbusy)
    subst hk
    obtain ⟨hmap, -, huse, -⟩ := hl.consistent.created_views hc
    refine ⟨d', s, h, hrun, hc, hl.consistent.created hc, by simp; omega, fun i hi ↦ ?_,
      fun name' i hi hholds ↦ ?_, ?_, ?_⟩
    · have := huse i
      rw [InUse, InUse, and_iff_right hi, and_iff_right hi, hl.inUse_iff i hi] at this
      rw [this, List.length_append, List.length_singleton]
      omega
    · rw [hc.holds_iff name' hi] at hholds
      by_cases hik : i = names.length
      · rw [if_pos hik] at hholds
        exact ⟨name, by simp, hholds⟩
      · rw [if_neg hik] at hholds
        obtain ⟨n, hn, hsame⟩ := hl.holds name' i hi hholds
        exact ⟨n, by simp [hn], hsame⟩
    · rw [hmap, hl.freeMap_count]
    · rw [hmap, hl.freeMap_sector]
  · obtain ⟨n, hn, hsame⟩ := hl.holds name j hj hholds
    exact absurd hsame (hnew n hn)
  · exact absurd ((hl.inUse_iff _ hl.length_lt).mp (hall _ hl.length_lt)) (Nat.lt_irrefl _)
  · omega
  · omega

/-- The new name is found in its entry, and opens with its header. -/
theorem Listing.open_created {fs : FileSystem} {d d' : Disk} {names : List (List Byte)}
    (hl : Listing fs d names) {name : List Byte} {size : ℤ} {s : ℕ} {h : FileHeader}
    (hnew : ∀ n ∈ names, strncmp (strncpy (cstr n)) (cstr name) fileNameMaxLen ≠ 0)
    (hc : Created d d' name size names.length s h) (junk : Garbage) :
    (directoryOn d').findIndex name = names.length ∧
      fs.openFile junk name d' = .ok (some h) d' := by
  have hindex : (directoryOn d').findIndex name = names.length := by
    rcases (directoryOn d').findIndex_cases name with ⟨k, hk, hholds, -, heq⟩ | ⟨hnone, -⟩
    · rw [hc.holds_iff name hk] at hholds
      by_cases hkn : k = names.length
      · rw [heq, hkn]
      · rw [if_neg hkn] at hholds
        obtain ⟨n, hn, hsame⟩ := hl.holds name k hk hholds
        exact absurd hsame (hnew n hn)
    · refine absurd ?_ (hnone names.length hl.length_lt)
      rw [hc.holds_iff name hl.length_lt, if_pos rfl]
      exact strncmp_strncpy _ _
  refine ⟨hindex, ?_⟩
  obtain ⟨-, -, -, -, hheader, -⟩ := hl.consistent.created_views hc
  rcases (hl.consistent.created hc).open_cases junk name with ⟨k, -, hk, hopen⟩ | ⟨hnone, -⟩
  · rw [hindex] at hk
    have hkn : k = names.length := by omega
    rw [hopen, hkn, hheader]
  · omega

/-- Removing the file that was created last gives its sectors back. -/
theorem bit_restored {d d' d'' : Disk} {name : List Byte} {size : ℤ} {k s : ℕ} {h : FileHeader}
    {fs : FileSystem} (c : Consistent fs d) (hc : Created d d' name size k s h)
    (hr : Removed d' d'' k) {t : ℕ} (ht : t < 1024) :
    (freeMapOn d'').bit t = (freeMapOn d).bit t := by
  obtain ⟨-, -, -, hsector, hheader, -⟩ := c.created_views hc
  rw [Bool.eq_iff_iff, hr.bit t ht, hc.bit t ht, hsector, hheader]
  constructor
  · rintro ⟨hbit | rfl | howns, hne, hnot⟩
    · exact hbit
    · exact absurd rfl hne
    · exact absurd howns hnot
  · intro hbit
    refine ⟨.inl hbit, ?_, fun howns ↦ ?_⟩
    · rintro rfl
      rw [hc.sector_free] at hbit
      cases hbit
    · rw [(hc.free t howns).2] at hbit
      cases hbit

theorem Listing.restored {fs : FileSystem} {d d' d'' : Disk} {names : List (List Byte)}
    (hl : Listing fs d names) {name : List Byte} {size : ℤ} {s : ℕ} {h : FileHeader}
    (hc : Created d d' name size names.length s h) (hr : Removed d' d'' names.length) :
    Listing fs d'' names ∧ (freeMapOn d'').clears = (freeMapOn d).clears := by
  have c' := hl.consistent.created hc
  obtain ⟨hmap', -, huse', -⟩ := hl.consistent.created_views hc
  obtain ⟨hmap, -, huse, -⟩ := c'.removed_views hr
  refine ⟨⟨c'.removed hr, hl.length_lt, fun i hi ↦ ?_, fun name' i hi hholds ↦ ?_, ?_, ?_⟩,
    Bitmap.clears_congr rfl fun t ht ↦ bit_restored hl.consistent hc hr ht⟩
  · have hin := huse i
    have hin' := huse' i
    rw [InUse, and_iff_right hi] at hin
    rw [InUse, InUse, and_iff_right hi, and_iff_right hi] at hin'
    rw [hin, InUse, and_iff_right hi, hin', hl.inUse_iff i hi]
    omega
  · -- the entry is in use, so it is not the one that was cleared
    have hne : i ≠ names.length := ((huse i).mp ⟨hi, hholds.1⟩).2
    rw [hr.directory.holds hi, Directory.Holds, Directory.inUse_setInUse, if_neg hne,
      strncmp_congr fun x hx ↦ Directory.name_setInUse _ _ _ _ (Nat.lt_succ_of_lt hx),
      ← Directory.Holds, hc.holds_iff name' hi, if_neg hne] at hholds
    exact hl.holds name' i hi hholds
  · rw [hmap, hmap', hl.freeMap_count]
  · rw [hmap, hmap', hl.freeMap_sector]

/-- The first data sector is the first free one behind the header. -/
theorem sectorAt_zero_unique {d₀ d₁ d₂ d₃ : Disk} {name name' : List Byte} {size size' : ℤ}
    {k k' s s' : ℕ} {h h' : FileHeader} (hc : Created d₀ d₁ name size k s h)
    (hc' : Created d₂ d₃ name' size' k' s' h')
    (hbit : ∀ t < 1024, (freeMapOn d₂).bit t = (freeMapOn d₀).bit t) (hcount : 0 < h.count)
    (hcount' : 0 < h'.count) : h'.sectorAt 0 = h.sectorAt 0 := by
  have hs := hc.sector_lt
  have hs' := hc'.sector_lt
  have hsector : s' = s := by
    by_contra hne
    rcases Nat.lt_or_gt_of_ne hne with hlt | hlt
    · have hbusy := hc.sector_first s' hlt
      rw [← hbit s' hs', hc'.sector_free] at hbusy
      cases hbusy
    · have hbusy := hc'.sector_first s hlt
      rw [hbit s hs, hc.sector_free] at hbusy
      cases hbusy
  subst hsector
  have hlt₀ := hc.valid.sectorAt_lt 0 hcount
  have hlt₀' := hc'.valid.sectorAt_lt 0 hcount'
  obtain ⟨hne₀, hfree₀⟩ := hc.free _ ⟨0, hcount, rfl⟩
  obtain ⟨hne₀', hfree₀'⟩ := hc'.free _ ⟨0, hcount', rfl⟩
  by_contra hne
  rcases Nat.lt_or_gt_of_ne hne with hlt | hlt
  · rcases hc.first 0 hcount _ hlt with heq | hbusy | ⟨l, hl, -⟩
    · exact hne₀' heq
    · rw [← hbit _ hlt₀', hfree₀'] at hbusy
      cases hbusy
    · omega
  · rcases hc'.first 0 hcount' _ hlt with heq | hbusy | ⟨l, hl, -⟩
    · exact hne₀ heq
    · rw [hbit _ hlt₀, hfree₀] at hbusy
      cases hbusy
    · omega

/-- The start of the file system, step by step: the formatted disk, then the two console files. -/
theorem start_created (junk : ℕ → Garbage) (d : Disk) :
    ∃ fs d₀ d₁ d₂ s₁ h₁ s₂ h₂, FileSystem.start junk d = .ok fs d₂ ∧ Formatted fs d₀ ∧
      Created d₀ d₁ FileSystem.stdinName 0 0 s₁ h₁ ∧
      Created d₁ d₂ FileSystem.stdoutName 0 1 s₂ h₂ ∧
      Listing fs d₂ [FileSystem.stdinName, FileSystem.stdoutName] := by
  obtain ⟨fs, d₀, hformat, hf⟩ := format_eq (junk 0) d
  have hl₀ : Listing fs d₀ [] := by
    refine ⟨hf.consistent, by decide, fun i hi ↦ ?_, fun name i hi hholds ↦ ?_, hf.freeMap_count,
      hf.freeMap_sector⟩
    · rw [hf.empty i hi]
      exact iff_of_false Bool.false_ne_true (Nat.not_lt_zero i)
    · have hbusy := hholds.1
      rw [hf.empty i hi] at hbusy
      cases hbusy
  have hclears₀ := hf.clears
  obtain ⟨d₁, s₁, h₁, hrun₁, hc₁, hl₁⟩ := hl₀.create (junk 1) FileSystem.stdinName 0
    (by decide) (by decide) (by decide) (by simp) (by omega)
  have hclears₁ := hc₁.clears
  have hcount₁ := hc₁.count_eq
  obtain ⟨d₂, s₂, h₂, hrun₂, hc₂, hl₂⟩ := hl₁.create (junk 2) FileSystem.stdoutName 0
    (by decide) (by decide) (by decide) (by decide) (by omega)
  refine ⟨fs, d₀, d₁, d₂, s₁, h₁, s₂, h₂, ?_, hf, hc₁, hc₂, hl₂⟩
  rw [FileSystem.start, bind_of_ok hformat, bind_of_ok hrun₁, bind_of_ok hrun₂]
  rfl

theorem start_eq (junk : ℕ → Garbage) (d : Disk) :
    ∃ fs d', FileSystem.start junk d = .ok fs d' ∧
      Listing fs d' [FileSystem.stdinName, FileSystem.stdoutName] ∧
      (freeMapOn d').clears = 1015 := by
  obtain ⟨fs, d₀, d₁, d₂, s₁, h₁, s₂, h₂, hrun, hf, hc₁, hc₂, hl⟩ := start_created junk d
  have hclears₀ := hf.clears
  have hclears₁ := hc₁.clears
  have hclears₂ := hc₂.clears
  have hcount₁ := hc₁.count_eq
  have hcount₂ := hc₂.count_eq
  exact ⟨fs, d₂, hrun, hl, by omega⟩

end Nachos
