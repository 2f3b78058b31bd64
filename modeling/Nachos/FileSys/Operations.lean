import Nachos.FileSys.FileSystem

/-!
# What the operations do to a consistent disk

For each of `Create`, `Open`, `Remove` and a write to a file in the directory there is one lemma
that says what can come of it. Nothing here is about more than one step.
-/

namespace Nachos

open Program

namespace Consistent

variable {fs : FileSystem} {d : Disk} (c : Consistent fs d)

include c

/-! ## Reading the bitmap and the directory -/

/-- The bitmap and the directory share no data sector. -/
theorem disjoint (t : ℕ) (hmap : (headerAt d freeMapSector).Owns t) :
    ¬(headerAt d directorySector).Owns t := by
  rintro ⟨i, hi, heq⟩
  obtain ⟨j, hj, rfl⟩ := hmap
  have := c.allocated.injective (.directoryData i) (.freeMapData j) hi hj heq
  cases this

/-- The two well-known sectors hold no data. -/
theorem not_owns_system :
    ¬(headerAt d freeMapSector).Owns freeMapSector ∧
      ¬(headerAt d directorySector).Owns freeMapSector ∧
      ¬(headerAt d freeMapSector).Owns directorySector ∧
      ¬(headerAt d directorySector).Owns directorySector := by
  refine ⟨?_, ?_, ?_, ?_⟩
  · rintro ⟨j, hj, heq⟩
    have := c.allocated.injective (.freeMapData j) .freeMapHeader hj trivial heq
    cases this
  · rintro ⟨j, hj, heq⟩
    have := c.allocated.injective (.directoryData j) .freeMapHeader hj trivial heq
    cases this
  · rintro ⟨j, hj, heq⟩
    have := c.allocated.injective (.freeMapData j) .directoryHeader hj trivial heq
    cases this
  · rintro ⟨j, hj, heq⟩
    have := c.allocated.injective (.directoryData j) .directoryHeader hj trivial heq
    cases this

theorem fetchDirectory (junk : Garbage) :
    ∃ dir, fs.fetchDirectory junk d = .ok dir d ∧ dir.Same (directoryOn d) := by
  have hlength := c.directory_length
  rw [FileSystem.fetchDirectory, c.directoryFile]
  exact Directory.fetchFrom_eq c.directory_valid (.create numDirEntries (junk 0)) hlength (junk 1) d

theorem ofFile (junk : ℕ → Byte) :
    ∃ m, Bitmap.ofFile fs.freeMapFile numSectors junk d = .ok ⟨1024, m⟩ d ∧
      ∀ t < 1024, (⟨1024, m⟩ : Bitmap).bit t = (freeMapOn d).bit t := by
  have hlength := c.freeMap_length
  obtain ⟨m, hrun, hbit⟩ := Bitmap.fetchFrom_eq c.freeMap_valid (b := ⟨numSectors, fun _ ↦ 0⟩)
    hlength junk d
  refine ⟨m, ?_, hbit⟩
  rw [Bitmap.ofFile, bind_of_ok (Bitmap.create_eq (by decide) d), c.freeMapFile, hrun]

theorem headerSector_lt {i : ℕ} (hi : InUse d i) : headerSector d i < 1024 :=
  c.allocated.place_lt (.header i) hi

private theorem toInt_sector {i : ℕ} (hi : InUse d i) :
    ((directoryOn d).sector i).toInt = (headerSector d i : ℤ) := by
  have hlt := c.headerSector_lt hi
  rw [headerSector] at hlt
  exact BitVec.toInt_eq_toNat_of_lt (by omega)

/-- `Find` gives the header sector of the first file under the name, or `-1`. -/
theorem find_cases (name : List Byte) :
    (∃ k, InUse d k ∧ (directoryOn d).Holds name k ∧ (directoryOn d).findIndex name = k ∧
      (directoryOn d).find name = (headerSector d k : ℤ)) ∨
    ((∀ j < 20, ¬(directoryOn d).Holds name j) ∧ (directoryOn d).findIndex name = -1 ∧
      (directoryOn d).find name = -1) := by
  rcases (directoryOn d).findIndex_cases name with ⟨k, hk, hholds, -, hindex⟩ | ⟨hnone, hindex⟩
  · have huse : InUse d k := ⟨hk, hholds.1⟩
    refine .inl ⟨k, huse, hholds, hindex, ?_⟩
    rw [Directory.find, hindex, if_pos (by omega), Int.toNat_natCast, c.toInt_sector huse]
  · refine .inr ⟨hnone, hindex, ?_⟩
    rw [Directory.find, hindex, if_neg (not_not.mpr rfl)]

end Consistent

/-! ## Create -/

/-- The disk after a successful `Create`: the first free entry `k` has the new file, with its header
`h` in sector `s`. -/
structure Created (d d' : Disk) (name : List Byte) (size : ℤ) (k s : ℕ) (h : FileHeader) :
    Prop where
  entry_lt : k < 20
  entry_free : (directoryOn d).inUse k = false
  entry_first : ∀ j < k, (directoryOn d).inUse j = true
  sector_lt : s < 1024
  sector_free : (freeMapOn d).bit s = false
  sector_first : ∀ u < s, (freeMapOn d).bit u = true
  valid : h.Valid
  length : h.fileLength = size
  free : ∀ t, h.Owns t → t ≠ s ∧ (freeMapOn d).bit t = false
  first : ∀ j < h.count, ∀ u < h.sectorAt j,
    u = s ∨ (freeMapOn d).bit u = true ∨ ∃ l < j, h.sectorAt l = u
  clears : (freeMapOn d').clears + h.count + 1 = (freeMapOn d).clears
  bit : ∀ t < 1024, (freeMapOn d').bit t = true ↔ (freeMapOn d).bit t = true ∨ t = s ∨ h.Owns t
  directory : (directoryOn d').Same ((directoryOn d).put k name (.ofNat 32 s))
  header : headerAt d' s = h
  frame : ∀ t, t ≠ s → ¬(headerAt d freeMapSector).Owns t → ¬(headerAt d directorySector).Owns t →
    d' t = d t

/-- Why `Create` fails. -/
def Refused (d : Disk) (name : List Byte) (size : ℤ) : Prop :=
  (∃ j < 20, (directoryOn d).Holds name j) ∨ (∀ j < 20, (directoryOn d).inUse j = true) ∨
    (freeMapOn d).clears = 0 ∨ (freeMapOn d).clears < 1 + (size + 127) / 128

theorem Bitmap.clears_congr {b b' : Bitmap} (hbits : b.numBits = b'.numBits)
    (h : ∀ t < b.numBits, b.bit t = b'.bit t) : b.clears = b'.clears := by
  rw [Bitmap.clears, Bitmap.clears, ← hbits]
  refine Nat.le_antisymm (Nat.count_mono_left fun t ht hbit ↦ ?_)
    (Nat.count_mono_left fun t ht hbit ↦ ?_)
  · rwa [← h t ht]
  · rwa [h t ht]

/-- The three writes of a successful `Create`. -/
theorem Consistent.create_writes {fs : FileSystem} {d : Disk} (c : Consistent fs d)
    {s : ℕ} (hs : s < 1024) (hfree : (freeMapOn d).bit s = false) (h : FileHeader)
    {freeMap : Bitmap} (hbits : freeMap.numBits = 1024) {directory : Directory}
    (hsize : directory.tableSize = 20) (junk junk' : ℕ → Byte) :
    ∃ d₁ d₂ d₃, h.writeBack s d = .ok () d₁ ∧
      directory.writeBack fs.directoryFile junk d₁ = .ok () d₂ ∧
      freeMap.writeBack fs.freeMapFile junk' d₂ = .ok () d₃ ∧
      (∀ t < 1024, (freeMapOn d₃).bit t = freeMap.bit t) ∧ (directoryOn d₃).Same directory ∧
      headerAt d₃ s = h ∧
      ∀ t, t ≠ s → ¬(headerAt d freeMapSector).Owns t → ¬(headerAt d directorySector).Owns t →
        d₃ t = d t := by
  -- a free sector has no owner yet
  have hne : ∀ o : Owner, o.Live d → o.sector d ≠ s := fun o ho ↦
    c.allocated.place_ne ho (by rw [hfree]; exact Bool.false_ne_true)
  have hmap : ¬(headerAt d freeMapSector).Owns s := by
    rintro ⟨j, hj, heq⟩
    exact hne (.freeMapData j) hj heq
  have hdir : ¬(headerAt d directorySector).Owns s := by
    rintro ⟨j, hj, heq⟩
    exact hne (.directoryData j) hj heq
  obtain ⟨d₂, d₃, hrun₂, hrun₃, hflushed⟩ := flush_freeMap_last c.freeMap_valid c.freeMap_length
    c.directory_valid c.directory_length c.disjoint hbits hsize junk junk'
    (Function.update d s h.toSector)
  -- the two well-known sectors are not written
  have hsystem : d₃ freeMapSector = d freeMapSector ∧ d₃ directorySector = d directorySector := by
    constructor
    · rw [hflushed.frame _ c.not_owns_system.1 c.not_owns_system.2.1]
      exact Function.update_of_ne (hne .freeMapHeader trivial) _ _
    · rw [hflushed.frame _ c.not_owns_system.2.2.1 c.not_owns_system.2.2.2]
      exact Function.update_of_ne (hne .directoryHeader trivial) _ _
  refine ⟨_, d₂, d₃, writeSector_of_lt hs _ d, ?_, ?_, fun t ht ↦ ?_, ?_, ?_, fun t ht ht₀ ht₁ ↦ ?_⟩
  · rw [c.directoryFile, hrun₂]
  · rw [c.freeMapFile, hrun₃]
  · rw [freeMapOn, headerAt_congr hsystem.1, hflushed.freeMap t ht]
  · rw [directoryOn, headerAt_congr hsystem.2]
    exact hflushed.directory
  · rw [headerAt_congr (hflushed.frame s hmap hdir), headerAt_update]
  · rw [hflushed.frame t ht₀ ht₁, Function.update_of_ne ht]

/-- `Create` refuses a name that is in the directory. -/
theorem Consistent.create_of_found {fs : FileSystem} {d : Disk} (c : Consistent fs d)
    (junk : Garbage) {name : List Byte} (hfound : (directoryOn d).findIndex name ≠ -1) (size : ℤ) :
    fs.create junk name size d = .ok false d := by
  obtain ⟨dir, hfetch, hsame⟩ := c.fetchDirectory junk
  rw [FileSystem.create, bind_of_ok hfetch, hsame.find]
  rcases c.find_cases name with ⟨k, -, -, -, hfind⟩ | ⟨-, hindex, -⟩
  · rw [hfind, if_pos (by omega)]
    rfl
  · exact absurd hindex hfound

/-- `Create` succeeds or leaves the disk as it was. -/
theorem Consistent.create_cases {fs : FileSystem} {d : Disk} (c : Consistent fs d) (junk : Garbage)
    (name : List Byte) {size : ℤ} (hlow : -2 ^ 31 ≤ size) (hhigh : size ≤ maxFileSize) :
    (∃ d' k s h, fs.create junk name size d = .ok true d' ∧ Created d d' name size k s h) ∨
    (fs.create junk name size d = .ok false d ∧ Refused d name size) := by
  rcases c.find_cases name with ⟨k, huse, hholds, hindex, -⟩ | ⟨-, hindex, hfind⟩
  · exact .inr ⟨c.create_of_found junk (by omega) size, .inl ⟨k, huse.1, hholds⟩⟩
  · obtain ⟨dir, hfetch, hsame⟩ := c.fetchDirectory junk
    rw [FileSystem.create, bind_of_ok hfetch, hsame.find, hfind, if_neg (not_not.mpr rfl)]
    obtain ⟨m, hmap, hbit⟩ := c.ofFile (junk 2)
    -- the bitmap in memory counts as many free sectors as the one on disk
    have hclears : (⟨1024, m⟩ : Bitmap).clears = (freeMapOn d).clears :=
      Bitmap.clears_congr rfl hbit
    rw [bind_of_ok hmap]
    rcases Bitmap.findAndSet_cases ⟨1024, m⟩ d with ⟨s, hs, hfree, hfirst, hset⟩ | ⟨hall, hset⟩
    swap
    · -- no free sector for the header
      refine .inr ⟨?_, .inr (.inr (.inl ?_))⟩
      · rw [bind_of_ok hset]
        rfl
      · by_contra hpos
        rw [← hclears] at hpos
        obtain ⟨i, hi, hclear⟩ := Bitmap.exists_clear_of_clears_pos (Nat.pos_of_ne_zero hpos)
        rw [hall i hi] at hclear
        cases hclear
    have hless := Bitmap.clears_marked hs hfree
    rw [hclears] at hless
    rw [bind_of_ok hset]
    simp only [if_neg (show ¬(s : ℤ) = -1 by omega)]
    rw [← hsame.findIndex] at hindex
    rcases Directory.add_cases (.ofInt 32 s) hindex with
      ⟨k, hk, hentry, hbelow, hadd⟩ | ⟨hall, hadd⟩
    swap
    · -- no free entry
      refine .inr ⟨?_, .inr (.inl fun j hj ↦ ?_)⟩
      · rw [hadd]
        rfl
      · rw [← hsame.inUse (by rw [hsame.tableSize]; exact hj)]
        exact hall j (by rw [hsame.tableSize]; exact hj)
    rw [hsame.tableSize] at hk
    simp only [hadd, if_neg (show ¬true = false by decide)]
    rcases FileHeader.allocate_cases hlow hhigh (.ofMemory (junk 3))
        (b := .marked ⟨1024, m⟩ s) rfl d
      with ⟨h, b', halloc, -, hlength, htaken⟩ | ⟨hfew, h, halloc⟩
    swap
    · -- no space for the data
      refine .inr ⟨?_, .inr (.inr (.inr ?_))⟩
      · rw [bind_of_ok halloc]
        rfl
      · omega
    -- everything was found: header, directory and bitmap are written back, in that order
    have hbit' := hbit s hs
    rw [hfree] at hbit'
    obtain ⟨d₁, d₂, d₃, hrun₁, hrun₂, hrun₃, hmarks, hdirectory, hheader, hframe⟩ :=
      c.create_writes hs hbit'.symm h htaken.numBits
        (show (dir.put k name (.ofInt 32 s)).tableSize = 20 from hsame.tableSize) (junk 4) (junk 5)
    have hnew : ∀ t < 1024, (Bitmap.marked ⟨1024, m⟩ s).bit t =
        (decide (t = s) || (freeMapOn d).bit t) := fun t ht ↦ by rw [Bitmap.bit_marked, hbit t ht]
    have howned : ∀ t, h.Owns t → t < 1024 := by
      rintro t ⟨j, hj, rfl⟩
      exact htaken.valid.sectorAt_lt j hj
    refine .inl ⟨d₃, k, s, h, ?_, ?_⟩
    · rw [bind_of_ok halloc]
      simp only [if_neg (show ¬true = false by decide)]
      rw [bind_of_ok hrun₁, bind_of_ok hrun₂, bind_of_ok hrun₃]
      rfl
    · refine ⟨hk, ?_, fun j hj ↦ ?_, hs, hbit'.symm, fun u hu ↦ ?_, htaken.valid, hlength,
        fun t ht ↦ ?_, fun j hj u hu ↦ ?_, ?_, fun t ht ↦ ?_, ?_, hheader, hframe⟩
      · rw [← hsame.inUse (by rw [hsame.tableSize]; exact hk), hentry]
      · have hj' : j < dir.tableSize := by
          rw [hsame.tableSize]
          omega
        rw [← hsame.inUse hj', hbelow j hj]
      · have hs' : s < 1024 := hs
        rw [← hbit u (by omega), hfirst u hu]
      · have hclear := htaken.free t ht
        rw [hnew t (howned t ht), Bool.or_eq_false_iff, decide_eq_false_iff_not] at hclear
        exact hclear
      · have hu' : u < 1024 := Nat.lt_trans hu (htaken.valid.sectorAt_lt j hj)
        have := htaken.first j hj u hu
        rw [hnew u hu', Bool.or_eq_true, decide_eq_true_iff, or_assoc] at this
        exact this
      · have hsame' : (freeMapOn d₃).clears = b'.clears :=
          Bitmap.clears_congr htaken.numBits.symm hmarks
        have := htaken.clears
        omega
      · rw [hmarks t ht, htaken.marks t, hnew t ht, Bool.or_eq_true, decide_eq_true_iff, or_assoc,
          or_left_comm]
      · rw [← BitVec.ofInt_natCast]
        exact hdirectory.trans (hsame.put k name _)

/-- `Create` of more than a header can list does not succeed. -/
theorem Consistent.create_of_large {fs : FileSystem} {d : Disk} (c : Consistent fs d)
    (junk : Garbage)
    (name : List Byte) {size : ℤ} (hlarge : maxFileSize < size) (hrange : size < 2 ^ 31)
    {r : Bool} {d' : Disk} (hrun : fs.create junk name size d = .ok r d') : d' = d := by
  obtain ⟨dir, hfetch, -⟩ := c.fetchDirectory junk
  obtain ⟨m, hmap, -⟩ := c.ofFile (junk 2)
  rw [FileSystem.create, bind_of_ok hfetch] at hrun
  by_cases hfind : dir.find name ≠ -1
  · rw [if_pos hfind] at hrun
    cases hrun
    rfl
  rw [if_neg hfind, bind_of_ok hmap] at hrun
  obtain ⟨⟨sector, b⟩, d₁, hset, hrest⟩ := bind_eq_ok.mp hrun
  clear hrun
  -- up to `Allocate` only the copies in memory change
  have hd₁ : d₁ = d := by
    rcases Bitmap.findAndSet_cases ⟨1024, m⟩ d with ⟨k, -, -, -, heq⟩ | ⟨-, heq⟩
    · rw [heq] at hset
      cases hset
      rfl
    · rw [heq] at hset
      cases hset
      rfl
  subst hd₁
  simp only at hrest
  by_cases hsector : sector = -1
  · rw [if_pos hsector] at hrest
    cases hrest
    rfl
  rw [if_neg hsector] at hrest
  by_cases hadd : (dir.add name (.ofInt 32 sector)).1 = false
  · rw [if_pos hadd] at hrest
    cases hrest
    rfl
  rw [if_neg hadd] at hrest
  obtain ⟨⟨success, h, b'⟩, d₂, halloc, hlast⟩ := bind_eq_ok.mp hrest
  obtain ⟨-, hfalse, rfl⟩ := FileHeader.allocate_of_large _ b hlarge hrange _ halloc
  rw [if_pos hfalse] at hlast
  cases hlast
  rfl

/-! ## Open -/

/-- `Open` leaves the disk alone and gives the stored header. -/
theorem Consistent.open_cases {fs : FileSystem} {d : Disk} (c : Consistent fs d) (junk : Garbage)
    (name : List Byte) :
    (∃ k, InUse d k ∧ (directoryOn d).findIndex name = k ∧
      fs.openFile junk name d = .ok (some (fileHeader d k)) d) ∨
    ((directoryOn d).findIndex name = -1 ∧ fs.openFile junk name d = .ok none d) := by
  obtain ⟨dir, hfetch, hsame⟩ := c.fetchDirectory junk
  rw [FileSystem.openFile, bind_of_ok hfetch, hsame.find]
  rcases c.find_cases name with ⟨k, huse, -, hindex, hfind⟩ | ⟨-, hindex, hfind⟩
  · refine .inl ⟨k, huse, hindex, ?_⟩
    rw [hfind, if_pos (by omega), bind_of_ok (fetchFrom_of_lt (c.headerSector_lt huse) d)]
    rfl
  · refine .inr ⟨hindex, ?_⟩
    rw [hfind, if_neg (by decide)]
    rfl

/-! ## Remove -/

/-- The disk after a successful `Remove` of the file in entry `k`. -/
structure Removed (d d' : Disk) (k : ℕ) : Prop where
  inUse : InUse d k
  bit : ∀ t < 1024, (freeMapOn d').bit t = true ↔
    (freeMapOn d).bit t = true ∧ t ≠ headerSector d k ∧ ¬(fileHeader d k).Owns t
  directory : (directoryOn d').Same ((directoryOn d).setInUse k false)
  frame : ∀ t, ¬(headerAt d freeMapSector).Owns t → ¬(headerAt d directorySector).Owns t →
    d' t = d t

/-- `Remove` passes its assertions, and succeeds exactly when the name is in the directory. -/
theorem Consistent.remove_cases {fs : FileSystem} {d : Disk} (c : Consistent fs d) (junk : Garbage)
    (name : List Byte) :
    (∃ (d' : Disk) (k : ℕ), (directoryOn d).findIndex name = k ∧
      fs.remove junk name d = .ok true d' ∧ Removed d d' k) ∨
    ((directoryOn d).findIndex name = -1 ∧ fs.remove junk name d = .ok false d) := by
  obtain ⟨dir, hfetch, hsame⟩ := c.fetchDirectory junk
  rw [FileSystem.remove, bind_of_ok hfetch]
  simp only [hsame.find]
  rcases c.find_cases name with ⟨k, huse, -, hindex, hfind⟩ | ⟨-, hindex, hfind⟩
  swap
  · refine .inr ⟨hindex, ?_⟩
    rw [hfind, if_pos rfl]
    rfl
  obtain ⟨m, hmap, hbit⟩ := c.ofFile (junk 2)
  have hvalid := c.file_valid k huse
  have hlt := c.headerSector_lt huse
  -- the sectors of the file are marked
  have hdata : ∀ t, (fileHeader d k).Owns t → (⟨1024, m⟩ : Bitmap).bit t = true := by
    rintro t ⟨j, hj, rfl⟩
    rw [hbit _ (hvalid.sectorAt_lt j hj)]
    exact c.allocated.taken_place (o := .data k j) ⟨huse, hj⟩
  obtain ⟨b₁, hdealloc, hbits₁, hmarks₁⟩ := FileHeader.deallocate_eq hvalid rfl hdata d
  obtain ⟨d₁, d₂, hrun₁, hrun₂, hflushed⟩ := flush_directory_last c.freeMap_valid c.freeMap_length
    c.directory_valid c.directory_length c.disjoint
    (show (b₁.cleared (headerSector d k)).numBits = 1024 from hbits₁)
    (show (dir.setInUse k false).tableSize = 20 from hsame.tableSize) (junk 3) (junk 4) d
  have hmapHeader : headerAt d₂ freeMapSector = headerAt d freeMapSector :=
    headerAt_congr (hflushed.frame _ c.not_owns_system.1 c.not_owns_system.2.1)
  have hdirHeader : headerAt d₂ directorySector = headerAt d directorySector :=
    headerAt_congr (hflushed.frame _ c.not_owns_system.2.2.1 c.not_owns_system.2.2.2)
  refine .inl ⟨d₂, k, hindex, ?_, huse, fun t ht ↦ ?_, ?_, hflushed.frame⟩
  · have hremove : (dir.remove name).2 = dir.setInUse k false := by
      rw [Directory.remove, hsame.findIndex, hindex, if_neg (by omega), Int.toNat_natCast]
    rw [hfind, if_neg (by omega), bind_of_ok (fetchFrom_of_lt hlt d), bind_of_ok hmap]
    refine (bind_of_ok hdealloc).trans ?_
    rw [bind_of_ok (Bitmap.clear_eq (by omega) d), c.freeMapFile, c.directoryFile,
      bind_of_ok hrun₁, hremove, bind_of_ok hrun₂]
    rfl
  · rw [freeMapOn, hmapHeader, hflushed.freeMap t ht, Bitmap.bit_cleared, Bool.and_eq_true,
      Bool.not_eq_true', decide_eq_false_iff_not, hmarks₁ t, hbit t ht, and_left_comm]
  · rw [directoryOn, hdirHeader]
    exact hflushed.directory.trans (hsame.setInUse k false)

/-! ## Reading and writing -/

/-- A request whose last byte has an `int` for its position. -/
def Proper (hdr : FileHeader) (numBytes position : ℤ) : Prop :=
  numBytes ≤ 0 ∨ hdr.fileLength ≤ position ∨ 0 ≤ position ∧ position + numBytes < 2 ^ 31

/-- A proper write returns, and changes nothing but data sectors of the file. -/
theorem writeAt_frame {hdr : FileHeader} (hv : hdr.Valid) (junk src : ℕ → Byte)
    {numBytes position : ℤ} (hp : Proper hdr numBytes position) (d : Disk) :
    ∃ r d', writeAt hdr junk src numBytes position d = .ok r d' ∧
      ∀ t, ¬hdr.Owns t → d' t = d t := by
  by_cases hrefused : numBytes ≤ 0 ∨ hdr.fileLength ≤ position
  · refine ⟨0, d, ?_, fun _ _ ↦ rfl⟩
    rw [writeAt, writeAtVia, if_pos hrefused]
    rfl
  · obtain ⟨hpos, hlt⟩ : 0 ≤ position ∧ position + numBytes < 2 ^ 31 := by
      rcases hp with hp | hp | hp
      · exact absurd (.inl hp) hrefused
      · exact absurd (.inr hp) hrefused
      · exact hp
    obtain ⟨d', hrun, -, hout⟩ := writeAt_flat hv junk hpos hlt src d
    refine ⟨_, d', hrun, fun t ht ↦ hout t fun y hy hy' heq ↦ ht ⟨y / 128, ?_, heq.symm⟩⟩
    have hcount := hv.count_eq
    rw [FileHeader.transferred, if_neg hrefused] at hy'
    rw [FileHeader.length] at hcount
    omega

section reading

variable {hdr : FileHeader}

private theorem keeps_readSector (s : ℤ) : Keeps (fun d : Disk ↦ d) (readSector s) := by
  intro d a d' h
  rw [readSector] at h
  split at h
  · cases h
    rfl
  · cases h

private theorem keeps_dataSector (i : ℤ) : Keeps (fun d : Disk ↦ d) (hdr.dataSector i) :=
  .ite (fun _ ↦ .pure _) fun _ ↦ .throw _

private theorem keeps_store (buf : Buffer) (i : ℤ) (src : ℕ → Byte) (n : ℤ) :
    Keeps (fun d : Disk ↦ d) (buf.store i src n) :=
  .ite (fun _ ↦ .pure _) fun _ ↦ .throw _

private theorem keeps_readSectors (first : ℤ) (rest j : ℕ) (buf : Buffer) :
    Keeps (fun d : Disk ↦ d) (readSectors hdr first j rest buf) := by
  induction rest generalizing j buf with
  | zero => exact .pure _
  | succ rest ih =>
    rw [readSectors, readSectorsVia]
    exact .bind (keeps_dataSector _) fun _ ↦ .bind (keeps_readSector _) fun _ ↦
      .bind (keeps_store _ _ _ _) fun _ ↦ ih _ _

/-- No read changes the disk. -/
theorem keeps_readAt (junk : ℕ → Byte) (numBytes position : ℤ) :
    Keeps (fun d : Disk ↦ d) (readAt hdr junk numBytes position) := by
  refine .ite (fun _ ↦ .pure _) fun _ ↦ .bind ?_ fun buf ↦ .bind (keeps_readSectors _ _ _ _)
    fun buf ↦ .bind ?_ fun data ↦ .pure _
  · exact .ite (fun _ ↦ .throw _) fun _ ↦ .pure _
  · exact .ite (fun _ ↦ .pure _) fun _ ↦ .throw _

end reading

end Nachos
