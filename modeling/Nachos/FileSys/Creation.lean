import Nachos.FileSys.Isolation
import Nachos.FileSys.NameMap

/-!
# What a `Create` changes

`Create` works on copies of the directory and of the bitmap. It gives up in four places, three of
them after the copies have been changed, and writes back only when everything is found: so it either
does all of its work or leaves the disk as it was. A name counts by its first nine characters, for
the file that is created as for the files that are there.
-/

namespace Nachos

open Program

/-- What `Create` needs: a name that is not taken, a free entry, and space for the header and the
data. -/
structure Creatable (d : Disk) (name : List Byte) (size : ℤ) : Prop where
  new : ∀ i, InUse d i → (directoryOn d).entryKey i ≠ Directory.key name
  entry : ∃ i < numDirEntries, (directoryOn d).inUse i = false
  space : 1 + (size + 127) / 128 ≤ ((freeMapOn d).clears : ℤ)

/-- The name leads to a header of the given length in sector `s`, and neither this sector nor a data
sector of the file was in use. -/
structure FreshFile (d d' : Disk) (name : List Byte) (size : ℤ) (s : ℕ) : Prop where
  found : (directoryOn d').find name = s
  sector_lt : s < numSectors
  sector_free : (freeMapOn d).bit s = false
  length : (headerAt d' s).fileLength = size
  data_free : ∀ t, (headerAt d' s).Owns t → t ≠ s ∧ t < numSectors ∧ (freeMapOn d).bit t = false

/-- There is a new file under the name, the names in `others` lead where they led before, and the
files there were are the same. -/
structure CreatesOnly (others : List Byte → Prop) (d d' : Disk) (name : List Byte) (size : ℤ) :
    Prop where
  fresh : ∃ s, FreshFile d d' name size s
  names : ∀ name', others name' → (directoryOn d').find name' = (directoryOn d).find name'
  files : ∀ i, InUse d i → headerSector d' i = headerSector d i ∧ Session.SameFile d d' i

/-- `Create` returns, with success exactly when it can succeed; then it creates the file and nothing
else, and otherwise the disk is as it was. -/
def CreateAtomic (others : List Byte → Prop) (fs : FileSystem) (d : Disk) (junk : Garbage)
    (name : List Byte) (size : ℤ) : Prop :=
  ∃ r d', fs.create junk name size d = .ok r d' ∧ (r = true ↔ Creatable d name size) ∧
    (r = false → d' = d) ∧ (r = true → CreatesOnly others d d' name size)

section created

variable {fs : FileSystem} {d d' : Disk} {name : List Byte} {size : ℤ} {k s : ℕ} {h : FileHeader}

/-- The entries under a name after `Create`, by keys. -/
theorem Created.holds_key_iff (hc : Created d d' name size k s h) (name' : List Byte) {i : ℕ}
    (hi : i < 20) : (directoryOn d').Holds name' i ↔
      if i = k then Directory.key name = Directory.key name'
      else (directoryOn d).Holds name' i := by
  rw [hc.holds_iff name' hi, Directory.strncmp_strncpy_eq_zero_iff]

/-- A name with another key leads where it led before. -/
theorem Created.find_of_key_ne (hc : Created d d' name size k s h) {name' : List Byte}
    (hne : Directory.key name' ≠ Directory.key name) :
    (directoryOn d').find name' = (directoryOn d).find name' := by
  have hholds : ∀ i < 20, (directoryOn d').Holds name' i ↔ (directoryOn d).Holds name' i := by
    intro i hi
    rw [hc.holds_key_iff name' hi]
    by_cases hik : i = k
    · subst hik
      rw [if_pos rfl]
      refine iff_of_false hne.symm fun hheld ↦ ?_
      have hbusy := hheld.1
      rw [hc.entry_free] at hbusy
      cases hbusy
    · rw [if_neg hik]
  refine Directory.find_congr rfl hholds fun i hi hheld ↦ ?_
  have hik : i ≠ k := by
    rintro rfl
    rw [hc.holds_key_iff name' hi, if_pos rfl] at hheld
    exact hne hheld.symm
  rw [hc.directory.sector hi, Directory.sector_put_of_ne _ _ _ hik]

/-- A name with the key of the new file leads to its header. -/
theorem Created.find_of_key_eq (c : Consistent fs d) (hc : Created d d' name size k s h)
    (hnew : ∀ i, InUse d i → (directoryOn d).entryKey i ≠ Directory.key name)
    {name' : List Byte} (heq : Directory.key name' = Directory.key name) :
    (directoryOn d').find name' = s := by
  obtain ⟨-, -, -, hsector, -⟩ := c.created_views hc
  rcases (c.created hc).find_cases name' with ⟨i, huse, hholds, -, hfind⟩ | ⟨hnone, -⟩
  · rw [hc.holds_key_iff name' huse.1] at hholds
    by_cases hik : i = k
    · rw [hfind, hik, hsector]
    · rw [if_neg hik, Directory.holds_iff, heq] at hholds
      exact absurd hholds.2 (hnew i ⟨huse.1, hholds.1⟩)
  · refine absurd ?_ (hnone k hc.entry_lt)
    rw [hc.holds_key_iff name' hc.entry_lt, if_pos rfl, heq]

/-- The files that were there are the same. -/
theorem Created.sameFile (c : Consistent fs d) (hc : Created d d' name size k s h) {i : ℕ}
    (hi : InUse d i) : headerSector d' i = headerSector d i ∧ Session.SameFile d d' i := by
  obtain ⟨-, -, huse, -, -, hkeep⟩ := c.created_views hc
  obtain ⟨hsector, hheader⟩ := hkeep i hi
  refine ⟨hsector, (huse i).mpr (.inl hi), hheader, fun x hx ↦ ?_⟩
  rw [hheader]
  refine (c.file_valid i hi).flat_congr ?_ hx
  -- a data sector of the file belongs neither to the new header nor to the system files
  rintro t ⟨j, hj, rfl⟩
  have hlive : (Owner.data i j).Live d := ⟨hi, hj⟩
  refine hc.frame _ (c.allocated.place_ne hlive ?_) ?_ ?_
  · rw [hc.sector_free]
    exact Bool.false_ne_true
  · rintro ⟨m, hm, heq⟩
    cases c.allocated.injective (.freeMapData m) (.data i j) hm hlive heq
  · rintro ⟨m, hm, heq⟩
    cases c.allocated.injective (.directoryData m) (.data i j) hm hlive heq

end created

/-- **`Create` succeeds exactly when it can, and is atomic.** -/
theorem create_atomic {fs : FileSystem} {d : Disk} (c : Consistent fs d) (junk : Garbage)
    (name : List Byte) {size : ℤ} (hlow : 0 ≤ size) (hhigh : size ≤ maxFileSize) :
    CreateAtomic (fun name' ↦ Directory.key name' ≠ Directory.key name) fs d junk name size := by
  rcases c.create_cases junk name (by omega) hhigh with
    ⟨d', k, s, h, hrun, hc⟩ | ⟨hrun, hrefused⟩
  · have hnew : ∀ i, InUse d i → (directoryOn d).entryKey i ≠ Directory.key name := by
      intro i hi heq
      have hholds : (directoryOn d).Holds name i := Directory.holds_iff.mpr ⟨hi.2, heq⟩
      have hfound : (directoryOn d).findIndex name ≠ -1 := by
        rcases c.find_cases name with ⟨j, -, -, hindex, -⟩ | ⟨hnone, -⟩
        · omega
        · exact absurd hholds (hnone i hi.1)
      rw [c.create_of_found junk hfound size] at hrun
      cases hrun
    obtain ⟨-, -, -, hsector, hheader, -⟩ := c.created_views hc
    have hclears := hc.clears
    have hcount := hc.count_eq
    refine ⟨true, d', hrun, iff_of_true rfl ⟨hnew, ⟨k, hc.entry_lt, hc.entry_free⟩, by omega⟩,
      fun hfalse ↦ absurd hfalse (by decide), fun _ ↦ ⟨⟨s, ?_⟩,
        fun name' hne ↦ hc.find_of_key_ne hne, fun i hi ↦ hc.sameFile c hi⟩⟩
    refine ⟨hc.find_of_key_eq c hnew rfl, hc.sector_lt, hc.sector_free, ?_, fun t ht ↦ ?_⟩
    · rw [hc.header, hc.length]
    · rw [hc.header] at ht
      obtain ⟨j, hj, rfl⟩ := ht
      exact ⟨(hc.free _ ⟨j, hj, rfl⟩).1, hc.valid.sectorAt_lt j hj, (hc.free _ ⟨j, hj, rfl⟩).2⟩
  · refine ⟨false, d, hrun, iff_of_false Bool.false_ne_true fun hcan ↦ ?_, fun _ ↦ rfl,
      fun htrue ↦ absurd htrue (by decide)⟩
    rcases hrefused with ⟨j, hj, hholds⟩ | hall | hnone | hfew
    · rw [Directory.holds_iff] at hholds
      exact hcan.new j ⟨hj, hholds.1⟩ hholds.2
    · obtain ⟨i, hi, hfree⟩ := hcan.entry
      rw [hall i hi] at hfree
      cases hfree
    · have hspace := hcan.space
      omega
    · have hspace := hcan.space
      omega

/-- Nine times the letter `f`, and one more letter. -/
def longName (c : Byte) : List Byte := List.replicate 9 0x66 ++ [c]

/-- The system right after its start creates a file of 200 bytes. -/
theorem start_create_atomic :
    ∃ fs d, FileSystem.start (fun _ ↦ zeroGarbage) (fun _ _ ↦ 0) = .ok fs d ∧
      CreateAtomic (fun name' ↦ Directory.key name' ≠ Directory.key nameF) fs d zeroGarbage nameF
        200 := by
  obtain ⟨fs, d, hstart, hl, -⟩ := start_eq (fun _ ↦ zeroGarbage) fun _ _ ↦ 0
  exact ⟨fs, d, hstart, create_atomic hl.consistent zeroGarbage nameF (by decide) (by decide)⟩

/-- Another name is not enough: one that differs in the tenth character leads to the new file. -/
theorem not_create_atomic_of_ne :
    ¬∀ fs d, Consistent fs d → ∀ junk name (size : ℤ), 0 ≤ size → size ≤ maxFileSize →
      CreateAtomic (fun name' ↦ 0 ∉ name' ∧ name' ≠ name) fs d junk name size := by
  intro hatomic
  obtain ⟨fs, d, -, hl, hclears⟩ := start_eq (fun _ ↦ zeroGarbage) fun _ _ ↦ 0
  obtain ⟨d', s, h, hrun, hc, -⟩ := hl.create zeroGarbage (longName 0x61) 0 (by decide)
    (by decide) (by decide) (by decide) (by omega)
  obtain ⟨r, d'', hrun', -, -, hdone⟩ := hatomic fs d hl.consistent zeroGarbage (longName 0x61) 0
    (by decide) (by decide)
  rw [hrun] at hrun'
  cases hrun'
  have hsame := (hdone rfl).names (longName 0x62) (by decide)
  have hkey : Directory.key (longName 0x62) = Directory.key (longName 0x61) := by decide
  -- before, no entry had the name
  have hnone : ∀ i, InUse d i → (directoryOn d).entryKey i ≠ Directory.key (longName 0x61) := by
    intro i hi heq
    obtain ⟨n, hn, hsame⟩ := hl.holds (longName 0x61) i hi.1 (Directory.holds_iff.mpr ⟨hi.2, heq⟩)
    revert n
    decide
  rw [hc.find_of_key_eq hl.consistent hnone hkey] at hsame
  rcases hl.consistent.find_cases (longName 0x62) with ⟨i, huse, hholds, -, -⟩ | ⟨-, -, hfind⟩
  · rw [Directory.holds_iff, hkey] at hholds
    exact hnone i huse hholds.2
  · rw [hfind] at hsame
    omega

end Nachos
