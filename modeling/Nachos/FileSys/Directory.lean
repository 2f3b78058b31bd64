import Nachos.FileSys.OpenFile

/-!
# Directories

A directory is a table of entries, each with a flag, the sector of a file header and a name of at
most nine characters. The table is kept as the bytes that go to disk, entries of twenty bytes with
the compiler's padding: the flag at 0, the sector at 4, the name at 8.
-/

namespace Nachos

open Program

/-! ## Strings -/

/-- The memory at a `char *`: the characters, then zeros. -/
def cstr (name : List Byte) : ℕ → Byte := fun i ↦ name.getD i 0

/-- `strncmp` from character `i` on. -/
def strncmpFrom (s t : ℕ → Byte) : ℕ → ℕ → ℤ
  | _, 0 => 0
  | i, n + 1 =>
    if s i ≠ t i then (s i).toNat - (t i).toNat
    else if s i = 0 then 0
    else strncmpFrom s t (i + 1) n

/-- `strncmp`. -/
def strncmp (s t : ℕ → Byte) (n : ℕ) : ℤ := strncmpFrom s t 0 n

/-- The string at `s i`, if it ends within the next `n` bytes. -/
def stringFrom (s : ℕ → Byte) : ℕ → ℕ → Option (List Byte)
  | _, 0 => none
  | i, n + 1 => if s i = 0 then some [] else (stringFrom s (i + 1) n).map (s i :: ·)

/-- What `strncpy` writes: the string, and zeros behind its end. -/
def strncpy (src : ℕ → Byte) : ℕ → Byte := fun x ↦ if ∃ y < x, src y = 0 then 0 else src x

private theorem strncmpFrom_congr {s s' t : ℕ → Byte} (n i : ℕ)
    (h : ∀ x, i ≤ x → x < i + n → s x = s' x) : strncmpFrom s t i n = strncmpFrom s' t i n := by
  induction n generalizing i with
  | zero => rfl
  | succ n ih =>
    rw [strncmpFrom, strncmpFrom, h i (Nat.le_refl i) (by omega),
      ih (i + 1) fun x hx hx' ↦ h x (by omega) (by omega)]

theorem strncmp_congr {s s' t : ℕ → Byte} {n : ℕ} (h : ∀ x < n, s x = s' x) :
    strncmp s t n = strncmp s' t n :=
  strncmpFrom_congr n 0 fun x _ hx ↦ h x (by omega)

private theorem strncpy_of_ne_zero {src : ℕ → Byte} {x : ℕ} (h : ∀ y < x, src y ≠ 0) :
    strncpy src x = src x := by
  refine if_neg ?_
  rintro ⟨y, hy, hzero⟩
  exact h y hy hzero

/-- A copy compares equal. -/
private theorem strncmpFrom_strncpy (t : ℕ → Byte) (n i : ℕ) (h : ∀ y < i, t y ≠ 0) :
    strncmpFrom (strncpy t) t i n = 0 := by
  induction n generalizing i with
  | zero => rfl
  | succ n ih =>
    rw [strncmpFrom, strncpy_of_ne_zero h, if_neg (not_not.mpr rfl)]
    by_cases hzero : t i = 0
    · rw [if_pos hzero]
    · rw [if_neg hzero]
      refine ih (i + 1) fun y hy ↦ ?_
      rcases Nat.lt_succ_iff_lt_or_eq.mp hy with hy | rfl
      · exact h y hy
      · exact hzero

theorem strncmp_strncpy (t : ℕ → Byte) (n : ℕ) : strncmp (strncpy t) t n = 0 :=
  strncmpFrom_strncpy t n 0 fun _ hy ↦ absurd hy (Nat.not_lt_zero _)

@[simp] abbrev fileNameMaxLen : ℕ := 9

/-- `sizeof(DirectoryEntry)`. -/
@[simp] abbrev entrySize : ℕ := 20

/-- `Directory`. -/
structure Directory where
  tableSize : ℕ
  table : ℕ → Byte

namespace Directory

/-! ## Entries -/

/-- `table[i].inUse`. -/
def inUse (dir : Directory) (i : ℕ) : Bool := dir.table (entrySize * i) ≠ 0

/-- `table[i].sector`. -/
def sector (dir : Directory) (i : ℕ) : Word := wordAt dir.table (entrySize * i + 4)

/-- `table[i].name`. -/
def name (dir : Directory) (i : ℕ) : ℕ → Byte := fun x ↦ dir.table (entrySize * i + 8 + x)

/-- `table[i].inUse = value`. -/
def setInUse (dir : Directory) (i : ℕ) (value : Bool) : Directory :=
  { dir with table := Function.update dir.table (entrySize * i) (if value then 1 else 0) }

/-- `strncpy(table[i].name, name, FileNameMaxLen)`. -/
def setName (dir : Directory) (i : ℕ) (name : List Byte) : Directory :=
  { dir with table := blit dir.table (entrySize * i + 8) (strncpy (cstr name)) fileNameMaxLen }

/-- `table[i].sector = newSector`. -/
def setSector (dir : Directory) (i : ℕ) (newSector : Word) : Directory :=
  { dir with table := blit dir.table (entrySize * i + 4) (wordByte newSector) 4 }

/-- The entry as `Add` fills it in. -/
def put (dir : Directory) (i : ℕ) (name : List Byte) (newSector : Word) : Directory :=
  ((dir.setInUse i true).setName i name).setSector i newSector

@[simp] theorem tableSize_setInUse (dir : Directory) (i : ℕ) (value : Bool) :
    (dir.setInUse i value).tableSize = dir.tableSize := rfl

@[simp] theorem tableSize_put (dir : Directory) (i : ℕ) (name : List Byte) (newSector : Word) :
    (dir.put i name newSector).tableSize = dir.tableSize := rfl

/-! ## Operations -/

/-- `Directory::Directory`: new memory, with the flags cleared. -/
def create (size : ℕ) (junk : ℕ → Byte) : Directory where
  tableSize := size
  table := fun x ↦ if x % entrySize = 0 ∧ x / entrySize < size then 0 else junk x

/-- `Directory::FetchFrom`. -/
def fetchFrom (dir : Directory) (file : FileHeader) (junk : ℕ → Byte) : DiskM Directory := do
  let (n, data) ← readAt file junk (dir.tableSize * entrySize) 0
  return { dir with table := blit dir.table 0 data n.toNat }

/-- `Directory::WriteBack`. -/
def writeBack (dir : Directory) (file : FileHeader) (junk : ℕ → Byte) : DiskM Unit := do
  let _ ← writeAt file junk dir.table (dir.tableSize * entrySize) 0
  return

/-- Entry `i` is in use under the name. -/
def Holds (dir : Directory) (name : List Byte) (i : ℕ) : Prop :=
  dir.inUse i = true ∧ strncmp (dir.name i) (cstr name) fileNameMaxLen = 0

instance (dir : Directory) (name : List Byte) (i : ℕ) : Decidable (dir.Holds name i) :=
  inferInstanceAs (Decidable (_ ∧ _))

/-- The loop of `FindIndex`, from entry `i` on. -/
def findFrom (dir : Directory) (name : List Byte) : ℕ → ℕ → ℤ
  | _, 0 => -1
  | i, rest + 1 => if dir.Holds name i then i else findFrom dir name (i + 1) rest

/-- `Directory::FindIndex`. -/
def findIndex (dir : Directory) (name : List Byte) : ℤ := dir.findFrom name 0 dir.tableSize

/-- `Directory::Find`. -/
def find (dir : Directory) (name : List Byte) : ℤ :=
  if dir.findIndex name ≠ -1 then (dir.sector (dir.findIndex name).toNat).toInt else -1

/-- The loop of `Add`, from entry `i` on. -/
def addFrom (dir : Directory) (name : List Byte) (newSector : Word) : ℕ → ℕ → Bool × Directory
  | _, 0 => (false, dir)
  | i, rest + 1 =>
    if dir.inUse i = false then (true, dir.put i name newSector)
    else addFrom dir name newSector (i + 1) rest

/-- `Directory::Add`. -/
def add (dir : Directory) (name : List Byte) (newSector : Word) : Bool × Directory :=
  if dir.findIndex name ≠ -1 then (false, dir) else dir.addFrom name newSector 0 dir.tableSize

/-- `Directory::Remove`. -/
def remove (dir : Directory) (name : List Byte) : Bool × Directory :=
  if dir.findIndex name = -1 then (false, dir)
  else (true, dir.setInUse (dir.findIndex name).toNat false)

/-- What `printf` takes to be the name in entry `i`. It goes on until there is a zero, into the
entries behind if need be; where it would leave the table there is no telling. -/
def printedName (dir : Directory) (i : ℕ) : Option (List Byte) :=
  stringFrom (dir.name i) 0 (entrySize * (dir.tableSize - i) - 8)

/-- The loop of `List`, from entry `i` on. -/
def listFrom (dir : Directory) : ℕ → ℕ → Option (List Byte)
  | _, 0 => some []
  | i, rest + 1 =>
    if dir.inUse i = true then do
      let name ← dir.printedName i
      let lines ← listFrom dir (i + 1) rest
      return name ++ 10 :: lines
    else listFrom dir (i + 1) rest

/-- `Directory::List`: the characters it prints. -/
def list (dir : Directory) : Option (List Byte) := dir.listFrom 0 dir.tableSize

theorem inUse_create {size i : ℕ} (junk : ℕ → Byte) (hi : i < size) :
    (create size junk).inUse i = false := by
  have hflag : (create size junk).table (entrySize * i) = 0 :=
    if_pos ⟨by simp only [entrySize]; omega, by simp only [entrySize]; omega⟩
  rw [inUse, hflag]
  rfl

/-! ## Entries after an assignment -/

section assignments

variable (dir : Directory) (i j : ℕ)

theorem inUse_setInUse (value : Bool) :
    (dir.setInUse i value).inUse j = if j = i then value else dir.inUse j := by
  rw [inUse, setInUse]
  by_cases h : j = i
  · rw [if_pos h, h]
    cases value <;> simp
  · rw [if_neg h]
    simp only [Function.update_of_ne (show entrySize * j ≠ entrySize * i by
      simp only [entrySize]; omega), inUse]

theorem sector_setInUse (value : Bool) : (dir.setInUse i value).sector j = dir.sector j := by
  refine wordAt_congr fun x hx hx' ↦ Function.update_of_ne ?_ _ _
  simp only [entrySize] at *
  omega

theorem name_setInUse (value : Bool) {x : ℕ} (hx : x < 10) :
    (dir.setInUse i value).name j x = dir.name j x := by
  refine Function.update_of_ne ?_ _ _
  simp only [entrySize]
  omega

variable {i j} (name : List Byte) (newSector : Word)

/-- The other entries stay as they are. -/
theorem table_put_of_ne (h : j ≠ i) {y : ℕ} (hy : y < 20) :
    (dir.put i name newSector).table (entrySize * j + y) = dir.table (entrySize * j + y) := by
  simp only [put, setSector, setName, setInUse, blit, entrySize, fileNameMaxLen]
  rw [if_neg (by omega), if_neg (by omega), Function.update_of_ne (by omega)]

theorem inUse_put_of_ne (h : j ≠ i) : (dir.put i name newSector).inUse j = dir.inUse j := by
  have := table_put_of_ne dir name newSector h (show 0 < 20 by decide)
  rw [Nat.add_zero] at this
  rw [inUse, inUse, this]

theorem sector_put_of_ne (h : j ≠ i) : (dir.put i name newSector).sector j = dir.sector j := by
  refine wordAt_congr fun x hx hx' ↦ ?_
  have := table_put_of_ne dir name newSector h (show x - 20 * j < 20 by
    simp only [entrySize] at *; omega)
  rwa [show entrySize * j + (x - 20 * j) = x by simp only [entrySize] at *; omega] at this

theorem name_put_of_ne (h : j ≠ i) {x : ℕ} (hx : x < 10) :
    (dir.put i name newSector).name j x = dir.name j x := by
  have := table_put_of_ne dir name newSector h (show 8 + x < 20 by omega)
  rwa [← Nat.add_assoc] at this

variable (i)

theorem inUse_put_self : (dir.put i name newSector).inUse i = true := by
  simp only [inUse, put, setSector, setName, setInUse, blit, entrySize, fileNameMaxLen]
  rw [if_neg (by omega), if_neg (by omega), Function.update_self]
  rfl

theorem sector_put_self : (dir.put i name newSector).sector i = newSector := by
  have hbyte : ∀ k < 4, (dir.put i name newSector).table (entrySize * i + 4 + k) =
      wordByte newSector k := fun k hk ↦ by
    simp only [put, setSector]
    rw [blit_of_mem (by omega) (by omega), Nat.add_sub_cancel_left]
  rw [sector, wordAt, hbyte 3 (by decide), hbyte 2 (by decide), hbyte 1 (by decide)]
  have h0 := hbyte 0 (by decide)
  rw [Nat.add_zero] at h0
  rw [h0, wordBytes_append]

theorem name_put_self {x : ℕ} (hx : x < 9) :
    (dir.put i name newSector).name i x = strncpy (cstr name) x := by
  simp only [Directory.name, put, setSector, setName, fileNameMaxLen]
  rw [blit_of_le (by omega), blit_of_mem (by omega) (by omega), Nat.add_sub_cancel_left]

/-- The byte meant for the terminator is not written. -/
theorem name_put_self_nine : (dir.put i name newSector).name i 9 = dir.name i 9 := by
  simp only [Directory.name, put, setSector, setName, setInUse, fileNameMaxLen]
  rw [blit_of_le (by omega), blit_of_le (by omega), Function.update_of_ne (by omega)]

end assignments

/-! ## Lookup -/

section lookup

variable {dir dir' : Directory} {name : List Byte}

theorem findFrom_cases (dir : Directory) (name : List Byte) (rest i : ℕ) :
    (∃ k, i ≤ k ∧ k < i + rest ∧ dir.Holds name k ∧ (∀ j, i ≤ j → j < k → ¬dir.Holds name j) ∧
      dir.findFrom name i rest = k) ∨
    ((∀ j, i ≤ j → j < i + rest → ¬dir.Holds name j) ∧ dir.findFrom name i rest = -1) := by
  induction rest generalizing i with
  | zero => exact .inr ⟨fun j hj hj' ↦ by omega, rfl⟩
  | succ rest ih =>
    rw [findFrom]
    by_cases hi : dir.Holds name i
    · rw [if_pos hi]
      exact .inl ⟨i, Nat.le_refl i, by omega, hi, fun j hj hj' ↦ by omega, rfl⟩
    · rw [if_neg hi]
      have hsplit : ∀ j, i ≤ j → j = i ∨ i + 1 ≤ j := fun j hj ↦ by omega
      rcases ih (i + 1) with ⟨k, hik, hk, hholds, hbelow, hfind⟩ | ⟨hnone, hfind⟩
      · refine .inl ⟨k, by omega, by omega, hholds, fun j hj hj' ↦ ?_, hfind⟩
        rcases hsplit j hj with rfl | hj
        · exact hi
        · exact hbelow j hj hj'
      · refine .inr ⟨fun j hj hj' ↦ ?_, hfind⟩
        rcases hsplit j hj with rfl | hj
        · exact hi
        · exact hnone j hj (by omega)

/-- `FindIndex` gives the first entry in use under the name, or `-1`. -/
theorem findIndex_cases (dir : Directory) (name : List Byte) :
    (∃ k < dir.tableSize, dir.Holds name k ∧ (∀ j < k, ¬dir.Holds name j) ∧
      dir.findIndex name = k) ∨
    ((∀ j < dir.tableSize, ¬dir.Holds name j) ∧ dir.findIndex name = -1) := by
  rcases findFrom_cases dir name dir.tableSize 0 with
    ⟨k, -, hk, hholds, hbelow, hfind⟩ | ⟨hnone, hfind⟩
  · exact .inl ⟨k, by omega, hholds, fun j hj ↦ hbelow j (Nat.zero_le j) hj, hfind⟩
  · exact .inr ⟨fun j hj ↦ hnone j (Nat.zero_le j) (by omega), hfind⟩

/-- What is found depends on the entries under the name only. -/
private theorem findFrom_congr (rest i : ℕ)
    (hholds : ∀ j, i ≤ j → j < i + rest → (dir.Holds name j ↔ dir'.Holds name j)) :
    dir.findFrom name i rest = dir'.findFrom name i rest := by
  induction rest generalizing i with
  | zero => rfl
  | succ rest ih =>
    rw [findFrom, findFrom, ih (i + 1) fun j hj hj' ↦ hholds j (by omega) (by omega)]
    exact if_congr (hholds i (Nat.le_refl i) (by omega)) rfl rfl

private theorem findIndex_congr (hsize : dir.tableSize = dir'.tableSize)
    (hholds : ∀ i < dir.tableSize, dir.Holds name i ↔ dir'.Holds name i) :
    dir.findIndex name = dir'.findIndex name := by
  rw [findIndex, findIndex, ← hsize]
  exact findFrom_congr _ 0 fun j _ hj ↦ hholds j (by omega)

theorem find_congr (hsize : dir.tableSize = dir'.tableSize)
    (hholds : ∀ i < dir.tableSize, dir.Holds name i ↔ dir'.Holds name i)
    (hsector : ∀ i < dir.tableSize, dir.Holds name i → dir.sector i = dir'.sector i) :
    dir.find name = dir'.find name := by
  have hindex := findIndex_congr hsize hholds
  rw [find, find, ← hindex]
  rcases dir.findIndex_cases name with ⟨k, hk, hheld, -, hfind⟩ | ⟨-, hfind⟩
  · rw [hfind, Int.toNat_natCast, hsector k hk hheld]
  · rw [hfind, if_neg (not_not.mpr rfl), if_neg (not_not.mpr rfl)]

private theorem addFrom_cases (dir : Directory) (name : List Byte) (newSector : Word) (rest i : ℕ) :
    (∃ k, i ≤ k ∧ k < i + rest ∧ dir.inUse k = false ∧ (∀ j, i ≤ j → j < k → dir.inUse j = true) ∧
      dir.addFrom name newSector i rest = (true, dir.put k name newSector)) ∨
    ((∀ j, i ≤ j → j < i + rest → dir.inUse j = true) ∧
      dir.addFrom name newSector i rest = (false, dir)) := by
  induction rest generalizing i with
  | zero => exact .inr ⟨fun j hj hj' ↦ by omega, rfl⟩
  | succ rest ih =>
    rw [addFrom]
    by_cases hi : dir.inUse i = false
    · rw [if_pos hi]
      exact .inl ⟨i, Nat.le_refl i, by omega, hi, fun j hj hj' ↦ by omega, rfl⟩
    · rw [if_neg hi]
      have hbusy : dir.inUse i = true := (Bool.not_eq_false _).mp hi
      have hsplit : ∀ j, i ≤ j → j = i ∨ i + 1 ≤ j := fun j hj ↦ by omega
      rcases ih (i + 1) with ⟨k, hik, hk, hfree, hbelow, hadd⟩ | ⟨hall, hadd⟩
      · refine .inl ⟨k, by omega, by omega, hfree, fun j hj hj' ↦ ?_, hadd⟩
        rcases hsplit j hj with rfl | hj
        · exact hbusy
        · exact hbelow j hj hj'
      · refine .inr ⟨fun j hj hj' ↦ ?_, hadd⟩
        rcases hsplit j hj with rfl | hj
        · exact hbusy
        · exact hall j hj (by omega)

/-- `Add` under a new name fills in the first free entry, or reports that there is none. -/
theorem add_cases (newSector : Word) (hnew : dir.findIndex name = -1) :
    (∃ k < dir.tableSize, dir.inUse k = false ∧ (∀ j < k, dir.inUse j = true) ∧
      dir.add name newSector = (true, dir.put k name newSector)) ∨
    ((∀ j < dir.tableSize, dir.inUse j = true) ∧ dir.add name newSector = (false, dir)) := by
  rw [add, if_neg (not_not.mpr hnew)]
  rcases addFrom_cases dir name newSector dir.tableSize 0 with
    ⟨k, -, hk, hfree, hbelow, hadd⟩ | ⟨hall, hadd⟩
  · exact .inl ⟨k, by omega, hfree, fun j hj ↦ hbelow j (Nat.zero_le j) hj, hadd⟩
  · exact .inr ⟨fun j hj ↦ hall j (Nat.zero_le j) (by omega), hadd⟩

theorem tableSize_add (dir : Directory) (name : List Byte) (newSector : Word) :
    (dir.add name newSector).2.tableSize = dir.tableSize := by
  by_cases hnew : dir.findIndex name = -1
  · rcases add_cases newSector hnew with ⟨k, -, -, -, hadd⟩ | ⟨-, hadd⟩
    · rw [hadd, tableSize_put]
    · rw [hadd]
  · rw [add, if_pos hnew]

theorem tableSize_remove (dir : Directory) (name : List Byte) :
    (dir.remove name).2.tableSize = dir.tableSize := by
  rw [remove]
  split <;> rfl

end lookup

/-! ## The stored directory -/

/-- The directory that a file holds. -/
def stored (file : FileHeader) (size : ℕ) (d : Disk) : Directory := ⟨size, file.flat d⟩

/-- The same entries. -/
structure Same (dir dir' : Directory) : Prop where
  tableSize : dir.tableSize = dir'.tableSize
  table : ∀ x < entrySize * dir.tableSize, dir.table x = dir'.table x

namespace Same

theorem trans {dir dir' dir'' : Directory} (h : dir.Same dir') (h' : dir'.Same dir'') :
    dir.Same dir'' :=
  ⟨h.tableSize.trans h'.tableSize, fun x hx ↦ (h.table x hx).trans (h'.table x (h.tableSize ▸ hx))⟩

variable {dir dir' : Directory} (h : dir.Same dir') {i : ℕ} (hi : i < dir.tableSize)

include h hi

theorem inUse : dir.inUse i = dir'.inUse i := by
  rw [Directory.inUse, Directory.inUse, h.table _ (by simp only [entrySize]; omega)]

theorem sector : dir.sector i = dir'.sector i :=
  wordAt_congr fun x hx hx' ↦ h.table x (by simp only [entrySize] at *; omega)

theorem name {x : ℕ} (hx : x < 10) : dir.name i x = dir'.name i x :=
  h.table _ (by simp only [entrySize] at *; omega)

theorem holds (name : List Byte) : dir.Holds name i ↔ dir'.Holds name i := by
  rw [Holds, Holds, h.inUse hi, strncmp_congr fun x hx ↦ h.name hi (Nat.lt_succ_of_lt hx)]

omit hi

theorem findIndex (name : List Byte) : dir.findIndex name = dir'.findIndex name :=
  findIndex_congr h.tableSize fun _ hi ↦ h.holds hi name

theorem find (name : List Byte) : dir.find name = dir'.find name :=
  find_congr h.tableSize (fun _ hi ↦ h.holds hi name) fun _ hi _ ↦ h.sector hi

theorem put (k : ℕ) (name : List Byte) (newSector : Word) :
    (dir.put k name newSector).Same (dir'.put k name newSector) := by
  refine ⟨h.tableSize, fun x hx ↦ ?_⟩
  rw [tableSize_put] at hx
  simp only [Directory.put, setSector, setName, Directory.setInUse, blit, Function.update_apply,
    h.table x hx]

theorem setInUse (k : ℕ) (value : Bool) : (dir.setInUse k value).Same (dir'.setInUse k value) := by
  refine ⟨h.tableSize, fun x hx ↦ ?_⟩
  rw [tableSize_setInUse] at hx
  simp only [Directory.setInUse, Function.update_apply, h.table x hx]

end Same

section stored

variable {file : FileHeader} (hv : file.Valid) (dir : Directory)
  (hlength : file.length = entrySize * dir.tableSize)

include hv hlength

theorem fetchFrom_eq (junk : ℕ → Byte) (d : Disk) :
    ∃ dir', dir.fetchFrom file junk d = .ok dir' d ∧ dir'.Same (stored file dir.tableSize d) := by
  obtain ⟨data, hrun, hdata⟩ := readAt_whole hv junk d
  refine ⟨⟨dir.tableSize, blit dir.table 0 data file.length⟩, ?_, rfl, fun x hx ↦ ?_⟩
  · simp only [entrySize] at hlength
    rw [show (file.length : ℤ) = dir.tableSize * entrySize by simp only [entrySize]; omega] at hrun
    rw [fetchFrom, bind_of_ok hrun]
    simp only [show ((dir.tableSize : ℤ) * entrySize).toNat = file.length by
      simp only [entrySize]; omega]
    rfl
  · refine (blit_of_mem (Nat.zero_le x) (by simp only at hx; omega)).trans ?_
    exact hdata x (by simp only at hx; omega)

theorem writeBack_eq (junk : ℕ → Byte) (d : Disk) :
    ∃ d', dir.writeBack file junk d = .ok () d' ∧ (stored file dir.tableSize d').Same dir ∧
      ∀ s, (∀ j < file.count, s ≠ file.sectorAt j) → d' s = d s := by
  obtain ⟨d', hrun, hin, hout⟩ := writeAt_whole hv junk dir.table d
  refine ⟨d', ?_, ⟨rfl, fun x hx ↦ hin x ?_⟩, hout⟩
  · simp only [entrySize] at hlength
    rw [show (file.length : ℤ) = dir.tableSize * entrySize by simp only [entrySize]; omega] at hrun
    rw [writeBack, bind_of_ok hrun]
    rfl
  · rw [hlength]
    exact hx

end stored

end Directory

end Nachos
