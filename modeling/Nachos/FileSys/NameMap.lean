import Mathlib.Data.Finmap
import Nachos.FileSys.Directory
import Nachos.Program.Simulation

/-!
# A directory is a finite map

The table of a `Directory` represents a finite map from keys to sectors, a key being the characters
of a name that `strncmp` looks at. The names in entries that are not in use do not count, and no two
entries in use have the same key. `Add` and `Remove` insert and erase, `WriteBack` keeps the map in
the file, and `FetchFrom` goes back to the map that was kept there last.
-/

namespace Nachos

open Program

/-! ## Keys -/

/-- The characters of the string at `s` from index `i` on, at most `n` of them. -/
def charsFrom (s : ℕ → Byte) : ℕ → ℕ → List Byte
  | _, 0 => []
  | i, n + 1 => if s i = 0 then [] else s i :: charsFrom s (i + 1) n

private theorem charsFrom_congr {s s' : ℕ → Byte} (n i : ℕ)
    (h : ∀ x, i ≤ x → x < i + n → s x = s' x) : charsFrom s i n = charsFrom s' i n := by
  induction n generalizing i with
  | zero => rfl
  | succ n ih =>
    rw [charsFrom, charsFrom, h i (Nat.le_refl i) (by omega),
      ih (i + 1) fun x hx hx' ↦ h x (by omega) (by omega)]

/-- `strncmp` compares the characters up to the end of the string. -/
theorem strncmpFrom_eq_zero_iff (s t : ℕ → Byte) (n i : ℕ) :
    strncmpFrom s t i n = 0 ↔ charsFrom s i n = charsFrom t i n := by
  induction n generalizing i with
  | zero => exact ⟨fun _ ↦ rfl, fun _ ↦ rfl⟩
  | succ n ih =>
    rw [strncmpFrom, charsFrom, charsFrom]
    by_cases hne : s i = t i
    · rw [if_neg (not_not.mpr hne), hne]
      by_cases hzero : t i = 0
      · rw [if_pos hzero, if_pos hzero, if_pos hzero]
        exact ⟨fun _ ↦ rfl, fun _ ↦ rfl⟩
      · rw [if_neg hzero, if_neg hzero, if_neg hzero, ih (i + 1), List.cons.injEq]
        exact ⟨fun h ↦ ⟨rfl, h⟩, fun h ↦ h.2⟩
    · have hnat : (s i).toNat ≠ (t i).toNat := fun h ↦ hne (BitVec.eq_of_toNat_eq h)
      rw [if_pos hne]
      refine ⟨fun h ↦ absurd h (by omega), fun h ↦ ?_⟩
      split at h
      · rename_i hs
        split at h
        · rename_i ht
          exact absurd (hs.trans ht.symm) hne
        · cases h
      · split at h
        · cases h
        · exact absurd (List.cons.inj h).1 hne

private theorem charsFrom_cstr (name : List Byte) (n i : ℕ) :
    charsFrom (cstr name) i n = ((name.drop i).takeWhile (· ≠ 0)).take n := by
  induction n generalizing i with
  | zero => rw [List.take_zero, charsFrom]
  | succ n ih =>
    rw [charsFrom]
    by_cases hi : i < name.length
    · have hchar : cstr name i = name[i] := by
        rw [cstr, List.getD_eq_getElem?_getD, List.getElem?_eq_getElem hi, Option.getD_some]
      rw [List.drop_eq_getElem_cons hi, List.takeWhile_cons, hchar]
      by_cases hzero : name[i] = 0
      · rw [if_pos hzero, hzero]
        rfl
      · rw [if_neg hzero, ih (i + 1), if_pos (decide_eq_true hzero), List.take_succ_cons]
    · have hchar : cstr name i = 0 := by
        rw [cstr, List.getD_eq_getElem?_getD, List.getElem?_eq_none (Nat.not_lt.mp hi),
          Option.getD_none]
      rw [if_pos hchar, List.drop_of_length_le (Nat.not_lt.mp hi)]
      rfl

namespace Directory

/-- The key of a name: its first nine characters. -/
def key (name : List Byte) : List Byte := (name.takeWhile (· ≠ 0)).take fileNameMaxLen

/-- The key in entry `i`. -/
def entryKey (dir : Directory) (i : ℕ) : List Byte := charsFrom (dir.name i) 0 fileNameMaxLen

theorem key_eq (name : List Byte) : key name = charsFrom (cstr name) 0 fileNameMaxLen := by
  rw [charsFrom_cstr, List.drop_zero, key]

section keys

variable {dir dir' : Directory} {name : List Byte} {i j : ℕ}

theorem holds_iff : dir.Holds name i ↔ dir.inUse i = true ∧ dir.entryKey i = key name := by
  rw [Holds, strncmp, strncmpFrom_eq_zero_iff, ← key_eq, entryKey]

/-- The name that `Add` stores matches the names with its key. -/
theorem strncmp_strncpy_eq_zero_iff (name name' : List Byte) :
    strncmp (strncpy (cstr name)) (cstr name') fileNameMaxLen = 0 ↔ key name = key name' := by
  rw [strncmp, strncmpFrom_eq_zero_iff, ← key_eq, key_eq name,
    ← (strncmpFrom_eq_zero_iff _ _ _ _).mp (strncmp_strncpy (cstr name) fileNameMaxLen)]

theorem entryKey_congr (h : ∀ x < 9, dir.name i x = dir'.name j x) :
    dir.entryKey i = dir'.entryKey j :=
  charsFrom_congr _ 0 fun x _ hx ↦ h x (by simpa using hx)

theorem entryKey_setInUse (value : Bool) : (dir.setInUse i value).entryKey j = dir.entryKey j :=
  entryKey_congr fun _ hx ↦ name_setInUse dir i j value (Nat.lt_succ_of_lt hx)

theorem entryKey_put_of_ne (newSector : Word) (h : j ≠ i) :
    (dir.put i name newSector).entryKey j = dir.entryKey j :=
  entryKey_congr fun _ hx ↦ name_put_of_ne dir name newSector h (Nat.lt_succ_of_lt hx)

/-- The entry that `Add` fills in has the key of the name. -/
theorem entryKey_put_self (newSector : Word) :
    (dir.put i name newSector).entryKey i = key name := by
  rw [key_eq, ← (strncmpFrom_eq_zero_iff _ _ _ _).mp (strncmp_strncpy (cstr name) fileNameMaxLen)]
  exact charsFrom_congr _ 0 fun x _ hx ↦ name_put_self dir i name newSector (by simpa using hx)

theorem Same.entryKey (h : dir.Same dir') (hi : i < dir.tableSize) :
    dir.entryKey i = dir'.entryKey i :=
  entryKey_congr fun _ hx ↦ h.name hi (Nat.lt_succ_of_lt hx)

end keys

/-! ## The map -/

/-- Keys and the sectors they are mapped to. -/
abbrev Contents := Finmap fun _ : List Byte ↦ Word

/-- The table represents the map. -/
structure Represents (dir : Directory) (m : Contents) : Prop where
  distinct : ∀ i < dir.tableSize, ∀ j < dir.tableSize, dir.inUse i = true → dir.inUse j = true →
    dir.entryKey i = dir.entryKey j → i = j
  lookup_iff : ∀ c s, m.lookup c = some s ↔
    ∃ i < dir.tableSize, dir.inUse i = true ∧ dir.entryKey i = c ∧ dir.sector i = s

/-- With no entry in use there are no keys. -/
theorem represents_empty {dir : Directory} (hfree : ∀ i < dir.tableSize, dir.inUse i = false) :
    dir.Represents ∅ := by
  constructor
  · intro i hi j _ hused
    exact absurd hused (by simp [hfree i hi])
  · intro c s
    rw [Finmap.lookup_empty]
    constructor
    · intro h
      cases h
    · rintro ⟨i, hi, hused, -⟩
      exact absurd hused (by simp [hfree i hi])

theorem represents_create (size : ℕ) (junk : ℕ → Byte) : (create size junk).Represents ∅ :=
  represents_empty fun _ hi ↦ inUse_create junk hi

section represents

variable {dir dir' : Directory} {m : Contents} (h : dir.Represents m) {name : List Byte}

include h

theorem Represents.congr (hsame : dir'.Same dir) : dir'.Represents m := by
  have hsize := hsame.tableSize
  constructor
  · intro i hi j hj hi' hj' heq
    rw [hsame.inUse hi] at hi'
    rw [hsame.inUse hj] at hj'
    rw [hsame.entryKey hi, hsame.entryKey hj] at heq
    exact h.distinct i (hsize ▸ hi) j (hsize ▸ hj) hi' hj' heq
  · intro c s
    rw [h.lookup_iff, hsize]
    refine exists_congr fun i ↦ and_congr_right fun hi ↦ ?_
    rw [hsame.inUse (hsize ▸ hi), hsame.entryKey (hsize ▸ hi), hsame.sector (hsize ▸ hi)]

theorem Represents.mem_iff (c : List Byte) :
    c ∈ m ↔ ∃ i < dir.tableSize, dir.inUse i = true ∧ dir.entryKey i = c := by
  rw [Finmap.mem_iff]
  constructor
  · rintro ⟨s, hs⟩
    obtain ⟨i, hi, hused, hkey, -⟩ := (h.lookup_iff c s).mp hs
    exact ⟨i, hi, hused, hkey⟩
  · rintro ⟨i, hi, hused, hkey⟩
    exact ⟨_, (h.lookup_iff c _).mpr ⟨i, hi, hused, hkey, rfl⟩⟩

/-- `FindIndex` finds the entry of a key that is present. -/
theorem Represents.findIndex_cases (name : List Byte) :
    (∃ k < dir.tableSize, dir.inUse k = true ∧ dir.entryKey k = key name ∧
      dir.findIndex name = k ∧ key name ∈ m) ∨
    (dir.findIndex name = -1 ∧ key name ∉ m) := by
  rcases dir.findIndex_cases name with ⟨k, hk, hholds, -, hfind⟩ | ⟨hnone, hfind⟩
  · obtain ⟨hused, hkey⟩ := holds_iff.mp hholds
    exact .inl ⟨k, hk, hused, hkey, hfind, (h.mem_iff _).mpr ⟨k, hk, hused, hkey⟩⟩
  · refine .inr ⟨hfind, fun hmem ↦ ?_⟩
    obtain ⟨i, hi, hused, hkey⟩ := (h.mem_iff _).mp hmem
    exact hnone i hi (holds_iff.mpr ⟨hused, hkey⟩)

/-- `Find` looks the key up. -/
theorem Represents.find_eq (name : List Byte) :
    dir.find name = (m.lookup (key name)).elim (-1) BitVec.toInt := by
  rw [find]
  rcases h.findIndex_cases name with ⟨k, hk, hused, hkey, hfind, -⟩ | ⟨hfind, hmem⟩
  · rw [hfind, if_pos (by omega), Int.toNat_natCast,
      (h.lookup_iff (key name) (dir.sector k)).mpr ⟨k, hk, hused, hkey, rfl⟩]
    rfl
  · rw [hfind, if_neg (not_not.mpr rfl), Finmap.lookup_eq_none.mpr hmem]
    rfl

/-- There are as many keys as entries in use. -/
theorem Represents.card_keys :
    m.keys.card = ((Finset.range dir.tableSize).filter fun i ↦ dir.inUse i = true).card := by
  have hkeys : m.keys =
      ((Finset.range dir.tableSize).filter fun i ↦ dir.inUse i = true).image dir.entryKey := by
    ext c
    rw [Finmap.mem_keys, h.mem_iff]
    simp [and_assoc]
  rw [hkeys, Finset.card_image_of_injOn]
  intro i hi j hj heq
  simp only [Finset.coe_filter, Finset.mem_range, Set.mem_ofPred_eq] at hi hj
  exact h.distinct i hi.1 j hj.1 hi.2 hj.2 heq

theorem Represents.full_iff :
    m.keys.card = dir.tableSize ↔ ∀ i < dir.tableSize, dir.inUse i = true := by
  have hiff := Finset.card_filter_eq_iff (s := Finset.range dir.tableSize)
    (p := fun i ↦ dir.inUse i = true)
  rw [Finset.card_range] at hiff
  rw [h.card_keys, hiff]
  simp only [Finset.mem_range]

/-- A free entry filled in under a new key. -/
theorem Represents.put {k : ℕ} (hk : k < dir.tableSize) (hfree : dir.inUse k = false)
    (hnew : key name ∉ m) (newSector : Word) :
    (dir.put k name newSector).Represents (m.insert (key name) newSector) := by
  have hother : ∀ i, dir.inUse i = true → i ≠ k := by
    rintro i hused rfl
    rw [hfree] at hused
    cases hused
  have hkeys : ∀ i < dir.tableSize, dir.inUse i = true → dir.entryKey i ≠ key name :=
    fun i hi hused heq ↦ hnew ((h.mem_iff _).mpr ⟨i, hi, hused, heq⟩)
  -- an entry in use is the new one, or was in use and is unchanged
  have hcases : ∀ i, (dir.put k name newSector).inUse i = true → i = k ∨
      i ≠ k ∧ dir.inUse i = true ∧ (dir.put k name newSector).entryKey i = dir.entryKey i := by
    intro i hused
    by_cases hik : i = k
    · exact .inl hik
    · rw [inUse_put_of_ne dir name newSector hik] at hused
      exact .inr ⟨hik, hused, entryKey_put_of_ne newSector hik⟩
  constructor
  · intro i hi j hj hi' hj' heq
    rcases hcases i hi' with rfl | ⟨-, hused, hkey⟩
    · rcases hcases j hj' with rfl | ⟨-, hused', hkey'⟩
      · rfl
      · rw [entryKey_put_self, hkey'] at heq
        exact absurd heq.symm (hkeys j hj hused')
    · rcases hcases j hj' with rfl | ⟨-, hused', hkey'⟩
      · rw [entryKey_put_self, hkey] at heq
        exact absurd heq (hkeys i hi hused)
      · rw [hkey, hkey'] at heq
        exact h.distinct i hi j hj hused hused' heq
  · intro c s
    by_cases hc : c = key name
    · subst hc
      rw [Finmap.lookup_insert]
      constructor
      · rintro ⟨⟩
        exact ⟨k, hk, inUse_put_self dir k name newSector, entryKey_put_self newSector,
          sector_put_self dir k name newSector⟩
      · rintro ⟨i, hi, hused, hkey, rfl⟩
        rcases hcases i hused with rfl | ⟨-, hi', hkey'⟩
        · rw [sector_put_self]
        · exact absurd (hkey'.symm.trans hkey) (hkeys i hi hi')
    · rw [Finmap.lookup_insert_of_ne m hc, h.lookup_iff]
      refine exists_congr fun i ↦ and_congr_right fun hi ↦ ?_
      by_cases hik : i = k
      · subst hik
        rw [entryKey_put_self, hfree]
        constructor
        · rintro ⟨hfalse, -⟩
          cases hfalse
        · rintro ⟨-, hkey, -⟩
          exact absurd hkey.symm hc
      · rw [inUse_put_of_ne dir name newSector hik, entryKey_put_of_ne newSector hik,
          sector_put_of_ne dir name newSector hik]

/-- An entry in use given up. -/
theorem Represents.clear {k : ℕ} (hk : k < dir.tableSize) (hused : dir.inUse k = true)
    (hkey : dir.entryKey k = key name) :
    (dir.setInUse k false).Represents (m.erase (key name)) := by
  have hcases : ∀ i, (dir.setInUse k false).inUse i = true ↔ i ≠ k ∧ dir.inUse i = true := by
    intro i
    rw [inUse_setInUse]
    by_cases hik : i = k
    · simp [hik]
    · simp [hik]
  constructor
  · intro i hi j hj hi' hj' heq
    rw [entryKey_setInUse, entryKey_setInUse] at heq
    exact h.distinct i hi j hj ((hcases i).mp hi').2 ((hcases j).mp hj').2 heq
  · intro c s
    by_cases hc : c = key name
    · subst hc
      rw [Finmap.lookup_erase]
      constructor
      · intro h
        cases h
      · rintro ⟨i, hi, hi', hkey', -⟩
        rw [entryKey_setInUse] at hkey'
        obtain ⟨hik, hi'⟩ := (hcases i).mp hi'
        exact absurd (h.distinct i hi k hk hi' hused (hkey'.trans hkey.symm)) hik
    · rw [Finmap.lookup_erase_ne hc, h.lookup_iff]
      refine exists_congr fun i ↦ and_congr_right fun hi ↦ ?_
      rw [hcases, entryKey_setInUse, sector_setInUse]
      refine ⟨fun ⟨hi', hkey', hs⟩ ↦ ⟨⟨?_, hi'⟩, hkey', hs⟩, fun ⟨hi', hrest⟩ ↦ ⟨hi'.2, hrest⟩⟩
      rintro rfl
      exact hc (hkey'.symm.trans hkey)

end represents

/-! ## Operations on the map -/

/-- Insert unless the key is there or there are `size` keys. -/
def Contents.add (size : ℕ) (m : Contents) (name : List Byte) (newSector : Word) :
    Bool × Contents :=
  if key name ∈ m ∨ m.keys.card = size then (false, m)
  else (true, m.insert (key name) newSector)

/-- Erase a key that is there. -/
def Contents.remove (m : Contents) (name : List Byte) : Bool × Contents :=
  if key name ∈ m then (true, m.erase (key name)) else (false, m)

section operations

variable {dir : Directory} {m : Contents} (h : dir.Represents m) (name : List Byte)

include h

theorem Represents.add (newSector : Word) :
    (dir.add name newSector).1 = (m.add dir.tableSize name newSector).1 ∧
      (dir.add name newSector).2.Represents (m.add dir.tableSize name newSector).2 ∧
      (dir.add name newSector).2.tableSize = dir.tableSize ∧
      ((dir.add name newSector).1 = false → (dir.add name newSector).2 = dir) := by
  rw [Contents.add]
  rcases h.findIndex_cases name with ⟨k, -, -, -, hfind, hmem⟩ | ⟨hfind, hmem⟩
  · rw [Directory.add, hfind, if_pos (by omega), if_pos (.inl hmem)]
    exact ⟨rfl, h, rfl, fun _ ↦ rfl⟩
  · rcases add_cases newSector hfind with ⟨k, hk, hfree, -, hadd⟩ | ⟨hall, hadd⟩
    · have hroom : ¬(key name ∈ m ∨ m.keys.card = dir.tableSize) := by
        rintro (hmem' | hfull)
        · exact hmem hmem'
        · exact absurd (h.full_iff.mp hfull k hk) (by simp [hfree])
      rw [hadd, if_neg hroom]
      exact ⟨rfl, h.put hk hfree hmem newSector, rfl, fun hfalse ↦ Bool.noConfusion hfalse⟩
    · rw [hadd, if_pos (.inr (h.full_iff.mpr hall))]
      exact ⟨rfl, h, rfl, fun _ ↦ rfl⟩

theorem Represents.remove :
    (dir.remove name).1 = (m.remove name).1 ∧ (dir.remove name).2.Represents (m.remove name).2 ∧
      (dir.remove name).2.tableSize = dir.tableSize ∧
      ((dir.remove name).1 = false → (dir.remove name).2 = dir) := by
  rw [Contents.remove, Directory.remove]
  rcases h.findIndex_cases name with ⟨k, hk, hused, hkey, hfind, hmem⟩ | ⟨hfind, hmem⟩
  · rw [hfind, if_neg (by omega), if_pos hmem, Int.toNat_natCast]
    exact ⟨rfl, h.clear hk hused hkey, rfl, fun hfalse ↦ Bool.noConfusion hfalse⟩
  · rw [hfind, if_pos rfl, if_neg hmem]
    exact ⟨rfl, h, rfl, fun _ ↦ rfl⟩

end operations

/-! ## Sequences of operations -/

/-- The operations of a directory; `junk` is what the buffer of a transfer holds at first. -/
inductive Op where
  | add (name : List Byte) (newSector : Word)
  | remove (name : List Byte)
  | writeBack (junk : ℕ → Byte)
  | fetchFrom (junk : ℕ → Byte)

/-- Does the operation go to the file? -/
def Op.usesFile : Op → Bool
  | .add _ _ => false
  | .remove _ => false
  | .writeBack _ => true
  | .fetchFrom _ => true

/-- An operation on the directory and the disk, with what it returns, if anything. -/
def Op.exec (file : FileHeader) (dir : Directory) : Op → DiskM (Option Bool × Directory)
  | .add name newSector => return (some (dir.add name newSector).1, (dir.add name newSector).2)
  | .remove name => return (some (dir.remove name).1, (dir.remove name).2)
  | .writeBack junk => do
    dir.writeBack file junk
    return (none, dir)
  | .fetchFrom junk => do
    let dir' ← dir.fetchFrom file junk
    return (none, dir')

/-- A sequence of operations, with what they return. -/
def execAll (file : FileHeader) (ops : List Op) (dir : Directory) :
    DiskM (List (Option Bool) × Directory) :=
  Program.execAll (Op.exec file) ops dir

/-- The map, and the one that was written back last. -/
structure Ledger where
  contents : Contents
  saved : Option Contents

/-- What an operation does to the map, and returns. -/
def Op.apply (size : ℕ) (l : Ledger) : Op → Option Bool × Ledger
  | .add name newSector =>
    (some (l.contents.add size name newSector).1,
      { l with contents := (l.contents.add size name newSector).2 })
  | .remove name =>
    (some (l.contents.remove name).1, { l with contents := (l.contents.remove name).2 })
  | .writeBack _ => (none, { l with saved := some l.contents })
  | .fetchFrom _ => (none, { l with contents := l.saved.getD l.contents })

def applyAll (size : ℕ) (ops : List Op) (l : Ledger) : List (Option Bool) × Ledger :=
  Program.execAll (m := Id) (Op.apply size) ops l

/-- Every `FetchFrom` comes after a `WriteBack`; `written` says whether there was one before. -/
def WrittenFirst : Bool → List Op → Prop
  | _, [] => True
  | _, .writeBack _ :: ops => WrittenFirst true ops
  | written, .fetchFrom _ :: ops => written = true ∧ WrittenFirst written ops
  | written, .add _ _ :: ops => WrittenFirst written ops
  | written, .remove _ :: ops => WrittenFirst written ops

/-- The directory and the file, against the map and the one written back. -/
structure Follows (size : ℕ) (file : FileHeader) (dir : Directory) (d : Disk) (l : Ledger) :
    Prop where
  tableSize : dir.tableSize = size
  represents : dir.Represents l.contents
  saved : ∀ m, l.saved = some m → (stored file size d).Represents m

section sequences

variable {size : ℕ} {file : FileHeader}

/-- One operation. -/
theorem Follows.exec {dir : Directory} {d : Disk} {l : Ledger} (h : Follows size file dir d l)
    {op : Op} (hfile : op.usesFile = true → file.Valid ∧ file.length = entrySize * size)
    (hwritten : ∀ junk, op = .fetchFrom junk → l.saved.isSome = true) :
    ∃ dir' d', op.exec file dir d = .ok ((op.apply size l).1, dir') d' ∧
      Follows size file dir' d' (op.apply size l).2 := by
  obtain ⟨rfl, hrep, hsaved⟩ := h
  cases op with
  | add name newSector =>
    obtain ⟨hanswer, hrep', hsize, -⟩ := hrep.add name newSector
    refine ⟨_, d, ?_, hsize, hrep', hsaved⟩
    rw [Op.exec, hanswer]
    rfl
  | remove name =>
    obtain ⟨hanswer, hrep', hsize, -⟩ := hrep.remove name
    refine ⟨_, d, ?_, hsize, hrep', hsaved⟩
    rw [Op.exec, hanswer]
    rfl
  | writeBack junk =>
    obtain ⟨hvalid, hlength⟩ := hfile rfl
    obtain ⟨d', hrun, hsame, -⟩ := writeBack_eq hvalid dir hlength junk d
    refine ⟨dir, d', ?_, rfl, hrep, ?_⟩
    · rw [Op.exec, bind_of_ok hrun]
      rfl
    · rintro m ⟨⟩
      exact hrep.congr hsame
  | fetchFrom junk =>
    obtain ⟨hvalid, hlength⟩ := hfile rfl
    obtain ⟨m, hm⟩ := Option.isSome_iff_exists.mp (hwritten junk rfl)
    obtain ⟨dir', hrun, hsame⟩ := fetchFrom_eq hvalid dir hlength junk d
    refine ⟨dir', d, ?_, hsame.tableSize, ?_, hsaved⟩
    · rw [Op.exec, bind_of_ok hrun]
      rfl
    · rw [Op.apply, hm]
      exact (hsaved m hm).congr hsame

/-- What is left of a sequence in which every `FetchFrom` comes after a `WriteBack`. -/
theorem WrittenFirst.tail {op : Op} {ops : List Op} {l : Ledger}
    (h : WrittenFirst l.saved.isSome (op :: ops)) :
    WrittenFirst (op.apply size l).2.saved.isSome ops := by
  cases op with
  | add name newSector => exact h
  | remove name => exact h
  | writeBack junk => exact h
  | fetchFrom junk => exact h.2

/-- A sequence of operations. -/
theorem Follows.execAll {ops : List Op} {dir : Directory} {d : Disk} {l : Ledger}
    (h : Follows size file dir d l)
    (hfile : ∀ op ∈ ops, op.usesFile = true → file.Valid ∧ file.length = entrySize * size)
    (hwritten : WrittenFirst l.saved.isSome ops) :
    ∃ dir' d', execAll file ops dir d = .ok ((applyAll size ops l).1, dir') d' ∧
      Follows size file dir' d' (applyAll size ops l).2 := by
  obtain ⟨answers, c', l', hrun, happly, hfollows, -⟩ := Steps.simulates
    (fun (c : Directory × Disk) op answer c' ↦ op.exec file c.1 c.2 = .ok (answer, c'.1) c'.2)
    (fun l op answer l' ↦ op.apply size l = (answer, l'))
    (fun (c : Directory × Disk) l ops ↦ Follows size file c.1 c.2 l ∧
      (∀ op ∈ ops, op.usesFile = true → file.Valid ∧ file.length = entrySize * size) ∧
      WrittenFirst l.saved.isSome ops)
    (fun c l op ops hR ↦ by
      obtain ⟨hfollows, hfile, hwritten⟩ := hR
      have hfetch : ∀ junk, op = .fetchFrom junk → l.saved.isSome = true := by
        rintro junk rfl
        exact hwritten.1
      obtain ⟨hnow, hlater⟩ := List.forall_mem_cons.mp hfile
      obtain ⟨dir₁, d₁, hrun, hfollows₁⟩ := hfollows.exec hnow hfetch
      exact ⟨_, (dir₁, d₁), _, hrun, rfl, hfollows₁, hlater, hwritten.tail⟩)
    (s := (dir, d)) (t := l) ops ⟨h, hfile, hwritten⟩
  have hanswers : applyAll size ops l = (answers, l') := happly.execAll_pure
  rw [hanswers]
  exact ⟨c'.1, c'.2, hrun.execAll_ok, hfollows⟩

end sequences

/-- What a caller sees of a directory that is a finite map. -/
structure IsMap (dir : Directory) (m : Contents) : Prop where
  find : ∀ name, dir.find name = (m.lookup (key name)).elim (-1) BitVec.toInt
  add_refused : ∀ name newSector, (dir.add name newSector).1 = false ↔
    key name ∈ m ∨ ∀ i < dir.tableSize, dir.inUse i = true
  add_unchanged : ∀ name newSector, (dir.add name newSector).1 = false →
    (dir.add name newSector).2 = dir
  remove_refused : ∀ name, (dir.remove name).1 = false ↔ key name ∉ m
  remove_unchanged : ∀ name, (dir.remove name).1 = false → (dir.remove name).2 = dir
  distinct : ∀ i < dir.tableSize, ∀ j < dir.tableSize, dir.inUse i = true → dir.inUse j = true →
    dir.entryKey i = dir.entryKey j → i = j

theorem Represents.isMap {dir : Directory} {m : Contents} (h : dir.Represents m) : dir.IsMap m where
  find := h.find_eq
  add_refused name newSector := by
    rw [(h.add name newSector).1, ← h.full_iff, Contents.add]
    by_cases hc : key name ∈ m ∨ m.keys.card = dir.tableSize
    · rw [if_pos hc]
      exact ⟨fun _ ↦ hc, fun _ ↦ rfl⟩
    · rw [if_neg hc]
      exact ⟨fun hfalse ↦ absurd hfalse Bool.noConfusion, fun hc' ↦ absurd hc' hc⟩
  add_unchanged name newSector := (h.add name newSector).2.2.2
  remove_refused name := by
    rw [(h.remove name).1, Contents.remove]
    by_cases hc : key name ∈ m
    · rw [if_pos hc]
      exact ⟨fun hfalse ↦ absurd hfalse Bool.noConfusion, fun hc' ↦ absurd hc hc'⟩
    · rw [if_neg hc]
      exact ⟨fun _ ↦ hc, fun _ ↦ rfl⟩
  remove_unchanged name := (h.remove name).2.2.2
  distinct := h.distinct

/-- **A directory is a finite map.** However many entries it has, and whatever sequence of
operations follows its creation: the operations return what they return on a finite map of at most
`size` keys, and the directory they leave behaves like that map. -/
theorem directory_isMap (size : ℕ) (file : FileHeader) {ops : List Op}
    (hfile : ∀ op ∈ ops, op.usesFile = true → file.Valid ∧ file.length = entrySize * size)
    (hwritten : WrittenFirst false ops) (junk : ℕ → Byte) (d : Disk) :
    ∃ dir d', execAll file ops (create size junk) d
        = .ok ((applyAll size ops ⟨∅, none⟩).1, dir) d' ∧
      dir.tableSize = size ∧ dir.IsMap (applyAll size ops ⟨∅, none⟩).2.contents := by
  have hstart : Follows size file (create size junk) d ⟨∅, none⟩ :=
    ⟨rfl, represents_create size junk, fun m hm ↦ nomatch hm⟩
  obtain ⟨dir, d', hrun, hfollows⟩ := hstart.execAll hfile hwritten
  exact ⟨dir, d', hrun, hfollows.tableSize, hfollows.represents.isMap⟩

theorem small_ten (ops : List Op) : ∀ op ∈ ops, op.usesFile = true →
    FileHeader.small.Valid ∧ FileHeader.small.length = entrySize * 10 :=
  fun _ _ _ ↦ ⟨FileHeader.small_valid, rfl⟩

/-- A removal taken back by fetching the directory again. -/
theorem directory_isMap_small :
    ∃ dir d', execAll FileHeader.small
        [.add [97] 5, .writeBack fun _ ↦ 0, .remove [97], .fetchFrom fun _ ↦ 0]
        (create 10 fun _ ↦ 0) (fun _ _ ↦ 0)
        = .ok ([some true, none, some true, none], dir) d' ∧ dir.find [97] = 5 := by
  obtain ⟨dir, d', hrun, -, hmap⟩ := directory_isMap 10 FileHeader.small
    (small_ten [.add [97] 5, .writeBack fun _ ↦ 0, .remove [97], .fetchFrom fun _ ↦ 0])
    ⟨rfl, trivial⟩ (fun _ ↦ 0) (fun _ _ ↦ 0)
  exact ⟨dir, d', hrun, (hmap.find [97]).trans (by decide +kernel)⟩

/-- An addition lost the same way: it returned `TRUE`, nothing was removed, and the name is not
found. -/
theorem fetchFrom_forgets :
    ∃ dir d', execAll FileHeader.small
        [.writeBack fun _ ↦ 0, .add [97] 5, .fetchFrom fun _ ↦ 0]
        (create 10 fun _ ↦ 0) (fun _ _ ↦ 0) = .ok ([none, some true, none], dir) d' ∧
      dir.find [97] = -1 := by
  have hstart : Follows 10 FileHeader.small (create 10 fun _ ↦ 0) (fun _ _ ↦ 0) ⟨∅, none⟩ :=
    ⟨rfl, represents_create 10 _, fun m hm ↦ nomatch hm⟩
  obtain ⟨dir, d', hrun, hfollows⟩ := hstart.execAll
    (small_ten [.writeBack fun _ ↦ 0, .add [97] 5, .fetchFrom fun _ ↦ 0]) ⟨rfl, trivial⟩
  exact ⟨dir, d', hrun, (hfollows.represents.find_eq [97]).trans (by decide +kernel)⟩

end Directory

end Nachos
