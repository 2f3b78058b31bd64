import Nachos.FileSys.NameMap
import Nachos.Program.Run

/-!
# Names in directory entries

An entry has ten bytes for its name, nine for characters and one for the terminator. `Add` copies
nine with `strncpy`, which puts a terminator among them if the name is shorter than that. Nobody
writes the tenth byte: it is what was in memory when the table was allocated, and goes to disk and
comes back with the rest. So a name of nine characters or more is terminated only if this byte
happens to be zero, and `List` prints on into the entries behind it otherwise.
-/

namespace Nachos

open Program

/-! ## Strings within a bound -/

/-- A string ends within `n + 1` bytes if it has fewer than `n` characters or a zero behind them. -/
private theorem stringFrom_succ_eq_some_iff (s : ℕ → Byte) (n i : ℕ) (c : List Byte) :
    stringFrom s i (n + 1) = some c ↔ c = charsFrom s i n ∧ (c.length < n ∨ s (i + n) = 0) := by
  induction n generalizing i c with
  | zero =>
    rw [stringFrom, stringFrom, charsFrom]
    by_cases hzero : s i = 0
    · simp [hzero, eq_comm]
    · rw [if_neg hzero]
      exact iff_of_false (fun h ↦ by cases h) fun h ↦ h.2.elim (Nat.not_lt_zero _) hzero
  | succ n ih =>
    rw [stringFrom, charsFrom]
    by_cases hzero : s i = 0
    · rw [if_pos hzero, if_pos hzero, Option.some.injEq, eq_comm]
      refine ⟨fun h ↦ ⟨h, .inl ?_⟩, And.left⟩
      rw [h]
      exact Nat.succ_pos n
    · rw [if_neg hzero, if_neg hzero, Option.map_eq_some_iff]
      simp only [ih (i + 1), Nat.add_right_comm i 1 n]
      constructor
      · rintro ⟨c', ⟨rfl, hend⟩, rfl⟩
        exact ⟨rfl, hend.imp_left Nat.succ_lt_succ⟩
      · rintro ⟨rfl, hend⟩
        exact ⟨_, ⟨rfl, hend.imp_left Nat.lt_of_succ_lt_succ⟩, rfl⟩

private theorem exists_zero_of_stringFrom {s : ℕ → Byte} {n i : ℕ} {c : List Byte}
    (h : stringFrom s i n = some c) : ∃ x < i + n, s x = 0 := by
  induction n generalizing i c with
  | zero => cases h
  | succ n ih =>
    rw [stringFrom] at h
    by_cases hzero : s i = 0
    · exact ⟨i, by omega, hzero⟩
    · rw [if_neg hzero, Option.map_eq_some_iff] at h
      obtain ⟨c', hc', -⟩ := h
      obtain ⟨x, hx, hxzero⟩ := ih hc'
      exact ⟨x, by omega, hxzero⟩

/-- A string that ends within `n` bytes is the same in more of them. -/
private theorem stringFrom_of_le {s : ℕ → Byte} {n m i : ℕ} {c : List Byte}
    (h : stringFrom s i n = some c) (hle : n ≤ m) : stringFrom s i m = some c := by
  induction n generalizing m i c with
  | zero => cases h
  | succ n ih =>
    obtain ⟨m, rfl⟩ := Nat.exists_eq_add_of_le' (Nat.le_trans (Nat.le_add_left 1 n) hle)
    rw [stringFrom] at h ⊢
    by_cases hzero : s i = 0
    · rw [if_pos hzero] at h ⊢
      exact h
    · rw [if_neg hzero, Option.map_eq_some_iff] at h ⊢
      obtain ⟨c', hc', rfl⟩ := h
      exact ⟨c', ih hc' (Nat.le_of_succ_le_succ hle), rfl⟩

namespace Directory

/-! ## Entries that are terminated -/

/-- The name of entry `i` ends within its ten bytes and is `c`. -/
def Spells (dir : Directory) (i : ℕ) (c : List Byte) : Prop :=
  stringFrom (dir.name i) 0 (fileNameMaxLen + 1) = some c

/-- Every entry in use spells the beginning of its name. -/
def Named (dir : Directory) (names : ℕ → List Byte) : Prop :=
  ∀ i < dir.tableSize, dir.inUse i = true → dir.Spells i (key (names i))

/-- What `List` ought to print, from entry `i` on. -/
def linesFrom (dir : Directory) (names : ℕ → List Byte) (i rest : ℕ) : List Byte :=
  ((List.range' i rest).filter dir.inUse).flatMap fun j ↦ key (names j) ++ [10]

/-- The name of every entry in use is terminated and reads as the first nine characters of the name
that it was added under, and `List` prints these names. -/
structure Terminated (dir : Directory) (names : ℕ → List Byte) : Prop where
  nul : ∀ i < dir.tableSize, dir.inUse i = true → ∃ x < 10, dir.name i x = 0
  reads : dir.Named names
  list : dir.list = some (dir.linesFrom names 0 dir.tableSize)

section named

variable {dir dir' : Directory} {names : ℕ → List Byte} {i j : ℕ} {c : List Byte}

theorem spells_iff :
    dir.Spells i c ↔ c = dir.entryKey i ∧ (c.length < fileNameMaxLen ∨ dir.name i 9 = 0) := by
  rw [Spells, stringFrom_succ_eq_some_iff, Nat.zero_add, entryKey]

theorem spells_congr (h : ∀ x < 10, dir.name i x = dir'.name j x) :
    dir.Spells i c ↔ dir'.Spells j c := by
  rw [spells_iff, spells_iff, h 9 (by decide),
    entryKey_congr fun x hx ↦ h x (Nat.lt_succ_of_lt hx)]

private theorem printedName_of_spells (hi : i < dir.tableSize) (h : dir.Spells i c) :
    dir.printedName i = some c := by
  refine stringFrom_of_le h ?_
  simp only [entrySize, fileNameMaxLen]
  omega

/-- The loop of `List`, by induction on the entries that are left. -/
private theorem listFrom_of_named (h : dir.Named names) (rest i : ℕ)
    (hi : i + rest ≤ dir.tableSize) : dir.listFrom i rest = some (dir.linesFrom names i rest) := by
  induction rest generalizing i with
  | zero => rfl
  | succ rest ih =>
    have hrest := ih (i + 1) (by omega)
    rw [listFrom, linesFrom, List.range'_succ, List.filter_cons]
    by_cases hused : dir.inUse i = true
    · rw [if_pos hused, if_pos hused, printedName_of_spells (by omega) (h i (by omega) hused),
        hrest, List.flatMap_cons, List.append_assoc]
      rfl
    · rw [if_neg hused, if_neg hused, hrest]
      rfl

theorem Named.terminated (h : dir.Named names) : dir.Terminated names where
  nul i hi hused := by
    obtain ⟨x, hx, hzero⟩ := exists_zero_of_stringFrom (h i hi hused)
    exact ⟨x, by simpa using hx, hzero⟩
  reads := h
  list := listFrom_of_named h dir.tableSize 0 (by omega)

private theorem named_of_free (h : ∀ i < dir.tableSize, dir.inUse i = false) : dir.Named names := by
  intro i hi hused
  rw [h i hi] at hused
  cases hused

theorem Named.congr (h : dir'.Named names) (hsame : dir.Same dir') : dir.Named names := by
  intro i hi hused
  rw [hsame.inUse hi] at hused
  rw [spells_congr fun x hx ↦ hsame.name hi hx]
  exact h i (hsame.tableSize ▸ hi) hused

end named

/-! ## Operations -/

/-- The names of the entries: one that comes into use has been added under `name`. -/
def entered (dir dir' : Directory) (name : List Byte) (names : ℕ → List Byte) : ℕ → List Byte :=
  fun i ↦ if dir.inUse i = false ∧ dir'.inUse i = true then name else names i

/-- A name goes into the first free entry. It fits if it has fewer than nine characters, or if the
tenth byte of the entry is a zero. -/
def Fits (dir : Directory) (name : List Byte) : Prop :=
  dir.findIndex name = -1 → ∀ k < dir.tableSize, dir.inUse k = false →
    (∀ j < k, dir.inUse j = true) → (key name).length < fileNameMaxLen ∨ dir.name k 9 = 0

section operations

variable {dir : Directory} {names : ℕ → List Byte} (h : dir.Named names) {name : List Byte}

include h

/-- Nothing comes into use. -/
private theorem named_entered_self : dir.Named (dir.entered dir name names) := by
  intro i hi hused
  rw [entered, if_neg (by rw [hused]; exact fun hboth ↦ Bool.noConfusion hboth.1)]
  exact h i hi hused

private theorem named_put_iff {k : ℕ} (hk : k < dir.tableSize) (hfree : dir.inUse k = false)
    (newSector : Word) :
    (dir.put k name newSector).Named (dir.entered (dir.put k name newSector) name names) ↔
      (key name).length < fileNameMaxLen ∨ dir.name k 9 = 0 := by
  -- the new entry
  have hself : (dir.put k name newSector).Spells k
        (key (dir.entered (dir.put k name newSector) name names k)) ↔
      (key name).length < fileNameMaxLen ∨ dir.name k 9 = 0 := by
    rw [entered, if_pos ⟨hfree, inUse_put_self dir k name newSector⟩, spells_iff,
      entryKey_put_self, name_put_self_nine]
    exact and_iff_right rfl
  constructor
  · intro hnamed
    exact hself.mp (hnamed k hk (inUse_put_self dir k name newSector))
  · intro hfits i hi hused
    by_cases hik : i = k
    · rw [hik]
      exact hself.mpr hfits
    · rw [inUse_put_of_ne dir name newSector hik] at hused
      rw [entered, if_neg (by rw [hused]; exact fun hboth ↦ Bool.noConfusion hboth.1),
        spells_congr fun x hx ↦ name_put_of_ne dir name newSector hik hx]
      exact h i hi hused

private theorem named_add_iff (newSector : Word) :
    (dir.add name newSector).2.Named (dir.entered (dir.add name newSector).2 name names) ↔
      dir.Fits name := by
  by_cases hnew : dir.findIndex name = -1
  · rcases add_cases newSector hnew with ⟨k, hk, hfree, hbelow, hadd⟩ | ⟨hall, hadd⟩
    · rw [hadd, named_put_iff h hk hfree]
      refine ⟨fun hfits _ k' _ hfree' hbelow' ↦ ?_, fun hfits ↦ hfits hnew k hk hfree hbelow⟩
      obtain rfl : k' = k := by
        rcases Nat.lt_trichotomy k' k with hlt | heq | hlt
        · exact absurd (hbelow k' hlt) (by simp [hfree'])
        · exact heq
        · exact absurd (hbelow' k hlt) (by simp [hfree])
      exact hfits
    · rw [hadd]
      refine iff_of_true (named_entered_self h) fun _ k hk hfree ↦ ?_
      rw [hall k hk] at hfree
      cases hfree
  · rw [add, if_pos hnew]
    exact iff_of_true (named_entered_self h) fun hnone ↦ absurd hnone hnew

theorem Named.remove (name : List Byte) : (dir.remove name).2.Named names := by
  rw [Directory.remove]
  split
  · exact h
  · intro i hi hused
    rw [inUse_setInUse] at hused
    rw [spells_congr fun x hx ↦ name_setInUse dir _ i false hx]
    split at hused
    · cases hused
    · exact h i hi hused

end operations

/-! ## Runs -/

/-- A directory and the disk, with the name that each entry was added under, and those of the
entries in the file, once it has been written. -/
structure NameState where
  dir : Directory
  disk : Disk
  names : ℕ → List Byte
  saved : Option (ℕ → List Byte)

namespace NameState

variable {file : FileHeader}

/-- A new directory; nothing has been added to it. -/
def initial (size : ℕ) (junk : ℕ → Byte) (d : Disk) : NameState :=
  ⟨create size junk, d, fun _ ↦ [], none⟩

/-- The state after an operation has left `dir` and `d`. -/
def after (s : NameState) (dir : Directory) (d : Disk) : Op → NameState
  | .add name _ => ⟨dir, d, s.dir.entered dir name s.names, s.saved⟩
  | .remove _ => ⟨dir, d, s.names, s.saved⟩
  | .writeBack _ => ⟨dir, d, s.names, some s.names⟩
  | .fetchFrom _ => ⟨dir, d, s.saved.getD s.names, s.saved⟩

def step (file : FileHeader) (s : NameState) (op : Op) : Option NameState :=
  match op.exec file s.dir s.disk with
  | .ok (_, dir) d => some (s.after dir d op)
  | .error _ _ => none

/-- An operation on the file has one of the size of the table, and `FetchFrom` finds there what was
written before. -/
structure Ready (file : FileHeader) (s : NameState) (op : Op) : Prop where
  file : op.usesFile = true → file.Valid ∧ file.length = entrySize * s.dir.tableSize
  written : ∀ junk, op = .fetchFrom junk → s.saved.isSome = true

/-- After the operation, which returns, the names of the entries are terminated. -/
def KeepsNames (file : FileHeader) (s : NameState) (op : Op) : Prop :=
  ∃ s', s.step file op = some s' ∧ s'.dir.Terminated s'.names

/-- The name that is added, if one is, fits. -/
def NameFits (s : NameState) : Op → Prop
  | .add name _ => s.dir.Fits name
  | .remove _ | .writeBack _ | .fetchFrom _ => True

/-- The names are right, in the table and in the file. -/
structure Inv (file : FileHeader) (s : NameState) : Prop where
  named : s.dir.Named s.names
  saved : ∀ names, s.saved = some names → (stored file s.dir.tableSize s.disk).Named names

theorem inv_initial (file : FileHeader) (size : ℕ) (junk : ℕ → Byte) (d : Disk) :
    (initial size junk d).Inv file where
  named := named_of_free fun _ hi ↦ inUse_create junk hi
  saved _ h := by cases h

/-- **One operation.** -/
theorem step_inv {s : NameState} {op : Op} (hs : s.Inv file) (hready : s.Ready file op) :
    ∃ s', s.step file op = some s' ∧ (s'.dir.Named s'.names ↔ s.NameFits op) ∧
      ∀ names, s'.saved = some names → (stored file s'.dir.tableSize s'.disk).Named names := by
  obtain ⟨hnamed, hsaved⟩ := hs
  cases op with
  | add name newSector =>
    refine ⟨_, rfl, named_add_iff hnamed newSector, ?_⟩
    simpa only [after, tableSize_add] using hsaved
  | remove name =>
    refine ⟨_, rfl, iff_of_true (hnamed.remove name) trivial, ?_⟩
    simpa only [after, tableSize_remove] using hsaved
  | writeBack junk =>
    obtain ⟨hvalid, hlength⟩ := hready.file rfl
    obtain ⟨d', hrun, hsame, -⟩ := writeBack_eq hvalid s.dir hlength junk s.disk
    have hexec : (Op.writeBack junk).exec file s.dir s.disk = .ok (none, s.dir) d' := by
      rw [Op.exec, bind_of_ok hrun]
      rfl
    refine ⟨s.after s.dir d' (.writeBack junk), by rw [step, hexec],
      iff_of_true hnamed trivial, ?_⟩
    rintro names ⟨⟩
    exact hnamed.congr hsame
  | fetchFrom junk =>
    obtain ⟨hvalid, hlength⟩ := hready.file rfl
    obtain ⟨names, hnames⟩ := Option.isSome_iff_exists.mp (hready.written junk rfl)
    obtain ⟨dir', hrun, hsame⟩ := fetchFrom_eq hvalid s.dir hlength junk s.disk
    have hexec : (Op.fetchFrom junk).exec file s.dir s.disk = .ok (none, dir') s.disk := by
      rw [Op.exec, bind_of_ok hrun]
      rfl
    refine ⟨s.after dir' s.disk (.fetchFrom junk), by rw [step, hexec],
      iff_of_true ?_ trivial, ?_⟩
    · simp only [after, hnames, Option.getD_some]
      exact (hsaved names hnames).congr hsame
    · simpa only [after, hsame.tableSize, stored] using hsaved

theorem Inv.keepsNames_iff {s : NameState} {op : Op} (hs : s.Inv file) (hready : s.Ready file op) :
    s.KeepsNames file op ↔ s.NameFits op := by
  obtain ⟨s', hstep, hnamed, -⟩ := step_inv hs hready
  rw [← hnamed]
  constructor
  · rintro ⟨s'', hstep', hterminated⟩
    rw [hstep] at hstep'
    cases hstep'
    exact hterminated.reads
  · exact fun h ↦ ⟨s', hstep, h.terminated⟩

theorem Inv.step {s s' : NameState} {op : Op} (hs : s.Inv file) (hready : s.Ready file op)
    (hfits : s.NameFits op) (hstep : s.step file op = some s') : s'.Inv file := by
  obtain ⟨s'', hstep', hnamed, hsaved⟩ := step_inv hs hready
  rw [hstep] at hstep'
  cases hstep'
  exact ⟨hnamed.mpr hfits, hsaved⟩

/-- The table keeps its size, and a file that has been written stays so. -/
theorem step_eq_some {s s' : NameState} {op : Op} (h : s.step file op = some s') :
    s'.dir.tableSize = s.dir.tableSize ∧
      s'.saved = match op with | .writeBack _ => some s.names | _ => s.saved := by
  rw [NameState.step] at h
  split at h
  · rename_i answer dir d hexec
    cases h
    cases op with
    | add name newSector =>
      cases hexec
      exact ⟨tableSize_add _ _ _, rfl⟩
    | remove name =>
      cases hexec
      exact ⟨tableSize_remove _ _, rfl⟩
    | writeBack junk =>
      obtain ⟨_, _, -, hpure⟩ := bind_eq_ok.mp hexec
      cases hpure
      exact ⟨rfl, rfl⟩
    | fetchFrom junk =>
      obtain ⟨dir', _, hfetch, hpure⟩ := bind_eq_ok.mp hexec
      cases hpure
      obtain ⟨_, _, -, hpure⟩ := bind_eq_ok.mp hfetch
      cases hpure
      exact ⟨rfl, rfl⟩
  · cases h

private theorem along_ready {ops : List Op} {s : NameState}
    (hfile : ∀ op ∈ ops, op.usesFile = true →
      file.Valid ∧ file.length = entrySize * s.dir.tableSize)
    (hwritten : WrittenFirst s.saved.isSome ops) :
    Along (NameState.step file) (Ready file) s ops := by
  induction ops generalizing s with
  | nil => exact trivial
  | cons op ops ih =>
    refine ⟨⟨hfile op List.mem_cons_self, ?_⟩, fun s' hstep ↦ ?_⟩
    · rintro junk rfl
      exact hwritten.1
    · obtain ⟨hsize, hsaved⟩ := step_eq_some hstep
      refine ih (fun op' hop' ↦ ?_) ?_
      · rw [hsize]
        exact hfile op' (List.mem_cons_of_mem op hop')
      · rw [hsaved]
        cases op with
        | add name newSector => exact hwritten
        | remove name => exact hwritten
        | writeBack junk => exact hwritten
        | fetchFrom junk => exact hwritten.2

end NameState

/-- **Stored file names are terminated strings** in every state of a run, if and only if every name
of nine characters or more that is added goes to an entry with a zero in its tenth byte. The run
starts with a new table in any memory; `FetchFrom` comes after a `WriteBack`. -/
theorem names_terminated_iff (size : ℕ) (file : FileHeader) {ops : List Op}
    (hfile : ∀ op ∈ ops, op.usesFile = true → file.Valid ∧ file.length = entrySize * size)
    (hwritten : WrittenFirst false ops) (junk : ℕ → Byte) (d : Disk) :
    (NameState.initial size junk d).dir.Terminated (NameState.initial size junk d).names ∧
      (Along (NameState.step file) (NameState.KeepsNames file) (NameState.initial size junk d) ops ↔
        Along (NameState.step file) NameState.NameFits (NameState.initial size junk d) ops) := by
  have hinv := NameState.inv_initial file size junk d
  have hready := NameState.along_ready (s := NameState.initial size junk d) hfile hwritten
  have hiff : Along (NameState.step file) (fun s op ↦ s.Ready file op ∧ s.KeepsNames file op)
        (NameState.initial size junk d) ops ↔
      Along (NameState.step file) (fun s op ↦ s.Ready file op ∧ s.NameFits op)
        (NameState.initial size junk d) ops :=
    along_iff (NameState.Inv file)
      (fun s op hs ↦ and_congr_right fun hready ↦ hs.keepsNames_iff hready)
      (fun s op s' hs hC hstep ↦ hs.step hC.1 hC.2 hstep) hinv
  rw [along_and, along_and] at hiff
  refine ⟨hinv.named.terminated, fun h ↦ ?_, fun h ↦ ?_⟩
  · exact (hiff.mp ⟨hready, h⟩).2
  · exact (hiff.mpr ⟨hready, h⟩).2

/-- Nine letters into new memory that holds ones. -/
theorem nineLetters_not_terminated :
    ¬∀ (size : ℕ) (file : FileHeader) (ops : List Op),
      (∀ op ∈ ops, op.usesFile = true → file.Valid ∧ file.length = entrySize * size) →
      WrittenFirst false ops → ∀ (junk : ℕ → Byte) (d : Disk),
      Along (NameState.step file) (NameState.KeepsNames file)
        (NameState.initial size junk d) ops := by
  intro h
  have hkeeps := h 10 FileHeader.small [.add (List.replicate 9 97) 5]
    (small_ten [.add (List.replicate 9 97) 5]) trivial (fun _ ↦ 1) (fun _ _ ↦ 0)
  obtain ⟨⟨s', hstep, hterminated⟩, -⟩ := hkeeps
  cases hstep
  obtain ⟨x, hx, hzero⟩ := hterminated.nul 0 (by decide) (by decide)
  have hall : ∀ x < 10, ((create 10 fun _ ↦ 1).add (List.replicate 9 97) 5).2.name 0 x ≠ 0 := by
    decide
  exact hall x hx hzero

/-- The same name into memory that holds zeros; its removal is taken back by fetching the directory
again. -/
theorem nineLetters_terminated :
    Along (NameState.step FileHeader.small) (NameState.KeepsNames FileHeader.small)
      (NameState.initial 10 (fun _ ↦ 0) fun _ _ ↦ 0)
      [.add (List.replicate 9 97) 5, .writeBack fun _ ↦ 0, .remove (List.replicate 9 97),
        .fetchFrom fun _ ↦ 0] := by
  refine (names_terminated_iff 10 FileHeader.small
    (small_ten [.add (List.replicate 9 97) 5, .writeBack fun _ ↦ 0, .remove (List.replicate 9 97),
      .fetchFrom fun _ ↦ 0]) ⟨rfl, trivial⟩ (fun _ ↦ 0) (fun _ _ ↦ 0)).2.mpr ?_
  refine ⟨fun _ k _ _ _ ↦ .inr (ite_self 0), fun s₁ _ ↦ ⟨trivial, fun s₂ _ ↦ ⟨trivial, fun s₃ _ ↦
    ⟨trivial, fun _ _ ↦ trivial⟩⟩⟩⟩

end Directory

end Nachos
