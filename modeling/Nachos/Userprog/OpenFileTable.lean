import Nachos.Program.Run
import Nachos.Userprog.Descriptors

/-!
# The open-file table as a table of files, modes and offsets

To a user program a descriptor is a file, the mode it was opened with and an offset in the file.
`FileTable` is that view, with the rules of `Open`, `Close`, `Seek`, `Read` and `Write` on it as a
relation, `FileTable.Step`. The kernel has something else: entries with a descriptor of the host,
whose position `Length` and `Seek` move about, and an offset as a machine word.

`Kernel.table` reads the abstract table off the kernel. It does not look at the host's positions,
and what makes it work is that each call moves the position to the entry's own offset before it
uses it, and that no two entries share a descriptor of the host (`Kernel.FilesInv`).
-/

namespace Nachos

open Program

/-! ## The abstract table -/

/-- What an open descriptor stands for. -/
structure TableEntry where
  file : ℕ
  mode : Word
  offset : ℕ
  deriving DecidableEq, Repr

structure FileTable where
  entries : ℕ → Option TableEntry
  content : ℕ → List Byte

/-- A call on the table. With `Open` comes the file that the host found, if it did; with `Write`,
the bytes. -/
inductive FileRequest where
  | open_ (mode : Word) (found : Option ℕ)
  | close (d : ℕ)
  | seek (d : ℕ) (pos : Word)
  | read (d n : ℕ)
  | write (d : ℕ) (data : List Byte)

/-- The descriptor a call is about; for `Open` the one it returns. -/
def FileRequest.named (q : FileRequest) (result : Word) : ℕ :=
  match q with
  | .open_ _ _ => result.toNat
  | .close d | .seek d _ | .read d _ | .write d _ => d

namespace FileTable

def length (a : FileTable) (file : ℕ) : ℕ := (a.content file).length

def set (a : FileTable) (d : ℕ) (e : Option TableEntry) : FileTable :=
  { a with entries := Function.update a.entries d e }

/-- Every descriptor that `Open` may return is taken. -/
def Full (a : FileTable) : Prop := ∀ i, 2 ≤ i → i < maxFile → a.entries i ≠ none

/-- `i` is the least free descriptor. -/
structure LeastFree (a : FileTable) (i : ℕ) : Prop where
  two_le : 2 ≤ i
  lt : i < maxFile
  free : a.entries i = none
  least : ∀ j, 2 ≤ j → j < i → a.entries j ≠ none

/-- The rules of the calls, with their results. -/
inductive Step : FileTable → FileRequest → FileTable → Word → Prop
  | opened {a : FileTable} {mode : Word} {i file : ℕ} : ModeOk mode → a.LeastFree i →
      Step a (.open_ mode (some file)) (a.set i (some ⟨file, mode, 0⟩)) (BitVec.ofNat 32 i)
  | refused {a : FileTable} {mode : Word} {found : Option ℕ} :
      ¬ModeOk mode ∨ a.Full ∨ found = none → Step a (.open_ mode found) a (-1)
  | closed {a : FileTable} {d : ℕ} {e : TableEntry} : a.entries d = some e →
      Step a (.close d) (a.set d none) 0
  | sought {a : FileTable} {d : ℕ} {e : TableEntry} {pos : Word} : a.entries d = some e →
      0 ≤ pos.toInt → pos.toInt ≤ a.length e.file →
      Step a (.seek d pos) (a.set d (some { e with offset := pos.toNat })) pos
  | soughtEnd {a : FileTable} {d : ℕ} {e : TableEntry} : a.entries d = some e →
      Step a (.seek d (-1)) (a.set d (some { e with offset := a.length e.file }))
        (BitVec.ofNat 32 (a.length e.file))
  | seekRefused {a : FileTable} {d : ℕ} {e : TableEntry} {pos : Word} : a.entries d = some e →
      pos ≠ -1 → ¬(0 ≤ pos.toInt ∧ pos.toInt ≤ a.length e.file) → Step a (.seek d pos) a (-1)
  | read {a : FileTable} {d n : ℕ} {e : TableEntry} : a.entries d = some e →
      Step a (.read d n)
        (a.set d (some { e with offset := e.offset + min n (a.length e.file - e.offset) }))
        (BitVec.ofNat 32 (min n (a.length e.file - e.offset)))
  | written {a : FileTable} {d : ℕ} {e : TableEntry} {data : List Byte} : a.entries d = some e →
      e.mode = 0 →
      Step a (.write d data)
        { a.set d (some { e with offset := e.offset + data.length }) with
          content := Function.update a.content e.file
            (splice (a.content e.file) e.offset data) }
        (BitVec.ofNat 32 data.length)
  | writeRefused {a : FileTable} {d : ℕ} {e : TableEntry} {data : List Byte} :
      a.entries d = some e → e.mode = 1 → Step a (.write d data) a (-1)

/-! ### What the rules say about entries and bytes -/

variable {a a' : FileTable} {q : FileRequest} {result : Word}

private theorem entries_set_of_ne {d j : ℕ} (hj : j ≠ d) (e : Option TableEntry) :
    (a.set d e).entries j = a.entries j := Function.update_of_ne hj _ _

/-- A call changes only the entry it names. -/
theorem Step.entries_of_ne (h : Step a q a' result) {j : ℕ} (hj : j ≠ q.named result) :
    a'.entries j = a.entries j := by
  cases h with
  | opened _ hfree =>
    rw [FileRequest.named, toNat_ofNat_slot hfree.lt] at hj
    exact entries_set_of_ne hj _
  | refused | seekRefused | writeRefused => rfl
  | closed | sought | soughtEnd | read | written => exact entries_set_of_ne hj _

/-- A file's bytes change only through a `Write` on a descriptor opened with mode 0. -/
theorem Step.content_of_ne (h : Step a q a' result) {file : ℕ}
    (hne : a'.content file ≠ a.content file) :
    ∃ d data e, q = .write d data ∧ a.entries d = some e ∧ e.file = file ∧ e.mode = 0 := by
  cases h with
  | @written d e data he hmode =>
    refine ⟨d, data, e, rfl, he, ?_, hmode⟩
    by_contra hfile
    exact hne (Function.update_of_ne (Ne.symm hfile) _ _)
  | opened | refused | closed | sought | soughtEnd | seekRefused | read | writeRefused =>
    exact absurd rfl hne

/-- `Open` fails exactly for a bad mode, a full table or a refusal of the host. -/
theorem Step.open_refused_iff {mode : Word} {found : Option ℕ}
    (h : Step a (.open_ mode found) a' result) :
    result = -1 ↔ ¬ModeOk mode ∨ a.Full ∨ found = none := by
  cases h with
  | opened hmode hfree =>
    refine iff_of_false (slot_ne_neg_one hfree.lt) ?_
    rintro (hno | hfull | hnone)
    · exact hno hmode
    · exact hfull _ hfree.two_le hfree.lt hfree.free
    · cases hnone
  | refused h => exact iff_of_true rfl h

/-- A call by the rules, with what they imply for the other entries, for the bytes of the files and
for a refused `Open`. -/
structure Follows (a : FileTable) (q : FileRequest) (a' : FileTable) (result : Word) : Prop where
  step : Step a q a' result
  others : ∀ j, j ≠ q.named result → a'.entries j = a.entries j
  bytes : ∀ file, a'.content file ≠ a.content file →
    ∃ d data e, q = .write d data ∧ a.entries d = some e ∧ e.file = file ∧ e.mode = 0
  refused : ∀ mode found, q = .open_ mode found →
    (result = -1 ↔ ¬ModeOk mode ∨ a.Full ∨ found = none)

theorem Step.follows (h : Step a q a' result) : Follows a q a' result where
  step := h
  others _ hj := h.entries_of_ne hj
  bytes _ hne := h.content_of_ne hne
  refused _ _ hq := by
    subst hq
    exact h.open_refused_iff

end FileTable

/-! ## The table of the kernel -/

/-- The file behind a handle of the host. -/
def Handle.ino : Handle → Option ℕ
  | .file ino _ => some ino
  | .stream => none

/-- The file behind a descriptor of the host. -/
def Host.inode (h : Host) (fd : Word) : Option ℕ := (h.fds fd).bind Handle.ino

def Kernel.entryOf (k : Kernel) (f : OpenFile) : Option TableEntry :=
  (k.host.inode f.file).map fun ino ↦ ⟨ino, f.type, f.currentOffset.toNat⟩

/-- The abstract table of a kernel. -/
def Kernel.table (k : Kernel) : FileTable where
  entries i := (k.openfile i).bind k.entryOf
  content := k.host.content

/-- What keeps the abstract table and the kernel together. -/
structure Kernel.FilesInv (k : Kernel) : Prop where
  regular : ∀ i f, k.openfile i = some f → ∃ ino, k.host.inode f.file = some ino ∧
    (k.host.content ino).length < offsetLimit ∧ f.currentOffset.toNat < offsetLimit
  mode : ∀ i f, k.openfile i = some f → ModeOk f.type
  distinct : ∀ i j f g, k.openfile i = some f → k.openfile j = some g → f.file = g.file → i = j

namespace Host

variable {h : Host} {fd : Word} {ino : ℕ}

theorem inode_eq_some : h.inode fd = some ino ↔ ∃ pos, h.fds fd = some (.file ino pos) := by
  rw [inode]
  cases hfd : h.fds fd with
  | none => simp
  | some handle => cases handle <;> simp [Handle.ino]

theorem inode_setFd_of_ne {fd' : Word} (hne : fd ≠ fd') (handle : Option Handle) :
    (h.setFd fd' handle).inode fd = h.inode fd := by
  rw [inode, inode, fds_setFd, Function.update_of_ne hne]

theorem inode_setFd_self (pos : ℕ) : (h.setFd fd (some (.file ino pos))).inode fd = some ino := by
  rw [inode, fds_setFd, Function.update_self]
  rfl

/-- Moving a position does not change what is behind a descriptor. -/
theorem inode_setFd_file (hino : h.inode fd = some ino) (pos : ℕ) :
    (h.setFd fd (some (.file ino pos))).inode = h.inode := by
  funext fd'
  by_cases hfd : fd' = fd
  · rw [hfd, inode_setFd_self, hino]
  · exact inode_setFd_of_ne hfd _

end Host

theorem Kernel.FilesInv.initial (machine : Machine) (heap : Heap) (host : Host)
    (consoleIn : List Byte) : (Kernel.initial machine heap host consoleIn).FilesInv where
  regular i f h := by cases h
  mode i f h := by cases h
  distinct i j f g h := by cases h

/-- The invariant and the table do not see the machine. -/
theorem Kernel.FilesInv.setMachine {k : Kernel} (h : k.FilesInv) (m : Machine) :
    Kernel.FilesInv { k with machine := m } := ⟨h.regular, h.mode, h.distinct⟩

section update

variable {k : Kernel} (k' : Kernel) {d : ℕ} {slot : Option OpenFile}
  (hopen : k'.openfile = Function.update k.openfile d slot)
  (hother : ∀ j f, j ≠ d → k.openfile j = some f → k'.host.inode f.file = k.host.inode f.file)

include hopen hother

/-- One slot changes, and the files behind the other slots stay. -/
theorem table_entries_update : k'.table.entries
    = Function.update k.table.entries d (slot.bind k'.entryOf) := by
  funext j
  simp only [Kernel.table, hopen]
  by_cases hj : j = d
  · subst hj
    simp only [Function.update_self]
  · rw [Function.update_of_ne hj, Function.update_of_ne hj]
    cases hslot : k.openfile j with
    | none => rfl
    | some f => simp only [Option.bind_some, Kernel.entryOf, hother j f hj hslot]

theorem Kernel.FilesInv.update (h : k.FilesInv)
    (hlength : ∀ ino, (k.host.content ino).length < offsetLimit →
      (k'.host.content ino).length < offsetLimit)
    (hself : ∀ f, slot = some f → ModeOk f.type ∧ (∃ ino, k'.host.inode f.file = some ino ∧
      (k'.host.content ino).length < offsetLimit ∧ f.currentOffset.toNat < offsetLimit) ∧
      ∀ j g, j ≠ d → k.openfile j = some g → g.file ≠ f.file) : k'.FilesInv := by
  have hcases : ∀ j f, k'.openfile j = some f →
      (j = d ∧ slot = some f) ∨ (j ≠ d ∧ k.openfile j = some f) := by
    intro j f hf
    rw [hopen] at hf
    by_cases hj : j = d
    · subst hj
      rw [Function.update_self] at hf
      exact Or.inl ⟨rfl, hf⟩
    · rw [Function.update_of_ne hj] at hf
      exact Or.inr ⟨hj, hf⟩
  refine ⟨fun i f hf ↦ ?_, fun i f hf ↦ ?_, fun i j f g hf hg hfg ↦ ?_⟩
  · rcases hcases i f hf with ⟨-, hslot⟩ | ⟨hi, hf⟩
    · exact (hself f hslot).2.1
    · obtain ⟨ino, hino, hlen, hoff⟩ := h.regular i f hf
      exact ⟨ino, (hother i f hi hf).trans hino, hlength ino hlen, hoff⟩
  · rcases hcases i f hf with ⟨-, hslot⟩ | ⟨-, hf⟩
    · exact (hself f hslot).1
    · exact h.mode i f hf
  · rcases hcases i f hf with ⟨rfl, hslot⟩ | ⟨hi, hf⟩
    · rcases hcases j g hg with ⟨rfl, -⟩ | ⟨hj, hg⟩
      · rfl
      · exact absurd hfg.symm ((hself f hslot).2.2 j g hj hg)
    · rcases hcases j g hg with ⟨rfl, hslot⟩ | ⟨-, hg⟩
      · exact absurd hfg ((hself g hslot).2.2 i f hi hf)
      · exact h.distinct i j f g hf hg hfg

end update

theorem table_entries_eq_none {k : Kernel} (hk : k.FilesInv) (i : ℕ) :
    k.table.entries i = none ↔ k.openfile i = none := by
  simp only [Kernel.table]
  cases hslot : k.openfile i with
  | none => simp
  | some f =>
    obtain ⟨ino, hino, -⟩ := hk.regular i f hslot
    simp [Kernel.entryOf, hino]

/-- An open descriptor, seen from the kernel. -/
theorem exists_of_entry {k : Kernel} {d : ℕ} (hk : k.FilesInv) (h : k.table.entries d ≠ none) :
    ∃ f ino pos, k.openfile d = some f ∧ k.host.fds f.file = some (.file ino pos) ∧
      (k.host.content ino).length < offsetLimit ∧ f.currentOffset.toNat < offsetLimit ∧
      k.table.entries d = some ⟨ino, f.type, f.currentOffset.toNat⟩ := by
  cases hslot : k.openfile d with
  | none => exact absurd ((table_entries_eq_none hk d).mpr hslot) h
  | some f =>
    obtain ⟨ino, hino, hlen, hoff⟩ := hk.regular d f hslot
    obtain ⟨pos, hpos⟩ := Host.inode_eq_some.mp hino
    refine ⟨f, ino, pos, rfl, hpos, hlen, hoff, ?_⟩
    simp only [Kernel.table, hslot, Option.bind_some, Kernel.entryOf, hino, Option.map_some]

/-! ## Open -/

/-- The file the host opens for an `Open` call, if it does. -/
def Kernel.found (k : Kernel) (env : Env) : Option ℕ :=
  (k.machine.stringAt (k.machine.registers 4) nameLimit).bind fun name ↦
    if (k.host.openReadWrite name env.openFails env.newFd).1 = -1 then none else k.host.dir name

private theorem full_of_findIndexFree {k : Kernel} (hk : k.FilesInv) (h : k.findIndexFree = -1) :
    k.table.Full := by
  intro i h2 hi hnone
  exact (findIndexFree_eq_neg_one_iff k).mp h i h2 hi ((table_entries_eq_none hk i).mp hnone)

private theorem leastFree_of_firstFree {k : Kernel} (hk : k.FilesInv) {i : ℕ} (h : k.FirstFree i) :
    k.table.LeastFree i where
  two_le := h.two_le
  lt := h.lt
  free := (table_entries_eq_none hk i).mpr h.free
  least j h2 hj hnone := h.least j h2 hj ((table_entries_eq_none hk j).mp hnone)

/-- A free descriptor of the host is in no slot. -/
private theorem file_ne_of_free {k : Kernel} (hk : k.FilesInv) {fd : Word}
    (hfree : k.host.fds fd = none)
    {j : ℕ} {g : OpenFile} (hg : k.openfile j = some g) : g.file ≠ fd := by
  rintro rfl
  obtain ⟨ino, hino, -⟩ := hk.regular j g hg
  rw [Host.inode, hfree] at hino
  cases hino

private theorem step_open {env : Env} {k k' : Kernel} {u : Unit} (hk : k.FilesInv)
    (h : scOpen env k = .ok u k') :
    k'.FilesInv ∧ k.table.Step (.open_ (k.machine.registers 5) (k.found env)) k'.table
      (k'.machine.registers 2) := by
  rcases scOpen_eq_ok h with ⟨hrefused, rfl⟩ | ⟨i, name, m, hmode, hfirst, hname, -, hhost⟩
  · refine ⟨⟨hk.regular, hk.mode, hk.distinct⟩, ?_⟩
    rw [Machine.setReg_registers_self]
    exact .refused (hrefused.imp id fun hfull ↦ Or.inl (full_of_findIndexFree hk hfull))
  · rcases hhost with ⟨hfail, rfl⟩ | ⟨ino, hdir, hlen, hpos, hfree, hfd, rfl⟩
    · refine ⟨⟨hk.regular, hk.mode, hk.distinct⟩, ?_⟩
      have hfound : k.found env = none := by
        rw [Kernel.found, hname, Option.bind_some, hfail, if_pos rfl]
      simp only [Kernel.afterOpenFailure, Machine.setReg_registers_self]
      exact .refused (Or.inr (Or.inr hfound))
    · have hne : env.newFd ≠ -1 := by
        intro hneg
        rw [hneg] at hpos
        exact absurd hpos (by decide)
      have hfound : k.found env = some ino := by
        rw [Kernel.found, hname, Option.bind_some, hfd, if_neg hne, hdir]
      have hother : ∀ j g, j ≠ i → k.openfile j = some g →
          (k.host.setFd env.newFd (some (.file ino 0))).inode g.file = k.host.inode g.file :=
        fun j g _ hg ↦ Host.inode_setFd_of_ne (file_ne_of_free hk hfree hg) _
      constructor
      · refine hk.update (k.afterOpen env m name i ino _) rfl hother (fun _ h ↦ h) ?_
        rintro f ⟨rfl⟩
        exact ⟨hmode, ⟨ino, Host.inode_setFd_self 0, hlen,
          show (0 : Word).toNat < offsetLimit by decide⟩,
          fun j g _ hg ↦ file_ne_of_free hk hfree hg⟩
      · have hentries := table_entries_update
          (k.afterOpen env m name i ino (k.machine.registers 5)) rfl hother
        have hentry : (k.afterOpen env m name i ino (k.machine.registers 5)).entryOf
            (env.entry (k.machine.registers 5)) = some ⟨ino, k.machine.registers 5, 0⟩ := by
          rw [Kernel.entryOf]
          simp only [Kernel.afterOpen, Env.entry, Host.inode_setFd_self]
          rfl
        rw [Option.bind_some, hentry] at hentries
        have htable : (k.afterOpen env m name i ino (k.machine.registers 5)).table
            = k.table.set i (some ⟨ino, k.machine.registers 5, 0⟩) := by
          rw [FileTable.set, ← hentries]
          rfl
        rw [htable, hfound]
        simp only [Kernel.afterOpen, Machine.setReg_registers_self]
        exact .opened hmode (leastFree_of_firstFree hk hfirst)

/-- `Open` returns if the name can be read. -/
private theorem scOpen_returns {env : Env} {k : Kernel} {name : Name}
    (hname : k.machine.stringAt (k.machine.registers 4) nameLimit = some name) :
    ∃ k', scOpen env k = .ok () k' := by
  by_cases hmode : ModeOk (k.machine.registers 5)
  · rcases findIndexFree_cases k with ⟨hfull, -⟩ | ⟨i, hfirst, hidx⟩
    · exact ⟨_, scOpen_refused (Or.inr hfull)⟩
    · obtain ⟨m, -, hrun⟩ := user2System_eq env
        (show (maxFileLength + 1 : Word).toNat + 1 < 2 ^ 31 by decide) hname
      rcases Host.openReadWrite_cases k.host name env.openFails env.newFd with
        hfail | ⟨ino, -, -, hpos, -, hok⟩
      · exact ⟨_, scOpen_of_failure hmode hfirst hidx hname hrun hfail⟩
      · exact ⟨_, scOpen_of_success hmode hfirst hidx hname hrun hpos hok⟩
  · exact ⟨_, scOpen_refused (Or.inl hmode)⟩

/-! ## Close -/

private theorem step_close {k k' : Kernel} {u : Unit} (hk : k.FilesInv)
    (hd : k.table.entries (k.machine.registers 4).toNat ≠ none) (h : scClose k = .ok u k') :
    k'.FilesInv ∧ k.table.Step (.close (k.machine.registers 4).toNat) k'.table
      (k'.machine.registers 2) := by
  obtain ⟨f, ino, pos, hslot, hfd, -, -, hentry⟩ := exists_of_entry hk hd
  obtain ⟨-, ⟨hnone, -⟩ | ⟨file, handle, hfile, -, rfl⟩⟩ := scClose_eq_ok h
  · rw [hslot] at hnone
    cases hnone
  · rw [hslot] at hfile
    cases hfile
    have hother : ∀ j g, j ≠ (k.machine.registers 4).toNat → k.openfile j = some g →
        (k.host.setFd f.file none).inode g.file = k.host.inode g.file :=
      fun j g hj hg ↦ Host.inode_setFd_of_ne (fun hsame ↦ hj (hk.distinct j _ g f hg hslot hsame)) _
    constructor
    · refine hk.update (k.afterClose _ f) rfl hother (fun _ h ↦ h) ?_
      rintro g ⟨⟩
    · have hentries := table_entries_update (k.afterClose _ f) rfl hother
      rw [Option.bind_none] at hentries
      have htable : (k.afterClose (k.machine.registers 4).toNat f).table
          = k.table.set (k.machine.registers 4).toNat none := by
        rw [FileTable.set, ← hentries]
        rfl
      rw [htable]
      simp only [Kernel.afterClose, Machine.setReg_registers_self]
      exact .closed hentry

/-- `Close` of an open descriptor returns. -/
private theorem scClose_returns {k : Kernel} (hk : k.FilesInv)
    (hid : (k.machine.registers 4).toNat < maxFile)
    (hd : k.table.entries (k.machine.registers 4).toNat ≠ none) : ∃ k', scClose k = .ok () k' := by
  obtain ⟨f, ino, pos, hslot, hfd, -⟩ := exists_of_entry hk hd
  exact ⟨_, scClose_of_some hid hslot hfd⟩

/-! ## Seek, Read and Write -/

/-- An entry is put back with another offset, the host's descriptors keep their files. -/
theorem offset_moved {k : Kernel} (k' : Kernel) {d ino : ℕ} {f : OpenFile} {offset : Word}
    (hk : k.FilesInv)
    (hslot : k.openfile d = some f) (hino : k.host.inode f.file = some ino)
    (hopen : k'.openfile = Function.update k.openfile d (some { f with currentOffset := offset }))
    (hinode : k'.host.inode = k.host.inode)
    (hlength : ∀ i, (k.host.content i).length < offsetLimit →
      (k'.host.content i).length < offsetLimit) (hoffset : offset.toNat < offsetLimit) :
    k'.FilesInv ∧ k'.table = { k.table.set d (some ⟨ino, f.type, offset.toNat⟩) with
      content := k'.host.content } := by
  have hother : ∀ j g, j ≠ d → k.openfile j = some g →
      k'.host.inode g.file = k.host.inode g.file := fun _ _ _ _ ↦ by rw [hinode]
  constructor
  · refine hk.update k' hopen hother hlength ?_
    rintro g ⟨rfl⟩
    obtain ⟨ino', hino', hlen, -⟩ := hk.regular d f hslot
    refine ⟨hk.mode d f hslot, ⟨ino', by rw [hinode, hino'], hlength _ hlen, hoffset⟩, ?_⟩
    exact fun j g hj hg hsame ↦ hj (hk.distinct j d g f hg hslot hsame)
  · have hentries := table_entries_update k' hopen hother
    have hentry : k'.entryOf { f with currentOffset := offset }
        = some ⟨ino, f.type, offset.toNat⟩ := by
      simp only [Kernel.entryOf, hinode, hino, Option.map_some]
    rw [Option.bind_some, hentry] at hentries
    rw [FileTable.set, ← hentries]
    rfl

private theorem toNat_add_ofNat {v : Word} {n : ℕ} (h : v.toNat + n < offsetLimit) :
    (v + BitVec.ofNat 32 n).toNat = v.toNat + n := by
  simp only [offsetLimit] at h
  rw [BitVec.toNat_add, BitVec.toNat_ofNat, Nat.mod_eq_of_lt (by omega : n < 2 ^ 32),
    Nat.mod_eq_of_lt (by omega)]

section slot

variable {k : Kernel} {id : Word} {f : OpenFile} {ino pos : ℕ} (hk : k.FilesInv)
  (htwo : 2 ≤ id.toNat) (hid : id.toNat < maxFile) (hslot : k.openfile id.toNat = some f)
  (hfd : k.host.fds f.file = some (.file ino pos))
  (hlen : (k.host.content ino).length < offsetLimit)
  (hentry : k.table.entries id.toNat = some ⟨ino, f.type, f.currentOffset.toNat⟩)

include hk hid hslot hfd hlen hentry

/-- `Seek` on an open entry returns, and by the rules. -/
private theorem step_seekOpen (target : Word) :
    ∃ k', seekOpen f target id k = .ok () k' ∧ k'.FilesInv ∧
    k.table.Step (.seek id.toNat target) k'.table (k'.machine.registers 2) := by
  have hino : k.host.inode f.file = some ino := Host.inode_eq_some.mpr ⟨pos, hfd⟩
  have hlength : k.table.length ino = (k.host.content ino).length := rfl
  rw [seekOpen_eq hfd hlen hid target]
  split
  · rename_i hle
    refine ⟨_, rfl, ?_⟩
    have hlt : (seekTarget (k.host.content ino).length target).toNat < offsetLimit :=
      Nat.lt_of_le_of_lt hle hlen
    obtain ⟨hinv, htable⟩ := offset_moved
      (k.afterSeek id.toNat f ino (seekTarget (k.host.content ino).length target)) hk hslot hino rfl
      (Host.inode_setFd_file hino _) (fun _ h ↦ h) hlt
    refine ⟨hinv, ?_⟩
    rw [htable]
    simp only [Kernel.afterSeek, Machine.setReg_registers_self]
    rw [seekTarget] at hle ⊢
    split
    · rename_i hneg
      subst hneg
      have hnat : (BitVec.ofNat 32 (k.host.content ino).length).toNat
          = (k.host.content ino).length := by
        rw [BitVec.toNat_ofNat, Nat.mod_eq_of_lt (by simp only [offsetLimit] at hlen; omega)]
      rw [hnat]
      exact .soughtEnd hentry
    · rename_i hne
      rw [if_neg hne] at hle
      have hint : target.toInt = target.toNat := toInt_eq_toNat (Nat.lt_of_le_of_lt hle hlen)
      exact .sought hentry (by omega) (by rw [hint, hlength]; omega)
  · rename_i hgt
    refine ⟨_, rfl, ⟨?_, hk.mode, hk.distinct⟩, ?_⟩
    · intro i g hg
      simp only [Kernel.afterSeekRefused, Kernel.atPos, Host.inode_setFd_file hino]
      exact hk.regular i g hg
    · have htable : (k.afterSeekRefused f ino).table = k.table := by
        simp only [Kernel.table, Kernel.afterSeekRefused, Kernel.atPos]
        congr 1
        funext i
        congr 1
        funext g
        simp only [Kernel.entryOf, Host.inode_setFd_file hino]
      rw [htable]
      simp only [Kernel.afterSeekRefused, Machine.setReg_registers_self]
      rw [seekTarget] at hgt
      split at hgt
      · rw [BitVec.toNat_ofNat, Nat.mod_eq_of_lt (by simp only [offsetLimit] at hlen; omega)] at hgt
        exact absurd (Nat.le_refl _) hgt
      · rename_i hne
        refine .seekRefused hentry hne ?_
        rintro ⟨hpos, hle⟩
        rw [toInt_eq_toNat (toNat_lt_of_nonneg hpos), hlength] at hle
        exact hgt (by omega)

include htwo

/-- A `Read` that returns has followed the rules. -/
private theorem step_readTransfer {env : Env} {virtAddr size : Word} {k' : Kernel} {u : Unit}
    (hoff : f.currentOffset.toNat < offsetLimit) (hok : env.readFails = false)
    (h : withBuffer env size (readBranches env virtAddr size id) k = .ok u k') :
    k'.FilesInv ∧ k.table.Step (.read id.toNat size.toNat) k'.table (k'.machine.registers 2) := by
  have hino : k.host.inode f.file = some ino := Host.inode_eq_some.mpr ⟨pos, hfd⟩
  obtain ⟨hsize, hlimit, s, hs⟩ := fetched_of_withBuffer
    (fun buf k₁ _ ↦ readBranches_transfer htwo hid virtAddr size buf k₁) h
  obtain ⟨k₁, hrun, hmoved⟩ := readTransfer htwo hid hslot hfd hsize hlimit hs hoff hok
  rw [hrun] at h
  obtain ⟨hopen, hhost, hresult⟩ := hmoved.of_ok h
  have hn := length_bytesAt k f ino size.toNat
  generalize (k.bytesAt f ino size.toNat).length = n at hn hopen hhost hresult
  have hle : f.currentOffset.toNat + n < offsetLimit := by omega
  have hadd : (f.currentOffset + BitVec.ofNat 32 n).toNat = f.currentOffset.toNat + n :=
    toNat_add_ofNat hle
  have hcontent : k'.host.content = k.host.content := by
    rw [hhost]
    rfl
  obtain ⟨hinv, htable⟩ := offset_moved k' hk hslot hino hopen
    (by rw [hhost]; exact Host.inode_setFd_file hino _) (fun i h ↦ by rwa [hcontent])
    (by rw [hadd]; exact hle)
  refine ⟨hinv, ?_⟩
  rw [htable, hresult, hadd, hcontent, hn]
  exact .read hentry

/-- A `Write` that returns has followed the rules. -/
private theorem step_writeTransfer {env : Env} {virtAddr size : Word} {s : List Byte} {k' : Kernel}
    {u : Unit} (hmode : f.type = 0) (hs : k.machine.stringAt virtAddr size.toNat = some s)
    (hok : env.writeFails = false)
    (h : withBuffer env size (writeBranches env virtAddr size id) k = .ok u k') :
    k'.FilesInv ∧ k.table.Step (.write id.toNat (fetchedBytes s size.toNat)) k'.table
      (k'.machine.registers 2) := by
  have hino : k.host.inode f.file = some ino := Host.inode_eq_some.mpr ⟨pos, hfd⟩
  have hmode' : f.type ≠ 1 := by
    rw [hmode]
    decide
  obtain ⟨hsize, hlimit, -⟩ := fetched_of_withBuffer
    (fun buf k₁ h ↦ writeBranches_transfer htwo hid (h ▸ hslot) hmode' virtAddr size buf) h
  have hroom := room_of_write htwo hid hslot hfd hmode' h
  obtain ⟨k₁, hrun, hmoved⟩ := writeTransfer htwo hid hslot hfd hmode' hsize hlimit hs hroom hok
  rw [hrun] at h
  obtain ⟨hopen, hhost, hresult⟩ := hmoved.of_ok h
  have hdata : (fetchedBytes s size.toNat).length = size.toNat := length_fetchedBytes hs
  generalize fetchedBytes s size.toNat = data at hdata hhost
  have hadd : (f.currentOffset + size).toNat = f.currentOffset.toNat + size.toNat := by
    rw [← toNat_add_ofNat hroom, BitVec.ofNat_toNat, BitVec.setWidth_eq]
  have hcontent : k'.host.content = Function.update k.host.content ino
      (splice (k.host.content ino) f.currentOffset.toNat data) := by
    rw [hhost]
    rfl
  have hinode : k'.host.inode = k.host.inode := by
    rw [hhost]
    exact Host.inode_setFd_file (h := k.host.setContent ino _) hino _
  obtain ⟨hinv, htable⟩ := offset_moved k' hk hslot hino hopen hinode
    (fun i hi ↦ by
      rw [hcontent]
      by_cases h : i = ino
      · rw [h, Function.update_self, length_splice, hdata]
        split
        · exact hlen
        · exact Nat.max_lt.mpr ⟨hlen, hroom⟩
      · rwa [Function.update_of_ne h]) (by rw [hadd]; exact hroom)
  refine ⟨hinv, ?_⟩
  have hword : size = BitVec.ofNat 32 data.length := by
    rw [hdata, BitVec.ofNat_toNat, BitVec.setWidth_eq]
  rw [htable, hresult, hadd, hcontent, ← hdata, hword]
  exact .written hentry hmode

omit hfd hlen in
/-- A `Write` to a file opened for reading only is refused. -/
private theorem step_writeReadOnly {env : Env} {virtAddr size : Word} (hmode : f.type = 1)
    (hsize : 0 ≤ size.toInt) (data : List Byte) :
    ∃ k', withBuffer env size (writeBranches env virtAddr size id) k = .ok () k' ∧ k'.FilesInv ∧
      k.table.Step (.write id.toNat data) k'.table (k'.machine.registers 2) := by
  refine ⟨{ k with
    machine := k.machine.setReg 2 (-1), heap := (k.buffered env size).heap.delete env.buf }, ?_,
    ⟨hk.regular, hk.mode, hk.distinct⟩, ?_⟩
  · rw [withBuffer, bind_of_ok (newChars_of_nonneg hsize k), bind_of_ok
      (writeBranches_readOnly htwo hid (k := k.buffered env size) hslot hmode virtAddr
        size env.buf)]
    rfl
  · rw [Machine.setReg_registers_self]
    exact .writeRefused hentry hmode

end slot

/-! ## Calls -/

/-- The bytes that `Write` fetches. -/
def Machine.bytesToWrite (m : Machine) (addr : Word) (n : ℕ) : List Byte :=
  match m.stringAt addr n with
  | some s => fetchedBytes s n
  | none => []

/-- What a call asks of the table. -/
def CallTrap.request (t : CallTrap) (k : Kernel) : Option FileRequest :=
  match t.call with
  | .open_ => some (.open_ (t.machine.registers 5)
      (Kernel.found { k with machine := t.machine } t.env))
  | .close => some (.close t.descriptor.toNat)
  | .seek => some (.seek t.descriptor.toNat (t.machine.registers 4))
  | .read => some (.read t.descriptor.toNat (t.machine.registers 5).toNat)
  | .write => some (.write t.descriptor.toNat
      (t.machine.bytesToWrite (t.machine.registers 4) (t.machine.registers 5).toNat))
  | _ => none

/-- The calls in question: `Open`, and the other four on descriptors that are open; the host's
`read` and `write` succeed. -/
structure CallTrap.Legal (t : CallTrap) (k : Kernel) : Prop where
  call : t.call ∈ [Syscall.open_, .close, .seek, .read, .write]
  named : t.call ≠ .open_ → 2 ≤ t.descriptor.toNat ∧ t.descriptor.toNat < maxFile ∧
    k.table.entries t.descriptor.toNat ≠ none
  reads : t.env.readFails = false
  writes : t.env.writeFails = false

/-- The memory a call names is mapped, its size can be allocated, and what it writes stays below
the largest offset of a file. -/
def CallTrap.Served (t : CallTrap) (k : Kernel) : Prop :=
  match t.call with
  | .open_ => ∃ name, t.machine.stringAt (t.machine.registers 4) nameLimit = some name
  | .read | .write =>
    0 ≤ (t.machine.registers 5).toInt ∧ (t.machine.registers 5).toNat + 1 < 2 ^ 31 ∧
    (∃ s, t.machine.stringAt (t.machine.registers 4) (t.machine.registers 5).toNat = some s) ∧
    t.machine.Writable (t.machine.registers 4) (t.machine.registers 5).toNat ∧
    (t.call = .write → ∀ e, k.table.entries t.descriptor.toNat = some e →
      e.offset + (t.machine.registers 5).toNat < offsetLimit)
  | _ => True

/-- The call returns when it can be served, and whenever it returns it has followed the rules. -/
structure CallTrap.Simulates (t : CallTrap) (k : Kernel) : Prop where
  returns : t.Served k → ∃ k', k.trap t.toTrap = some k'
  follows : ∀ k', k.trap t.toTrap = some k' →
    ∃ q, t.request k = some q ∧ k.table.Follows q k'.table (k'.machine.registers 2)

section call

variable {t : CallTrap} {k k₁ : Kernel} (hk : k.FilesInv) (hlegal : t.Legal k)

include hk hlegal

/-- The entry a call names, seen from the kernel. -/
theorem CallTrap.Legal.entry (hne : t.call ≠ .open_) :
    2 ≤ t.descriptor.toNat ∧ t.descriptor.toNat < maxFile ∧
    ∃ f ino pos, k.openfile t.descriptor.toNat = some f ∧
      k.host.fds f.file = some (.file ino pos) ∧ (k.host.content ino).length < offsetLimit ∧
      f.currentOffset.toNat < offsetLimit ∧
      k.table.entries t.descriptor.toNat = some ⟨ino, f.type, f.currentOffset.toNat⟩ := by
  obtain ⟨htwo, hid, hentry⟩ := hlegal.named hne
  exact ⟨htwo, hid, exists_of_entry hk hentry⟩

private theorem step_seek (hcall : t.call = .seek) : ∃ k₁,
    scSeek { k with machine := t.machine } = .ok () k₁ ∧ k₁.FilesInv ∧
      k.table.Step (.seek t.descriptor.toNat (t.machine.registers 4)) k₁.table
        (k₁.machine.registers 2) := by
  obtain ⟨htwo, hid, f, ino, pos, hslot, hfd, hlen, -, hentry⟩ :=
    hlegal.entry hk (by rw [hcall]; decide)
  have hd : t.machine.registers 5 = t.descriptor := by rw [CallTrap.descriptor, hcall]
  obtain ⟨k₁, hrun, hstep⟩ := step_seekOpen (hk.setMachine t.machine) hid hslot hfd hlen hentry
    (t.machine.registers 4)
  exact ⟨k₁, (scSeek_of_slot (k := { k with machine := t.machine }) htwo hid hslot hd).trans hrun,
    hstep⟩

/-- What a returning call did. -/
private theorem step_body {u : Unit}
    (h : t.call.body t.env { k with machine := t.machine } = .ok u k₁) : k₁.FilesInv ∧
      ∃ q, t.request k = some q ∧ k.table.Step q k₁.table (k₁.machine.registers 2) := by
  have hcall := hlegal.call
  simp only [List.mem_cons, List.not_mem_nil, or_false] at hcall
  rcases hcall with hcall | hcall | hcall | hcall | hcall
  · rw [hcall] at h
    obtain ⟨hinv, hstep⟩ := step_open (hk.setMachine t.machine) h
    exact ⟨hinv, _, by rw [CallTrap.request, hcall], hstep⟩
  · have hd : t.descriptor = t.machine.registers 4 := by rw [CallTrap.descriptor, hcall]
    obtain ⟨-, -, hentry⟩ := hlegal.named (by rw [hcall]; decide)
    rw [hd] at hentry
    rw [hcall] at h
    obtain ⟨hinv, hstep⟩ := step_close (hk.setMachine t.machine) hentry h
    exact ⟨hinv, _, by rw [CallTrap.request, hcall, hd], hstep⟩
  · obtain ⟨k₂, hrun, hinv, hstep⟩ := step_seek hk hlegal hcall
    rw [hcall, Syscall.body, hrun] at h
    cases h
    exact ⟨hinv, _, by rw [CallTrap.request, hcall], hstep⟩
  · obtain ⟨htwo, hid, f, ino, pos, hslot, hfd, hlen, hoff, hentry⟩ :=
      hlegal.entry hk (by rw [hcall]; decide)
    have hd : t.descriptor = t.machine.registers 6 := by rw [CallTrap.descriptor, hcall]
    rw [hcall, Syscall.body, scRead_eq] at h
    simp only [← hd] at h
    obtain ⟨hinv, hstep⟩ := step_readTransfer (hk.setMachine t.machine) htwo hid hslot hfd hlen
      hentry hoff hlegal.reads h
    exact ⟨hinv, _, by rw [CallTrap.request, hcall], hstep⟩
  · obtain ⟨htwo, hid, f, ino, pos, hslot, hfd, hlen, -, hentry⟩ :=
      hlegal.entry hk (by rw [hcall]; decide)
    have hd : t.descriptor = t.machine.registers 6 := by rw [CallTrap.descriptor, hcall]
    rw [hcall, Syscall.body, scWrite_eq] at h
    simp only [← hd] at h
    rcases hk.mode _ f hslot with hmode | hmode
    · have hmode' : f.type ≠ 1 := by
        rw [hmode]
        decide
      obtain ⟨-, -, s, hs⟩ := fetched_of_withBuffer (k := { k with machine := t.machine })
        (fun buf k₁ h ↦ writeBranches_transfer htwo hid (h ▸ hslot) hmode' _ _ buf) h
      obtain ⟨hinv, hstep⟩ := step_writeTransfer (hk.setMachine t.machine) htwo hid hslot hfd hlen
        hentry hmode hs hlegal.writes h
      refine ⟨hinv, _, ?_, hstep⟩
      simp only [CallTrap.request, hcall, Machine.bytesToWrite, hs]
    · obtain ⟨k₂, hrun, hinv, hstep⟩ := step_writeReadOnly (hk.setMachine t.machine) htwo hid hslot
        hentry hmode (size_nonneg_of_withBuffer h)
        (t.machine.bytesToWrite (t.machine.registers 4) (t.machine.registers 5).toNat)
      rw [hrun] at h
      cases h
      exact ⟨hinv, _, by rw [CallTrap.request, hcall], hstep⟩

/-- A call that can be served returns. -/
private theorem body_returns (hserved : t.Served k) :
    ∃ k₁, t.call.body t.env { k with machine := t.machine } = .ok () k₁ := by
  have hcall := hlegal.call
  simp only [List.mem_cons, List.not_mem_nil, or_false] at hcall
  rcases hcall with hcall | hcall | hcall | hcall | hcall
  · simp only [CallTrap.Served, hcall] at hserved
    obtain ⟨name, hname⟩ := hserved
    rw [hcall]
    exact scOpen_returns (k := { k with machine := t.machine }) hname
  · have hd : t.descriptor = t.machine.registers 4 := by rw [CallTrap.descriptor, hcall]
    obtain ⟨-, hid, hentry⟩ := hlegal.named (by rw [hcall]; decide)
    rw [hd] at hid hentry
    rw [hcall]
    exact scClose_returns (hk.setMachine t.machine) hid hentry
  · obtain ⟨k₁, hrun, -⟩ := step_seek hk hlegal hcall
    rw [hcall]
    exact ⟨k₁, hrun⟩
  · simp only [CallTrap.Served, hcall] at hserved
    obtain ⟨hsize, hlimit, ⟨s, hs⟩, hwritable, -⟩ := hserved
    obtain ⟨htwo, hid, f, ino, pos, hslot, hfd, hlen, hoff, hentry⟩ :=
      hlegal.entry hk (by rw [hcall]; decide)
    have hd : t.machine.registers 6 = t.descriptor := by rw [CallTrap.descriptor, hcall]
    obtain ⟨k₁, hrun, hmoved⟩ := readTransfer (k := { k with machine := t.machine }) htwo hid hslot
      hfd hsize hlimit hs hoff hlegal.reads
    rw [hcall, Syscall.body, scRead_eq]
    simp only [hd, hrun]
    refine hmoved.returns (fun _ ↦ ?_) hwritable
    rw [length_bytesAt, BitVec.toNat_ofNat]
    exact Nat.le_trans (Nat.mod_le _ _) (Nat.min_le_left _ _)
  · simp only [CallTrap.Served, hcall, true_implies] at hserved
    obtain ⟨hsize, hlimit, ⟨s, hs⟩, hwritable, hroom⟩ := hserved
    obtain ⟨htwo, hid, f, ino, pos, hslot, hfd, hlen, -, hentry⟩ :=
      hlegal.entry hk (by rw [hcall]; decide)
    have hd : t.machine.registers 6 = t.descriptor := by rw [CallTrap.descriptor, hcall]
    rw [hcall, Syscall.body, scWrite_eq]
    simp only [hd]
    rcases hk.mode _ f hslot with hmode | hmode
    · obtain ⟨k₁, hrun, hmoved⟩ := writeTransfer (k := { k with machine := t.machine }) htwo hid
        hslot hfd (by rw [hmode]; decide) hsize hlimit hs (hroom _ hentry) hlegal.writes
      rw [hrun]
      exact hmoved.returns (fun _ ↦ Nat.le_refl _) hwritable
    · obtain ⟨k₁, hrun, -⟩ := step_writeReadOnly (hk.setMachine t.machine) htwo hid hslot hentry
        hmode hsize []
      exact ⟨k₁, hrun⟩

private theorem simulates_of_legal : t.Simulates k where
  returns hserved := by
    obtain ⟨k₁, hbody⟩ := body_returns hk hlegal hserved
    exact ⟨_, trap_of_body t.code hbody⟩
  follows k' h := by
    obtain ⟨k₁, hbody, rfl⟩ := trap_eq_some t.code h
    obtain ⟨-, q, hq, hstep⟩ := step_body hk hlegal hbody
    refine ⟨q, hq, ?_⟩
    rw [Machine.skip_result]
    exact hstep.follows

private theorem filesInv_trap {k' : Kernel} (h : k.trap t.toTrap = some k') : k'.FilesInv := by
  obtain ⟨k₁, hbody, rfl⟩ := trap_eq_some t.code h
  exact (step_body hk hlegal hbody).1.setMachine _

end call

/-- **The open-file table.** Along every run of `Open`, and of `Close`, `Seek`, `Read` and `Write`
on open descriptors, from the empty table, each call returns when its memory is mapped, and what it
does to the kernel is the rule of the abstract table for it. -/
theorem openFileTable_simulates (machine : Machine) (heap : Heap) (host : Host)
    (consoleIn : List Byte) (traps : List CallTrap)
    (hlegal : Along (fun k (t : CallTrap) ↦ k.trap t.toTrap) (fun k t ↦ t.Legal k)
      (Kernel.initial machine heap host consoleIn) traps) :
    (Kernel.initial machine heap host consoleIn).table = ⟨fun _ ↦ none, host.content⟩ ∧
    Along (fun k (t : CallTrap) ↦ k.trap t.toTrap) (fun k t ↦ t.Simulates k)
      (Kernel.initial machine heap host consoleIn) traps :=
  ⟨rfl, Along.imp Kernel.FilesInv (fun _ _ hk ht ↦ simulates_of_legal hk ht)
    (fun _ _ _ hk ht h ↦ filesInv_trap hk ht h)
    (Kernel.FilesInv.initial machine heap host consoleIn) hlegal⟩

/-! ## A run -/

instance (t : CallTrap) (k : Kernel) : Decidable (t.Legal k) :=
  decidable_of_iff (t.call ∈ [Syscall.open_, .close, .seek, .read, .write] ∧
      (t.call ≠ .open_ → 2 ≤ t.descriptor.toNat ∧ t.descriptor.toNat < maxFile ∧
        k.table.entries t.descriptor.toNat ≠ none) ∧
      t.env.readFails = false ∧ t.env.writeFails = false)
    ⟨fun ⟨hcall, hnamed, hreads, hwrites⟩ ↦ ⟨hcall, hnamed, hreads, hwrites⟩,
      fun h ↦ ⟨h.call, h.named, h.reads, h.writes⟩⟩

/-- `Open("a", 0)` again, when the host offers another descriptor. -/
def openAgain : CallTrap := { openA with env := { Env.quiet with newFd := 4, object := 5 } }

/-- `Write(0, 1, 3)`. -/
def writeByte : CallTrap where
  machine := (nameMachine 97 8 0 1).setReg 6 3
  env := Env.quiet
  call := .write
  code := by decide

/-- `Seek(1, 2)`. -/
def seekTwo : CallTrap where
  machine := nameMachine 97 9 1 2
  env := Env.quiet
  call := .seek
  code := by decide

/-- One file is opened twice. A byte is written through the second descriptor, read through the
first, and the first is moved back and closed. -/
def openFileRun : List CallTrap := [openA, openAgain, writeByte, readByte, seekTwo, closeTwo]

/-- The general theorem for this run, which goes to its end. -/
theorem openFileRun_simulates :
    (openFileRun.foldlM (fun (k : Kernel) t ↦ k.trap t.toTrap) Kernel.oneFile).map
        (fun k ↦ (k.table.entries 2, k.table.entries 3, k.table.content 0))
      = some (none, some ⟨0, 0, 1⟩, [97, 105]) ∧
    Along (fun k (t : CallTrap) ↦ k.trap t.toTrap) (fun k t ↦ t.Simulates k) Kernel.oneFile
      openFileRun :=
  ⟨by decide +kernel, (openFileTable_simulates (callMachine 0 0) ⟨fun _ ↦ [], []⟩ Host.oneFile []
    openFileRun (by decide +kernel)).2⟩

end Nachos
