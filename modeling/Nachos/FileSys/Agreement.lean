import Nachos.FileSys.Allocation
import Nachos.FileSys.NameMap
import Nachos.Userprog.FileCalls

/-!
# The stub and the real file system

The same interface is there twice: over the files of the host, and over directory, bitmap and
headers on the simulated disk. Here the two are run side by side on `Create(name, 0)`,
`Remove(name)` and `Open(name)`. They keep the same set of names, and so answer alike, as long as
`Create` is not asked for a name that exists: the stub truncates the file and reports success, the
real file system refuses. The names `.` and `..`, which are directories of the host, make the
stub's `Create` abort.
-/

namespace Nachos

open Program

/-! ## Names -/

/-- A name of one to nine characters, without a path separator, other than those of the console
files. -/
structure FileName where
  chars : List Byte
  nonempty : chars ≠ []
  short : chars.length ≤ fileNameMaxLen
  noZero : ∀ c ∈ chars, c ≠ 0
  noSlash : 0x2f ∉ chars
  ne_stdin : chars ≠ FileSystem.stdinName
  ne_stdout : chars ≠ FileSystem.stdoutName

/-- `.` or `..`, which the host has in every directory. -/
def FileName.isDot (n : FileName) : Bool := n.chars == [0x2e] || n.chars == [0x2e, 0x2e]

/-- Short names are kept whole. -/
theorem FileName.key_chars (n : FileName) : Directory.key n.chars = n.chars := by
  have hall : n.chars.takeWhile (· ≠ 0) = n.chars := by
    have happend := @List.takeWhile_append_of_pos _ _ n.chars []
      fun c hc ↦ decide_eq_true (n.noZero c hc)
    simpa using happend
  rw [Directory.key, hall, List.take_of_length_le n.short]

/-! ## The two systems -/

inductive NameOp where
  | create (name : FileName)
  | remove (name : FileName)
  | openFile (name : FileName)

def NameOp.name : NameOp → FileName
  | .create name => name
  | .remove name => name
  | .openFile name => name

/-- The stub `FileSystem::Open(name)`: the new `OpenFile`, at `env.object`, or `NULL`. -/
def fileSystemOpenName (env : Env) (name : Name) : Kern (Option Ptr) := do
  let fileDescriptor ← openForReadWrite env name
  if fileDescriptor = -1 then return none
  else do
    newBlock env.object env.objectBytes
    return some env.object

/-- The operation on the stub. -/
def NameOp.onStub (env : Env) : NameOp → Kern Bool
  | .create name => fileSystemCreate env name.chars
  | .remove name => fileSystemRemove env name.chars
  | .openFile name => do
    let file ← fileSystemOpenName env name.chars
    return file.isSome

/-- The operation on the disk. -/
def NameOp.onDisk (fs : FileSystem) (junk : Garbage) : NameOp → DiskM Bool
  | .create name => fs.create junk name.chars 0
  | .remove name => fs.remove junk name.chars
  | .openFile name => do
    let file ← fs.openFile junk name.chars
    return file.isSome

/-- An operation, with what the host and the two allocators contribute to it. -/
structure NameCall where
  op : NameOp
  env : Env
  junk : Garbage

/-- The two systems side by side. -/
structure Systems where
  kernel : Kernel
  disk : Disk

/-- Both take the operation. -/
def Systems.step (fs : FileSystem) (s : Systems) (call : NameCall) : Option Systems :=
  match call.op.onStub call.env s.kernel, call.op.onDisk fs call.junk s.disk with
  | .ok _ k, .ok _ d => some ⟨k, d⟩
  | _, _ => none

/-- Both return, and report the same. -/
def Systems.Agree (fs : FileSystem) (s : Systems) (call : NameCall) : Prop :=
  ∃ answer k d, call.op.onStub call.env s.kernel = .ok answer k ∧
    call.op.onDisk fs call.junk s.disk = .ok answer d

/-- The operation is inside the capacity of both: the host has a descriptor to give and refuses
nothing but its two directories, and for a new file the disk has an entry and a sector. -/
structure Systems.Fits (s : Systems) (call : NameCall) : Prop where
  newFd : 0 ≤ call.env.newFd.toInt ∧ s.kernel.host.fds call.env.newFd = none
  opens : call.env.openFails = call.op.name.isDot
  unlinks : call.env.unlinkFails = call.op.name.isDot
  room : ∀ name, call.op = .create name →
    (∃ j < numDirEntries, (directoryOn s.disk).inUse j = false) ∧ 0 < (freeMapOn s.disk).clears

/-- The condition: a name that is created does not exist yet, and is not a directory of the host. -/
def Systems.Fresh (s : Systems) (call : NameCall) : Prop :=
  ∀ name, call.op = .create name → s.kernel.host.dir name.chars = none ∧ name.isDot = false

/-! ## The stub -/

section stub

variable {env : Env} {k : Kernel} (name : Name)

/-- `Create` where the host does not refuse: the name is there afterwards. -/
theorem stub_create (hok : env.openFails = false) (hfd : k.host.isFree env.newFd = true) :
    ∃ ino host, fileSystemCreate env name k = .ok true { k with host := host } ∧
      host.dir = Function.update k.host.dir name (some ino) ∧
      host.content = Function.update k.host.content ino [] ∧ host.fds = k.host.fds := by
  obtain ⟨ino, h', hopen, hdir, hcontent, hfds⟩ := Host.openTruncate_of_free hfd name
  obtain ⟨hpos, hnone⟩ := Host.isFree_iff.mp hfd
  have hclose : h'.close env.newFd = (0, h'.setFd env.newFd none) :=
    Host.close_of_open (by simp [hfds])
  refine ⟨ino, _, fileSystemCreate_of_free name hok hfd, ?_⟩
  rw [hok, hopen, hclose]
  refine ⟨hdir, hcontent, ?_⟩
  rw [Host.fds_setFd, hfds, Function.update_idem, ← hnone, Function.update_eq_self]

private theorem stub_remove (env : Env) (k : Kernel) :
    fileSystemRemove env name k
      = .ok (!env.unlinkFails && (k.host.dir name).isSome)
        { k with host := (k.host.unlink name env.unlinkFails).2 } := by
  rw [fileSystemRemove, bind_of_ok (onHost_eq _ k)]
  cases hfail : env.unlinkFails with
  | true => rfl
  | false =>
    cases hdir : k.host.dir name with
    | none =>
      simp only [Host.unlink, hdir]
      rfl
    | some ino =>
      simp only [Host.unlink, hdir]
      rfl

private theorem stub_open (hfd : k.host.isFree env.newFd = true)
    (hsmall : ∀ ino, k.host.dir name = some ino → (k.host.content ino).length < offsetLimit) :
    ∃ file k', fileSystemOpenName env name k = .ok file k' ∧
      file.isSome = (!env.openFails && (k.host.dir name).isSome) ∧
      k'.host.dir = k.host.dir ∧ k'.host.content = k.host.content := by
  have hpos := (Host.isFree_iff.mp hfd).1
  have hne : env.newFd ≠ -1 := by
    intro hneg
    rw [hneg] at hpos
    exact absurd hpos (by decide)
  rw [fileSystemOpenName, openForReadWrite, bind_of_ok (onHost_eq _ k)]
  cases hfail : env.openFails with
  | true => exact ⟨none, k, rfl, rfl, rfl, rfl⟩
  | false =>
    cases hdir : k.host.dir name with
    | none =>
      simp only [Host.openReadWrite, hfd, hdir]
      exact ⟨none, k, rfl, rfl, rfl, rfl⟩
    | some ino =>
      simp only [Host.openReadWrite, hfd, hdir, Bool.not_true, Bool.or_false,
        if_pos (hsmall ino hdir), if_neg hne]
      exact ⟨some env.object, _, rfl, rfl, rfl, rfl⟩

end stub

/-! ## The disk -/

section disk

variable {fs : FileSystem} {d d' : Disk} {m : Directory.Contents}

/-- The directory after a successful `Create`. -/
theorem Created.represents {name : List Byte} {size : ℤ} {k s : ℕ} {h : FileHeader}
    (hc : Created d d' name size k s h) (hrep : (directoryOn d).Represents m)
    (hnew : Directory.key name ∉ m) :
    (directoryOn d').Represents (m.insert (Directory.key name) (.ofNat 32 s)) :=
  (hrep.put hc.entry_lt hc.entry_free hnew (.ofNat 32 s)).congr hc.directory

/-- The directory after a successful `Remove`. -/
theorem Removed.represents {name : List Byte} {k : ℕ} (hr : Removed d d' k)
    (hrep : (directoryOn d).Represents m) (hindex : (directoryOn d).findIndex name = k) :
    (directoryOn d').Represents (m.erase (Directory.key name)) := by
  rcases hrep.findIndex_cases name with ⟨j, hj, hused, hkey, hfind, -⟩ | ⟨hfind, -⟩
  · have hjk : j = k := by omega
    subst hjk
    exact (hrep.clear hj hused hkey).congr hr.directory
  · omega

variable (c : Consistent fs d) (hrep : (directoryOn d).Represents m) (name : FileName)

include c hrep

/-- `Create` with room succeeds exactly under a new name. -/
private theorem disk_create (junk : Garbage)
    (hroom : (∃ j < numDirEntries, (directoryOn d).inUse j = false) ∧ 0 < (freeMapOn d).clears) :
    (name.chars ∉ m ∧ ∃ d' s, fs.create junk name.chars 0 d = .ok true d' ∧ Consistent fs d' ∧
      (directoryOn d').Represents (m.insert name.chars s)) ∨
    (name.chars ∈ m ∧ fs.create junk name.chars 0 d = .ok false d) := by
  have hfind := hrep.findIndex_cases name.chars
  rw [name.key_chars] at hfind
  rcases c.create_cases junk name.chars (show -2 ^ 31 ≤ (0 : ℤ) by decide) (by decide) with
    ⟨d', k, s, h, hrun, hc⟩ | ⟨hrun, hrefused⟩
  · have hnew : name.chars ∉ m := by
      intro hmem
      rcases hfind with ⟨j, -, -, -, hindex, -⟩ | ⟨-, hnew⟩
      · rw [c.create_of_found junk (by omega) 0] at hrun
        cases hrun
      · exact hnew hmem
    have hrep' := hc.represents hrep (by rwa [name.key_chars])
    rw [name.key_chars] at hrep'
    exact .inl ⟨hnew, d', _, hrun, c.created hc, hrep'⟩
  · refine .inr ⟨?_, hrun⟩
    obtain ⟨⟨j, hj, hfree⟩, hclears⟩ := hroom
    rcases hrefused with ⟨j, hj, hholds⟩ | hall | hnone | hfew
    · rw [← name.key_chars]
      obtain ⟨hused, hkey⟩ := Directory.holds_iff.mp hholds
      exact (hrep.mem_iff _).mpr ⟨j, hj, hused, hkey⟩
    · rw [hall j hj] at hfree
      cases hfree
    · omega
    · omega

private theorem disk_remove (junk : Garbage) :
    (name.chars ∈ m ∧ ∃ d', fs.remove junk name.chars d = .ok true d' ∧ Consistent fs d' ∧
      (directoryOn d').Represents (m.erase name.chars)) ∨
    (name.chars ∉ m ∧ fs.remove junk name.chars d = .ok false d) := by
  have hfind := hrep.findIndex_cases name.chars
  rw [name.key_chars] at hfind
  rcases c.remove_cases junk name.chars with ⟨d', k, hindex, hrun, hr⟩ | ⟨hindex, hrun⟩
  · rcases hfind with ⟨-, -, -, -, -, hmem⟩ | ⟨hnone, -⟩
    · have hrep' := hr.represents hrep hindex
      rw [name.key_chars] at hrep'
      exact .inl ⟨hmem, d', hrun, c.removed hr, hrep'⟩
    · omega
  · rcases hfind with ⟨_, -, -, -, hsome, -⟩ | ⟨-, hmem⟩
    · omega
    · exact .inr ⟨hmem, hrun⟩

private theorem disk_open (junk : Garbage) :
    ∃ file, fs.openFile junk name.chars d = .ok file d ∧ (file.isSome = true ↔ name.chars ∈ m) := by
  have hfind := hrep.findIndex_cases name.chars
  rw [name.key_chars] at hfind
  rcases c.open_cases junk name.chars with ⟨k, -, hindex, hrun⟩ | ⟨hindex, hrun⟩
  · rcases hfind with ⟨-, -, -, -, -, hmem⟩ | ⟨hnone, -⟩
    · exact ⟨_, hrun, iff_of_true rfl hmem⟩
    · omega
  · rcases hfind with ⟨_, -, -, -, hsome, -⟩ | ⟨-, hmem⟩
    · omega
    · exact ⟨_, hrun, iff_of_false Bool.false_ne_true hmem⟩

end disk

/-! ## Side by side -/

/-- The two systems have the same names; `m` is what the directory maps them to. -/
structure Systems.Same (fs : FileSystem) (s : Systems) (m : Directory.Contents) : Prop where
  consistent : Consistent fs s.disk
  represents : (directoryOn s.disk).Represents m
  mem_iff : ∀ n : FileName, n.chars ∈ m ↔ (s.kernel.host.dir n.chars).isSome = true
  dots : ∀ n : FileName, n.isDot = true → s.kernel.host.dir n.chars = none
  small : ∀ n ino, s.kernel.host.dir n = some ino →
    (s.kernel.host.content ino).length < offsetLimit

theorem FileName.ext {n n' : FileName} (h : n.chars = n'.chars) : n = n' := by
  cases n
  cases n'
  cases h
  rfl

theorem Host.unlink_dir (h : Host) (name : Name) :
    (h.unlink name false).2.dir = Function.update h.dir name none ∧
      (h.unlink name false).2.content = h.content := by
  cases hdir : h.dir name with
  | none =>
    simp only [Host.unlink, hdir, and_true]
    rw [← hdir, Function.update_eq_self]
  | some ino =>
    simp only [Host.unlink, hdir, and_true]

section sideBySide

variable {fs : FileSystem} {s : Systems} {m : Directory.Contents} (hs : s.Same fs m)
  {call : NameCall}

include hs

/-- A dot name is in neither. -/
theorem Systems.Same.not_mem_of_dot {n : FileName} (hdot : n.isDot = true) : n.chars ∉ m := by
  rw [hs.mem_iff, hs.dots n hdot]
  exact Bool.false_ne_true

/-- A file created in both. -/
theorem Systems.Same.insert {n : FileName} (hdot : n.isDot = false) {sector : Word} {ino : ℕ}
    {host : Host} {d : Disk} (c : Consistent fs d)
    (hrep : (directoryOn d).Represents (m.insert n.chars sector))
    (hdir : host.dir = Function.update s.kernel.host.dir n.chars (some ino))
    (hcontent : host.content = Function.update s.kernel.host.content ino []) :
    Systems.Same fs ⟨{ s.kernel with host := host }, d⟩ (m.insert n.chars sector) := by
  refine ⟨c, hrep, fun n' ↦ ?_, fun n' hdot' ↦ ?_, fun name' ino' hino ↦ ?_⟩
  · rw [Finmap.mem_insert, hs.mem_iff n']
    simp only [hdir]
    by_cases hn : n'.chars = n.chars
    · simp [hn]
    · simp [hn]
  · have hn : n'.chars ≠ n.chars := by
      intro heq
      rw [FileName.ext heq, hdot] at hdot'
      cases hdot'
    simp only [hdir, Function.update_of_ne hn]
    exact hs.dots n' hdot'
  · simp only [hdir] at hino
    simp only [hcontent]
    by_cases hsame : ino' = ino
    · simp [hsame]
    · rw [Function.update_of_ne hsame]
      by_cases hn : name' = n.chars
      · rw [hn, Function.update_self] at hino
        exact absurd (Option.some.inj hino).symm hsame
      · rw [Function.update_of_ne hn] at hino
        exact hs.small name' ino' hino

/-- A file removed from both. -/
theorem Systems.Same.erase (n : FileName) {host : Host} {d : Disk} (c : Consistent fs d)
    (hrep : (directoryOn d).Represents (m.erase n.chars))
    (hdir : host.dir = Function.update s.kernel.host.dir n.chars none)
    (hcontent : host.content = s.kernel.host.content) :
    Systems.Same fs ⟨{ s.kernel with host := host }, d⟩ (m.erase n.chars) := by
  have hgone : ∀ name ino, host.dir name = some ino → s.kernel.host.dir name = some ino := by
    intro name ino hino
    rw [hdir] at hino
    by_cases hn : name = n.chars
    · rw [hn, Function.update_self] at hino
      cases hino
    · rwa [Function.update_of_ne hn] at hino
  refine ⟨c, hrep, fun n' ↦ ?_, fun n' hdot' ↦ ?_, fun name' ino' hino ↦ ?_⟩
  · rw [Finmap.mem_erase, hs.mem_iff n']
    simp only [hdir]
    by_cases hn : n'.chars = n.chars
    · simp [hn]
    · simp [hn]
  · simp only [hdir]
    by_cases hn : n'.chars = n.chars
    · rw [hn, Function.update_self]
    · rw [Function.update_of_ne hn]
      exact hs.dots n' hdot'
  · simp only [hcontent]
    exact hs.small name' ino' (hgone name' ino' hino)

/-- Other descriptors and blocks do not matter. -/
theorem Systems.Same.congr {k : Kernel} (hdir : k.host.dir = s.kernel.host.dir)
    (hcontent : k.host.content = s.kernel.host.content) : Systems.Same fs ⟨k, s.disk⟩ m := by
  refine ⟨hs.consistent, hs.represents, ?_, ?_, ?_⟩
  · rw [hdir]
    exact hs.mem_iff
  · rw [hdir]
    exact hs.dots
  · rw [hdir, hcontent]
    exact hs.small

/-- **One operation** that meets the condition is answered alike and leaves the same names. -/
theorem Systems.Same.agree (hfits : s.Fits call) (hfresh : s.Fresh call) :
    ∃ answer k d m', call.op.onStub call.env s.kernel = .ok answer k ∧
      call.op.onDisk fs call.junk s.disk = .ok answer d ∧ Systems.Same fs ⟨k, d⟩ m' := by
  obtain ⟨hfd, hopens, hunlinks, hroom⟩ := hfits
  have hfree := Host.isFree_iff.mpr hfd
  obtain ⟨op, env, junk⟩ := call
  cases op with
  | create n =>
    obtain ⟨hnone, hdot⟩ := hfresh n rfl
    obtain ⟨ino, host, hstub, hdir, hcontent, -⟩ :=
      stub_create n.chars (hopens.trans hdot) hfree
    rcases disk_create hs.consistent hs.represents n junk (hroom n rfl) with
      ⟨-, d', sector, hrun, c', hrep⟩ | ⟨hmem, -⟩
    · exact ⟨true, _, d', _, hstub, hrun, hs.insert hdot c' hrep hdir hcontent⟩
    · rw [hs.mem_iff, hnone] at hmem
      cases hmem
  | remove n =>
    have hstub := stub_remove n.chars env s.kernel
    rcases disk_remove hs.consistent hs.represents n junk with ⟨hmem, d', hrun, c', hrep⟩ |
      ⟨hmem, hrun⟩
    · have hok : env.unlinkFails = false := by
        rw [hunlinks, Bool.eq_false_iff]
        exact fun hdot ↦ hs.not_mem_of_dot hdot hmem
      rw [hok, (hs.mem_iff n).mp hmem] at hstub
      obtain ⟨hdir, hcontent⟩ := s.kernel.host.unlink_dir n.chars
      exact ⟨true, _, d', _, hstub, hrun, hs.erase n c' hrep hdir hcontent⟩
    · have hnone : s.kernel.host.dir n.chars = none := by
        rw [hs.mem_iff, Bool.not_eq_true] at hmem
        simpa using hmem
      have hsame : (s.kernel.host.unlink n.chars env.unlinkFails).2 = s.kernel.host := by
        simp only [Host.unlink, hnone]
        cases env.unlinkFails <;> rfl
      rw [hnone, Option.isSome_none, Bool.and_false, hsame] at hstub
      exact ⟨false, _, s.disk, m, hstub, hrun, hs.congr rfl rfl⟩
  | openFile n =>
    obtain ⟨file, k', hstub, hfile, hdir, hcontent⟩ := stub_open n.chars hfree
      fun ino hino ↦ hs.small n.chars ino hino
    obtain ⟨file', hrun, hfile'⟩ := disk_open hs.consistent hs.represents n junk
    have hanswer : file'.isSome = file.isSome := by
      rw [Bool.eq_iff_iff, hfile', hfile, hs.mem_iff, hopens]
      cases hdot : n.isDot with
      | true => simp [NameOp.name, hdot, hs.dots n hdot]
      | false => simp [NameOp.name, hdot]
    refine ⟨file.isSome, k', s.disk, m, ?_, ?_, hs.congr hdir hcontent⟩
    · exact bind_of_ok hstub
    · rw [← hanswer]
      exact bind_of_ok hrun

/-- A `Create` that does not meet it is not. -/
theorem Systems.Same.fresh_of_agree (hfits : s.Fits call) (hagree : s.Agree fs call) :
    s.Fresh call := by
  obtain ⟨hfd, hopens, -, hroom⟩ := hfits
  obtain ⟨op, env, junk⟩ := call
  obtain ⟨answer, k, d, hstub, hdisk⟩ := hagree
  rintro n rfl
  have hdot : n.isDot = false := by
    by_contra hdot
    have hfail : env.openFails = true := hopens.trans (Bool.not_eq_false _ ▸ hdot)
    rw [NameOp.onStub, fileSystemCreate_refused n.chars (.inl hfail)] at hstub
    cases hstub
  refine ⟨?_, hdot⟩
  obtain ⟨ino, host, hrun, -⟩ :=
    stub_create n.chars (hopens.trans hdot) (Host.isFree_iff.mpr hfd)
  rw [NameOp.onStub, hrun] at hstub
  cases hstub
  rcases disk_create hs.consistent hs.represents n junk (hroom n rfl) with ⟨hnew, -⟩ | ⟨-, hfalse⟩
  · rw [hs.mem_iff, Bool.not_eq_true] at hnew
    simpa using hnew
  · rw [NameOp.onDisk, hfalse] at hdisk
    cases hdisk

end sideBySide

/-- The directory after the start has the two console files only. -/
private theorem start_represents (junk : ℕ → Garbage) (d : Disk) :
    ∃ fs d' m, FileSystem.start junk d = .ok fs d' ∧ Consistent fs d' ∧
      (directoryOn d').Represents m ∧ ∀ n : FileName, n.chars ∉ m := by
  obtain ⟨fs, d₀, d₁, d₂, s₁, h₁, s₂, h₂, hrun, hf, hc₁, hc₂, hl⟩ := start_created junk d
  have hrep₀ : (directoryOn d₀).Represents ∅ := Directory.represents_empty hf.empty
  have hrep₁ := hc₁.represents hrep₀ Finmap.notMem_empty
  have hnew : Directory.key FileSystem.stdoutName ∉
      (∅ : Directory.Contents).insert (Directory.key FileSystem.stdinName) (.ofNat 32 s₁) := by
    rw [Finmap.mem_insert, not_or]
    exact ⟨by decide, Finmap.notMem_empty⟩
  refine ⟨fs, d₂, _, hrun, hl.consistent, hc₂.represents hrep₁ hnew, fun n ↦ ?_⟩
  rw [Finmap.mem_insert, Finmap.mem_insert, not_or, not_or]
  exact ⟨n.ne_stdout, n.ne_stdin, Finmap.notMem_empty⟩

/-- **Stub and real file system.** Along every sequence of `Create(name, 0)`, `Remove(name)` and
`Open(name)` inside the capacity of the two, from an empty directory of the host and a freshly
formatted disk: they report the same at every step if and only if every name that is created does
not exist at that moment and is neither `.` nor `..`. -/
theorem stub_real_agree_iff (junk : ℕ → Garbage) (d : Disk) (k : Kernel)
    (hempty : k.host.dir = fun _ ↦ none) :
    ∃ fs d', FileSystem.start junk d = .ok fs d' ∧
      ∀ calls : List NameCall, Along (Systems.step fs) Systems.Fits ⟨k, d'⟩ calls →
        (Along (Systems.step fs) (Systems.Agree fs) ⟨k, d'⟩ calls ↔
          Along (Systems.step fs) Systems.Fresh ⟨k, d'⟩ calls) := by
  obtain ⟨fs, d', m, hrun, hconsistent, hrep, hnew⟩ := start_represents junk d
  have hstart : Systems.Same fs ⟨k, d'⟩ m := by
    refine ⟨hconsistent, hrep, fun n ↦ ?_, fun n _ ↦ ?_, fun name ino hino ↦ ?_⟩
    · exact iff_of_false (hnew n) (by simp [hempty])
    · exact congrFun hempty n.chars
    · rw [congrFun hempty name] at hino
      cases hino
  refine ⟨fs, d', hrun, fun calls hfits ↦ ?_⟩
  have hboth := @along_iff _ _ (Systems.step fs)
    (fun s call ↦ s.Fits call ∧ s.Agree fs call) (fun s call ↦ s.Fits call ∧ s.Fresh call)
    (fun s ↦ ∃ m, s.Same fs m)
    (fun s call ⟨m, hs⟩ ↦ and_congr_right fun hfits ↦
      ⟨hs.fresh_of_agree hfits, fun hfresh ↦ by
        obtain ⟨answer, k', d', m', hstub, hdisk, -⟩ := hs.agree hfits hfresh
        exact ⟨answer, k', d', hstub, hdisk⟩⟩)
    (fun s call s' ⟨m, hs⟩ ⟨hfits, hfresh⟩ hstep ↦ by
      obtain ⟨answer, k', d', m', hstub, hdisk, hsame⟩ := hs.agree hfits hfresh
      rw [Systems.step, hstub, hdisk] at hstep
      cases hstep
      exact ⟨m', hsame⟩) _ calls ⟨m, hstart⟩
  rw [along_and, along_and] at hboth
  exact ⟨fun hagree ↦ (hboth.mp ⟨hfits, hagree⟩).2, fun hfresh ↦ (hboth.mpr ⟨hfits, hfresh⟩).2⟩

/-! ## Creating a file twice -/

/-- The name `f`. -/
def fileF : FileName where
  chars := [0x66]
  nonempty := by decide
  short := by decide
  noZero := by decide
  noSlash := by decide
  ne_stdin := by decide
  ne_stdout := by decide

/-- The name `g`. -/
def fileG : FileName where
  chars := [0x67]
  nonempty := by decide
  short := by decide
  noZero := by decide
  noSlash := by decide
  ne_stdin := by decide
  ne_stdout := by decide

def createFileF : NameCall := ⟨.create fileF, Env.quiet, fun _ _ ↦ 0⟩

def createFileG : NameCall := ⟨.create fileG, Env.quiet, fun _ _ ↦ 0⟩

def openFileF : NameCall := ⟨.openFile fileF, Env.quiet, fun _ _ ↦ 0⟩

/-- `Remove("f")` and `Open("f")`, when the descriptor 3 is taken. -/
def removeFileF : NameCall := ⟨.remove fileF, { Env.quiet with newFd := 4 }, fun _ _ ↦ 0⟩

def reopenFileF : NameCall := ⟨.openFile fileF, { Env.quiet with newFd := 4 }, fun _ _ ↦ 0⟩

/-- `Create(name, 0)` fits where descriptor 3 is free and there is room on the disk. -/
theorem createFile_fits {fs : FileSystem} {s : Systems} {names : List (List Byte)}
    (n : FileName) (hdot : n.isDot = false) (hl : Listing fs s.disk names)
    (hclears : 0 < (freeMapOn s.disk).clears) (hfd : s.kernel.host.fds 3 = none) :
    s.Fits ⟨.create n, Env.quiet, fun _ _ ↦ 0⟩ where
  newFd := ⟨show 0 ≤ Env.quiet.newFd.toInt by decide, hfd⟩
  opens := hdot.symm
  unlinks := hdot.symm
  room _ _ := by
    refine ⟨⟨names.length, hl.length_lt, ?_⟩, hclears⟩
    rw [Bool.eq_false_iff]
    exact fun hused ↦ Nat.lt_irrefl _ ((hl.inUse_iff _ hl.length_lt).mp hused)

/-- `f` is created on the disk that was just formatted. -/
private theorem exists_created :
    ∃ fs d' d₁ sector h, FileSystem.start (fun _ _ _ ↦ 0) (fun _ _ ↦ 0) = .ok fs d' ∧
      Listing fs d' [FileSystem.stdinName, FileSystem.stdoutName] ∧
      0 < (freeMapOn d').clears ∧ fs.create (fun _ _ ↦ 0) fileF.chars 0 d' = .ok true d₁ ∧
      Created d' d₁ fileF.chars 0 2 sector h ∧
      Listing fs d₁ [FileSystem.stdinName, FileSystem.stdoutName, fileF.chars] ∧
      0 < (freeMapOn d₁).clears := by
  obtain ⟨fs, d', hrun, hl, hclears⟩ := start_eq (fun _ _ _ ↦ 0) (fun _ _ ↦ 0)
  obtain ⟨d₁, sector, h, hcreate, hc, hl₁⟩ := hl.create (fun _ _ ↦ 0) fileF.chars 0 (by decide)
    (by decide) (by decide) (by decide) (by omega)
  have hclears₁ := hc.clears
  have hcount := hc.count_eq
  exact ⟨fs, d', d₁, sector, h, hrun, hl, by omega, hcreate, hc, hl₁, by omega⟩

/-- The stub after a call. -/
def NameCall.stubAfter (call : NameCall) (k : Kernel) : Kernel :=
  match call.op.onStub call.env k with
  | .ok _ k' => k'
  | .error _ k' => k'

theorem Systems.of_step {fs : FileSystem} {s s' : Systems} {call : NameCall}
    (h : s.step fs call = some s') : s'.kernel = call.stubAfter s.kernel ∧
      ∃ answer, call.op.onDisk fs call.junk s.disk = .ok answer s'.disk := by
  rw [Systems.step] at h
  rw [NameCall.stubAfter]
  split at h
  case h_1 answer k answer' d hstub hdisk =>
    cases h
    rw [hstub]
    exact ⟨rfl, answer', hdisk⟩
  case h_2 => cases h

/-- Two files are created. One is opened and removed, and cannot be opened again. -/
def nameCalls : List NameCall := [createFileF, createFileG, openFileF, removeFileF, reopenFileF]

/-- The general theorem for this run, in which all is reported alike. -/
theorem nameCalls_agree :
    ∃ fs d', FileSystem.start (fun _ _ _ ↦ 0) (fun _ _ ↦ 0) = .ok fs d' ∧
      Along (Systems.step fs) Systems.Fits ⟨Kernel.boot (callMachine 0 0), d'⟩ nameCalls ∧
      Along (Systems.step fs) (Systems.Agree fs) ⟨Kernel.boot (callMachine 0 0), d'⟩ nameCalls := by
  obtain ⟨fs, d', hrun, hiff⟩ := stub_real_agree_iff (fun _ _ _ ↦ 0) (fun _ _ ↦ 0)
    (Kernel.boot (callMachine 0 0)) rfl
  obtain ⟨fs', d'', d₁, sector, h, hrun', hl, hclears, hcreate, -, hl₁, hclears₁⟩ := exists_created
  rw [hrun] at hrun'
  cases hrun'
  have hfits : Along (Systems.step fs) Systems.Fits ⟨Kernel.boot (callMachine 0 0), d'⟩
      nameCalls := by
    refine ⟨createFile_fits fileF rfl hl hclears rfl, fun s₁ h₁ ↦ ?_⟩
    obtain ⟨answer, hdisk⟩ := (Systems.of_step h₁).2
    cases hcreate.symm.trans hdisk
    have hk₁ : s₁.kernel = createFileF.stubAfter (Kernel.boot (callMachine 0 0)) :=
      (Systems.of_step h₁).1
    refine ⟨createFile_fits fileG rfl hl₁ hclears₁ ?_, fun s₂ h₂ ↦ ?_⟩
    · rw [hk₁]
      decide +kernel
    have hk₂ := (Systems.of_step h₂).1
    rw [hk₁] at hk₂
    refine ⟨⟨⟨by decide, ?_⟩, rfl, rfl, nofun⟩, fun s₃ h₃ ↦ ?_⟩
    · rw [hk₂]
      decide +kernel
    have hk₃ := (Systems.of_step h₃).1
    rw [hk₂] at hk₃
    refine ⟨⟨⟨by decide, ?_⟩, rfl, rfl, nofun⟩, fun s₄ h₄ ↦ ?_⟩
    · rw [hk₃]
      decide +kernel
    have hk₄ := (Systems.of_step h₄).1
    rw [hk₃] at hk₄
    refine ⟨⟨⟨by decide, ?_⟩, rfl, rfl, nofun⟩, fun _ _ ↦ trivial⟩
    rw [hk₄]
    decide +kernel
  refine ⟨fs, d', hrun, hfits, (hiff _ hfits).mpr ?_⟩
  -- only the two calls of `Create` have to be fresh
  refine ⟨?_, fun s₁ h₁ ↦ ⟨?_, fun _ _ ↦ ⟨nofun, fun _ _ ↦ ⟨nofun, fun _ _ ↦ ⟨nofun, ?_⟩⟩⟩⟩⟩
  · rintro n ⟨⟩
    exact ⟨rfl, by decide⟩
  · rintro n ⟨⟩
    have hnone : (createFileF.stubAfter (Kernel.boot (callMachine 0 0))).host.dir fileG.chars
        = none := by decide +kernel
    rw [(Systems.of_step h₁).1]
    exact ⟨hnone, by decide⟩
  · exact fun _ _ ↦ trivial

/-- The same file a second time is not. -/
theorem createFileF_twice_disagree :
    ∃ fs d', FileSystem.start (fun _ _ _ ↦ 0) (fun _ _ ↦ 0) = .ok fs d' ∧
      Along (Systems.step fs) Systems.Fits ⟨Kernel.boot (callMachine 0 0), d'⟩
        [createFileF, createFileF] ∧
      ¬Along (Systems.step fs) (Systems.Agree fs) ⟨Kernel.boot (callMachine 0 0), d'⟩
        [createFileF, createFileF] := by
  obtain ⟨fs, d', d₁, sector, h, hrun, hl, hclears, hcreate, hc, hl₁, hclears₁⟩ := exists_created
  obtain ⟨ino, host, hstub, -, -, hfds⟩ := @stub_create Env.quiet
    (Kernel.boot (callMachine 0 0)) fileF.chars rfl rfl
  have hstep : Systems.step fs ⟨Kernel.boot (callMachine 0 0), d'⟩ createFileF
      = some ⟨{ Kernel.boot (callMachine 0 0) with host := host }, d₁⟩ := by
    rw [Systems.step]
    simp only [createFileF, NameOp.onStub, NameOp.onDisk, hstub, hcreate]
  refine ⟨fs, d', hrun, ⟨createFile_fits fileF rfl hl hclears rfl, fun s₁ hs₁ ↦ ?_⟩, ?_⟩
  · rw [hstep] at hs₁
    cases hs₁
    exact ⟨createFile_fits fileF rfl hl₁ hclears₁ (congrFun hfds 3), fun _ _ ↦ trivial⟩
  · rintro ⟨-, hrest⟩
    obtain ⟨⟨answer, k, d, hstub', hdisk⟩, -⟩ := hrest _ hstep
    obtain ⟨_, _, htrue, -⟩ := @stub_create Env.quiet
      { Kernel.boot (callMachine 0 0) with host := host } fileF.chars rfl
      (Host.isFree_iff.mpr ⟨by decide, congrFun hfds 3⟩)
    have hfound := (hl.open_created (by decide) hc (fun _ _ ↦ 0)).1
    have hfalse := (hl.consistent.created hc).create_of_found (fun _ _ ↦ 0)
      (show (directoryOn d₁).findIndex fileF.chars ≠ -1 by rw [hfound]; decide) 0
    simp only [createFileF, NameOp.onStub, NameOp.onDisk, htrue, hfalse] at hstub' hdisk
    cases hstub'
    cases hdisk

end Nachos
