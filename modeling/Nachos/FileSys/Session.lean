import Nachos.FileSys.Allocation

/-!
# Runs of the file system

A session is the disk and the files that are open on it. A handle is what `Open` returned, the
header in memory. With it the session remembers which entry of the directory the file was in and
whether it has been removed since; no operation looks at these two.
-/

namespace Nachos

open Program

/-- An open file. -/
structure FileHandle where
  hdr : FileHeader
  /-- The entry the name was found in. -/
  entry : ℕ
  /-- The file has been removed since. -/
  removed : Bool

structure Session where
  disk : Disk
  handles : List FileHandle

/-- An operation on the file system. An `int` argument is the word that holds it. -/
inductive FileOp where
  | create (junk : Garbage) (name : List Byte) (initialSize : Word)
  | openFile (junk : Garbage) (name : List Byte)
  | remove (junk : Garbage) (name : List Byte)
  | readAt (i : ℕ) (junk : ℕ → Byte) (numBytes position : Word)
  | writeAt (i : ℕ) (junk : ℕ → Byte) (src : ℕ → Byte) (numBytes position : Word)

namespace Session

/-- Code that works on the disk, run in a session; `f` says what becomes of the handles. -/
def onDisk {α : Type} (s : Session) (x : DiskM α) (f : α → List FileHandle) :
    EStateM.Result Fault Session Unit :=
  match x s.disk with
  | .ok a d => .ok () ⟨d, f a⟩
  | .error e d => .error e ⟨d, s.handles⟩

/-- The entry a name is found in. -/
def entryOf (s : Session) (name : List Byte) : ℕ := ((directoryOn s.disk).findIndex name).toNat

/-- The handles after `Open`. -/
def opened (s : Session) (name : List Byte) : Option FileHeader → List FileHandle
  | none => s.handles
  | some hdr => s.handles ++ [⟨hdr, s.entryOf name, false⟩]

/-- The handles after `Remove`. -/
def dropped (s : Session) (name : List Byte) : Bool → List FileHandle
  | false => s.handles
  | true => s.handles.map fun h ↦
      if h.entry = s.entryOf name then { h with removed := true } else h

/-- One operation. A request on a handle that is not open is no operation. -/
def exec (fs : FileSystem) (s : Session) : FileOp → EStateM.Result Fault Session Unit
  | .create junk name initialSize =>
    s.onDisk (fs.create junk name initialSize.toInt) fun _ ↦ s.handles
  | .openFile junk name => s.onDisk (fs.openFile junk name) (s.opened name)
  | .remove junk name => s.onDisk (fs.remove junk name) (s.dropped name)
  | .readAt i junk numBytes position =>
    match s.handles[i]? with
    | none => .ok () s
    | some h => s.onDisk (Nachos.readAt h.hdr junk numBytes.toInt position.toInt) fun _ ↦ s.handles
  | .writeAt i junk src numBytes position =>
    match s.handles[i]? with
    | none => .ok () s
    | some h =>
      s.onDisk (Nachos.writeAt h.hdr junk src numBytes.toInt position.toInt) fun _ ↦ s.handles

/-- The session after an operation that returned. -/
def step (fs : FileSystem) (s : Session) (op : FileOp) : Option Session :=
  match s.exec fs op with
  | .ok _ s' => some s'
  | .error _ _ => none

/-- Each handle of a file that is still there has the header that is on the disk. -/
structure Inv (fs : FileSystem) (s : Session) : Prop where
  consistent : Consistent fs s.disk
  handles : ∀ h ∈ s.handles, h.removed = false →
    InUse s.disk h.entry ∧ h.hdr = fileHeader s.disk h.entry

/-- A write goes through a handle whose file is still there. -/
def Present (s : Session) : FileOp → Prop
  | .writeAt i _ _ _ _ => ∀ h, s.handles[i]? = some h → h.removed = false
  | _ => True

/-- A write has a position that is not negative, and its last byte has an `int` for its position. -/
def Proper (s : Session) : FileOp → Prop
  | .writeAt i _ _ numBytes position =>
    ∀ h, s.handles[i]? = some h → Nachos.Proper h.hdr numBytes.toInt position.toInt
  | _ => True

/-! ## One step -/

variable {fs : FileSystem} {s s' : Session}

theorem onDisk_of_ok {α : Type} {x : DiskM α} {f : α → List FileHandle} {a : α} {d : Disk}
    (h : x s.disk = .ok a d) : s.onDisk x f = .ok () ⟨d, f a⟩ := by
  rw [onDisk, h]

theorem onDisk_eq_ok {α : Type} {x : DiskM α} {f : α → List FileHandle}
    (h : s.onDisk x f = .ok () s') : ∃ a d, x s.disk = .ok a d ∧ s' = ⟨d, f a⟩ := by
  rw [onDisk] at h
  cases hrun : x s.disk with
  | ok a d =>
    rw [hrun] at h
    cases h
    exact ⟨a, d, rfl, rfl⟩
  | error e d =>
    rw [hrun] at h
    cases h

theorem step_eq_some {op : FileOp} : s.step fs op = some s' ↔ s.exec fs op = .ok () s' := by
  rw [step]
  cases s.exec fs op <;> simp

/-- A new disk under the same handles. -/
theorem Inv.onto (hs : s.Inv fs) {d : Disk} (c : Consistent fs d)
    (hkeep : ∀ i, InUse s.disk i → InUse d i ∧ fileHeader d i = fileHeader s.disk i) :
    (⟨d, s.handles⟩ : Session).Inv fs := by
  refine ⟨c, fun h hh hr ↦ ?_⟩
  obtain ⟨huse, hhdr⟩ := hs.handles h hh hr
  obtain ⟨huse', hsame⟩ := hkeep h.entry huse
  exact ⟨huse', hhdr.trans hsame.symm⟩

/-- The invariant after `Create`. -/
theorem Inv.create (hs : s.Inv fs) (junk : Garbage) (name : List Byte) (initialSize : Word)
    {r : Bool}
    {d : Disk} (hrun : fs.create junk name initialSize.toInt s.disk = .ok r d) :
    (⟨d, s.handles⟩ : Session).Inv fs := by
  have hsame : d = s.disk → (⟨d, s.handles⟩ : Session).Inv fs := by
    rintro rfl
    exact hs
  have hlow := initialSize.le_two_mul_toInt
  have hhigh := initialSize.two_mul_toInt_lt
  by_cases hlarge : (maxFileSize : ℤ) < initialSize.toInt
  · exact hsame (hs.consistent.create_of_large junk name hlarge (by omega) hrun)
  · rcases hs.consistent.create_cases junk name (show _ ≤ initialSize.toInt by omega)
      (by omega) with
      ⟨d', k, sec, h, heq, hc⟩ | ⟨heq, -⟩
    · rw [heq] at hrun
      cases hrun
      obtain ⟨-, -, huse, -, -, hkeep⟩ := hs.consistent.created_views hc
      exact hs.onto (hs.consistent.created hc) fun i hi ↦ ⟨(huse i).mpr (.inl hi), (hkeep i hi).2⟩
    · rw [heq] at hrun
      cases hrun
      exact hs

theorem Inv.openFile (hs : s.Inv fs) (junk : Garbage) (name : List Byte) {r : Option FileHeader}
    {d : Disk} (hrun : fs.openFile junk name s.disk = .ok r d) :
    (⟨d, s.opened name r⟩ : Session).Inv fs := by
  rcases hs.consistent.open_cases junk name with ⟨k, huse, hindex, heq⟩ | ⟨-, heq⟩
  · rw [heq] at hrun
    cases hrun
    refine ⟨hs.consistent, fun h hh hr ↦ ?_⟩
    rcases List.mem_append.mp hh with hh | hh
    · exact hs.handles h hh hr
    · cases List.mem_singleton.mp hh
      have hentry : s.entryOf name = k := by rw [entryOf, hindex, Int.toNat_natCast]
      rw [hentry]
      exact ⟨huse, rfl⟩
  · rw [heq] at hrun
    cases hrun
    exact hs

theorem Inv.remove (hs : s.Inv fs) (junk : Garbage) (name : List Byte) {r : Bool} {d : Disk}
    (hrun : fs.remove junk name s.disk = .ok r d) :
    (⟨d, s.dropped name r⟩ : Session).Inv fs := by
  rcases hs.consistent.remove_cases junk name with ⟨d', k, hindex, heq, hr⟩ | ⟨-, heq⟩
  · rw [heq] at hrun
    cases hrun
    obtain ⟨-, -, huse, hkeep⟩ := hs.consistent.removed_views hr
    have hentry : s.entryOf name = k := by rw [entryOf, hindex, Int.toNat_natCast]
    refine ⟨hs.consistent.removed hr, fun h hh hpresent ↦ ?_⟩
    obtain ⟨h', hh', rfl⟩ := List.mem_map.mp hh
    -- a handle on the removed file is marked, so this is one on another file
    by_cases hk : h'.entry = s.entryOf name
    · rw [if_pos hk] at hpresent
      cases hpresent
    · rw [if_neg hk] at hpresent ⊢
      obtain ⟨huse', hhdr⟩ := hs.handles h' hh' hpresent
      rw [hentry] at hk
      exact ⟨(huse _).mpr ⟨huse', hk⟩, hhdr.trans (hkeep _ huse').2.symm⟩
  · rw [heq] at hrun
    cases hrun
    exact hs

/-- A proper write through a handle whose file is there. -/
theorem Inv.writeAt (hs : s.Inv fs) {h : FileHandle} (hh : h ∈ s.handles)
    (hpresent : h.removed = false)
    {numBytes position : ℤ} (hp : Nachos.Proper h.hdr numBytes position) (junk src : ℕ → Byte) :
    ∃ r d, Nachos.writeAt h.hdr junk src numBytes position s.disk = .ok r d ∧
      (⟨d, s.handles⟩ : Session).Inv fs ∧
      ∀ t, ¬(fileHeader s.disk h.entry).Owns t → d t = s.disk t := by
  obtain ⟨huse, hhdr⟩ := hs.handles h hh hpresent
  rw [hhdr] at hp ⊢
  obtain ⟨r, d, hrun, hframe⟩ :=
    writeAt_frame (hs.consistent.file_valid _ huse) junk src hp s.disk
  obtain ⟨-, -, -, hdirectory, hkeep⟩ := hs.consistent.written_views huse hframe
  refine ⟨r, d, hrun, hs.onto (hs.consistent.written huse hframe) fun i hi ↦
    ⟨⟨hi.1, ?_⟩, (hkeep i hi).2⟩, hframe⟩
  rw [hdirectory.inUse hi.1, hi.2]

/-- Every operation keeps the invariant, a write if it goes through a handle whose file is there and
is proper. -/
theorem Inv.step (hs : s.Inv fs) {op : FileOp} (hpresent : s.Present op) (hproper : s.Proper op)
    (hstep : s.step fs op = some s') : s'.Inv fs := by
  rw [step_eq_some] at hstep
  cases op with
  | create junk name initialSize =>
    obtain ⟨r, d, hrun, rfl⟩ := onDisk_eq_ok hstep
    exact hs.create junk name initialSize hrun
  | openFile junk name =>
    obtain ⟨r, d, hrun, rfl⟩ := onDisk_eq_ok hstep
    exact hs.openFile junk name hrun
  | remove junk name =>
    obtain ⟨r, d, hrun, rfl⟩ := onDisk_eq_ok hstep
    exact hs.remove junk name hrun
  | readAt i junk numBytes position =>
    rw [exec] at hstep
    cases hi : s.handles[i]? with
    | none =>
      rw [hi] at hstep
      cases hstep
      exact hs
    | some h =>
      rw [hi] at hstep
      obtain ⟨r, d, hrun, rfl⟩ := onDisk_eq_ok hstep
      obtain rfl : d = s.disk := keeps_readAt _ _ _ _ _ _ hrun
      exact hs
  | writeAt i junk src numBytes position =>
    rw [exec] at hstep
    cases hi : s.handles[i]? with
    | none =>
      rw [hi] at hstep
      cases hstep
      exact hs
    | some h =>
      obtain ⟨r, d, hrun, hinv, -⟩ := hs.writeAt (List.mem_of_getElem? hi) (hpresent h hi)
        (hproper h hi) junk src
      rw [hi] at hstep
      cases (onDisk_of_ok hrun).symm.trans hstep
      exact hinv

/-! ## The allocation invariant over whole runs -/

/-- `Create` is asked for a size a file can have. -/
def SizeOk : FileOp → Prop
  | .create _ _ initialSize => 0 ≤ initialSize.toInt ∧ initialSize.toInt ≤ maxFileSize
  | _ => True

/-- What is to hold of an operation: it leaves every sector in use marked, with one owner, and
passes all assertions; only `ReadAt`, which allocates nothing, may end in a fault. -/
def StepAllocated (fs : FileSystem) (s : Session) (op : FileOp) : Prop :=
  match s.exec fs op with
  | .ok _ s' => Allocated s'.disk
  | .error _ _ => ∃ i junk numBytes position, op = .readAt i junk numBytes position

theorem Inv.stepAllocated (hs : s.Inv fs) {op : FileOp} (hsize : SizeOk op)
    (hpresent : s.Present op)
    (hproper : s.Proper op) : s.StepAllocated fs op := by
  rw [StepAllocated]
  cases hexec : s.exec fs op with
  | ok r s' => exact (hs.step hpresent hproper (step_eq_some.mpr hexec)).consistent.allocated
  | error e s' =>
    -- only `ReadAt` is left: the others return
    cases op with
    | create junk name initialSize =>
      rcases hs.consistent.create_cases junk name (show _ ≤ initialSize.toInt from
        Int.le_trans (by decide) hsize.1) hsize.2 with ⟨d, k, sec, h, hrun, -⟩ | ⟨hrun, -⟩
      · cases (onDisk_of_ok hrun).symm.trans hexec
      · cases (onDisk_of_ok hrun).symm.trans hexec
    | openFile junk name =>
      rcases hs.consistent.open_cases junk name with ⟨k, -, -, hrun⟩ | ⟨-, hrun⟩
      · cases (onDisk_of_ok hrun).symm.trans hexec
      · cases (onDisk_of_ok hrun).symm.trans hexec
    | remove junk name =>
      rcases hs.consistent.remove_cases junk name with ⟨d, k, -, hrun, -⟩ | ⟨-, hrun⟩
      · cases (onDisk_of_ok hrun).symm.trans hexec
      · cases (onDisk_of_ok hrun).symm.trans hexec
    | readAt i junk numBytes position => exact ⟨i, junk, numBytes, position, rfl⟩
    | writeAt i junk src numBytes position =>
      rw [exec] at hexec
      cases hi : s.handles[i]? with
      | none =>
        rw [hi] at hexec
        cases hexec
      | some h =>
        rw [hi] at hexec
        obtain ⟨r, d, hrun, -⟩ := hs.writeAt (List.mem_of_getElem? hi) (hpresent h hi)
          (hproper h hi) junk src
        cases (onDisk_of_ok hrun).symm.trans hexec

end Session

/-- Starting the file system on any disk gives a session with no open file. -/
theorem start_inv (junk : ℕ → Garbage) (d : Disk) :
    ∃ fs d₀, FileSystem.start junk d = .ok fs d₀ ∧ (⟨d₀, []⟩ : Session).Inv fs := by
  obtain ⟨fs, d₀, hrun, hl, -⟩ := start_eq junk d
  exact ⟨fs, d₀, hrun, hl.consistent, fun h hh ↦ by cases hh⟩

/-- **Disk allocation.** From a formatted disk, along every run of `Create` with a size from 0 to
`MaxFileSize`, `Open`, `Remove`, `ReadAt`, and `WriteAt` through handles of files that are still in
the directory, at positions that are not negative: after every operation the stored bitmap marks
exactly the sectors in use, each of which has one owner, and no assertion fails. -/
theorem allocation_of_proper (junk : ℕ → Garbage) (d : Disk) :
    ∃ fs d₀, FileSystem.start junk d = .ok fs d₀ ∧ Allocated d₀ ∧
      ∀ ops, Along (Session.step fs)
          (fun s op ↦ Session.SizeOk op ∧ s.Present op ∧ s.Proper op) ⟨d₀, []⟩ ops →
        Along (Session.step fs) (Session.StepAllocated fs) ⟨d₀, []⟩ ops := by
  obtain ⟨fs, d₀, hrun, hinv⟩ := start_inv junk d
  refine ⟨fs, d₀, hrun, hinv.consistent.allocated, fun ops hops ↦ ?_⟩
  refine Along.imp (Session.Inv fs) (fun s op hs hop ↦ hs.stepAllocated hop.1 hop.2.1 hop.2.2)
    (fun s op s' hs hop hstep ↦ hs.step hop.2.1 hop.2.2 hstep) hinv hops

/-! ## Runs with a file `f` -/

/-- What a run leaves uninitialised, all zeros. -/
def zeroGarbage : Garbage := fun _ _ ↦ 0

/-- The name of one letter, `f`. -/
def nameF : List Byte := [0x66]

/-- Two sectors' worth of bytes for a file `f`. -/
def createF : FileOp := .create zeroGarbage nameF 256

def openF : FileOp := .openFile zeroGarbage nameF

/-- A write of one sector right before the start of a file of two sectors: the word before the table
of data sectors is the number of them, so the data goes to sector 2. -/
private theorem writeAt_before_start {h : FileHeader} (hv : h.Valid) (hlength : h.fileLength = 256)
    (hsector : h.sectorAt 0 ≠ 2) (junk src : ℕ → Byte) (d : Disk) :
    ∃ d', writeAt h junk src 128 (-128) d = .ok 128 d' ∧ d' 2 = .ofBytes src ∧
      ∀ t, t ≠ 2 → t ≠ h.sectorAt 0 → d' t = d t := by
  have hcount : h.count = 2 := by
    rw [hv.count_eq, FileHeader.length, hlength]
    rfl
  have hnum : h.numSectors.toInt = 2 := by
    rw [hv.numSectors_eq, hlength]
    rfl
  obtain ⟨b, hread, -, -⟩ := readIntoVia_eq hv.foundBy junk d ⟨256, junk⟩ (i := 128) (s := 0)
    (by omega) (show 128 + 128 ≤ 256 by decide)
  -- the first sector counts as aligned; the last one is read
  have hfill : fillBuffer h junk src 128 (-128) ⟨256, junk⟩ d = .ok ⟨256, blit b 0 src 128⟩ d := by
    rw [fillBuffer, fillBufferVia]
    change (readInto h junk ⟨256, junk⟩ ((128 : ℕ) : ℤ) (wrap32 (((0 : ℕ) : ℤ) * sectorSize)) >>=
      fun buf ↦ buf.store ((0 : ℕ) : ℤ) src ((128 : ℕ) : ℤ)) d = _
    refine (bind_of_ok hread).trans ?_
    exact Buffer.store_coe (i := 0) (n := 128) (show 0 + 128 ≤ 256 by decide) src d
  obtain ⟨d', hd'⟩ : ∃ d' : Disk, d' = Function.update (Function.update d 2 (.ofBytes src))
    (h.sectorAt 0) (.ofBytes fun x ↦ blit b 0 src 128 (128 + x)) := ⟨_, rfl⟩
  have hloop : writeSectors h (-1) ⟨256, blit b 0 src 128⟩ 0 2 d = .ok () d' := by
    have hbefore : h.byteToSector (-128) d = .ok 2 d := by
      rw [← hnum]
      rfl
    have hfirst : ∀ d', h.byteToSector 0 d' = .ok (h.sectorAt 0 : ℤ) d' := fun d' ↦
      hv.byteToSector (i := 0) (by omega) d'
    have hsrc : Sector.ofBytes (fun x ↦ blit b 0 src 128 (0 + x)) = .ofBytes src := by
      funext i
      have hi := i.isLt
      simp only [Sector.ofBytes, Nat.zero_add]
      exact blit_of_mem (Nat.zero_le _) (by simp only [sectorSize] at hi; omega)
    refine (bind_of_ok hbefore).trans ?_
    refine (bind_of_ok (Buffer.load_coe (i := 0) (n := 128)
      (show 0 + 128 ≤ 256 by decide) d)).trans ?_
    rw [hsrc]
    refine (bind_of_ok (writeSector_of_lt (s := 2) (by decide) _ d)).trans ?_
    refine (bind_of_ok (hfirst _)).trans ?_
    refine (bind_of_ok (Buffer.load_coe (i := 128) (n := 128)
      (show 128 + 128 ≤ 256 by decide) _)).trans ?_
    rw [hd']
    exact bind_of_ok (writeSector_of_lt (hv.sectorAt_lt 0 (by omega)) _ _)
  refine ⟨d', ?_, ?_, fun t ht ht' ↦ ?_⟩
  · rw [writeAt, writeAtVia, if_neg (by omega), hlength]
    change (fillBuffer h junk src 128 (-128) ⟨256, junk⟩ >>= fun buf ↦
      writeSectors h (-1) buf 0 2 >>= fun _ ↦ pure 128) d = _
    exact (bind_of_ok hfill).trans (bind_of_ok hloop)
  · rw [hd', Function.update_of_ne (Ne.symm hsector), Function.update_self]
  · rw [hd', Function.update_of_ne ht', Function.update_of_ne ht]

/-- A session in which `f` was just created and opened. -/
theorem exists_openF (junk : ℕ → Garbage) (d : Disk) (size : Word) (hlow : 0 ≤ size.toInt)
    (hhigh : size.toInt ≤ maxFileSize) :
    ∃ fs d₀ d₁ s h, FileSystem.start junk d = .ok fs d₀ ∧
      Listing fs d₀ [FileSystem.stdinName, FileSystem.stdoutName] ∧
      Created d₀ d₁ nameF size.toInt 2 s h ∧
      Listing fs d₁ [FileSystem.stdinName, FileSystem.stdoutName, nameF] ∧
      (freeMapOn d₀).clears = 1015 ∧
      Session.step fs ⟨d₀, []⟩ (.create zeroGarbage nameF size) = some ⟨d₁, []⟩ ∧
      Session.step fs ⟨d₁, []⟩ openF = some ⟨d₁, [⟨h, 2, false⟩]⟩ := by
  obtain ⟨fs, d₀, hstart, hl₀, hclears⟩ := start_eq junk d
  simp only [maxFileSize] at hhigh
  obtain ⟨d₁, s, h, hcreate, hc, hl₁⟩ := hl₀.create zeroGarbage nameF size.toInt hlow
    (by simp only [maxFileSize]; omega) (by decide) (by decide) (by omega)
  have hstep₁ : Session.step fs ⟨d₀, []⟩ (.create zeroGarbage nameF size) = some ⟨d₁, []⟩ :=
    Session.step_eq_some.mpr (Session.onDisk_of_ok hcreate)
  refine ⟨fs, d₀, d₁, s, h, hstart, hl₀, hc, hl₁, hclears, hstep₁, ?_⟩
  obtain ⟨hindex, hopened⟩ := hl₀.open_created (by decide) hc zeroGarbage
  have hentry : Session.entryOf ⟨d₁, []⟩ nameF = 2 := by
    rw [Session.entryOf, hindex]
    rfl
  have hexec : Session.exec fs ⟨d₁, []⟩ openF = .ok () ⟨d₁, [⟨h, 2, false⟩]⟩ := by
    rw [openF, Session.exec, Session.onDisk_of_ok hopened, Session.opened, hentry]
    rfl
  exact Session.step_eq_some.mpr hexec

/-- A run that meets all conditions: `f` is written across its two sectors, and removed. -/
theorem allocation_of_proper_write_remove :
    ∃ fs d₀ d₁ h, FileSystem.start (fun _ ↦ zeroGarbage) (fun _ _ ↦ 0) = .ok fs d₀ ∧
      Session.step fs ⟨d₀, []⟩ createF = some ⟨d₁, []⟩ ∧
      Session.step fs ⟨d₁, []⟩ openF = some ⟨d₁, [h]⟩ ∧ h.hdr.fileLength = 256 ∧
      Along (Session.step fs) (Session.StepAllocated fs) ⟨d₀, []⟩
        [createF, openF, .writeAt 0 (fun _ ↦ 0) (fun _ ↦ 1) 128 64, .remove zeroGarbage nameF] := by
  obtain ⟨fs, d₀, hrun, -, hall⟩ := allocation_of_proper (fun _ ↦ zeroGarbage) fun _ _ ↦ 0
  obtain ⟨fs', d₀', d₁, s, h, hrun', -, hc, -, -, hcreate, hopen⟩ :=
    exists_openF (fun _ ↦ zeroGarbage) (fun _ _ ↦ 0) 256 (by decide) (by decide)
  cases hrun.symm.trans hrun'
  refine ⟨fs, d₀, d₁, ⟨h, 2, false⟩, hrun, hcreate, hopen, hc.length, hall _ ?_⟩
  refine ⟨⟨⟨by decide, by decide⟩, trivial, trivial⟩, fun s₁ h₁ ↦ ?_⟩
  cases hcreate.symm.trans h₁
  refine ⟨⟨trivial, trivial, trivial⟩, fun s₂ h₂ ↦ ?_⟩
  cases hopen.symm.trans h₂
  refine ⟨⟨trivial, fun h' hh' ↦ ?_, fun h' hh' ↦ ?_⟩, fun _ _ ↦ ?_⟩
  · cases hh'
    rfl
  · exact .inr (.inr ⟨by decide, by decide⟩)
  · exact ⟨⟨trivial, trivial, trivial⟩, fun _ _ ↦ trivial⟩

/-- The bitmap is lost: the first byte of the write is at position -128. -/
theorem not_allocation_of_negative :
    ¬∀ (junk : ℕ → Garbage) (d : Disk), ∃ fs d₀,
      FileSystem.start junk d = .ok fs d₀ ∧ Allocated d₀ ∧
      ∀ ops, Along (Session.step fs) (fun s op ↦ Session.SizeOk op ∧ s.Present op) ⟨d₀, []⟩ ops →
        Along (Session.step fs) (Session.StepAllocated fs) ⟨d₀, []⟩ ops := by
  intro hallocated
  obtain ⟨fs, d₀, d₁, s, h, hstart, hl₀, hc, hl₁, -, hcreate, hopen⟩ :=
    exists_openF (fun _ ↦ zeroGarbage) (fun _ _ ↦ 0) 256 (by decide) (by decide)
  obtain ⟨fs', d₀', hstart', -, hall⟩ := hallocated (fun _ ↦ zeroGarbage) fun _ _ ↦ 0
  cases hstart.symm.trans hstart'
  -- sector 2 holds the bitmap, so it is no data sector of the new file
  have hmap : (headerAt d₁ freeMapSector).sectorAt 0 = 2 := hl₁.freeMap_sector
  have hcount := hl₁.freeMap_count
  have hlive : (Owner.freeMapData 0).Live d₀ := by
    rw [Owner.Live, hl₀.freeMap_count]
    decide
  have hsector : h.sectorAt 0 ≠ 2 := fun heq ↦ by
    have hfree := (hc.free 2 ⟨0, by rw [hc.count_eq]; decide, heq⟩).2
    have htaken := hl₀.consistent.allocated.taken_place hlive
    simp only [Owner.sector, hl₀.freeMap_sector, hfree] at htaken
    cases htaken
  obtain ⟨d₂, hwrite, hzero, hframe⟩ := writeAt_before_start hc.valid hc.length hsector
    (fun _ ↦ 0) (fun _ ↦ 0) d₁
  obtain ⟨-, hrest⟩ := hall [createF, openF, .writeAt 0 (fun _ ↦ 0) (fun _ ↦ 0) 128 (-128)] (by
    refine ⟨⟨⟨by decide, by decide⟩, trivial⟩, fun s₁ hs₁ ↦ ⟨⟨trivial, trivial⟩, fun s₂ hs₂ ↦ ?_⟩⟩
    cases hcreate.symm.trans hs₁
    cases hopen.symm.trans hs₂
    refine ⟨⟨trivial, fun h' hh' ↦ ?_⟩, fun _ _ ↦ trivial⟩
    cases hh'
    rfl)
  obtain ⟨-, hrest⟩ := hrest _ hcreate
  obtain ⟨hlast, -⟩ := hrest _ hopen
  have hexec : Session.exec fs ⟨d₁, [⟨h, 2, false⟩]⟩
      (.writeAt 0 (fun _ ↦ 0) (fun _ ↦ 0) 128 (-128)) =
      .ok () ⟨d₂, [⟨h, 2, false⟩]⟩ := Session.onDisk_of_ok hwrite
  rw [Session.StepAllocated, hexec] at hlast
  -- the bit of sector 0 is gone
  have htaken := hlast.taken_place (o := .freeMapHeader) trivial
  have hzeroSector : h.sectorAt 0 ≠ 0 := fun heq ↦ by
    have hfree := (hc.free 0 ⟨0, by rw [hc.count_eq]; decide, heq⟩).2
    have htaken₀ := hl₀.consistent.allocated.taken_place (o := .freeMapHeader) trivial
    simp only [Owner.sector, hfree] at htaken₀
    cases htaken₀
  have hheader : headerAt d₂ freeMapSector = headerAt d₁ freeMapSector :=
    headerAt_congr (hframe _ (by decide) (Ne.symm hzeroSector))
  have hbyte : ∀ x < 4, (headerAt d₁ freeMapSector).flat d₂ x = 0 := fun x hx ↦ by
    rw [FileHeader.flat, show x / sectorSize = 0 by simp only [sectorSize]; omega, hmap, hzero]
    rfl
  have hword : wordAt ((headerAt d₁ freeMapSector).flat d₂) 0 = 0 := by
    rw [wordAt, hbyte _ (by decide), hbyte _ (by decide), hbyte _ (by decide), hbyte _ (by decide)]
    rfl
  have hbit : (freeMapOn d₂).bit 0 = false := by
    rw [freeMapOn, hheader]
    exact congrArg (·.getLsbD 0) hword
  rw [show Owner.sector d₂ .freeMapHeader = 0 from rfl, hbit] at htaken
  cases htaken

end Nachos
