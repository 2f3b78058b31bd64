import Nachos.FileSys.Volume
import Nachos.Threads.CommandLine
import Nachos.Userprog.FileCalls

/-!
# The commands of `main` on the file system

A run of Nachos is started with arguments: `-r name` removes a file, `-cp from to` copies a file of
the host to the disk, and `-p name` prints one, in this order whatever the order of the arguments.
`Copy` and `Print` move 128 bytes at a time. With `-f` the disk is formatted first.

Between two runs there is only the disk. Each run starts the file system on it, and what comes of a
sequence of runs is that a file store is kept on the disk.
-/

namespace Nachos

open Program

namespace Main

/-! ## What the commands work on -/

/-- The host, the disk and what has been printed. -/
structure Station where
  host : Host
  disk : Disk
  printed : List Byte

abbrev StationM := EStateM Fault Station

def onDisk {α : Type} (x : DiskM α) : StationM α := fun s ↦
  match x s.disk with
  | .ok a d => .ok a { s with disk := d }
  | .error e d => .error e { s with disk := d }

def onHost {α : Type} (f : Host → α × Host) : StationM α := fun s ↦
  .ok (f s.host).1 { s with host := (f s.host).2 }

def printf (text : List Byte) : StationM Unit := fun s ↦
  .ok () { s with printed := s.printed ++ text }

/-- `Lseek`, with its assertion. -/
def lseek (fd offset : Word) (whence : ℕ) : StationM Unit := do
  let retVal ← onHost (·.lseek fd offset whence)
  if 0 ≤ retVal.toInt then return else throw .assertFailed

/-- `Tell`. -/
def tell (fd : Word) : StationM Word := onHost (·.lseek fd 0 1)

/-- `Close`, with its assertion. -/
def close (fd : Word) : StationM Unit := do
  let retVal ← onHost (·.close fd)
  if 0 ≤ retVal.toInt then return else throw .assertFailed

/-- The bytes of a text. -/
def ascii (text : String) : List Byte := text.toList.map fun c ↦ .ofNat 8 c.toNat

/-- `TransferSize`. -/
@[simp] abbrev transferSize : ℕ := 128

/-! ## Copy and Print -/

/-- What the host chooses in a run, and the memory that `new` returns. -/
structure Env where
  newFd : Word
  openFails : Bool
  /-- Whether the read fails with so many rounds to go. -/
  readFails : ℕ → Bool
  startJunk : ℕ → Garbage
  removeJunk : Garbage
  createJunk : Garbage
  openJunk : Garbage
  printJunk : Garbage
  /-- The buffers of the transfers. -/
  bufferJunk : ℕ → ℕ → Byte

/-- The loop of `Copy`. It gives up after so many rounds. -/
def copyChunks (env : Env) (fd : Word) : ℕ → DiskFile → StationM DiskFile
  | 0, _ => throw .blocked
  | rounds + 1, openFile => do
    let bytes ← onHost (·.read fd transferSize (env.readFails rounds) [])
    if (bytes.getD []).length = 0 then return openFile
    else do
      let (_, openFile) ← onDisk (openFile.write (env.bufferJunk rounds)
        (fun i ↦ (bytes.getD []).getD i 0) (bytes.getD []).length)
      copyChunks env fd rounds openFile

/-- `Copy`, with a bound on the rounds of its loop. -/
def copy (fs : FileSystem) (env : Env) (rounds : ℕ) (source target : List Byte) :
    StationM Unit := do
  let fd ← onHost (·.openReadWrite source env.openFails env.newFd)
  if fd.toInt < 0 then
    printf (ascii "Copy: couldn't open input file " ++ source ++ ascii "\n")
  else do
    lseek fd 0 2
    let fileLength ← tell fd
    lseek fd 0 0
    let created ← onDisk (fs.create env.createJunk target fileLength.toInt)
    if created = false then do
      printf (ascii "Copy: couldn't create output file " ++ target ++ ascii "\n")
      close fd
    else do
      let found ← onDisk (fs.openFile env.openJunk target)
      if hfound : found.isSome then do
        let _ ← copyChunks env fd rounds (.ofHeader (found.get hfound))
        close fd
      else throw .assertFailed

/-- The loop of `Print`. -/
def printChunks (env : Env) : ℕ → DiskFile → StationM DiskFile
  | 0, _ => throw .blocked
  | rounds + 1, openFile => do
    let (amountRead, buffer, openFile) ← onDisk (openFile.read (env.bufferJunk rounds) transferSize)
    if 0 < amountRead then do
      printf (bytesOf buffer amountRead.toNat)
      printChunks env rounds openFile
    else return openFile

/-- `Print`, with a bound on the rounds of its loop. -/
def print (fs : FileSystem) (env : Env) (rounds : ℕ) (name : List Byte) : StationM Unit := do
  let found ← onDisk (fs.openFile env.printJunk name)
  if hfound : found.isSome then do
    let _ ← printChunks env rounds (.ofHeader (found.get hfound))
    return
  else printf (ascii "Print: unable to open file " ++ name ++ ascii "\n")

/-! ## What the two do -/

theorem onDisk_of_ok {α : Type} {x : DiskM α} {host : Host} {printed : List Byte} {a : α}
    {d d' : Disk} (h : x d = .ok a d') :
    onDisk x ⟨host, d, printed⟩ = .ok a ⟨host, d', printed⟩ := by
  rw [onDisk, h]

theorem onHost_of_eq {α : Type} {f : Host → α × Host} {s : Station} {a : α} {host : Host}
    (h : f s.host = (a, host)) : onHost f s = .ok a { s with host := host } := by
  rw [onHost, h]

private theorem printf_eq (text : List Byte) (s : Station) :
    printf text s = .ok () { s with printed := s.printed ++ text } := rfl

/-- In the middle of a copy of the bytes `b`: the first `pos` of them are in the file under `c`. -/
structure Copying (fs : FileSystem) (m : Files) (c b : List Byte) (fd : Word) (ino pos : ℕ)
    (s : Station) (f : DiskFile) : Prop where
  file : ∃ k, InUse s.disk k ∧ (directoryOn s.disk).entryKey k = c ∧ f.hdr = fileHeader s.disk k
  copied : ∃ old, Shows fs s.disk (m.insert c old) ∧ old.length = b.length ∧
    old.take pos = b.take pos
  position : f.seekPosition = pos
  open_fd : s.host.fds fd = some (.file ino pos)
  content : s.host.content ino = b
  pos_le : pos ≤ b.length

section copying

variable {fs : FileSystem} {m : Files} {c b : List Byte} {fd : Word} {ino pos : ℕ} {s : Station}
  {f : DiskFile}

/-- The bytes the next round takes. -/
theorem Copying.read (h : Copying fs m c b fd ino pos s f) :
    s.host.read fd transferSize false [] = (some ((b.drop pos).take 128),
      s.host.setFd fd (some (.file ino (pos + ((b.drop pos).take 128).length)))) := by
  rw [Host.read_file h.open_fd, h.content]
  rfl

/-- One round of the loop. -/
theorem Copying.round (h : Copying fs m c b fd ino pos s f) (hb : b.length ≤ 3840)
    (hmore : pos < b.length) (junk : ℕ → Byte) :
    ∃ f' d', f.write junk (fun i ↦ ((b.drop pos).take 128).getD i 0)
        ((b.drop pos).take 128).length s.disk =
        .ok ((((b.drop pos).take 128).length : ℤ), f') d' ∧
      Copying fs m c b fd ino (pos + ((b.drop pos).take 128).length)
        { s with
          host := s.host.setFd fd (some (.file ino (pos + ((b.drop pos).take 128).length)))
          disk := d' } f' := by
  obtain ⟨bytes, hbytes⟩ : ∃ bytes, bytes = (b.drop pos).take 128 := ⟨_, rfl⟩
  rw [← hbytes]
  have hlength : bytes.length = min 128 (b.length - pos) := by
    rw [hbytes, List.length_take, List.length_drop]
  obtain ⟨k, huse, hkey, hhdr⟩ := h.file
  obtain ⟨old, hshows, hold, htake⟩ := h.copied
  have hcontents : contentsOf s.disk k = old := by
    have hlookup := hshows.table.lookup_key huse
    rw [hkey, Finmap.lookup_insert] at hlookup
    exact (Option.some.inj hlookup).symm
  have hsource : bytesOf (fun i ↦ bytes.getD i 0) bytes.length = bytes := by
    refine List.ext_getElem (by simp) fun x hx hx' ↦ ?_
    simp [bytesOf, hx']
  have hp : FileStore.Proper (contentsOf s.disk k) (bytes.length : ℤ) (pos : ℤ) :=
    .inr (.inr ⟨by omega, by omega⟩)
  obtain ⟨d', hrun, hshows', hkept⟩ :=
    hshows.writeAt huse junk (fun i ↦ bytes.getD i 0) hp
  have hmoved : (FileStore.slice (contentsOf s.disk k) bytes.length pos).length =
      bytes.length := by
    rw [FileStore.slice, List.length_take, List.length_drop, hcontents]
    omega
  rw [hmoved, ← hhdr, ← h.position] at hrun
  rw [hkey, hcontents, Finmap.insert_insert, Int.toNat_natCast, Int.toNat_natCast, hsource]
    at hshows'
  have hkept := hkept k huse
  have hadvance : (f.advance bytes.length).seekPosition = ((pos + bytes.length : ℕ) : ℤ) := by
    simp only [DiskFile.advance, h.position]
    rw [wrap32_of_range (by omega) (by omega), Int.natCast_add]
  refine ⟨_, d', DiskFile.write_of_ok hrun, ⟨k, hkept.inUse, ?_, ?_⟩, ⟨_, hshows', ?_, ?_⟩,
    hadvance, ?_, h.content, by omega⟩
  · exact hkept.key.trans hkey
  · exact hhdr.trans hkept.header.symm
  · rw [length_overlay, hold]
  · rw [take_overlay _ _ _ (by omega), htake, hbytes, List.take_add]
    congr 1
    rw [List.length_take]
    exact List.take_eq_take_min
  · exact Function.update_self _ _ _

/-- The rest of the copy. -/
private theorem copyChunks_eq (env : Env) (hok : ∀ i, env.readFails i = false)
    (hb : b.length ≤ 3840) (rounds : ℕ) (h : Copying fs m c b fd ino pos s f)
    (hrounds : b.length + 127 < pos + rounds * 128) :
    ∃ f' d', copyChunks env fd rounds f s = .ok f'
        { s with host := s.host.setFd fd (some (.file ino b.length)), disk := d' } ∧
      Shows fs d' (m.insert c b) := by
  induction rounds generalizing pos s f with
  | zero =>
    have := h.pos_le
    omega
  | succ rounds ih =>
    have hread : onHost (·.read fd transferSize (env.readFails rounds) []) s =
        .ok (some ((b.drop pos).take 128)) { s with
          host := s.host.setFd fd (some (.file ino (pos + ((b.drop pos).take 128).length))) } := by
      rw [hok]
      exact onHost_of_eq h.read
    rw [copyChunks, bind_of_ok hread]
    simp only [Option.getD_some]
    by_cases hmore : pos < b.length
    · obtain ⟨f', d', hwrite, hnext⟩ := h.round hb hmore (env.bufferJunk rounds)
      have hlength : ((b.drop pos).take 128).length = min 128 (b.length - pos) := by
        rw [List.length_take, List.length_drop]
      obtain ⟨f'', d'', hrest, hshows⟩ := ih hnext (by omega)
      refine ⟨f'', d'', ?_, hshows⟩
      rw [if_neg (by omega)]
      refine (bind_of_ok (onDisk_of_ok hwrite)).trans ?_
      rw [hrest, Host.setFd_setFd]
    · -- the end of the file
      have hpos : pos = b.length := Nat.le_antisymm h.pos_le (Nat.not_lt.mp hmore)
      subst hpos
      obtain ⟨old, hshows, hold, htake⟩ := h.copied
      rw [← hold, List.take_length, hold, List.take_length] at htake
      rw [htake] at hshows
      refine ⟨f, s.disk, ?_, hshows⟩
      simp only [List.drop_length, List.take_nil, List.length_nil, Nat.add_zero, if_pos]
      rfl

end copying

/-- The bytes of a file that the host lets the run open. -/
def Env.source (env : Env) (host : Host) (name : List Byte) : Option (List Byte) :=
  if (host.openReadWrite name env.openFails env.newFd).1 = -1 then none
  else (host.dir name).map host.content

/-- A file that is copied to the disk, if there is room for it. -/
def copied (m : Files) (target b : List Byte) : Files :=
  if m.Room (Directory.key target) b.length then m.insert (Directory.key target) b else m

/-- What `Copy` prints: nothing, or why it gave up. -/
def copyMessage (source target : List Byte) (opened room : Bool) : List Byte :=
  if opened = false then ascii "Copy: couldn't open input file " ++ source ++ ascii "\n"
  else if room = false then ascii "Copy: couldn't create output file " ++ target ++ ascii "\n"
  else []

/-- What `Print` prints. -/
def printout (m : Files) (name : List Byte) : List Byte :=
  (m.lookup (Directory.key name)).getD
    (ascii "Print: unable to open file " ++ name ++ ascii "\n")

section commands

variable {fs : FileSystem} {m : Files} {env : Env} {s : Station}

private theorem source_eq_some {name b : List Byte} (h : env.source s.host name = some b) :
    ∃ ino, s.host.openReadWrite name env.openFails env.newFd =
        (env.newFd, s.host.setFd env.newFd (some (.file ino 0))) ∧
      s.host.content ino = b ∧ 0 ≤ env.newFd.toInt ∧ s.host.fds env.newFd = none := by
  rw [Env.source] at h
  rcases s.host.openReadWrite_cases name env.openFails env.newFd with
    hfail | ⟨ino, hdir, -, hpos, hfree, hopen⟩
  · rw [hfail, if_pos rfl] at h
    cases h
  · refine ⟨ino, hopen, ?_, hpos, hfree⟩
    split at h
    · cases h
    · rw [hdir] at h
      exact Option.some.inj h

private theorem source_eq_none {name : List Byte} (h : env.source s.host name = none) :
    s.host.openReadWrite name env.openFails env.newFd = (-1, s.host) := by
  rcases s.host.openReadWrite_cases name env.openFails env.newFd with
    hfail | ⟨ino, hdir, -, hpos, -, hopen⟩
  · exact hfail
  · rw [Env.source, hopen, hdir, if_neg] at h
    · cases h
    · intro heq
      rw [show env.newFd = -1 from heq] at hpos
      exact absurd hpos (by decide)

/-- `lseek` of `Copy`, by nothing. -/
private theorem lseek_eq {fd : Word} {ino pos : ℕ} (hfd : s.host.fds fd = some (.file ino pos))
    (whence : ℕ) (hbase : s.host.seekBase ino pos whence < offsetLimit) :
    lseek fd 0 whence s = .ok () { s with
      host := s.host.setFd fd (some (.file ino (s.host.seekBase ino pos whence))) } := by
  have hpos : 0 ≤ (BitVec.ofNat 32 (s.host.seekBase ino pos whence)).toInt := by
    rw [toInt_ofNat_of_lt hbase]
    omega
  rw [lseek, bind_of_ok (onHost_of_eq (Host.lseek_by_zero hfd whence hbase)), if_pos hpos]
  rfl

/-- `Copy` of a file that cannot be opened. -/
private theorem copy_of_none {source : List Byte} (h : env.source s.host source = none)
    (rounds : ℕ) (target : List Byte) :
    copy fs env rounds source target s =
      .ok () { s with printed := s.printed ++ copyMessage source target false true } := by
  rw [copy, bind_of_ok (onHost_of_eq (source_eq_none h)), if_pos (by decide)]
  rfl

/-- `Close` gives the descriptor back. -/
private theorem close_eq {fd : Word} {handle : Handle} {host : Host} (hfree : host.fds fd = none)
    (hs : s.host = host.setFd fd (some handle)) : close fd s = .ok () { s with host := host } := by
  have hopen : s.host.fds fd ≠ none := by
    rw [hs, Host.fds_setFd, Function.update_self]
    exact Option.some_ne_none handle
  have hback : s.host.setFd fd none = host := by
    rw [hs, Host.setFd_setFd, Host.setFd, ← hfree, Function.update_eq_self]
  rw [close, bind_of_ok (onHost_of_eq (Host.close_of_open hopen)), if_pos (by decide), hback]
  rfl

/-- `Copy` of a file that can be opened. -/
private theorem copy_of_some (hs : Shows fs s.disk m) (hok : ∀ i, env.readFails i = false)
    {source b : List Byte} (h : env.source s.host source = some b) (hb : b.length ≤ maxFileSize)
    {rounds : ℕ} (hrounds : b.length + 127 < rounds * 128) (target : List Byte) :
    ∃ d', copy fs env rounds source target s = .ok () { s with
        disk := d'
        printed := s.printed ++ copyMessage source target true
          (decide (m.Room (Directory.key target) b.length)) } ∧
      Shows fs d' (copied m target b) := by
  obtain ⟨ino, hopen, hcontent, hpos, hfree⟩ := source_eq_some h
  simp only [maxFileSize] at hb
  have hlimit : b.length < offsetLimit := by simp only [offsetLimit]; omega
  -- the length is found by going to the end and back
  have hfd : ∀ pos, (s.host.setFd env.newFd (some (.file ino pos))).fds env.newFd =
      some (.file ino pos) := fun pos ↦ Function.update_self _ _ _
  have hend : ∀ pos, (s.host.setFd env.newFd (some (.file ino pos))).seekBase ino pos 2 =
      b.length := fun _ ↦ congrArg List.length hcontent
  have hseek₁ := lseek_eq (s := { s with host := s.host.setFd env.newFd (some (.file ino 0)) })
    (hfd 0) 2 (by rw [hend]; exact hlimit)
  rw [hend, Host.setFd_setFd] at hseek₁
  have htell := onHost_of_eq (f := (·.lseek env.newFd 0 1)) (s := { s with
    host := s.host.setFd env.newFd (some (.file ino b.length)) })
    (Host.lseek_by_zero (hfd b.length) 1 hlimit)
  have hseek₂ := lseek_eq (s := { s with
    host := s.host.setFd env.newFd (some (.file ino b.length)) }) (hfd b.length) 0
    (Nat.zero_lt_of_lt hlimit)
  simp only [Host.seekBase, Host.setFd_setFd] at htell hseek₂
  have hnew : ¬env.newFd.toInt < 0 := by omega
  rw [copy, bind_of_ok (onHost_of_eq hopen), if_neg hnew, bind_of_ok hseek₁, tell,
    bind_of_ok htell, bind_of_ok hseek₂, toInt_ofNat_of_lt hlimit]
  rcases hs.create env.createJunk target (Int.natCast_nonneg b.length)
    (by simp only [maxFileSize]; omega) with
    ⟨hroom, d₁, old, hcreate, hlength, hshows, -⟩ | ⟨hroom, hcreate⟩
  · rw [Int.toNat_natCast] at hroom hlength
    have hmem : Directory.key target ∈ m.insert (Directory.key target) old :=
      Finmap.mem_insert.mpr (.inl rfl)
    rcases hshows.openFile env.openJunk target with ⟨-, k, huse, hkey, hrun⟩ | ⟨hmissing, -⟩
    swap
    · exact absurd hmem hmissing
    have hstart : Copying fs m (Directory.key target) b env.newFd ino 0
        ⟨s.host.setFd env.newFd (some (.file ino 0)), d₁, s.printed⟩
        (.ofHeader (fileHeader d₁ k)) :=
      ⟨⟨k, huse, hkey, rfl⟩, ⟨old, hshows, hlength, rfl⟩, rfl, hfd 0, hcontent, Nat.zero_le _⟩
    obtain ⟨f', d₂, hchunks, hdone⟩ :=
      copyChunks_eq env hok hb rounds hstart (by omega)
    refine ⟨d₂, ?_, ?_⟩
    · rw [bind_of_ok (onDisk_of_ok hcreate), if_neg (by decide), bind_of_ok (onDisk_of_ok hrun),
        dif_pos (by rfl)]
      refine (bind_of_ok hchunks).trans ?_
      rw [close_eq hfree (by rw [Host.setFd_setFd]), decide_eq_true hroom]
      simp only [copyMessage, Bool.true_eq_false, if_false, List.append_nil]
    · rwa [copied, if_pos hroom]
  · rw [Int.toNat_natCast] at hroom
    refine ⟨s.disk, ?_, ?_⟩
    · rw [bind_of_ok (onDisk_of_ok hcreate), if_pos rfl, decide_eq_false hroom]
      exact (bind_of_ok (printf_eq _ _)).trans (close_eq hfree rfl)
    · rwa [copied, if_neg hroom]

/-- The rest of a file is printed. -/
private theorem printChunks_eq (env : Env) {host : Host} {d : Disk} {printed : List Byte}
    {f : DiskFile}
    (hs : Shows fs d m) {k : ℕ} (hk : InUse d k) (hhdr : f.hdr = fileHeader d k) {pos : ℕ}
    (hpos : f.seekPosition = pos) {rounds : ℕ}
    (hrounds : (contentsOf d k).length + 127 < pos + rounds * 128)
    (hle : pos ≤ (contentsOf d k).length) :
    ∃ f', printChunks env rounds f ⟨host, d, printed⟩ =
      .ok f' ⟨host, d, printed ++ (contentsOf d k).drop pos⟩ := by
  induction rounds generalizing pos f printed with
  | zero => omega
  | succ rounds ih =>
    have hlength : (contentsOf d k).length ≤ 3840 := by
      rw [length_contentsOf]
      exact (hs.consistent.file_valid k hk).length_le
    have hp : FileStore.Proper (contentsOf d k) (transferSize : ℕ) (pos : ℤ) :=
      .inr (.inr ⟨by omega, by simp only [transferSize]; omega⟩)
    obtain ⟨data, hrun, hdata⟩ := hs.readAt hk (env.bufferJunk rounds) hp
    obtain ⟨bytes, hbytes⟩ : ∃ bytes, bytes =
      FileStore.slice (contentsOf d k) (transferSize : ℕ) (pos : ℤ) := ⟨_, rfl⟩
    rw [← hhdr, ← hbytes, ← hpos] at hrun
    rw [← hbytes] at hdata
    rw [printChunks, bind_of_ok (onDisk_of_ok (DiskFile.read_of_ok hrun))]
    simp only [Int.toNat_natCast, hdata]
    rw [FileStore.slice, Int.toNat_natCast, Int.toNat_natCast] at hbytes
    have hcount : bytes.length = min 128 ((contentsOf d k).length - pos) := by
      rw [hbytes, List.length_take, List.length_drop]
    have hsplit : bytes ++ ((contentsOf d k).drop pos).drop bytes.length =
        (contentsOf d k).drop pos := by
      rw [hbytes]
      exact List.prefix_iff_eq_append.mp (List.take_prefix 128 _)
    by_cases hmore : pos < (contentsOf d k).length
    · have hadvance : (f.advance bytes.length).seekPosition = ((pos + bytes.length : ℕ) : ℤ) := by
        simp only [DiskFile.advance, hpos]
        rw [wrap32_of_range (by omega) (by omega), Int.natCast_add]
      have hsame : (f.advance bytes.length).hdr = fileHeader d k := hhdr
      obtain ⟨f', hrest⟩ : ∃ f', printChunks env rounds (f.advance bytes.length)
          ⟨host, d, printed ++ bytes⟩ = .ok f' ⟨host, d, printed ++ bytes ++
            (contentsOf d k).drop (pos + bytes.length)⟩ :=
        ih hsame hadvance (by omega) (by omega)
      refine ⟨f', ?_⟩
      rw [if_pos (by omega), bind_of_ok (printf_eq _ _), hrest, List.append_assoc]
      rw [← List.drop_drop, hsplit]
    · have hnil : (contentsOf d k).drop pos = [] := List.drop_eq_nil_of_le (Nat.not_lt.mp hmore)
      refine ⟨f.advance bytes.length, ?_⟩
      rw [if_neg (by omega), hnil, List.append_nil]
      rfl

/-- `Print`: the file, or that there is none. -/
private theorem print_eq (hs : Shows fs s.disk m) (name : List Byte) {rounds : ℕ}
    (hrounds : maxFileSize + 127 < rounds * 128) :
    print fs env rounds name s = .ok () { s with printed := s.printed ++ printout m name } := by
  rcases hs.openFile env.printJunk name with ⟨-, k, huse, hkey, hrun⟩ | ⟨hmissing, hrun⟩
  · have hlength : (contentsOf s.disk k).length ≤ 3840 := by
      rw [length_contentsOf]
      exact (hs.consistent.file_valid k huse).length_le
    simp only [maxFileSize] at hrounds
    obtain ⟨f', hchunks⟩ : ∃ f', printChunks env rounds (.ofHeader (fileHeader s.disk k)) s =
        .ok f' { s with printed := s.printed ++ (contentsOf s.disk k).drop 0 } :=
      printChunks_eq env hs huse rfl rfl (by omega) (Nat.zero_le _)
    rw [print, bind_of_ok (onDisk_of_ok hrun), dif_pos (by rfl)]
    refine (bind_of_ok hchunks).trans ?_
    rw [printout, ← hkey, hs.table.lookup_key huse, List.drop_zero]
    rfl
  · rw [print, bind_of_ok (onDisk_of_ok hrun), dif_neg (by decide), printout,
      Finmap.lookup_eq_none.mpr hmissing]
    rfl

end commands

/-! ## Runs -/

/-- A command that is given if there is a name for it. -/
def withName (name : Option (List Byte)) (command : List Byte → StationM Unit) : StationM Unit :=
  match name with
  | none => return
  | some name => command name

/-- `new FileSystem(formatFlag)`. -/
def boot (formatFlag : Bool) (junk : ℕ → Garbage) : DiskM FileSystem :=
  if formatFlag then FileSystem.start junk else FileSystem.mount junk

/-- The commands of `main` on the file system, in their order. -/
def commands (fs : FileSystem) (env : Env) (rounds : ℕ) (f : Flags) : StationM Unit := do
  withName f.removeFileName fun name ↦ do
    let _ ← onDisk (fs.remove env.removeJunk name)
    return
  withName f.copyUnixFileName fun source ↦ withName f.copyNachosFileName fun target ↦
    copy fs env rounds source target
  withName f.printFileName fun name ↦ print fs env rounds name

/-- A run of Nachos: its arguments, the host it finds, and a bound on the rounds of its loops. -/
structure Invocation where
  argv : List (List Byte)
  host : Host
  env : Env
  rounds : ℕ

/-- A run that is asked for nothing else: what it prints, and the disk it leaves. -/
def run (d : Disk) (inv : Invocation) : Option (List Byte × Disk) := do
  let f ← parse {} inv.argv
  let kf ← KernelFlags.parse {} inv.argv
  match (onDisk (boot kf.formatFlag inv.env.startJunk) >>= fun fs ↦
      commands fs inv.env inv.rounds f) ⟨inv.host, d, []⟩ with
  | .ok _ s => some (s.printed, s.disk)
  | .error _ _ => none

/-- Nothing but commands on the file system is asked for. -/
structure Flags.FilesOnly (f : Flags) : Prop where
  userProgName : f.userProgName = none
  threadTestFlag : f.threadTestFlag = false
  consoleTestFlag : f.consoleTestFlag = false
  networkTestFlag : f.networkTestFlag = false
  dirListFlag : f.dirListFlag = false
  dumpFlag : f.dumpFlag = false

/-- A run that can be asked for: the arguments are complete, no read of the host fails, and a file
to be copied is no longer than a file can be. -/
structure Invocation.Sound (inv : Invocation) (f : Flags) (kf : KernelFlags) : Prop where
  parsed : parse {} inv.argv = some f
  kernelParsed : KernelFlags.parse {} inv.argv = some kf
  filesOnly : f.FilesOnly
  reads : ∀ i, inv.env.readFails i = false
  rounds : maxFileSize + 127 < inv.rounds * 128
  length : ∀ source b, f.copyUnixFileName = some source →
    inv.env.source inv.host source = some b → b.length ≤ maxFileSize

/-! ## What a run makes of the files -/

/-- The files of a system that is started. -/
def booted (formatFlag : Bool) (m : Files) : Files :=
  if formatFlag then FileStore.start.files
  else (m.ensure FileSystem.stdinName).ensure FileSystem.stdoutName

/-- The files without one of them. -/
def withoutName (name : Option (List Byte)) (m : Files) : Files :=
  name.elim m fun name ↦ m.erase (Directory.key name)

/-- What comes of `Copy`: what it prints, and the files. -/
def copyOutcome (m : Files) (bytes : Option (List Byte)) (source target : List Byte) :
    List Byte × Files :=
  match bytes with
  | none => (copyMessage source target false true, m)
  | some b =>
    (copyMessage source target true (decide (m.Room (Directory.key target) b.length)),
      copied m target b)

/-- What comes of a run. -/
def outcome (m : Files) (inv : Invocation) (f : Flags) (kf : KernelFlags) : List Byte × Files :=
  let m := withoutName f.removeFileName (booted kf.formatFlag m)
  let result := match f.copyUnixFileName, f.copyNachosFileName with
    | some source, some target =>
      copyOutcome m (inv.env.source inv.host source) source target
    | _, _ => ([], m)
  (result.1 ++ f.printFileName.elim [] (printout result.2), result.2)

section runs

variable {fs : FileSystem} {m : Files} {d : Disk} {host : Host} {env : Env}

private theorem boot_eq (hs : Shows fs d m) (formatFlag : Bool) (junk : ℕ → Garbage) :
    ∃ fs' d', boot formatFlag junk d = .ok fs' d' ∧ Shows fs' d' (booted formatFlag m) := by
  rw [boot, booted]
  by_cases hformat : formatFlag = true
  · rw [if_pos hformat, if_pos hformat]
    exact start_shows junk d
  · rw [if_neg hformat, if_neg hformat]
    obtain ⟨d', hrun, hshows⟩ := hs.mount junk
    exact ⟨fs, d', hrun, hshows⟩

theorem remove_eq (hs : Shows fs d m) (host : Host) (env : Env) (name : Option (List Byte)) :
    ∃ d', withName name (fun name ↦ do
        let _ ← onDisk (fs.remove env.removeJunk name)
        return) ⟨host, d, []⟩ = .ok () ⟨host, d', []⟩ ∧
      Shows fs d' (withoutName name m) := by
  cases name with
  | none => exact ⟨d, rfl, hs⟩
  | some name =>
    rcases hs.remove env.removeJunk name with ⟨-, d', hrun, hshows, -⟩ | ⟨hmissing, hrun⟩
    · exact ⟨d', bind_of_ok (onDisk_of_ok hrun), hshows⟩
    · refine ⟨d, bind_of_ok (onDisk_of_ok hrun), ?_⟩
      have hsame : m.erase (Directory.key name) = m := by
        refine Finmap.ext_lookup fun c ↦ ?_
        by_cases hc : c = Directory.key name
        · rw [hc, Finmap.lookup_erase, Finmap.lookup_eq_none.mpr hmissing]
        · rw [Finmap.lookup_erase_ne hc]
      rwa [withoutName, Option.elim_some, hsame]

private theorem copy_eq (hs : Shows fs d m) (hok : ∀ i, env.readFails i = false) {rounds : ℕ}
    (hrounds : maxFileSize + 127 < rounds * 128) (source target : List Byte)
    (hlength : ∀ b, env.source host source = some b → b.length ≤ maxFileSize) :
    ∃ d', copy fs env rounds source target ⟨host, d, []⟩ = .ok () ⟨host, d',
        (copyOutcome m (env.source host source) source target).1⟩ ∧
      Shows fs d' (copyOutcome m (env.source host source) source target).2 := by
  cases hsource : env.source host source with
  | none => exact ⟨d, copy_of_none (s := ⟨host, d, []⟩) hsource rounds target, hs⟩
  | some b =>
    have hb := hlength b hsource
    exact copy_of_some (s := ⟨host, d, []⟩) hs hok hsource hb (by omega) target

/-- One run. -/
theorem run_eq (hs : Shows fs d m) {inv : Invocation} {f : Flags} {kf : KernelFlags}
    (hinv : inv.Sound f kf) :
    ∃ fs' d', run d inv = some ((outcome m inv f kf).1, d') ∧
      Shows fs' d' (outcome m inv f kf).2 := by
  obtain ⟨fs₁, d₁, hboot, hs₁⟩ := boot_eq hs kf.formatFlag inv.env.startJunk
  obtain ⟨d₂, hremove, hs₂⟩ := remove_eq hs₁ inv.host inv.env f.removeFileName
  -- the copy, if there is one
  obtain ⟨d₃, text, m₃, hcopy, hs₃, hout⟩ : ∃ d₃ text m₃,
      withName f.copyUnixFileName (fun source ↦ withName f.copyNachosFileName fun target ↦
        copy fs₁ inv.env inv.rounds source target) ⟨inv.host, d₂, []⟩ =
        .ok () ⟨inv.host, d₃, text⟩ ∧ Shows fs₁ d₃ m₃ ∧
      outcome m inv f kf = (text ++ f.printFileName.elim [] (printout m₃), m₃) := by
    rw [outcome]
    cases hsource : f.copyUnixFileName with
    | none => exact ⟨d₂, [], _, rfl, hs₂, rfl⟩
    | some source =>
      cases htarget : f.copyNachosFileName with
      | none => exact ⟨d₂, [], _, rfl, hs₂, rfl⟩
      | some target =>
        obtain ⟨d₃, hcopy, hs₃⟩ := copy_eq hs₂ hinv.reads hinv.rounds source target
          (hinv.length source · hsource)
        exact ⟨d₃, _, _, hcopy, hs₃, rfl⟩
  have hprint : withName f.printFileName (fun name ↦ print fs₁ inv.env inv.rounds name)
      ⟨inv.host, d₃, text⟩ =
      .ok () ⟨inv.host, d₃, text ++ f.printFileName.elim [] (printout m₃)⟩ := by
    cases f.printFileName with
    | none =>
      rw [Option.elim_none, List.append_nil]
      rfl
    | some name =>
      exact print_eq (s := ⟨inv.host, d₃, text⟩) hs₃ name hinv.rounds
  refine ⟨fs₁, d₃, ?_, hout ▸ hs₃⟩
  have hrun : (onDisk (boot kf.formatFlag inv.env.startJunk) >>= fun fs ↦
      commands fs inv.env inv.rounds f) ⟨inv.host, d, []⟩ =
      .ok () ⟨inv.host, d₃, text ++ f.printFileName.elim [] (printout m₃)⟩ := by
    rw [bind_of_ok (onDisk_of_ok hboot), commands, bind_of_ok hremove, bind_of_ok hcopy]
    exact hprint
  rw [run, hinv.parsed, hinv.kernelParsed]
  simp only [Option.bind_eq_bind, Option.bind_some, hrun, hout]

end runs

end Main

end Nachos
