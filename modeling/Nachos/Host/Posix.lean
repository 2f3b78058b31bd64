import Nachos.Basic

/-!
# The host under the stub file system

With `FILESYS_STUB` the file system of the kernel is the host's. This is the part of it that the
system calls reach: a directory of names, files as sequences of bytes, and the descriptors of the
Nachos process, each with its own position. The build is a 32-bit one without large-file support,
so no file offset passes `2^31 - 1`: a longer file cannot be opened, and a write that would
pass the limit fails.

What the host is free to choose (the next descriptor, a failure, the bytes that arrive on a socket)
is an argument of each operation. A descriptor it hands out is non-negative and not open already; a
choice that is not makes the call fail, as it does when the descriptors have run out.
-/

namespace Nachos

/-- A path name, without its terminating zero. -/
abbrev Name := List Byte

/-- What a descriptor of the process refers to: a regular file with a position in it, or anything
else (a socket, the terminal). -/
inductive Handle where
  | file (ino : ℕ) (pos : ℕ)
  | stream
  deriving DecidableEq, Repr

/-- A call the kernel made on a descriptor of the host. -/
inductive HostCall where
  | socket (fd : Word)
  | connect (fd : Word) (address : Name) (port : Word)
  | send (fd : Word) (bytes : List Byte)
  | read (fd : Word) (count : Word)
  | close (fd : Word)
  | bind (fd : Word)
  | listen (fd : Word) (count : Word)
  | accept (fd : Word)
  deriving DecidableEq, Repr

structure Host where
  dir : Name → Option ℕ
  content : ℕ → List Byte
  fds : Word → Option Handle
  /-- The number the next created file gets. -/
  nextIno : ℕ
  /-- Socket calls made by the kernel, the latest first. -/
  calls : List HostCall

/-- One more than the largest file offset. -/
@[simp] abbrev offsetLimit : ℕ := 2 ^ 31

/-- `bytes` written over `content` at `pos`; a gap before `pos` is filled with zeros. A write of no
bytes leaves even the gap. -/
def splice (content : List Byte) (pos : ℕ) (bytes : List Byte) : List Byte :=
  if bytes = [] then content
  else (content ++ List.replicate (pos - content.length) 0).take pos ++ bytes ++
    content.drop (pos + bytes.length)

theorem splice_of_ne_nil (content : List Byte) (pos : ℕ) {bytes : List Byte} (h : bytes ≠ []) :
    splice content pos bytes = (content ++ List.replicate (pos - content.length) 0).take pos ++
      bytes ++ content.drop (pos + bytes.length) := if_neg h

/-- One byte is replaced. -/
theorem splice_append_cons (front behind : List Byte) (c d : Byte) :
    splice (front ++ d :: behind) front.length [c] = front ++ c :: behind := by
  rw [splice_of_ne_nil _ _ (List.cons_ne_nil c [])]
  simp [List.drop_append]

theorem length_splice (content : List Byte) (pos : ℕ) (bytes : List Byte) :
    (splice content pos bytes).length =
      if bytes = [] then content.length else max content.length (pos + bytes.length) := by
  rw [splice]
  split
  · rfl
  · simp only [List.length_append, List.length_take, List.length_drop, List.length_replicate]
    omega

namespace Host

variable (h : Host)

/-- Descriptor `fd` made to refer to `handle`. -/
def setFd (fd : Word) (handle : Option Handle) : Host :=
  { h with fds := Function.update h.fds fd handle }

def setContent (ino : ℕ) (bytes : List Byte) : Host :=
  { h with content := Function.update h.content ino bytes }

def record (call : HostCall) : Host := { h with calls := call :: h.calls }

/-- Can the host hand out `fd`? -/
def isFree (fd : Word) : Bool := decide (0 ≤ fd.toInt) && (h.fds fd).isNone

/-! ## Files -/

/-- `open(name, O_RDWR, 0)`. -/
def openReadWrite (name : Name) (fails : Bool) (newFd : Word) : Word × Host :=
  match fails || !h.isFree newFd, h.dir name with
  | false, some ino =>
    if (h.content ino).length < offsetLimit then (newFd, h.setFd newFd (some (.file ino 0)))
    else (-1, h)
  | _, _ => (-1, h)

/-- `open(name, O_RDWR|O_CREAT|O_TRUNC, 0666)`. -/
def openTruncate (name : Name) (fails : Bool) (newFd : Word) : Word × Host :=
  match fails || !h.isFree newFd, h.dir name with
  | true, _ => (-1, h)
  | false, some ino => (newFd, (h.setContent ino []).setFd newFd (some (.file ino 0)))
  | false, none =>
    (newFd,
      { h with
        dir := Function.update h.dir name (some h.nextIno)
        content := Function.update h.content h.nextIno []
        fds := Function.update h.fds newFd (some (.file h.nextIno 0))
        nextIno := h.nextIno + 1 })

/-- `close(fd)`. -/
def close (fd : Word) : Word × Host :=
  match h.fds fd with
  | none => (-1, h)
  | some _ => (0, h.setFd fd none)

/-- `unlink(name)`. -/
def unlink (name : Name) (fails : Bool) : Word × Host :=
  match fails, h.dir name with
  | false, some _ => (0, { h with dir := Function.update h.dir name none })
  | _, _ => (-1, h)

/-- What `lseek` measures from: the start, the position, the end. -/
def seekBase (ino pos : ℕ) (whence : ℕ) : ℕ :=
  match whence with
  | 0 => 0
  | 1 => pos
  | _ => (h.content ino).length

/-- `lseek(fd, offset, whence)`. -/
def lseek (fd offset : Word) (whence : ℕ) : Word × Host :=
  match h.fds fd with
  | some (.file ino pos) =>
    let target := (h.seekBase ino pos whence : Int) + offset.toInt
    if 0 ≤ target ∧ target < offsetLimit then
      (BitVec.ofInt 32 target, h.setFd fd (some (.file ino target.toNat)))
    else (-1, h)
  | _ => (-1, h)

/-- `read(fd, _, count)`: the bytes delivered, `none` for a failure. From a stream comes some
initial part of `received`, as much as was asked for. -/
def read (fd : Word) (count : Word) (fails : Bool) (received : List Byte) :
    Option (List Byte) × Host :=
  match fails, h.fds fd with
  | false, some (.file ino pos) =>
    let bytes := ((h.content ino).drop pos).take count.toNat
    (some bytes, h.setFd fd (some (.file ino (pos + bytes.length))))
  | false, some .stream => (some (received.take count.toNat), h)
  | _, _ => (none, h)

/-- `write(fd, bytes, bytes.length)`. -/
def write (fd : Word) (bytes : List Byte) (fails : Bool) : Word × Host :=
  match fails, h.fds fd with
  | false, some (.file ino pos) =>
    if pos + bytes.length < offsetLimit then
      (BitVec.ofNat 32 bytes.length,
        (h.setContent ino (splice (h.content ino) pos bytes)).setFd fd
          (some (.file ino (pos + bytes.length))))
    else (-1, h)
  | _, _ => (-1, h)

/-! ## Sockets -/

/-- `socket(AF_INET, SOCK_STREAM, 0)`. -/
def socket (newFd : Word) : Word × Host :=
  if h.isFree newFd then (newFd, (h.setFd newFd (some .stream)).record (.socket newFd))
  else (-1, h)

/-- A call on a socket whose only effect here is its outcome: `ret` from a stream, an error from
anything else. -/
def onStream (fd : Word) (call : HostCall) (ret : Word) : Word × Host :=
  match h.fds fd with
  | some .stream => (ret, h.record call)
  | _ => (-1, h.record call)

/-- `accept(fd, _, _)`. -/
def accept (fd newFd : Word) : Word × Host :=
  match h.fds fd with
  | some .stream =>
    if h.isFree newFd then (newFd, (h.setFd newFd (some .stream)).record (.accept fd))
    else (-1, h.record (.accept fd))
  | _ => (-1, h.record (.accept fd))

theorem record_read_fst (call : HostCall) (fd count : Word) (fails : Bool) (received : List Byte) :
    ((h.record call).read fd count fails received).1 = (h.read fd count fails received).1 := by
  cases fails with
  | true => rfl
  | false =>
    cases hfd : h.fds fd with
    | none => simp only [read, record, hfd]
    | some handle => cases handle <;> simp only [read, record, hfd]

/-! ## What the calls do on a regular file -/

section file

variable {h} {fd : Word} {ino pos : ℕ}

theorem fds_setFd (fd : Word) (handle : Option Handle) :
    (h.setFd fd handle).fds = Function.update h.fds fd handle := rfl

theorem setFd_setFd (fd : Word) (handle handle' : Option Handle) :
    (h.setFd fd handle).setFd fd handle' = h.setFd fd handle' := by
  simp [setFd]

theorem isFree_iff : h.isFree fd = true ↔ 0 ≤ fd.toInt ∧ h.fds fd = none := by
  simp [isFree]

theorem close_fds (h : Host) (fd : Word) :
    (h.close fd).2.fds = Function.update h.fds fd none := by
  rw [close]
  split
  · rename_i hnone
    rw [← hnone, Function.update_eq_self]
  · rfl

theorem close_of_open (hopen : h.fds fd ≠ none) : h.close fd = (0, h.setFd fd none) := by
  rw [close]
  split
  · contradiction
  · rfl

/-- `open` with truncation, when nothing is in its way: the name has a file, and it is empty. -/
theorem openTruncate_of_free (hfree : h.isFree fd = true) (name : Name) :
    ∃ ino h', h.openTruncate name false fd = (fd, h') ∧
      h'.dir = Function.update h.dir name (some ino) ∧
      h'.content = Function.update h.content ino [] ∧
      h'.fds = Function.update h.fds fd (some (.file ino 0)) := by
  cases hdir : h.dir name with
  | none =>
    refine ⟨h.nextIno,
      { h with
        dir := Function.update h.dir name (some h.nextIno)
        content := Function.update h.content h.nextIno []
        fds := Function.update h.fds fd (some (.file h.nextIno 0))
        nextIno := h.nextIno + 1 }, ?_, rfl, rfl, rfl⟩
    simp only [openTruncate, hfree, hdir, Bool.not_true, Bool.or_false]
  | some ino =>
    refine ⟨ino, (h.setContent ino []).setFd fd (some (.file ino 0)), ?_, ?_, rfl, rfl⟩
    · simp only [openTruncate, hfree, hdir, Bool.not_true, Bool.or_false]
    · rw [← hdir, Function.update_eq_self]
      rfl

theorem openTruncate_refused {fails : Bool} (hrefused : fails = true ∨ h.isFree fd = false)
    (name : Name) : h.openTruncate name fails fd = (-1, h) := by
  rcases hrefused with hrefused | hrefused
  · simp only [openTruncate, hrefused, Bool.true_or]
  · simp only [openTruncate, hrefused, Bool.not_false, Bool.or_true]

theorem openTruncate_fails_iff {fails : Bool} (name : Name) :
    (h.openTruncate name fails fd).1 = -1 ↔ fails = true ∨ h.isFree fd = false := by
  refine ⟨fun hfail ↦ ?_, fun hrefused ↦ by rw [openTruncate_refused hrefused]⟩
  by_contra hrefused
  simp only [not_or, Bool.not_eq_true, Bool.not_eq_false] at hrefused
  obtain ⟨ino, h', hopen, -⟩ := openTruncate_of_free hrefused.2 name
  have hpos := (isFree_iff.mp hrefused.2).1
  rw [hrefused.1, hopen] at hfail
  rw [show fd = -1 from hfail] at hpos
  exact absurd hpos (by decide)

/-- `open` fails and changes nothing, or hands out the new descriptor, at the start of the file. -/
theorem openReadWrite_cases (h : Host) (name : Name) (fails : Bool) (newFd : Word) :
    h.openReadWrite name fails newFd = (-1, h) ∨
    ∃ ino, h.dir name = some ino ∧ (h.content ino).length < offsetLimit ∧ 0 ≤ newFd.toInt ∧
      h.fds newFd = none ∧
      h.openReadWrite name fails newFd = (newFd, h.setFd newFd (some (.file ino 0))) := by
  rw [openReadWrite]
  split
  · rename_i ino hfree hdir
    split
    · rename_i hlen
      simp only [Bool.or_eq_false_iff, Bool.not_eq_false'] at hfree
      have hfree' : 0 ≤ newFd.toInt ∧ h.fds newFd = none := by
        simpa [isFree] using hfree.2
      exact Or.inr ⟨ino, hdir, hlen, hfree'.1, hfree'.2, rfl⟩
    · exact Or.inl rfl
  · exact Or.inl rfl

theorem unlink_cases (h : Host) (name : Name) (fails : Bool) :
    (h.unlink name fails).1 = 0 ∨ h.unlink name fails = (-1, h) := by
  simp only [unlink]
  split
  · exact Or.inl rfl
  · exact Or.inr rfl

variable (hfd : h.fds fd = some (.file ino pos))

include hfd

/-- `lseek` from the start. -/
theorem lseek_start {offset : Word} (hoff : offset.toNat < offsetLimit) :
    h.lseek fd offset 0 = (offset, h.setFd fd (some (.file ino offset.toNat))) := by
  have hint : offset.toInt = offset.toNat := by
    rw [BitVec.toInt_eq_toNat_cond, if_pos]
    simp only [offsetLimit] at hoff
    omega
  rw [lseek, hfd]
  simp only [seekBase, hint, offsetLimit] at hoff ⊢
  rw [if_pos (by omega)]
  simp

/-- `lseek` by nothing, from a position inside the file's limit. -/
theorem lseek_by_zero (whence : ℕ) (hbase : h.seekBase ino pos whence < offsetLimit) :
    h.lseek fd 0 whence = (BitVec.ofNat 32 (h.seekBase ino pos whence),
      h.setFd fd (some (.file ino (h.seekBase ino pos whence)))) := by
  have hint : (0 : Word).toInt = 0 := by decide
  rw [lseek, hfd]
  simp only [hint, Int.add_zero, offsetLimit] at hbase ⊢
  rw [if_pos (by omega)]
  simp

theorem read_file (count : Word) (received : List Byte) :
    h.read fd count false received
      = (some (((h.content ino).drop pos).take count.toNat),
        h.setFd fd (some (.file ino
          (pos + (((h.content ino).drop pos).take count.toNat).length)))) := by
  simp only [read, hfd]

theorem write_file {bytes : List Byte} (hlen : pos + bytes.length < offsetLimit) :
    h.write fd bytes false = (BitVec.ofNat 32 bytes.length,
      (h.setContent ino (splice (h.content ino) pos bytes)).setFd fd
        (some (.file ino (pos + bytes.length)))) := by
  simp only [write, hfd, if_pos hlen]

/-- A write past the largest offset fails. -/
theorem write_no_room {bytes : List Byte} (hlen : ¬pos + bytes.length < offsetLimit)
    (fails : Bool) : (h.write fd bytes fails).1 = -1 := by
  cases fails with
  | true => simp only [write]
  | false => simp only [write, hfd, if_neg hlen]

end file

end Host

end Nachos
