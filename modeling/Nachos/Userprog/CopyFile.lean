import Nachos.Userprog.WriteBytes

/-!
# The programs that copy files

`copy` and `concatenate` move a file one byte at a time, with a `Read` and a `Write` for each. That
is slow, but calls for one byte are the ones a zero cannot spoil: what the kernel copies stops
behind the first zero, and there is nothing behind it. So the copy is exact, whatever the bytes. A
file that was longer keeps its end: `Open` does not truncate.

A program is a sequence of system calls on the kernel. Between two calls it runs instructions of
its own, which may do to registers and memory what they like as long as they leave the byte alone
that is on its way.
-/

namespace Nachos

open Program

/-! ## System calls of a program -/

/-- The arguments in `r4` and the registers behind it, and the code of the call in `r2`. -/
def Machine.asking (m : Machine) (call : Syscall) (args : List Word) : Machine :=
  (args.zipIdx 4).foldl (fun m a ↦ m.setReg a.2 a.1) (m.setReg 2 call.code)

/-- Where a program makes a call: what it does before, and what the host does meanwhile. -/
structure CallSite where
  before : Machine → Machine
  env : Env

/-- The trap of a call. -/
def CallSite.trap (site : CallSite) (m : Machine) (call : Syscall) (args : List Word) : Trap :=
  ⟨(site.before m).asking call args, site.env⟩

/-- A call from a program, with its result. -/
def userCall (site : CallSite) (call : Syscall) (args : List Word) : Kern Word := fun k ↦
  match k.handle (site.trap k.machine call args) with
  | .ok _ k' => .ok (k'.machine.registers 2) k'
  | .error e k' => .error e k'

/-- The loop of `copy`: `rest` more bytes. -/
def copyLoop (sites : ℕ → CallSite) (c srcId desId : Word) : ℕ → ℕ → Kern Unit
  | _, 0 => return
  | i, rest + 1 => do
    let _ ← userCall (sites (2 * i)) .read [c, 1, srcId]
    let _ ← userCall (sites (2 * i + 1)) .write [c, 1, desId]
    copyLoop sites c srcId desId (i + 1) rest

/-- `copy` between opening its files and closing them; `c` is the address of its variable. -/
def copyFile (sites : ℕ → CallSite) (c srcId desId : Word) : Kern Unit := do
  let fileSize ← userCall (sites 0) .seek [-1, srcId]
  let _ ← userCall (sites 1) .seek [0, srcId]
  let _ ← userCall (sites 2) .seek [0, desId]
  copyLoop (fun n ↦ sites (n + 3)) c srcId desId 0 fileSize.toInt.toNat

/-- `concatenate` between opening its files and closing them. -/
def concatenateFiles (sites sites' : ℕ → CallSite) (c srcId srcId1 desId : Word) : Kern Unit := do
  copyFile sites c srcId desId
  let fileSize ← userCall (sites' 0) .seek [-1, srcId1]
  let _ ← userCall (sites' 1) .seek [0, srcId1]
  copyLoop (fun n ↦ sites' (n + 2)) c srcId1 desId 0 fileSize.toInt.toNat

/-! ## What no call changes -/

/-- The tables translate alike. -/
structure Machine.SameTables (m m' : Machine) : Prop where
  tlb : TablesAlike m.tlb m'.tlb
  pageTable : TablesAlike m.pageTable m'.pageTable
  pageTableSize : m'.pageTableSize = m.pageTableSize

theorem TablesAlike.symm {t t' : Option (ℕ → TranslationEntry)} (h : TablesAlike t t') :
    TablesAlike t' t := by
  cases t <;> cases t' <;> first
    | exact h.elim
    | trivial
    | exact fun i ↦ ⟨(h i).virtualPage.symm, (h i).physicalPage.symm, (h i).valid.symm,
        (h i).readOnly.symm⟩

section tables

variable {m m' m'' : Machine}

theorem Machine.SameTables.trans (h : m.SameTables m') (h' : m'.SameTables m'') :
    m.SameTables m'' :=
  ⟨h.tlb.trans h'.tlb, h.pageTable.trans h'.pageTable, h'.pageTableSize.trans h.pageTableSize⟩

/-- The same registers and memory behind the other tables. -/
theorem Machine.SameTables.alike (h : m.SameTables m') :
    m.Alike { m' with registers := m.registers, mainMemory := m.mainMemory } :=
  ⟨rfl, rfl, h.tlb, h.pageTable, h.pageTableSize⟩

theorem Machine.SameTables.writable (h : m.SameTables m') {addr : Word} {n : ℕ}
    (hw : m.Writable addr n) : m'.Writable addr n := h.alike.writable hw

theorem Machine.SameTables.linear (h : m.SameTables m') (hm : m.Linear) : m'.Linear :=
  ⟨(h.alike.linear hm).tlb_none, (h.alike.linear hm).pageTable_some⟩

theorem Machine.SameTables.distinctFrames (h : m.SameTables m') (hm : m.DistinctFrames) :
    m'.DistinctFrames := h.alike.distinctFrames hm

end tables

theorem Machine.sameTables_asking (m : Machine) (call : Syscall) (args : List Word) :
    m.SameTables (m.asking call args) := by
  have hfold (l : List (Word × ℕ)) (m' : Machine) (h : m.SameTables m') :
      m.SameTables (l.foldl (fun m a ↦ m.setReg a.2 a.1) m') := by
    induction l generalizing m' with
    | nil => exact h
    | cons a l ih => exact ih _ ⟨h.tlb, h.pageTable, h.pageTableSize⟩
  exact hfold _ _ ⟨.refl _, .refl _, rfl⟩

/-- The machines with the tables of the kernel's. -/
def Kernel.tablesView (k : Kernel) : Machine → Prop := fun m ↦
  TablesAlike m.tlb k.machine.tlb ∧ TablesAlike m.pageTable k.machine.pageTable ∧
    k.machine.pageTableSize = m.pageTableSize

private theorem ignoresEffects_tablesView : IgnoresEffects Kernel.tablesView where
  tables k addr size writing a tlb pageTable h := by
    have halike := alike_of_success h
    funext m
    refine propext (and_congr ?_ (and_congr ?_ Iff.rfl))
    · exact ⟨fun hm ↦ hm.trans halike.tlb.symm, fun hm ↦ hm.trans halike.tlb⟩
    · exact ⟨fun hm ↦ hm.trans halike.pageTable.symm, fun hm ↦ hm.trans halike.pageTable⟩
  memory _ _ _ := rfl
  result _ _ := rfl
  heap _ _ := rfl
  host _ _ := rfl
  console _ _ _ := rfl

/-- A call that returns leaves the tables of the machine, but for their use and dirty bits. -/
private theorem sameTables_handle {k k' : Kernel} {t : Trap} {call : Syscall} {u : Unit}
    (hcode : t.machine.registers 2 = call.code) (h : k.handle t = .ok u k') :
    t.machine.SameTables k'.machine := by
  obtain ⟨k₁, hbody, rfl⟩ := handle_eq_ok hcode h
  have hview := keeps_body ignoresEffects_tablesView (fun _ _ ↦ rfl) (fun _ _ ↦ rfl) call
    { k with machine := t.machine } () k₁ hbody
  have hsame : k₁.tablesView t.machine := by
    rw [hview]
    exact ⟨.refl _, .refl _, rfl⟩
  exact ⟨hsame.1, hsame.2.1, hsame.2.2⟩

/-! ## One call -/

/-- Slot `id` has the entry `file` for the file `ino`, at `offset`. -/
structure Kernel.Slot (k : Kernel) (id : Word) (file : OpenFile) (ino offset : ℕ) : Prop where
  two_le : 2 ≤ id.toNat
  lt : id.toNat < maxFile
  slot : k.openfile id.toNat = some { file with currentOffset := BitVec.ofNat 32 offset }
  fd : ∃ pos, k.host.fds file.file = some (.file ino pos)
  offset_lt : offset < offsetLimit

/-- A call moved the offset of slot `id` and left the other slots alone. -/
structure Kernel.Turned (k k' : Kernel) (id : Word) (file : OpenFile) (ino offset : ℕ) : Prop where
  tables : k.machine.SameTables k'.machine
  slot : k'.Slot id file ino offset
  others : ∀ {id' file' ino' offset'}, id'.toNat ≠ id.toNat → k.Slot id' file' ino' offset' →
    k'.Slot id' file' ino' offset'

/-- A program has a variable of one byte at `c`. -/
structure Machine.HasVar (m : Machine) (c : Word) : Prop where
  linear : m.Linear
  frames : m.DistinctFrames
  writable : m.Writable c 1

theorem Machine.SameTables.hasVar {m m' : Machine} {c : Word} (h : m.SameTables m')
    (hm : m.HasVar c) : m'.HasVar c :=
  ⟨h.linear hm.linear, h.distinctFrames hm.frames, h.writable hm.writable⟩

/-- The host does not fail, and the program keeps its tables and its variable. -/
structure CallSite.Works (site : CallSite) (c : Word) : Prop where
  tables : ∀ m : Machine, m.HasVar c → m.SameTables (site.before m)
  byte : ∀ m : Machine, m.HasVar c → (site.before m).byteAt c = m.byteAt c
  reads : site.env.readFails = false
  writes : site.env.writeFails = false

theorem CallSite.Works.sameTables {site : CallSite} {c : Word} (h : site.Works c) {k k' : Kernel}
    (hc : k.machine.HasVar c) {call : Syscall} {args : List Word}
    (hcode : (site.trap k.machine call args).machine.registers 2 = call.code)
    (hrun : k.handle (site.trap k.machine call args) = .ok () k') :
    k.machine.SameTables k'.machine :=
  (h.tables _ hc).trans
    ((Machine.sameTables_asking _ call args).trans (sameTables_handle hcode hrun))

theorem userCall_of_handle {site : CallSite} {call : Syscall} {args : List Word} {k k' : Kernel}
    (h : k.handle (site.trap k.machine call args) = .ok () k') :
    userCall site call args k = .ok (k'.machine.registers 2) k' := by
  rw [userCall, h]

section calls

variable {site : CallSite} {k : Kernel} {id c : Word} {file : OpenFile} {ino offset : ℕ}
  (hs : k.Slot id file ino offset)

include hs

theorem Kernel.Slot.toNat_offset : (BitVec.ofNat 32 offset).toNat = offset := by
  have := hs.offset_lt
  simp only [offsetLimit] at this
  exact toNat_ofNat_of_lt (by omega)

/-- It is enough to look at the table and the descriptors. -/
theorem Kernel.Slot.turned {k' : Kernel} {offset' pos : ℕ}
    (htables : k.machine.SameTables k'.machine)
    (hopenfile : k'.openfile = Function.update k.openfile id.toNat
      (some { file with currentOffset := BitVec.ofNat 32 offset' }))
    (hfds : k'.host.fds = Function.update k.host.fds file.file (some (.file ino pos)))
    (hlt : offset' < offsetLimit) : k.Turned k' id file ino offset' := by
  refine ⟨htables, ⟨hs.two_le, hs.lt, ?_, ⟨pos, ?_⟩, hlt⟩,
    fun hne h' ↦ ⟨h'.two_le, h'.lt, ?_, ?_, h'.offset_lt⟩⟩
  · rw [hopenfile, Function.update_self]
  · rw [hfds, Function.update_self]
  · rw [hopenfile, Function.update_of_ne hne, h'.slot]
  · rename_i id' file' ino' offset''
    obtain ⟨pos', hfd'⟩ := h'.fd
    by_cases hsame : file'.file = file.file
    · -- one descriptor stands for one file
      obtain ⟨old, hfd⟩ := hs.fd
      rw [hsame, hfd] at hfd'
      cases hfd'
      exact ⟨pos, by rw [hfds, hsame, Function.update_self]⟩
    · exact ⟨pos', by rw [hfds, Function.update_of_ne hsame, hfd']⟩

/-- `Read(&c, 1, id)`, not at the end of the file. -/
private theorem userCall_read (hsite : site.Works c) (hc : k.machine.HasVar c) {b : Byte}
    (hroom : offset + 1 < offsetLimit) (hb : (k.host.content ino)[offset]? = some b) :
    ∃ k', userCall site .read [c, 1, id] k = .ok 1 k' ∧ k'.machine.byteAt c = some b ∧
      k.Turned k' id file ino (offset + 1) ∧ k'.host.content = k.host.content := by
  obtain ⟨pos, hfd⟩ := hs.fd
  have hoff := hs.toNat_offset
  have hc' := (hsite.tables _ hc).hasVar hc
  have hreading : k.Reading (site.trap k.machine .read [c, 1, id])
      { file with currentOffset := BitVec.ofNat 32 offset } ino := by
    refine ⟨rfl, hs.two_le, hs.lt, hs.slot, ⟨pos, hfd⟩, ?_, (by decide : 0 ≤ (1 : Word).toInt),
      ⟨hc'.linear.tlb_none, hc'.linear.pageTable_some⟩, hc'.frames, hc'.writable, hsite.reads⟩
    rw [toInt_ofNat_of_lt hs.offset_lt]
    omega
  have hbytes : k.bytesAt { file with currentOffset := BitVec.ofNat 32 offset } ino 1 = [b] := by
    obtain ⟨hlt, rfl⟩ := List.getElem?_eq_some_iff.mp hb
    rw [Kernel.bytesAt, hoff, List.drop_eq_getElem_cons hlt, List.take_succ_cons, List.take_zero]
  have hcount : k.readCount (site.trap k.machine .read [c, 1, id])
      { file with currentOffset := BitVec.ofNat 32 offset } ino = 1 := by
    have hlength := congrArg List.length hbytes
    rwa [length_bytesAt] at hlength
  obtain ⟨k', hrun, hresult, hcopied, hopenfile⟩ := hreading.handle_eq
  replace hcopied : (site.trap k.machine .read [c, 1, id]).machine.Copied k'.machine c
    (uptoZero (k.bytesAt { file with currentOffset := BitVec.ofNat 32 offset } ino 1)) := hcopied
  have hzero : uptoZero [b] = [b] := by
    rw [uptoZero]
    split <;> rfl
  rw [hbytes, hzero] at hcopied
  rw [hcount] at hresult hopenfile
  have htables := hsite.sameTables hc rfl hrun
  have hadvanced : k'.openfile = Function.update k.openfile id.toNat
      (some { file with currentOffset := BitVec.ofNat 32 (offset + 1) }) := by
    rw [hopenfile, Kernel.advanced, ← BitVec.ofNat_add]
    rfl
  -- the host is the same before and after the byte is copied back
  have hhost : k'.host = k.host.setFd file.file (some (.file ino (offset + 1))) := by
    obtain ⟨k₁, hbody, rfl⟩ := handle_eq_ok (show _ = Syscall.read.code from rfl) hrun
    obtain ⟨str, hstr⟩ := hc'.writable.stringAt hc'.linear
    have hsize : (0 : ℤ) ≤ (1 : Word).toInt := by decide
    obtain ⟨k₂, htransfer, hmoved⟩ := readTransfer
      (k := { k with machine := (site.trap k.machine .read [c, 1, id]).machine }) hs.two_le hs.lt
      hs.slot hfd hsize (by decide) hstr (by rw [hoff]; exact hs.offset_lt) hsite.reads
    have hcopy := htransfer.symm.trans ((scRead_eq site.env
      { k with machine := (site.trap k.machine .read [c, 1, id]).machine }).symm.trans hbody)
    have hhost := (hmoved.of_ok hcopy).2.1
    replace hhost : k₁.host = (k.atPos file.file ino ((BitVec.ofNat 32 offset).toNat + (k.bytesAt
      { file with currentOffset := BitVec.ofNat 32 offset } ino 1).length)).host := hhost
    rw [hbytes, hoff] at hhost
    exact hhost
  refine ⟨k', ?_, ?_, hs.turned htables
    hadvanced (by rw [hhost]; rfl) hroom, by rw [hhost]; rfl⟩
  · rw [userCall_of_handle hrun, hresult]
    rfl
  · have hfirst := hcopied.copied 0 Nat.one_pos
    rwa [BitVec.add_zero] at hfirst

/-- `Write(&c, 1, id)`. -/
private theorem userCall_write (hsite : site.Works c) (hc : k.machine.HasVar c)
    (htype : file.type = 0) (hroom : offset + 1 < offsetLimit) {b : Byte}
    (hb : k.machine.byteAt c = some b) :
    ∃ k', userCall site .write [c, 1, id] k = .ok 1 k' ∧ k.Turned k' id file ino (offset + 1) ∧
      k'.host.content = Function.update k.host.content ino
        (splice (k.host.content ino) offset [b]) := by
  obtain ⟨pos, hfd⟩ := hs.fd
  have hoff := hs.toNat_offset
  have hc' := (hsite.tables _ hc).hasVar hc
  have hwriting : k.Writing (site.trap k.machine .write [c, 1, id])
      (.file { file with currentOffset := BitVec.ofNat 32 offset } ino) := by
    refine ⟨rfl, ⟨hs.two_le, hs.lt, hs.slot, htype, ⟨pos, hfd⟩, ?_, hsite.writes⟩,
      (by decide : 0 ≤ (1 : Word).toInt), ⟨hc'.linear.tlb_none, hc'.linear.pageTable_some⟩,
      hc'.frames, hc'.writable⟩
    rw [toInt_ofNat_of_lt hs.offset_lt]
    omega
  obtain ⟨k', hrun, hresult, hsent, -⟩ := hwriting.handle_eq (by
    change (BitVec.ofNat 32 offset).toNat + 1 < offsetLimit
    rwa [hoff])
  have hbyte : (site.trap k.machine .write [c, 1, id]).machine.bytesFrom c 1 = [b] := by
    have hsame : (site.trap k.machine .write [c, 1, id]).machine.byteAt c = some b :=
      (hsite.byte _ hc).trans hb
    rw [Machine.bytesFrom, hsame]
    rfl
  -- there is nothing behind a zero
  have hfetched : fetchedBytes (cString [b]) 1 = [b] := by
    refine (fetchedBytes_eq_iff [b]).mpr fun j hj ↦ ?_
    rintro ⟨i, hi, -⟩
    rw [List.length_singleton] at hj
    omega
  replace hsent : (k'.openfile, k'.host, k'.consoleOut) = k.sent
    (site.trap k.machine .write [c, 1, id]) (fetchedBytes (cString
      ((site.trap k.machine .write [c, 1, id]).machine.bytesFrom c 1)) 1)
    (.file { file with currentOffset := BitVec.ofNat 32 offset } ino) := hsent
  rw [hbyte, hfetched] at hsent
  simp only [Kernel.sent, Prod.mk.injEq] at hsent
  have htables := hsite.sameTables hc rfl hrun
  have hadvanced : k'.openfile = Function.update k.openfile id.toNat
      (some { file with currentOffset := BitVec.ofNat 32 (offset + 1) }) := by
    rw [hsent.1, Kernel.advanced]
    exact congrArg (fun n ↦ Function.update k.openfile id.toNat
      (some { file with currentOffset := n })) (BitVec.ofNat_add offset 1).symm
  have hhost : k'.host = (k.host.setContent ino (splice (k.host.content ino) offset [b])).setFd
      file.file (some (.file ino (offset + 1))) := by
    rw [hsent.2.1, Kernel.hostWritten, hoff]
    rfl
  refine ⟨k', ?_, hs.turned htables
    hadvanced (by rw [hhost]; rfl) hroom, by rw [hhost]; rfl⟩
  rw [userCall_of_handle hrun, hresult]
  rfl

/-- `Seek(pos, id)` to a place in the file. -/
theorem userCall_seek (hsite : site.Works c) (hc : k.machine.HasVar c)
    (hlen : (k.host.content ino).length < offsetLimit) {pos : Word} {n : ℕ}
    (hn : seekTarget (k.host.content ino).length pos = BitVec.ofNat 32 n)
    (hle : n ≤ (k.host.content ino).length) :
    ∃ k', userCall site .seek [pos, id] k = .ok (BitVec.ofNat 32 n) k' ∧
      k.Turned k' id file ino n ∧ k'.host.content = k.host.content := by
  have hlt : n < offsetLimit := Nat.lt_of_le_of_lt hle hlen
  have hpos : (seekTarget (k.host.content ino).length pos).toNat ≤
      (k.host.content ino).length := by
    simp only [offsetLimit] at hlt
    rwa [hn, toNat_ofNat_of_lt (by omega)]
  obtain ⟨old, hfd⟩ := hs.fd
  have hbody : Syscall.seek.body site.env
      { k with machine := (site.trap k.machine .seek [pos, id]).machine } =
      .ok () (Kernel.afterSeek { k with machine := (site.trap k.machine .seek [pos, id]).machine }
        id.toNat { file with currentOffset := BitVec.ofNat 32 offset } ino
        (seekTarget (k.host.content ino).length pos)) := by
    refine (scSeek_of_slot
      (k := { k with machine := (site.trap k.machine .seek [pos, id]).machine }) hs.two_le
      hs.lt hs.slot rfl).trans ?_
    exact (seekOpen_eq
      (k := { k with machine := (site.trap k.machine .seek [pos, id]).machine }) hfd hlen hs.lt
      pos).trans (if_pos hpos)
  have hrun := handle_of_body (k := k) (t := site.trap k.machine .seek [pos, id]) rfl hbody
  rw [hn] at hrun
  have htables := hsite.sameTables hc rfl hrun
  refine ⟨_, (userCall_of_handle hrun).trans
    (congrArg (EStateM.Result.ok · _) (Machine.skip_result _)), ?_, rfl⟩
  exact hs.turned htables rfl rfl hlt

end calls

/-! ## The loop -/

/-- Inside a file a write does not pad. -/
theorem splice_of_le {content : List Byte} {pos : ℕ} (h : pos ≤ content.length)
    (bytes : List Byte) : splice content pos bytes =
      content.take pos ++ bytes ++ content.drop (pos + bytes.length) := by
  by_cases hne : bytes = []
  · rw [splice, if_pos hne, hne]
    simp
  · rw [splice_of_ne_nil _ _ hne, Nat.sub_eq_zero_of_le h]
    simp

/-- One byte written, and the others behind it. -/
private theorem splice_splice {content : List Byte} {pos : ℕ} (h : pos ≤ content.length) (b : Byte)
    (bytes : List Byte) :
    splice (splice content pos [b]) (pos + 1) bytes = splice content pos (b :: bytes) := by
  have hfront : (content.take pos ++ [b]).length = pos + 1 := by
    rw [List.length_append, List.length_take, Nat.min_eq_left h, List.length_singleton]
  have hbehind (rest : List Byte) : (content.take pos ++ [b] ++ rest).drop
      (pos + 1 + bytes.length) = rest.drop bytes.length := by
    rw [← hfront]
    exact List.drop_length_add_append ..
  have hlength : pos + 1 + bytes.length = pos + (b :: bytes).length := by
    rw [List.length_cons]
    omega
  rw [splice_of_le h, splice_of_le h,
    splice_of_le (by rw [List.length_append, hfront]; exact Nat.le_add_right _ _),
    List.take_left' hfront, hbehind, List.length_singleton, List.drop_drop, hlength,
    List.append_assoc (content.take pos)]
  rfl

/-- Bytes written behind `front`. -/
private theorem splice_behind (front behind bytes : List Byte) :
    splice (front ++ behind) front.length bytes = front ++ bytes ++ behind.drop bytes.length := by
  rw [splice_of_le (by rw [List.length_append]; exact Nat.le_add_right _ _), List.take_left,
    List.drop_length_add_append]

/-- Two files are open, the second one for writing, and there is a variable for the bytes. -/
structure Kernel.Copying (k : Kernel) (c srcId desId : Word) (src des : OpenFile)
    (inoS inoD i j : ℕ) : Prop where
  var : k.machine.HasVar c
  source : k.Slot srcId src inoS i
  destination : k.Slot desId des inoD j
  slots : srcId.toNat ≠ desId.toNat
  files : inoS ≠ inoD
  type : des.type = 0

/-- What copying did: both offsets moved, and nothing but the content of the destination has
changed. -/
structure Kernel.Copied (k k' : Kernel) (c srcId desId : Word) (src des : OpenFile)
    (inoS inoD i j : ℕ) (content : List Byte) : Prop where
  copying : k'.Copying c srcId desId src des inoS inoD i j
  content : k'.host.content = Function.update k.host.content inoD content
  others : ∀ {id file ino offset}, id.toNat ≠ srcId.toNat → id.toNat ≠ desId.toNat →
    k.Slot id file ino offset → k'.Slot id file ino offset

section loop

variable {sites : ℕ → CallSite} {k : Kernel} {c srcId desId : Word} {src des : OpenFile}
  {inoS inoD i j : ℕ}

/-- One turn of the loop. -/
private theorem copyLoop_turn (h : k.Copying c srcId desId src des inoS inoD i j)
    (hsites : ∀ n, (sites n).Works c) (hroomS : i + 1 < offsetLimit)
    (hroomD : j + 1 < offsetLimit) {b : Byte} (hb : (k.host.content inoS)[i]? = some b) (n : ℕ) :
    ∃ k', (∀ rest, copyLoop sites c srcId desId n (rest + 1) k =
        copyLoop sites c srcId desId (n + 1) rest k') ∧
      k.Copied k' c srcId desId src des inoS inoD (i + 1) (j + 1)
        (splice (k.host.content inoD) j [b]) := by
  obtain ⟨k₁, hread, hbyte, hturned₁, hcontent₁⟩ :=
    userCall_read h.source (hsites (2 * n)) h.var hroomS hb
  have hdes := hturned₁.others (Ne.symm h.slots) h.destination
  obtain ⟨k₂, hwrite, hturned₂, hcontent₂⟩ := userCall_write hdes (hsites (2 * n + 1))
    (hturned₁.tables.hasVar h.var) h.type hroomD hbyte
  refine ⟨k₂, fun rest ↦ ?_, ⟨?_, hturned₂.others h.slots hturned₁.slot, hturned₂.slot, h.slots,
    h.files, h.type⟩, ?_, fun hs hd hslot ↦ hturned₂.others hd (hturned₁.others hs hslot)⟩
  · rw [copyLoop, bind_of_ok hread, bind_of_ok hwrite]
  · exact (hturned₁.tables.trans hturned₂.tables).hasVar h.var
  · rw [hcontent₂, hcontent₁]

/-- The whole loop. -/
private theorem copyLoop_eq (h : k.Copying c srcId desId src des inoS inoD i j)
    (hsites : ∀ n, (sites n).Works c) (rest : ℕ) (hroomS : i + rest < offsetLimit)
    (hroomD : j + rest < offsetLimit) (hlen : i + rest ≤ (k.host.content inoS).length)
    (hj : j ≤ (k.host.content inoD).length) (n : ℕ) :
    ∃ k', copyLoop sites c srcId desId n rest k = .ok () k' ∧
      k.Copied k' c srcId desId src des inoS inoD (i + rest) (j + rest)
        (splice (k.host.content inoD) j (((k.host.content inoS).drop i).take rest)) := by
  induction rest generalizing k i j n with
  | zero =>
    refine ⟨k, rfl, h, ?_, fun _ _ hslot ↦ hslot⟩
    rw [List.take_zero, splice, if_pos rfl, Function.update_eq_self]
  | succ rest ih =>
    have hi : i < (k.host.content inoS).length := by omega
    obtain ⟨k₁, hturn, hcopied⟩ := copyLoop_turn h hsites (by omega) (by omega)
      (List.getElem?_eq_getElem hi) n
    have hcontentS : k₁.host.content inoS = k.host.content inoS := by
      rw [hcopied.content, Function.update_of_ne h.files]
    have hcontentD : k₁.host.content inoD = splice (k.host.content inoD) j
        [(k.host.content inoS)[i]] := by
      rw [hcopied.content, Function.update_self]
    obtain ⟨k', hloop, hcopied'⟩ := ih hcopied.copying (by omega) (by omega)
      (by rw [hcontentS]; omega)
      (by rw [hcontentD, length_splice, if_neg (List.cons_ne_nil _ _), List.length_singleton]
          omega) (n + 1)
    refine ⟨k', (hturn rest).trans hloop, ?_, ?_,
      fun hs hd hslot ↦ hcopied'.others hs hd (hcopied.others hs hd hslot)⟩
    · have hi' : i + (rest + 1) = i + 1 + rest := by omega
      have hj' : j + (rest + 1) = j + 1 + rest := by omega
      rw [hi', hj']
      exact hcopied'.copying
    · rw [hcopied'.content, hcopied.content, Function.update_idem, Function.update_self,
        Function.update_of_ne h.files, splice_splice hj, List.drop_eq_getElem_cons hi,
        List.take_succ_cons]

theorem Kernel.Copied.trans {k₁ k₂ : Kernel} {i₁ j₁ i₂ j₂ : ℕ} {content₁ content₂ : List Byte}
    (h : k.Copied k₁ c srcId desId src des inoS inoD i₁ j₁ content₁)
    (h' : k₁.Copied k₂ c srcId desId src des inoS inoD i₂ j₂ content₂) :
    k.Copied k₂ c srcId desId src des inoS inoD i₂ j₂ content₂ := by
  refine ⟨h'.copying, ?_, fun hs hd hslot ↦ h'.others hs hd (h.others hs hd hslot)⟩
  rw [h'.content, h.content, Function.update_idem]

/-! ## The programs -/

private theorem seekTarget_end (n : ℕ) : seekTarget n (-1) = BitVec.ofNat 32 n := rfl

private theorem seekTarget_start (n : ℕ) : seekTarget n 0 = BitVec.ofNat 32 0 := rfl

/-- The size of the source, and its offset back at the start. -/
private theorem seek_source (h : k.Copying c srcId desId src des inoS inoD i j)
    (hlen : (k.host.content inoS).length < offsetLimit) {site₀ site₁ : CallSite}
    (hsite₀ : site₀.Works c) (hsite₁ : site₁.Works c) :
    ∃ k₁ k₂, userCall site₀ .seek [-1, srcId] k
        = .ok (BitVec.ofNat 32 (k.host.content inoS).length) k₁ ∧
      userCall site₁ .seek [0, srcId] k₁ = .ok 0 k₂ ∧
      k.Copied k₂ c srcId desId src des inoS inoD 0 j (k.host.content inoD) := by
  obtain ⟨k₁, hend, hturned₁, hcontent₁⟩ :=
    userCall_seek h.source hsite₀ h.var hlen (seekTarget_end _) (Nat.le_refl _)
  obtain ⟨k₂, hstart, hturned₂, hcontent₂⟩ := userCall_seek hturned₁.slot hsite₁
    (hturned₁.tables.hasVar h.var) (by rwa [hcontent₁]) (seekTarget_start _) (Nat.zero_le _)
  have hdes := hturned₂.others (Ne.symm h.slots) (hturned₁.others (Ne.symm h.slots) h.destination)
  refine ⟨k₁, k₂, hend, hstart, ⟨(hturned₁.tables.trans hturned₂.tables).hasVar h.var,
    hturned₂.slot, hdes, h.slots, h.files, h.type⟩, ?_,
    fun hs _ hslot ↦ hturned₂.others hs (hturned₁.others hs hslot)⟩
  rw [hcontent₂, hcontent₁, Function.update_eq_self]

/-- The offset of the destination back at the start. -/
private theorem seek_destination (h : k.Copying c srcId desId src des inoS inoD i j)
    (hlen : (k.host.content inoD).length < offsetLimit) {site : CallSite} (hsite : site.Works c) :
    ∃ k', userCall site .seek [0, desId] k = .ok 0 k' ∧
      k.Copied k' c srcId desId src des inoS inoD i 0 (k.host.content inoD) := by
  obtain ⟨k', hstart, hturned, hcontent⟩ :=
    userCall_seek h.destination hsite h.var hlen (seekTarget_start _) (Nat.zero_le _)
  refine ⟨k', hstart, ⟨hturned.tables.hasVar h.var, hturned.others h.slots h.source, hturned.slot,
    h.slots, h.files, h.type⟩, ?_, fun _ hd hslot ↦ hturned.others hd hslot⟩
  rw [hcontent, Function.update_eq_self]

private theorem toNat_fileSize {n : ℕ} (h : n < offsetLimit) :
    (BitVec.ofNat 32 n).toInt.toNat = n := by
  rw [toInt_ofNat_of_lt h]
  rfl

private theorem copyFile_eq (h : k.Copying c srcId desId src des inoS inoD i j)
    (hsites : ∀ n, (sites n).Works c) (hS : (k.host.content inoS).length < offsetLimit)
    (hD : (k.host.content inoD).length < offsetLimit) :
    ∃ k', copyFile sites c srcId desId k = .ok () k' ∧
      k.Copied k' c srcId desId src des inoS inoD (k.host.content inoS).length
        (k.host.content inoS).length
        (k.host.content inoS ++ (k.host.content inoD).drop (k.host.content inoS).length) := by
  obtain ⟨k₁, k₂, hend, hstart, hcopied₂⟩ := seek_source h hS (hsites 0) (hsites 1)
  have hcontent₂ : k₂.host.content = k.host.content := by
    rw [hcopied₂.content, Function.update_eq_self]
  obtain ⟨k₃, hdes, hcopied₃⟩ :=
    seek_destination hcopied₂.copying (by rwa [hcontent₂]) (hsites 2)
  rw [hcontent₂] at hcopied₃
  have hcontent₃ : k₃.host.content = k.host.content := by
    rw [hcopied₃.content, hcontent₂, Function.update_eq_self]
  obtain ⟨k', hloop, hcopied'⟩ := copyLoop_eq hcopied₃.copying (fun n ↦ hsites (n + 3))
    (k.host.content inoS).length (by rwa [Nat.zero_add]) (by rwa [Nat.zero_add])
    (by rw [hcontent₃, Nat.zero_add]) (Nat.zero_le _) 0
  rw [hcontent₃, List.drop_zero, List.take_length, splice_zero, Nat.zero_add] at hcopied'
  refine ⟨k', ?_, (hcopied₂.trans hcopied₃).trans hcopied'⟩
  rw [copyFile, bind_of_ok hend, bind_of_ok hstart, bind_of_ok hdes, toNat_fileSize hS, hloop]

end loop

/-- **`copy` copies.** Two different files are open, the second one for writing; whatever their
bytes are, where their offsets stand, whatever else is open and whatever the program does between
its calls: on a host that does not fail, `copy` ends with the bytes of the source at the start of
the destination, followed by what the destination had behind that many bytes, and no other file has
changed. -/
theorem copy_copies {k : Kernel} {c srcId desId : Word} {src des : OpenFile} {inoS inoD i j : ℕ}
    {sites : ℕ → CallSite} (h : k.Copying c srcId desId src des inoS inoD i j)
    (hsites : ∀ n, (sites n).Works c) (hS : (k.host.content inoS).length < offsetLimit)
    (hD : (k.host.content inoD).length < offsetLimit) :
    ∃ k', copyFile sites c srcId desId k = .ok () k' ∧
      k'.host.content inoD =
        k.host.content inoS ++ (k.host.content inoD).drop (k.host.content inoS).length ∧
      ∀ other ≠ inoD, k'.host.content other = k.host.content other := by
  obtain ⟨k', hrun, hcopied⟩ := copyFile_eq h hsites hS hD
  refine ⟨k', hrun, ?_, fun other hne ↦ ?_⟩
  · rw [hcopied.content, Function.update_self]
  · rw [hcopied.content, Function.update_of_ne hne]

/-! ### A zero in the file -/

/-- Slots 2 and 3 are open on `a`, `0`, `b`, for reading, and slot 4 on a file with a byte more. -/
def copyKernel : Kernel :=
  { Kernel.boot identityMap with
    host :=
      { Host.empty with
        content := fun ino ↦ if ino = 1 then [1, 2, 3, 4] else [97, 0, 98]
        fds := fun fd ↦ if fd = 6 then some (.file 1 0) else some (.file 0 0) }
    openfile := fun i ↦ if i = 4 then some ⟨3, 0, 7, 6, 0⟩ else some ⟨3, 1, 7, 5, 0⟩ }

private theorem copyKernel_hasVar : copyKernel.machine.HasVar 128 where
  linear := ⟨rfl, _, rfl⟩
  frames := identityMap_distinctFrames
  writable := by
    have hone : ∀ i < 1, (identityMap.physical (128 + BitVec.ofNat 32 i) 1 true).isSome = true := by
      decide
    exact hone

private theorem copyKernel_copying :
    copyKernel.Copying 128 2 4 ⟨3, 1, 7, 5, 0⟩ ⟨3, 0, 7, 6, 0⟩ 0 1 0 0 where
  var := copyKernel_hasVar
  source := ⟨by decide, by decide, rfl, ⟨0, rfl⟩, by decide⟩
  destination := ⟨by decide, by decide, rfl, ⟨0, rfl⟩, by decide⟩
  slots := by decide
  files := by decide
  type := rfl

/-- Before each call the program counts in `r16`. -/
def countingSite : CallSite where
  before m := m.setReg 16 (m.registers 16 + 1)
  env := .quiet

theorem countingSite_works (c : Word) : countingSite.Works c where
  tables _ _ := ⟨.refl _, .refl _, rfl⟩
  byte _ _ := rfl
  reads := rfl
  writes := rfl

theorem copy_copies_zero : ∃ k', copyFile (fun _ ↦ countingSite) 128 2 4 copyKernel = .ok () k' ∧
    k'.host.content 1 = [97, 0, 98, 4] := by
  obtain ⟨k', hrun, hcontent, -⟩ := copy_copies copyKernel_copying
    (fun _ ↦ countingSite_works 128) (by decide) (by decide)
  exact ⟨k', hrun, hcontent⟩

/-- **`concatenate` concatenates.** The same with two sources, which may be one file opened twice:
the bytes of the first, those of the second, and what the destination had behind that many. -/
theorem concatenate_concatenates {k : Kernel} {c srcId srcId1 desId : Word}
    {src src1 des : OpenFile} {inoS inoS1 inoD i i₁ j : ℕ} {sites sites' : ℕ → CallSite}
    (h : k.Copying c srcId desId src des inoS inoD i j)
    (h₁ : k.Slot srcId1 src1 inoS1 i₁) (hslots : srcId1.toNat ≠ srcId.toNat)
    (hslots' : srcId1.toNat ≠ desId.toNat) (hfiles : inoS1 ≠ inoD)
    (hsites : ∀ n, (sites n).Works c) (hsites' : ∀ n, (sites' n).Works c)
    (hlen : (k.host.content inoS).length + (k.host.content inoS1).length < offsetLimit)
    (hD : (k.host.content inoD).length < offsetLimit) :
    ∃ k', concatenateFiles sites sites' c srcId srcId1 desId k = .ok () k' ∧
      k'.host.content inoD = k.host.content inoS ++ k.host.content inoS1 ++
        (k.host.content inoD).drop
          ((k.host.content inoS).length + (k.host.content inoS1).length) ∧
      ∀ other ≠ inoD, k'.host.content other = k.host.content other := by
  obtain ⟨k₁, hcopy, hcopied₁⟩ := copyFile_eq h hsites (by omega) hD
  have hsecond : k₁.Copying c srcId1 desId src1 des inoS1 inoD i₁ (k.host.content inoS).length :=
    ⟨hcopied₁.copying.var, hcopied₁.others hslots hslots' h₁, hcopied₁.copying.destination,
      hslots', hfiles, h.type⟩
  have hcontent₁ : k₁.host.content inoS1 = k.host.content inoS1 := by
    rw [hcopied₁.content, Function.update_of_ne hfiles]
  obtain ⟨k₂, k₃, hend, hstart, hcopied₃⟩ :=
    seek_source hsecond (by rw [hcontent₁]; omega) (hsites' 0) (hsites' 1)
  have hcontent₃ : k₃.host.content = k₁.host.content := by
    rw [hcopied₃.content, Function.update_eq_self]
  have hdes : k₁.host.content inoD = k.host.content inoS ++
      (k.host.content inoD).drop (k.host.content inoS).length := by
    rw [hcopied₁.content, Function.update_self]
  obtain ⟨k', hloop, hcopied'⟩ := copyLoop_eq hcopied₃.copying (fun n ↦ hsites' (n + 2))
    (k.host.content inoS1).length (by omega) hlen (by rw [hcontent₃, hcontent₁, Nat.zero_add])
    (by rw [hcontent₃, hdes, List.length_append]; omega) 0
  rw [hcontent₃, hcontent₁, List.drop_zero, List.take_length, hdes,
    splice_behind] at hcopied'
  refine ⟨k', ?_, ?_, fun other hne ↦ ?_⟩
  · rw [concatenateFiles, bind_of_ok hcopy, bind_of_ok hend, bind_of_ok hstart, hcontent₁,
      toNat_fileSize (by omega), hloop]
  · rw [hcopied'.content, Function.update_self, List.drop_drop]
  · rw [hcopied'.content, Function.update_of_ne hne, hcontent₃, hcopied₁.content,
      Function.update_of_ne hne]

theorem concatenate_concatenates_twice :
    ∃ k', concatenateFiles (fun _ ↦ countingSite) (fun _ ↦ countingSite) 128 2 3 4 copyKernel =
        .ok () k' ∧
      k'.host.content 1 = [97, 0, 98, 97, 0, 98] := by
  have hsecond : copyKernel.Slot 3 ⟨3, 1, 7, 5, 0⟩ 0 0 :=
    ⟨by decide, by decide, rfl, ⟨0, rfl⟩, by decide⟩
  obtain ⟨k', hrun, hcontent, -⟩ := concatenate_concatenates copyKernel_copying hsecond
    (by decide) (by decide) (by decide) (fun _ ↦ countingSite_works 128)
    (fun _ ↦ countingSite_works 128) (by decide) (by decide)
  exact ⟨k', hrun, hcontent⟩

end Nachos
