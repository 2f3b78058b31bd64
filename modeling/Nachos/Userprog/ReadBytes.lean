import Mathlib.Data.Finset.Card
import Nachos.Machine.VirtualMemory
import Nachos.Userprog.ReadWrite

/-!
# The bytes a `Read` delivers

`System2User` copies until the count is reached or a zero has been copied. For a string the second
is what its callers want; `Read` hands it the bytes of a file, and what lies behind a zero among
them never reaches the user program, although the result and the offset count it.
-/

namespace Nachos

open Program

/-! ## Copying to user memory -/

/-- What `System2User` copies of `bytes`: everything up to the first zero, and the zero. -/
def uptoZero : List Byte → List Byte
  | [] => []
  | c :: rest => if c = 0 then [c] else c :: uptoZero rest

theorem uptoZero_isPrefix (bytes : List Byte) : uptoZero bytes <+: bytes := by
  induction bytes with
  | nil => exact List.prefix_rfl
  | cons c rest ih =>
    rw [uptoZero]
    split
    · exact ⟨rest, rfl⟩
    · exact (List.cons_prefix_cons).mpr ⟨rfl, ih⟩

theorem uptoZero_append_of_mem {bytes : List Byte} (h : 0 ∈ bytes) (behind : List Byte) :
    uptoZero (bytes ++ behind) = uptoZero bytes := by
  induction bytes with
  | nil => exact absurd h List.not_mem_nil
  | cons c bytes ih =>
    rw [List.cons_append, uptoZero, uptoZero]
    split
    · rfl
    · rename_i hne
      rw [ih ((List.mem_cons.mp h).resolve_left (Ne.symm hne))]

theorem uptoZero_append_zero {line : List Byte} (h : ∀ c ∈ line, c ≠ 0) (behind : List Byte) :
    uptoZero (line ++ 0 :: behind) = line ++ [0] := by
  induction line with
  | nil => exact if_pos rfl
  | cons c line ih =>
    rw [List.forall_mem_cons] at h
    rw [List.cons_append, uptoZero, if_neg h.1, ih h.2, List.cons_append]

/-- The bytes left out are those behind a zero. -/
theorem length_uptoZero_le_iff (bytes : List Byte) (j : ℕ) (hj : j < bytes.length) :
    (uptoZero bytes).length ≤ j ↔ ∃ i < j, bytes[i]? = some 0 := by
  induction bytes generalizing j with
  | nil => exact absurd hj (Nat.not_lt_zero _)
  | cons c rest ih =>
    rw [uptoZero]
    cases j with
    | zero => split <;> simp
    | succ j =>
      split
      · rename_i hc
        subst hc
        simp only [List.length_cons, List.length_nil]
        exact ⟨fun _ ↦ ⟨0, by omega, rfl⟩, fun _ ↦ by omega⟩
      · rename_i hc
        rw [List.length_cons, Nat.add_le_add_iff_right, ih j (by simpa using hj)]
        constructor
        · rintro ⟨i, hi, hzero⟩
          exact ⟨i + 1, by omega, by simpa using hzero⟩
        · rintro ⟨i, hi, hzero⟩
          cases i with
          | zero => exact absurd (by simpa using hzero) hc
          | succ i => exact ⟨i, by omega, by simpa using hzero⟩

/-- `bytes` are in user memory from `addr` on, and every other byte of it is as in `m`. -/
structure Machine.Copied (m m' : Machine) (addr : Word) (bytes : List Byte) : Prop where
  copied : ∀ i < bytes.length, m'.byteAt (addr + BitVec.ofNat 32 i) = bytes[i]?
  frame : ∀ x, (∀ i < bytes.length, x ≠ addr + BitVec.ofNat 32 i) → m'.byteAt x = m.byteAt x

theorem Machine.Copied.nil (m : Machine) (addr : Word) : m.Copied m addr [] :=
  ⟨fun _ h ↦ absurd h (Nat.not_lt_zero _), fun _ _ ↦ rfl⟩

theorem addr_add_inj {addr : Word} {i j : ℕ} (hi : i < 2 ^ 32) (hj : j < 2 ^ 32)
    (h : addr + BitVec.ofNat 32 i = addr + BitVec.ofNat 32 j) : i = j := by
  have hnat := congrArg BitVec.toNat ((BitVec.add_right_inj _).mp h)
  rwa [toNat_ofNat_of_lt hi, toNat_ofNat_of_lt hj] at hnat

/-- One byte written, then the rest behind it. -/
theorem Machine.Copied.cons {m m₁ m' : Machine} {addr : Word} {c : Byte} {rest : List Byte}
    (hlen : (c :: rest).length < 2 ^ 32)
    (hfirst : ∀ x, m₁.byteAt x = if x = addr then some c else m.byteAt x)
    (hrest : m₁.Copied m' (addr + 1) rest) : m.Copied m' addr (c :: rest) := by
  rw [List.length_cons] at hlen
  constructor
  · intro i hi
    cases i with
    | zero =>
      have hout : ∀ j < rest.length, addr + BitVec.ofNat 32 0 ≠ addr + 1 + BitVec.ofNat 32 j := by
        intro j hj heq
        rw [addr_add_one_add] at heq
        exact (Nat.succ_ne_zero j).symm (addr_add_inj (by omega) (by omega) heq)
      rw [hrest.frame _ hout, hfirst, if_pos (BitVec.add_zero addr)]
      rfl
    | succ i =>
      rw [← addr_add_one_add, hrest.copied i (by simpa using hi), List.getElem?_cons_succ]
  · intro x hx
    have hne : x ≠ addr := by simpa using hx 0 (Nat.succ_pos _)
    rw [hrest.frame x fun j hj ↦ ?_, hfirst, if_neg hne]
    rw [addr_add_one_add]
    exact hx (j + 1) (by simpa using hj)

section copied

variable {m m' : Machine} {addr : Word} {copied bytes : List Byte}

/-- If only the first of the bytes were copied, all of them are in place exactly when the others
were there before. -/
theorem Machine.Copied.of_prefix_iff (h : m.Copied m' addr copied) (hpre : copied <+: bytes)
    (hlen : bytes.length < 2 ^ 32) :
    m.Copied m' addr bytes ↔ ∀ j < bytes.length, copied.length ≤ j →
      m.byteAt (addr + BitVec.ofNat 32 j) = bytes[j]? := by
  have hcut := hpre.length_le
  -- the bytes that are not copied are as they were
  have hkept : ∀ j < bytes.length, copied.length ≤ j →
      m'.byteAt (addr + BitVec.ofNat 32 j) = m.byteAt (addr + BitVec.ofNat 32 j) := by
    intro j hj hout
    refine h.frame _ fun i hi heq ↦ ?_
    have := addr_add_inj (by omega) (by omega) heq
    omega
  constructor
  · intro hall j hj hout
    rw [← hkept j hj hout, hall.copied j hj]
  · intro hrest
    refine ⟨fun j hj ↦ ?_, fun x hx ↦ h.frame x fun i hi ↦ hx i (Nat.lt_of_lt_of_le hi hcut)⟩
    by_cases hin : j < copied.length
    · rw [h.copied j hin, List.getElem?_eq_getElem hin, ← List.prefix_iff_getElem?.mp hpre j hin]
    · have hout := Nat.not_lt.mp hin
      rw [hkept j hj hout, hrest j hj hout]

/-- If one byte too many was copied, nothing else has changed exactly when it was there before. -/
theorem Machine.Copied.of_append_iff {c : Byte} (h : m.Copied m' addr (bytes ++ [c]))
    (hlen : bytes.length + 1 < 2 ^ 32) :
    m.Copied m' addr bytes ↔ m.byteAt (addr + BitVec.ofNat 32 bytes.length) = some c := by
  have hlast : m'.byteAt (addr + BitVec.ofNat 32 bytes.length) = some c := by
    rw [h.copied _ (by simp), List.getElem?_concat_length]
  constructor
  · intro hall
    rw [← hlast]
    refine (hall.frame _ fun i hi heq ↦ ?_).symm
    have := addr_add_inj (by omega) (by omega) heq
    omega
  · intro hbefore
    refine ⟨fun j hj ↦ ?_, fun x hx ↦ ?_⟩
    · rw [h.copied j (by simp; omega), List.getElem?_append_left hj]
    · by_cases hxlast : x = addr + BitVec.ofNat 32 bytes.length
      · rw [hxlast, hlast, hbefore]
      · refine h.frame x fun i hi ↦ ?_
        rw [List.length_append, List.length_singleton] at hi
        rcases Nat.lt_succ_iff_lt_or_eq.mp hi with hi | rfl
        · exact hx i hi
        · exact hxlast

end copied

/-! ## The loop -/

theorem Machine.Alike.linear {m m' : Machine} (h : m.Alike m') (hm : m.Linear) : m'.Linear := by
  have htlb := h.tlb.isSome_eq
  have hpt := h.pageTable.isSome_eq
  obtain ⟨pt, hpt'⟩ := hm.pageTable_some
  rw [hm.tlb_none] at htlb
  rw [hpt'] at hpt
  exact ⟨by simpa using htlb, Option.isSome_iff_exists.mp hpt⟩

theorem Machine.Alike.distinctFrames {m m' : Machine} (h : m.Alike m') (hm : m.DistinctFrames) :
    m'.DistinctFrames := by
  intro pt' hpt' i j hi hj hvi hvj heq
  have htables := h.pageTable
  rw [hpt'] at htables
  cases hpt : m.pageTable with
  | none =>
    rw [hpt] at htables
    exact htables.elim
  | some pt =>
    rw [hpt] at htables
    have halike : ∀ l, (pt l).Alike (pt' l) := htables
    rw [h.pageTableSize] at hi hj
    rw [(halike i).valid] at hvi
    rw [(halike j).valid] at hvj
    rw [(halike i).physicalPage, (halike j).physicalPage] at heq
    exact hm pt hpt i j hi hj hvi hvj heq

/-- A byte written through a linear page table. -/
private theorem byteAt_writeMem_one {m m' : Machine} (hm : m.Linear) (hdist : m.DistinctFrames)
    {a : Word} {c : Byte} {u : Unit} (h : writeMem a 1 (c.signExtend 32) m = .ok u m') (x : Word) :
    m'.byteAt x = if x = a then some c else m.byteAt x := by
  rw [byteAt_writeMem hm hdist (Or.inl rfl) h]
  by_cases hx : x = a
  · subst hx
    rw [if_pos ⟨Nat.le_refl _, Nat.lt_succ_self _⟩, if_pos rfl, Nat.sub_self, wordByte,
      Nat.mul_zero, ← BitVec.setWidth_eq_extractLsb' (by decide), signExtend_setWidth]
  · have hne : x.toNat ≠ a.toNat := fun heq ↦ hx (BitVec.eq_of_toNat_eq heq)
    rw [if_neg (by omega), if_neg hx]

/-- The characters of `block`, read by `char` in the kernel `k`, whatever the machine is. -/
def Kernel.Delivers (k : Kernel) (char : ℕ → Kern Byte) (block : List Byte) : Prop :=
  ∀ m j c, block[j]? = some c → char j { k with machine := m } = .ok c { k with machine := m }

theorem Kernel.delivers_loadChar (k : Kernel) (p : Ptr) :
    k.Delivers (loadChar p) (k.heap.bytes p) := by
  intro m j c hc
  rw [loadChar]
  simp only [hc]

theorem Machine.Writable.mono {m : Machine} {addr : Word} {n n' : ℕ} (h : m.Writable addr n)
    (hle : n' ≤ n) : m.Writable addr n' := fun i hi ↦ h i (Nat.lt_of_lt_of_le hi hle)

theorem Machine.Writable.tail {m : Machine} {addr : Word} {n : ℕ} (h : m.Writable addr (n + 1)) :
    m.Writable (addr + 1) n := by
  intro i hi
  rw [addr_add_one_add]
  exact h (i + 1) (by omega)

theorem Machine.Alike.writable {m m' : Machine} (h : m.Alike m') {addr : Word} {n : ℕ}
    (hm : m.Writable addr n) : m'.Writable addr n := by
  intro i hi
  rw [h.physical]
  exact hm i hi

/-- The loop of `System2User` behind its first `i` bytes. -/
private theorem copyToUser_copied {virtAddr : Word} {char : ℕ → Kern Byte} {block : List Byte}
    {i rest : ℕ} {k : Kernel} (hchar : k.Delivers char block) (hm : k.machine.Linear)
    (hdist : k.machine.DistinctFrames) (hrest : rest < 2 ^ 32)
    (hlen : i + rest ≤ block.length ∨ 0 ∈ block.drop i)
    (hwrite : k.machine.Writable (virtAddr + BitVec.ofNat 32 i)
      (uptoZero ((block.drop i).take rest)).length) :
    ∃ m, copyToUser virtAddr char i rest k
        = .ok (BitVec.ofNat 32 (i + (uptoZero ((block.drop i).take rest)).length))
          { k with machine := m } ∧
      m.registers = k.machine.registers ∧
      k.machine.Copied m (virtAddr + BitVec.ofNat 32 i) (uptoZero ((block.drop i).take rest)) := by
  induction rest generalizing i k with
  | zero =>
    refine ⟨k.machine, ?_, rfl, ?_⟩
    · rw [List.take_zero]
      rfl
    · rw [List.take_zero]
      exact Machine.Copied.nil _ _
  | succ rest ih =>
    have hi : i < block.length := by
      rcases hlen with hlen | hzero
      · omega
      · have hpos := List.length_pos_of_mem hzero
        rw [List.length_drop] at hpos
        omega
    have hcut : (block.drop i).take (rest + 1)
        = block[i] :: (block.drop (i + 1)).take rest := by
      rw [List.drop_eq_getElem_cons hi, List.take_succ_cons]
    have hload := hchar k.machine i _ (List.getElem?_eq_getElem hi)
    have hnext : block[i] ≠ 0 → i + 1 + rest ≤ block.length ∨ 0 ∈ block.drop (i + 1) := by
      intro hne
      refine hlen.imp (fun hlen ↦ by omega) fun hzero ↦ ?_
      rw [List.drop_eq_getElem_cons hi] at hzero
      exact (List.mem_cons.mp hzero).resolve_left (Ne.symm hne)
    rw [hcut, uptoZero] at hwrite ⊢
    generalize block[i] = c at hload hcut hnext hwrite
    have hfirst := hwrite 0 (by split <;> simp)
    rw [BitVec.add_zero] at hfirst
    obtain ⟨a, ha⟩ := Option.isSome_iff_exists.mp hfirst
    obtain ⟨m, hstore, halike⟩ := writeMem_of_physical ha (c.signExtend 32)
    have hbyte := byteAt_writeMem_one hm hdist hstore
    rw [copyToUser, bind_of_ok hload, bind_of_ok (onMachine_of_ok hstore)]
    by_cases hzero : c = 0
    · rw [if_pos hzero, if_pos hzero]
      exact ⟨_, rfl, halike.registers,
        Machine.Copied.cons (by simp) hbyte (Machine.Copied.nil _ _)⟩
    · rw [if_neg hzero] at hwrite ⊢
      rw [if_neg hzero]
      have hm' : (m.store a 1 (c.signExtend 32)).Linear :=
        ⟨(halike.linear hm).tlb_none, (halike.linear hm).pageTable_some⟩
      obtain ⟨m', hrun, hregs, hcopied⟩ := ih (i := i + 1)
        (k := { k with machine := m.store a 1 (c.signExtend 32) })
        (fun m j c hc ↦ hchar m j c hc) hm' (halike.distinctFrames hdist) (by omega) (hnext hzero)
        fun j hj ↦ by
          rw [Machine.physical_store, addr_succ]
          exact halike.writable hwrite.tail j hj
      refine ⟨m', ?_, hregs.trans halike.registers, Machine.Copied.cons ?_ hbyte ?_⟩
      · rw [hrun, List.length_cons, Nat.add_assoc, Nat.add_comm 1]
      · have hle := (uptoZero_isPrefix ((block.drop (i + 1)).take rest)).length_le
        rw [List.length_take] at hle
        rw [List.length_cons]
        omega
      · rwa [addr_succ] at hcopied

/-- **`System2User`.** The bytes up to the first zero are copied and counted, and nothing else
happens. -/
theorem system2User_copied (virtAddr : Word) {len : Word} {char : ℕ → Kern Byte}
    {block : List Byte} {k : Kernel} (hchar : k.Delivers char block) (hm : k.machine.Linear)
    (hdist : k.machine.DistinctFrames) (hpos : 0 ≤ len.toInt)
    (hlen : len.toNat ≤ block.length ∨ 0 ∈ block)
    (hwrite : k.machine.Writable virtAddr (uptoZero (block.take len.toNat)).length) :
    ∃ m, system2User virtAddr len char k
        = .ok (BitVec.ofNat 32 (uptoZero (block.take len.toNat)).length) { k with machine := m } ∧
      m.registers = k.machine.registers ∧
      k.machine.Copied m virtAddr (uptoZero (block.take len.toNat)) := by
  obtain ⟨m, hrun, hregs, hcopied⟩ := @copyToUser_copied virtAddr char block 0 len.toNat k
    hchar hm hdist len.isLt (by rwa [Nat.zero_add, List.drop_zero])
    (by rwa [BitVec.add_zero, List.drop_zero])
  rw [BitVec.add_zero, List.drop_zero] at hcopied
  rw [List.drop_zero, Nat.zero_add] at hrun
  refine ⟨m, ?_, hregs, hcopied⟩
  rw [system2User, if_neg (Int.not_lt.mpr hpos), hrun]

/-- At most `len` bytes are copied. -/
theorem length_uptoZero_take_le (block : List Byte) (n : ℕ) :
    (uptoZero (block.take n)).length ≤ n :=
  (uptoZero_isPrefix _).length_le.trans (List.length_take_le n block)

/-! ## The buffer of the user program -/

section writable

variable {m : Machine} {pt : ℕ → TranslationEntry} {addr : Word} {n : ℕ}

theorem Machine.Writable.maps (hm : m.Linear) (hpt : m.pageTable = some pt)
    (h : m.Writable addr n) {i : ℕ} (hi : i < n) :
    m.Maps pt (addr + BitVec.ofNat 32 i) 1 true := by
  obtain ⟨a, ha⟩ := Option.isSome_iff_exists.mp (h i hi)
  obtain ⟨tlb, pageTable, ht⟩ := success_of_physical ha
  exact maps_of_success hm.tlb_none hpt ht

/-- Where a byte can be written it can be read. -/
theorem Machine.Maps.readable {x : Word} (h : m.Maps pt x 1 true) : m.Maps pt x 1 false :=
  ⟨h.aligned, h.page_lt, h.valid, by simp, h.frame_lt⟩

/-- So the string `Read` fetches first is there. -/
theorem Machine.Writable.stringAt (hm : m.Linear) (h : m.Writable addr n) :
    ∃ s, m.stringAt addr n = some s := by
  obtain ⟨pt, hpt⟩ := hm.pageTable_some
  induction n generalizing addr with
  | zero => exact ⟨[], rfl⟩
  | succ n ih =>
    have hmaps := (h.maps hm hpt (Nat.succ_pos n)).readable
    rw [BitVec.add_zero] at hmaps
    rw [Machine.stringAt, byteAt_of_maps hm.tlb_none hpt hmaps]
    obtain ⟨s, hs⟩ := ih h.tail
    simp only [hs, Option.map_some]
    split
    · exact ⟨_, rfl⟩
    · exact ⟨_, rfl⟩

/-- Frames of their own bound the buffer by the size of memory. -/
theorem Machine.Writable.le_memorySize (hm : m.Linear) (hdist : m.DistinctFrames)
    (h : m.Writable addr n) (hn : n ≤ 2 ^ 32) : n ≤ memorySize := by
  obtain ⟨pt, hpt⟩ := hm.pageTable_some
  have hcard : (Finset.range n).card ≤ (Finset.range memorySize).card := by
    refine Finset.card_le_card_of_injOn (fun i ↦ frameAddress pt (addr + BitVec.ofNat 32 i)) ?_ ?_
    · intro i hi
      have hlt := frameAddress_add_le (Or.inl rfl) (h.maps hm hpt (Finset.mem_range.mp hi))
      exact Finset.mem_range.mpr hlt
    · intro i hi j hj heq
      have hi' := Finset.mem_range.mp hi
      have hj' := Finset.mem_range.mp hj
      have hwithin := (frameAddress_within_iff hpt hdist (Or.inl rfl) (h.maps hm hpt hi')
        (h.maps hm hpt hj').readable).1.mp
      dsimp only at heq
      have haddr := hwithin (by omega)
      have hlt := addr.isLt
      rw [BitVec.toNat_add, BitVec.toNat_add, toNat_ofNat_of_lt (by omega),
        toNat_ofNat_of_lt (by omega)] at haddr
      omega
  simpa using hcard

end writable

/-! ## The call -/

/-- A `Read` from the file `ino` through the entry `file`, with a buffer that the user program may
write, on a host that does not fail. -/
structure Kernel.Reading (k : Kernel) (t : Trap) (file : OpenFile) (ino : ℕ) : Prop where
  code : t.machine.registers 2 = Syscall.read.code
  two_le : 2 ≤ (t.machine.registers 6).toNat
  lt : (t.machine.registers 6).toNat < maxFile
  slot : k.openfile (t.machine.registers 6).toNat = some file
  fd : ∃ pos, k.host.fds file.file = some (.file ino pos)
  offset : 0 ≤ file.currentOffset.toInt
  size : 0 ≤ (t.machine.registers 5).toInt
  linear : t.machine.Linear
  frames : t.machine.DistinctFrames
  writable : t.machine.Writable (t.machine.registers 4) (t.machine.registers 5).toNat
  host : t.env.readFails = false

/-- The number of bytes there are to read. -/
def Kernel.readCount (k : Kernel) (t : Trap) (file : OpenFile) (ino : ℕ) : ℕ :=
  min (t.machine.registers 5).toNat ((k.host.content ino).length - file.currentOffset.toNat)

/-- The call returns, its result is the number of bytes there are to read, these bytes are in the
buffer, no other byte of user memory is touched, and the offset is behind them. -/
def Kernel.ReadFaithful (k : Kernel) (t : Trap) (file : OpenFile) (ino : ℕ) : Prop :=
  ∃ k', k.handle t = .ok () k' ∧
    k'.machine.registers 2 = BitVec.ofNat 32 (k.readCount t file ino) ∧
    (∀ i < k.readCount t file ino,
      k'.machine.byteAt (t.machine.registers 4 + BitVec.ofNat 32 i)
        = (k.host.content ino)[file.currentOffset.toNat + i]?) ∧
    (∀ x, (∀ i < k.readCount t file ino, x ≠ t.machine.registers 4 + BitVec.ofNat 32 i) →
      k'.machine.byteAt x = t.machine.byteAt x) ∧
    ∃ offset, k'.openfile (t.machine.registers 6).toNat
        = some { file with currentOffset := offset } ∧
      offset.toInt = file.currentOffset.toNat + k.readCount t file ino

/-- Copying back what was read. -/
theorem copyOut_copied {virtAddr : Word} {p : Ptr} {bytes rest : List Byte} {k : Kernel}
    (hm : k.machine.Linear) (hdist : k.machine.DistinctFrames)
    (hlen : bytes.length < 2 ^ 31) (hbuf : k.heap.bytes p = bytes ++ rest)
    (hwrite : k.machine.Writable virtAddr bytes.length) :
    ∃ k', (copyOut virtAddr (BitVec.ofNat 32 bytes.length) p >>= deleteBlock) k = .ok () k' ∧
      k.machine.Copied k'.machine virtAddr (uptoZero bytes) := by
  have hnat : (BitVec.ofNat 32 bytes.length).toNat = bytes.length := toNat_ofNat_of_lt (by omega)
  obtain ⟨m, hrun, -, hcopied⟩ := system2User_copied virtAddr (k.delivers_loadChar p) hm hdist
    (show 0 ≤ (BitVec.ofNat 32 bytes.length).toInt by rw [toInt_ofNat_of_lt hlen]; omega)
    (.inl (by rw [hnat, hbuf]; simp))
    (hwrite.mono (by rw [hnat]; exact length_uptoZero_take_le _ _))
  rw [hbuf, hnat, List.take_left] at hcopied
  refine ⟨{ k with machine := m, heap := k.heap.delete p }, ?_, hcopied⟩
  have hout : copyOut virtAddr (BitVec.ofNat 32 bytes.length) p k
      = .ok p { k with machine := m } := by
    rw [copyOut, bind_of_ok hrun]
    rfl
  rw [bind_of_ok hout, deleteBlock_eq]

theorem splice_zero (block bytes : List Byte) :
    splice block 0 bytes = bytes ++ block.drop bytes.length := by
  by_cases h : bytes = []
  · rw [h, splice, if_pos rfl]
    rfl
  · rw [splice_of_ne_nil _ _ h, List.take_zero, List.nil_append, Nat.zero_add]

section reading

variable {k : Kernel} {t : Trap} {file : OpenFile} {ino : ℕ} (h : k.Reading t file ino)

include h

/-- What the call does: the bytes up to the first zero among those read are copied. -/
theorem Kernel.Reading.handle_eq :
    ∃ k', k.handle t = .ok () k' ∧
      k'.machine.registers 2 = BitVec.ofNat 32 (k.readCount t file ino) ∧
      t.machine.Copied k'.machine (t.machine.registers 4)
        (uptoZero (k.bytesAt file ino (t.machine.registers 5).toNat)) ∧
      k'.openfile = k.advanced (t.machine.registers 6).toNat file
        (BitVec.ofNat 32 (k.readCount t file ino)) := by
  obtain ⟨pos, hfd⟩ := h.fd
  have hmemory := h.writable.le_memorySize h.linear h.frames (BitVec.isLt _).le
  simp only [memorySize, numPhysPages, pageSize] at hmemory
  obtain ⟨s, hs⟩ := h.writable.stringAt h.linear
  have hcount : (k.bytesAt file ino (t.machine.registers 5).toNat).length
      = k.readCount t file ino := length_bytesAt _ _ _ _
  have hle : k.readCount t file ino ≤ (t.machine.registers 5).toNat := Nat.min_le_left _ _
  -- first `User2System`, though the buffer is only to be written, and the read into its copy
  obtain ⟨m, heap, halike, hbytes, hrun⟩ := withBuffer_transfer_eq
    (k := { k with machine := t.machine }) (s := s)
    (P := (· = splice (stringBlock s (t.machine.registers 5).toNat) 0
      (k.bytesAt file ino (t.machine.registers 5).toNat)))
    (fun buf k₁ _ ↦ readBranches_transfer h.two_le h.lt (t.machine.registers 4)
      (t.machine.registers 5) buf k₁)
    h.size (by omega) hs (sysRead_moves (k := { k with machine := t.machine }) h.two_le h.lt h.slot
      hfd (stringAt_length hs) (toNat_lt_of_nonneg h.offset) h.host)
  -- then the copy to the user's buffer
  have hlinear := halike.linear h.linear
  rw [splice_zero] at hbytes
  obtain ⟨k', hcopy, hcopied⟩ := @copyOut_copied
    (t.machine.registers 4) t.env.kernelBuf _ _
    { k with
      machine := m.setReg 2 (BitVec.ofNat 32
        (k.bytesAt file ino (t.machine.registers 5).toNat).length)
      heap := heap
      openfile := k.advanced (t.machine.registers 6).toNat file
        (BitVec.ofNat 32 (k.bytesAt file ino (t.machine.registers 5).toNat).length)
      host := (k.atPos file.file ino (file.currentOffset.toNat
        + (k.bytesAt file ino (t.machine.registers 5).toNat).length)).host }
    ⟨hlinear.tlb_none, hlinear.pageTable_some⟩ (halike.distinctFrames h.frames)
    (by rw [hcount]; omega) hbytes fun i hi ↦ by
      have hphysical := h.writable i (by omega)
      rw [← halike.physical] at hphysical
      exact hphysical
  have hview := ((keeps_copyOut _ _ _).bind fun _ ↦ keeps_deleteBlock (fun _ _ ↦ rfl) _) _ _ _ hcopy
  simp only [Kernel.fileView, Prod.mk.injEq, Machine.setReg_registers_self, hcount] at hview
  have hbody : Syscall.read.body t.env { k with machine := t.machine } = .ok () k' :=
    (scRead_eq t.env { k with machine := t.machine }).trans (hrun.trans hcopy)
  refine ⟨_, handle_of_body h.code hbody, (Machine.skip_result _).trans hview.2.2, ?_, hview.1⟩
  refine ⟨hcopied.copied, fun x hx ↦ (hcopied.frame x hx).trans ?_⟩
  exact halike.byteAt x

omit h in
theorem getElem?_bytesAt {n i : ℕ} (hi : i < n) :
    (k.bytesAt file ino n)[i]? = (k.host.content ino)[file.currentOffset.toNat + i]? := by
  rw [Kernel.bytesAt, List.getElem?_take_of_lt hi, List.getElem?_drop]

omit h in
/-- The offset, as an `int`. -/
theorem toInt_advanced_iff (hoff : 0 ≤ file.currentOffset.toInt) {n : ℕ} (hn : n < 2 ^ 31) :
    (file.currentOffset + BitVec.ofNat 32 n).toInt = file.currentOffset.toNat + n ↔
      file.currentOffset.toNat + n < offsetLimit := by
  have hlt := toNat_lt_of_nonneg hoff
  simp only [offsetLimit] at *
  rw [BitVec.toInt_eq_toNat_cond, BitVec.toNat_add, toNat_ofNat_of_lt (by omega)]
  split <;> omega

/-- **`Read` is faithful exactly when** the offset stays an `int` and whatever lies behind a zero
among the bytes to be read is in the buffer already. -/
theorem read_faithful_iff :
    k.ReadFaithful t file ino ↔
      file.currentOffset.toNat + k.readCount t file ino < offsetLimit ∧
      ∀ j < k.readCount t file ino,
        (∃ i < j, (k.host.content ino)[file.currentOffset.toNat + i]? = some 0) →
        t.machine.byteAt (t.machine.registers 4 + BitVec.ofNat 32 j)
          = (k.host.content ino)[file.currentOffset.toNat + j]? := by
  obtain ⟨k', hrun, hresult, hcopied, hopenfile⟩ := h.handle_eq
  have hmemory := h.writable.le_memorySize h.linear h.frames (BitVec.isLt _).le
  simp only [memorySize, numPhysPages, pageSize] at hmemory
  have hle : k.readCount t file ino ≤ (t.machine.registers 5).toNat := Nat.min_le_left _ _
  have hcount : (k.bytesAt file ino (t.machine.registers 5).toNat).length
      = k.readCount t file ino := length_bytesAt _ _ _ _
  have hbehind : ∀ j < k.readCount t file ino,
      ((uptoZero (k.bytesAt file ino (t.machine.registers 5).toNat)).length ≤ j ↔
        ∃ i < j, (k.host.content ino)[file.currentOffset.toNat + i]? = some 0) := by
    intro j hj
    rw [length_uptoZero_le_iff _ j (by omega)]
    refine exists_congr fun i ↦ and_congr_right fun hi ↦ ?_
    rw [getElem?_bytesAt (by omega)]
  have hall := hcopied.of_prefix_iff (uptoZero_isPrefix _) (by omega)
  rw [hcount] at hall
  have hslot : k'.openfile (t.machine.registers 6).toNat = some { file with
      currentOffset := file.currentOffset + BitVec.ofNat 32 (k.readCount t file ino) } := by
    rw [hopenfile, Kernel.advanced, Function.update_self]
  constructor
  · rintro ⟨k'', hrun', -, hbytes, hframe, offset, hoffset, hint⟩
    rw [hrun] at hrun'
    cases hrun'
    rw [hslot] at hoffset
    cases hoffset
    refine ⟨(toInt_advanced_iff h.offset (by omega)).mp hint, fun j hj hzero ↦ ?_⟩
    have hplaced : t.machine.Copied k'.machine (t.machine.registers 4)
        (k.bytesAt file ino (t.machine.registers 5).toNat) :=
      ⟨fun i hi ↦ by rw [hbytes i (hcount ▸ hi), getElem?_bytesAt (by omega)],
        fun x hx ↦ hframe x (hcount ▸ hx)⟩
    rw [hall.mp hplaced j hj ((hbehind j hj).mpr hzero), getElem?_bytesAt (by omega)]
  · rintro ⟨hoffset, hzeros⟩
    have hplaced := hall.mpr fun j hj hout ↦ by
      rw [hzeros j hj ((hbehind j hj).mp hout), getElem?_bytesAt (by omega)]
    refine ⟨k', hrun, hresult, fun i hi ↦ ?_, fun x hx ↦ hplaced.frame x (hcount ▸ hx), _, hslot,
      (toInt_advanced_iff h.offset (by omega)).mpr hoffset⟩
    rw [hplaced.copied i (hcount ▸ hi), getElem?_bytesAt (by omega)]

end reading

/-! ## A zero in the file -/

/-- A machine about to read three bytes from descriptor 2 to address 128. -/
def readingMachine : Machine :=
  { identityMap with registers := fun i ↦ if i = 2 then 7 else if i = 4 then 128 else
      if i = 5 then 3 else if i = 6 then 2 else 0 }

def readingTrap : Trap := ⟨readingMachine, Env.quiet⟩

def readingFile : OpenFile := ⟨3, 0, 6, 4, 0⟩

/-- Descriptor 2 is open on a file with the given content. -/
def readingKernel (content : List Byte) : Kernel :=
  { Kernel.initial readingMachine ⟨fun _ ↦ [], []⟩
      ⟨fun _ ↦ none, fun _ ↦ content, fun fd ↦ if fd = 4 then some (.file 0 0) else none, 1, []⟩ []
      with openfile := fun i ↦ if i = 2 then some readingFile else none }

private theorem readingKernel_reading (content : List Byte) :
    (readingKernel content).Reading readingTrap readingFile 0 where
  code := rfl
  two_le := by decide
  lt := by decide
  slot := rfl
  fd := ⟨0, rfl⟩
  offset := by decide
  size := by decide
  linear := ⟨rfl, _, rfl⟩
  frames := identityMap_distinctFrames
  writable := by
    have hall : ∀ i < 3, (readingMachine.physical (128 + BitVec.ofNat 32 i) 1 true).isSome = true :=
      by decide
    exact hall
  host := rfl

/-- The bytes `a`, `0`, `b`: the user program is told that it has three of them, and gets two. -/
theorem readingKernel_not_faithful :
    (readingKernel [97, 0, 98]).Reading readingTrap readingFile 0 ∧
      ¬(readingKernel [97, 0, 98]).ReadFaithful readingTrap readingFile 0 := by
  refine ⟨readingKernel_reading _, ?_⟩
  rintro ⟨k', hrun, -, hbytes, -⟩
  have hlast := hbytes 2 (by decide)
  have hsome : (readingKernel [97, 0, 98]).trap readingTrap = some k' := by
    rw [Kernel.trap, hrun]
  have hzero : ((readingKernel [97, 0, 98]).trap readingTrap).bind
      (fun k ↦ k.machine.byteAt (128 + BitVec.ofNat 32 2)) = some 0 := by
    decide +kernel
  rw [hsome] at hzero
  rw [show k'.machine.byteAt (readingTrap.machine.registers 4 + BitVec.ofNat 32 2) = some 0
    from hzero] at hlast
  exact absurd hlast (by decide)

/-- Without a zero all three arrive. -/
theorem readingKernel_faithful :
    (readingKernel [97, 99, 98]).ReadFaithful readingTrap readingFile 0 :=
  (read_faithful_iff (readingKernel_reading [97, 99, 98])).mpr
    ⟨by decide, fun _ _ ⟨_, _, hzero⟩ ↦ absurd (List.mem_of_getElem? hzero) (by decide)⟩

end Nachos
