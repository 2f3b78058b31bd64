import Nachos.Machine.State
import Nachos.Program.Bytes

/-!
# Address translation and user memory

`Machine.translate` follows `Machine::Translate`: alignment first, then the page table or the TLB,
then the read-only and frame checks, and only then the use and dirty bits. `readMem` and `writeMem`
move 1, 2 or 4 bytes, little endian; a failed translation traps.

Translation is a function of the tables alone. It never looks at a register, so moving the
registers first and accessing memory then is the same as the other way round
(`simulates_readMem`, `simulates_writeMem`); and with a linear page table its final assertion
cannot fail, because an aligned access stays inside its page (`translate_ne_abort`).
-/

namespace Nachos

open Program

/-! ## Translation -/

/-- What `Machine::Translate` can do: fail an assertion, report an exception, or deliver a
physical address and the tables with the use and dirty bits set. -/
inductive Translation where
  | abort
  | exception (which : ExceptionType)
  | success (physAddr : ℕ) (tlb pageTable : Option (ℕ → TranslationEntry))

/-- The entry of the TLB that translates page `vpn`. -/
def tlbLookup (tlb : ℕ → TranslationEntry) (vpn : ℕ) : Option ℕ :=
  (List.range tlbSize).find? fun i ↦
    (tlb i).valid && decide ((tlb i).virtualPage = BitVec.ofNat 32 vpn)

/-- The entry with its use bit, and after a write its dirty bit, set. -/
def TranslationEntry.touch (entry : TranslationEntry) (writing : Bool) : TranslationEntry :=
  { entry with used := true, dirty := entry.dirty || writing }

/-- The last part of `Machine::Translate`, once the entry is found; `tlb` and `pageTable` are the
tables with that entry touched. -/
def useEntry (entry : TranslationEntry) (tlb pageTable : Option (ℕ → TranslationEntry))
    (offset size : ℕ) (writing : Bool) : Translation :=
  if entry.readOnly = true ∧ writing = true then
    .exception .readOnlyException
  else if numPhysPages ≤ entry.physicalPage.toNat then
    .exception .busErrorException
  else if entry.physicalPage.toNat * pageSize + offset + size ≤ memorySize then
    .success (entry.physicalPage.toNat * pageSize + offset) tlb pageTable
  else
    .abort

/-- `Machine::Translate`. -/
def Machine.translate (m : Machine) (virtAddr : Word) (size : ℕ) (writing : Bool) : Translation :=
  if (size = 4 ∧ virtAddr &&& 0x3 ≠ 0) ∨ (size = 2 ∧ virtAddr &&& 0x1 ≠ 0) then
    .exception .addressErrorException
  else
    let vpn := virtAddr.toNat / pageSize
    let offset := virtAddr.toNat % pageSize
    match m.tlb, m.pageTable with
    -- there must be either a TLB or a page table, but not both
    | some _, some _ => .abort
    | none, none => .abort
    | none, some pageTable =>
      if m.pageTableSize.toNat ≤ vpn then
        .exception .addressErrorException
      else if (pageTable vpn).valid = false then
        .exception .pageFaultException
      else
        useEntry (pageTable vpn) none
          (some (Function.update pageTable vpn ((pageTable vpn).touch writing)))
          offset size writing
    | some tlb, none =>
      match tlbLookup tlb vpn with
      | none => .exception .pageFaultException
      | some i =>
        useEntry (tlb i) (some (Function.update tlb i ((tlb i).touch writing))) none
          offset size writing

/-! ## Reading and writing -/

/-- The two bytes at `a`, low byte first. -/
def Machine.short (m : Machine) (a : ℕ) : BitVec 16 :=
  m.mainMemory (a + 1) ++ m.mainMemory a

/-- The four bytes at `a`, low byte first. -/
def Machine.word (m : Machine) (a : ℕ) : Word :=
  m.mainMemory (a + 3) ++ m.mainMemory (a + 2) ++ m.mainMemory (a + 1) ++ m.mainMemory a

/-- The machine with the low `size` bytes of `v` stored at `a`, low byte first. -/
def Machine.store (m : Machine) (a size : ℕ) (v : Word) : Machine :=
  { m with mainMemory := fun j ↦
      if a ≤ j ∧ j < a + size then wordByte v (j - a) else m.mainMemory j }

/-- The machine after a translation has set its bits. -/
def Machine.setTables (m : Machine) (tlb pageTable : Option (ℕ → TranslationEntry)) : Machine :=
  { m with tlb := tlb, pageTable := pageTable }

/-- The part `ReadMem` and `WriteMem` share: the physical address, or a trap. -/
def physicalAddress (addr : Word) (size : ℕ) (writing : Bool) : Exec ℕ := fun m ↦
  match m.translate addr size writing with
  | .abort => abort m
  | .exception which => raiseException which addr m
  | .success physAddr tlb pageTable => .ok physAddr (m.setTables tlb pageTable)

/-- `Machine::ReadMem`. A single byte is a signed `char`, a short is unsigned. -/
def readMem (addr : Word) (size : ℕ) : Exec Word := do
  let a ← physicalAddress addr size false
  let m ← get
  match size with
  | 1 => return (m.mainMemory a).signExtend 32
  | 2 => return (m.short a).setWidth 32
  | 4 => return m.word a
  | _ => abort

/-- `Machine::WriteMem`. -/
def writeMem (addr : Word) (size : ℕ) (value : Word) : Exec Unit := do
  let a ← physicalAddress addr size true
  match size with
  | 1 | 2 | 4 => modify fun m ↦ m.store a size value
  | _ => abort

/-! ## Memory accesses and registers -/

/-- The machine with its registers moved along `F`. -/
def Machine.mapRegs (F : (ℕ → Word) → ℕ → Word) (m : Machine) : Machine :=
  { m with registers := F m.registers }

@[simp] theorem Machine.mapRegs_registers (F : (ℕ → Word) → ℕ → Word) (m : Machine) :
    (m.mapRegs F).registers = F m.registers := rfl

theorem raiseException_ne_ok {α : Type} {which : ExceptionType} {badVAddr : Word} {m m' : Machine}
    {a : α} : raiseException which badVAddr m ≠ .ok a m' := by
  intro h
  obtain ⟨_, _, -, h⟩ := bind_eq_ok.mp h
  obtain ⟨_, _, -, h⟩ := bind_eq_ok.mp h
  cases h

/-- A returning `physicalAddress` found the address and changed nothing but the tables. -/
theorem physicalAddress_eq_ok {addr : Word} {size : ℕ} {writing : Bool} {m m' : Machine} {a : ℕ} :
    physicalAddress addr size writing m = .ok a m' ↔
      ∃ tlb pageTable, m.translate addr size writing = .success a tlb pageTable ∧
        m' = m.setTables tlb pageTable := by
  rw [physicalAddress]
  cases ht : m.translate addr size writing with
  | abort =>
    constructor
    · intro h
      cases h
    · rintro ⟨_, _, h, -⟩
      cases h
  | exception which =>
    constructor
    · intro h
      exact absurd h raiseException_ne_ok
    · rintro ⟨_, _, h, -⟩
      cases h
  | success a' tlb pageTable =>
    constructor
    · intro h
      cases h
      exact ⟨tlb, pageTable, rfl, rfl⟩
    · rintro ⟨_, _, h, rfl⟩
      cases h
      rfl

/-- A returning `readMem` has changed nothing but the tables. -/
theorem readMem_eq_ok {addr : Word} {size : ℕ} {m m' : Machine} {v : Word}
    (h : readMem addr size m = .ok v m') :
    ∃ a tlb pageTable, m.translate addr size false = .success a tlb pageTable ∧
      m' = m.setTables tlb pageTable := by
  obtain ⟨a, m₁, ha, h⟩ := bind_eq_ok.mp h
  obtain ⟨tlb, pageTable, ht, rfl⟩ := physicalAddress_eq_ok.mp ha
  obtain ⟨_, _, hget, h⟩ := bind_eq_ok.mp h
  cases hget
  refine ⟨a, tlb, pageTable, ht, ?_⟩
  split at h <;> cases h <;> rfl

/-- A returning `writeMem` has changed the tables and the bytes it stored. -/
theorem writeMem_eq_ok {addr : Word} {size : ℕ} {value : Word} {m m' : Machine} {u : Unit}
    (h : writeMem addr size value m = .ok u m') :
    ∃ a tlb pageTable, m.translate addr size true = .success a tlb pageTable ∧
      m' = (m.setTables tlb pageTable).store a size value := by
  obtain ⟨a, m₁, ha, h⟩ := bind_eq_ok.mp h
  obtain ⟨tlb, pageTable, ht, rfl⟩ := physicalAddress_eq_ok.mp ha
  refine ⟨a, tlb, pageTable, ht, ?_⟩
  split at h <;> cases h <;> rfl

section registers

variable {p : (ℕ → Word) → Prop} {F : (ℕ → Word) → ℕ → Word}

private theorem simulates_physicalAddress (addr : Word) (size : ℕ) (writing : Bool) :
    Simulates (fun m ↦ p m.registers) (Machine.mapRegs F) (Machine.mapRegs F)
      (physicalAddress addr size writing) := by
  intro m hm a m' h
  obtain ⟨tlb, pageTable, ht, rfl⟩ := physicalAddress_eq_ok.mp h
  exact ⟨hm, physicalAddress_eq_ok.mpr ⟨tlb, pageTable, ht, rfl⟩⟩

/-- Reading memory commutes with moving the registers. -/
theorem simulates_readMem (addr : Word) (size : ℕ) :
    Simulates (fun m ↦ p m.registers) (Machine.mapRegs F) (Machine.mapRegs F)
      (readMem addr size) := by
  refine (simulates_physicalAddress addr size false).bind fun a ↦ ?_
  intro m hm v m' h
  obtain ⟨_, _, hget, h⟩ := bind_eq_ok.mp h
  cases hget
  refine ⟨?_, ?_⟩ <;> split at h <;> cases h
  · exact hm
  · exact hm
  · exact hm
  all_goals rfl

/-- Writing memory commutes with moving the registers. -/
theorem simulates_writeMem (addr : Word) (size : ℕ) (value : Word) :
    Simulates (fun m ↦ p m.registers) (Machine.mapRegs F) (Machine.mapRegs F)
      (writeMem addr size value) := by
  refine (simulates_physicalAddress addr size true).bind fun a ↦ ?_
  intro m hm v m' h
  refine ⟨?_, ?_⟩ <;> split at h <;> cases h
  · exact hm
  · exact hm
  · exact hm
  all_goals rfl

end registers

/-! ## The linear page table

The configured build has no TLB: once an address space is installed the machine has a page table
and nothing else. An aligned access then stays inside its page, so the assertion at the end of
`Machine::Translate` cannot fail. -/

structure Machine.Linear (m : Machine) : Prop where
  tlb_none : m.tlb = none
  pageTable_some : ∃ pageTable, m.pageTable = some pageTable

theorem and_three_toNat (v : Word) : (v &&& 0x3).toNat = v.toNat % 4 :=
  toNat_and_mask v (n := 2) (by decide)

private theorem and_one_toNat (v : Word) : (v &&& 0x1).toNat = v.toNat % 2 :=
  toNat_and_mask v (n := 1) (by decide)

/-- An access that passes the alignment test does not cross the end of its page. -/
theorem offset_add_size_le {a : Word} {size : ℕ} (hsize : size = 1 ∨ size = 2 ∨ size = 4)
    (h : ¬((size = 4 ∧ a &&& 0x3 ≠ 0) ∨ (size = 2 ∧ a &&& 0x1 ≠ 0))) :
    a.toNat % pageSize + size ≤ pageSize := by
  simp only [ne_eq, not_or, not_and, not_not] at h
  rcases hsize with rfl | rfl | rfl
  · have := Nat.mod_lt a.toNat (show 0 < pageSize by decide)
    omega
  · have : a.toNat % 2 = 0 := by
      rw [← and_one_toNat, h.2 rfl]
      rfl
    simp only [pageSize]
    omega
  · have : a.toNat % 4 = 0 := by
      rw [← and_three_toNat, h.1 rfl]
      rfl
    simp only [pageSize]
    omega

theorem useEntry_ne_abort {entry : TranslationEntry} {tlb pageTable : Option (ℕ → TranslationEntry)}
    {offset size : ℕ} {writing : Bool} (h : offset + size ≤ pageSize) :
    useEntry entry tlb pageTable offset size writing ≠ .abort := by
  rw [useEntry]
  split
  · simp
  · split
    · simp
    · rename_i hframe
      rw [if_pos]
      · simp
      · simp only [pageSize, numPhysPages, memorySize] at *
        omega

/-- With a linear page table `Machine::Translate` fails no assertion. -/
theorem translate_ne_abort {m : Machine} (hm : m.Linear) {a : Word} {size : ℕ}
    (hsize : size = 1 ∨ size = 2 ∨ size = 4) (writing : Bool) :
    m.translate a size writing ≠ .abort := by
  obtain ⟨pageTable, hp⟩ := hm.pageTable_some
  rw [Machine.translate, hm.tlb_none, hp]
  split
  · simp
  · rename_i halign
    have hoff := offset_add_size_le hsize halign
    dsimp only
    split
    · simp
    · split
      · simp
      · exact useEntry_ne_abort hoff

private theorem linear_of_useEntry {entry : TranslationEntry} {pt : ℕ → TranslationEntry}
    {offset size a : ℕ} {writing : Bool} {tlb pageTable : Option (ℕ → TranslationEntry)}
    (h : useEntry entry none (some pt) offset size writing = .success a tlb pageTable) :
    tlb = none ∧ pageTable = some pt := by
  rw [useEntry] at h
  split at h
  · cases h
  · split at h
    · cases h
    · split at h
      · cases h
        exact ⟨rfl, rfl⟩
      · cases h

/-- Translation through a linear page table leaves a linear page table. -/
theorem Machine.Linear.translate {m : Machine} (hm : m.Linear) {a : Word} {size phys : ℕ}
    {writing : Bool} {tlb pageTable : Option (ℕ → TranslationEntry)}
    (h : m.translate a size writing = .success phys tlb pageTable) :
    (m.setTables tlb pageTable).Linear := by
  obtain ⟨pt, hp⟩ := hm.pageTable_some
  rw [Machine.translate, hm.tlb_none, hp] at h
  split at h
  · cases h
  · dsimp only at h
    split at h
    · cases h
    · split at h
      · cases h
      · obtain ⟨rfl, rfl⟩ := linear_of_useEntry h
        exact ⟨rfl, _, rfl⟩

end Nachos
