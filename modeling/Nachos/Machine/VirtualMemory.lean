import Mathlib.Tactic.SplitIfs
import Nachos.Machine.UserMemory

/-!
# Virtual memory is a byte array

Through a linear page table whose valid pages have frames of their own, a program sees an array of
bytes: `Machine.byteAt`. A successful write of `size` bytes changes exactly the bytes at its
addresses (`byteAt_writeMem`), and a successful read combines the bytes at its own
(`readMem_combine`), so the two widths and their overlap never have to be compared.

The frames may be any numbers: one past the end of memory makes the access fail before anything is
touched.
-/

namespace Nachos

open Program

/-! ## One translation -/

/-- The access at `addr` stays inside its alignment. -/
def Aligned (addr : Word) (size : ℕ) : Prop :=
  ¬((size = 4 ∧ addr &&& 0x3 ≠ 0) ∨ (size = 2 ∧ addr &&& 0x1 ≠ 0))

/-- What has to hold for an access through the page table to succeed. -/
structure Machine.Maps (m : Machine) (pt : ℕ → TranslationEntry) (addr : Word) (size : ℕ)
    (writing : Bool) : Prop where
  aligned : Aligned addr size
  page_lt : addr.toNat / pageSize < m.pageTableSize.toNat
  valid : (pt (addr.toNat / pageSize)).valid = true
  writable : ¬((pt (addr.toNat / pageSize)).readOnly = true ∧ writing = true)
  frame_lt : (pt (addr.toNat / pageSize)).physicalPage.toNat < numPhysPages

/-- The physical address of `addr`. -/
def frameAddress (pt : ℕ → TranslationEntry) (addr : Word) : ℕ :=
  (pt (addr.toNat / pageSize)).physicalPage.toNat * pageSize + addr.toNat % pageSize

/-- The page table after an access. -/
def touchPage (pt : ℕ → TranslationEntry) (addr : Word) (writing : Bool) : ℕ → TranslationEntry :=
  Function.update pt (addr.toNat / pageSize) ((pt (addr.toNat / pageSize)).touch writing)

section translation

variable {m : Machine} {pt : ℕ → TranslationEntry} {addr : Word} {size : ℕ} {writing : Bool}

/-- An access that passes the tests ends inside its page, so inside its frame. -/
theorem frameAddress_add_le (hsize : size = 1 ∨ size = 2 ∨ size = 4)
    (h : m.Maps pt addr size writing) : frameAddress pt addr + size ≤ memorySize := by
  have hoff := offset_add_size_le hsize h.aligned
  have hframe := h.frame_lt
  simp only [frameAddress, pageSize, numPhysPages, memorySize] at *
  omega

theorem translate_of_maps (htlb : m.tlb = none) (hpt : m.pageTable = some pt)
    (hsize : size = 1 ∨ size = 2 ∨ size = 4) (h : m.Maps pt addr size writing) :
    m.translate addr size writing
      = .success (frameAddress pt addr) none (some (touchPage pt addr writing)) := by
  have hend := frameAddress_add_le hsize h
  rw [frameAddress] at hend
  rw [Machine.translate, if_neg h.aligned, htlb, hpt]
  dsimp only
  rw [if_neg (Nat.not_le.mpr h.page_lt), if_neg (by simp [h.valid]), useEntry, if_neg h.writable,
    if_neg (Nat.not_le.mpr h.frame_lt), if_pos hend]
  rfl

theorem maps_of_success (htlb : m.tlb = none) (hpt : m.pageTable = some pt) {a : ℕ}
    {tlb pageTable : Option (ℕ → TranslationEntry)}
    (h : m.translate addr size writing = .success a tlb pageTable) :
    m.Maps pt addr size writing := by
  rw [Machine.translate, htlb, hpt] at h
  split at h
  · cases h
  · rename_i halign
    dsimp only at h
    split at h
    · cases h
    · rename_i hpage
      split at h
      · cases h
      · rename_i hvalid
        rw [useEntry] at h
        split at h
        · cases h
        · rename_i hro
          split at h
          · cases h
          · rename_i hframe
            exact ⟨halign, Nat.not_le.mp hpage, by simpa using hvalid, hro, Nat.not_le.mp hframe⟩

theorem success_eq (htlb : m.tlb = none) (hpt : m.pageTable = some pt)
    (hsize : size = 1 ∨ size = 2 ∨ size = 4) {a : ℕ}
    {tlb pageTable : Option (ℕ → TranslationEntry)}
    (h : m.translate addr size writing = .success a tlb pageTable) :
    a = frameAddress pt addr ∧ tlb = none ∧ pageTable = some (touchPage pt addr writing) := by
  have hmaps := maps_of_success htlb hpt h
  rw [translate_of_maps htlb hpt hsize hmaps] at h
  cases h
  exact ⟨rfl, rfl, rfl⟩

/-- A single byte needs no alignment. -/
theorem aligned_one (addr : Word) : Aligned addr 1 := by
  rintro (⟨h, -⟩ | ⟨h, -⟩) <;> cases h

/-- Where an access may go, each of its bytes may be read. -/
theorem Machine.Maps.byte (hsize : size = 1 ∨ size = 2 ∨ size = 4)
    (h : m.Maps pt addr size writing) {k : ℕ} (hk : k < size) :
    m.Maps pt (addr + BitVec.ofNat 32 k) 1 false ∧
      frameAddress pt (addr + BitVec.ofNat 32 k) = frameAddress pt addr + k ∧
      (addr + BitVec.ofNat 32 k).toNat = addr.toNat + k := by
  have hoff := offset_add_size_le hsize h.aligned
  have hlt := addr.isLt
  have hsum : (addr + BitVec.ofNat 32 k).toNat = addr.toNat + k := by
    rw [BitVec.toNat_add, BitVec.toNat_ofNat]
    simp only [pageSize] at hoff
    omega
  have hpage : (addr + BitVec.ofNat 32 k).toNat / pageSize = addr.toNat / pageSize := by
    rw [hsum]
    simp only [pageSize] at *
    omega
  refine ⟨⟨aligned_one _, ?_, ?_, ?_, ?_⟩, ?_, hsum⟩
  · rw [hpage]
    exact h.page_lt
  · rw [hpage]
    exact h.valid
  · simp
  · rw [hpage]
    exact h.frame_lt
  · rw [frameAddress, hpage, frameAddress, hsum]
    simp only [pageSize] at *
    omega

theorem physical_of_maps (htlb : m.tlb = none) (hpt : m.pageTable = some pt)
    (hsize : size = 1 ∨ size = 2 ∨ size = 4) (h : m.Maps pt addr size writing) :
    m.physical addr size writing = some (frameAddress pt addr) :=
  physical_of_success (translate_of_maps htlb hpt hsize h)

end translation

/-! ## Bytes -/

/-- The value an access of `size` bytes reads: little endian, a single byte with its sign, a short
without. -/
def combine (size : ℕ) (c : ℕ → Byte) : Word :=
  match size with
  | 1 => (c 0).signExtend 32
  | 2 => (c 1 ++ c 0).setWidth 32
  | 4 => c 3 ++ c 2 ++ c 1 ++ c 0
  | _ => 0

theorem combine_congr {size : ℕ} (hsize : size = 1 ∨ size = 2 ∨ size = 4) {c d : ℕ → Byte}
    (h : ∀ k < size, c k = d k) : combine size c = combine size d := by
  rcases hsize with rfl | rfl | rfl
  · simp only [combine, h 0 (by decide)]
  · simp only [combine, h 0 (by decide), h 1 (by decide)]
  · simp only [combine, h 0 (by decide), h 1 (by decide), h 2 (by decide), h 3 (by decide)]

/-- Valid pages have frames of their own. -/
def Machine.DistinctFrames (m : Machine) : Prop :=
  ∀ pt, m.pageTable = some pt → ∀ i j, i < m.pageTableSize.toNat → j < m.pageTableSize.toNat →
    (pt i).valid = true → (pt j).valid = true → (pt i).physicalPage = (pt j).physicalPage → i = j

/-- The page of an address may be read. -/
theorem byteAt_of_maps {m : Machine} {pt : ℕ → TranslationEntry} (htlb : m.tlb = none)
    (hpt : m.pageTable = some pt) {x : Word} (h : m.Maps pt x 1 false) :
    m.byteAt x = some (m.mainMemory (frameAddress pt x)) := by
  rw [Machine.byteAt, physical_of_maps htlb hpt (Or.inl rfl) h]
  rfl

private theorem byteAt_of_not_maps {m : Machine} {pt : ℕ → TranslationEntry} (htlb : m.tlb = none)
    (hpt : m.pageTable = some pt) {x : Word} (h : ¬m.Maps pt x 1 false) : m.byteAt x = none := by
  rw [Machine.byteAt]
  cases hx : m.physical x 1 false with
  | none => rfl
  | some a =>
    obtain ⟨tlb, pageTable, ht⟩ := success_of_physical hx
    exact absurd (maps_of_success htlb hpt ht) h

/-- A read that succeeds returns the bytes at its addresses. -/
private theorem readMem_combine {m m' : Machine} (hm : m.Linear) {b : Word} {t : ℕ}
    (ht : t = 1 ∨ t = 2 ∨ t = 4) {r : Word} (h : readMem b t m = .ok r m') :
    ∃ c : ℕ → Byte, (∀ k < t, m.byteAt (b + BitVec.ofNat 32 k) = some (c k) ∧
        (b + BitVec.ofNat 32 k).toNat = b.toNat + k) ∧ r = combine t c := by
  obtain ⟨pt, hpt⟩ := hm.pageTable_some
  obtain ⟨a, m₁, ha, h⟩ := bind_eq_ok.mp h
  obtain ⟨tlb, pageTable, hsucc, rfl⟩ := physicalAddress_eq_ok.mp ha
  have hmaps := maps_of_success hm.tlb_none hpt hsucc
  obtain ⟨rfl, -, -⟩ := success_eq hm.tlb_none hpt ht hsucc
  refine ⟨fun k ↦ m.mainMemory (frameAddress pt b + k), fun k hk ↦ ?_, ?_⟩
  · obtain ⟨hbyte, haddr, hsum⟩ := hmaps.byte ht hk
    rw [byteAt_of_maps hm.tlb_none hpt hbyte, haddr]
    exact ⟨rfl, hsum⟩
  · rcases ht with rfl | rfl | rfl <;> cases h <;> rfl

/-- Two addresses whose pages may be accessed have physical addresses as far apart as they are, or
lie in different pages and in different frames. -/
theorem frameAddress_within_iff {m : Machine} {pt : ℕ → TranslationEntry}
    (hpt : m.pageTable = some pt) (hdist : m.DistinctFrames) {a x : Word} {s : ℕ}
    (hs : s = 1 ∨ s = 2 ∨ s = 4) {writing : Bool} (ha : m.Maps pt a s writing)
    (hx : m.Maps pt x 1 false) :
    (frameAddress pt a ≤ frameAddress pt x ∧ frameAddress pt x < frameAddress pt a + s ↔
        a.toNat ≤ x.toNat ∧ x.toNat < a.toNat + s) ∧
      (a.toNat ≤ x.toNat ∧ x.toNat < a.toNat + s →
        frameAddress pt x - frameAddress pt a = x.toNat - a.toNat) := by
  have hoff := offset_add_size_le hs ha.aligned
  rw [frameAddress, frameAddress]
  by_cases hpage : a.toNat / pageSize = x.toNat / pageSize
  · rw [hpage]
    simp only [pageSize] at *
    omega
  · have hframe : (pt (a.toNat / pageSize)).physicalPage.toNat
        ≠ (pt (x.toNat / pageSize)).physicalPage.toNat := by
      intro heq
      exact hpage (hdist pt hpt _ _ ha.page_lt hx.page_lt ha.valid hx.valid
        (BitVec.eq_of_toNat_eq heq))
    simp only [pageSize] at *
    omega

/-- A write that succeeds changes the bytes at its addresses and no other. -/
theorem byteAt_writeMem {m m' : Machine} (hm : m.Linear) (hdist : m.DistinctFrames) {a : Word}
    {s : ℕ} (hs : s = 1 ∨ s = 2 ∨ s = 4) {v : Word} {u : Unit}
    (h : writeMem a s v m = .ok u m') (x : Word) :
    m'.byteAt x = if a.toNat ≤ x.toNat ∧ x.toNat < a.toNat + s
      then some (wordByte v (x.toNat - a.toNat)) else m.byteAt x := by
  obtain ⟨pt, hpt⟩ := hm.pageTable_some
  obtain ⟨phys, tlb, pageTable, hsucc, rfl⟩ := writeMem_eq_ok h
  have hmaps := maps_of_success hm.tlb_none hpt hsucc
  have halike := alike_of_success hsucc
  obtain ⟨rfl, -, -⟩ := success_eq hm.tlb_none hpt hs hsucc
  have hphys : ((m.setTables tlb pageTable).store (frameAddress pt a) s v).physical x 1 false
      = m.physical x 1 false := halike.physical x 1 false
  by_cases hx : m.Maps pt x 1 false
  · obtain ⟨hwithin, hdiff⟩ := frameAddress_within_iff hpt hdist hs hmaps hx
    rw [byteAt_of_maps hm.tlb_none hpt hx, Machine.byteAt, hphys,
      physical_of_maps hm.tlb_none hpt (Or.inl rfl) hx, Option.map_some, Machine.store]
    dsimp only
    by_cases hin : a.toNat ≤ x.toNat ∧ x.toNat < a.toNat + s
    · rw [if_pos hin, if_pos (hwithin.mpr hin), hdiff hin]
    · rw [if_neg hin, if_neg (fun hc ↦ hin (hwithin.mp hc))]
      rfl
  · have hout : ¬(a.toNat ≤ x.toNat ∧ x.toNat < a.toNat + s) := by
      rintro ⟨hle, hlt⟩
      obtain ⟨hbyte, -, hsum⟩ := hmaps.byte hs (show x.toNat - a.toNat < s by omega)
      have heq : a + BitVec.ofNat 32 (x.toNat - a.toNat) = x := by
        refine BitVec.eq_of_toNat_eq ?_
        rw [hsum]
        omega
      rw [heq] at hbyte
      exact hx hbyte
    rw [if_neg hout, byteAt_of_not_maps hm.tlb_none hpt hx, Machine.byteAt, hphys]
    have hnone := byteAt_of_not_maps hm.tlb_none hpt hx
    rw [Machine.byteAt, Option.map_eq_none_iff] at hnone
    rw [hnone]
    rfl

/-! ## Accesses that fail -/

/-- Memory and tables are the same; the registers may differ. -/
structure Machine.SameMemory (m m' : Machine) : Prop where
  mainMemory : m'.mainMemory = m.mainMemory
  tlb : m'.tlb = m.tlb
  pageTable : m'.pageTable = m.pageTable

section failing

variable {m₀ : Machine} {α : Type}

/-- However `x` ends, memory and tables are those of `m₀`. -/
def Untouched (m₀ : Machine) (x : Exec α) : Prop :=
  Triple m₀.SameMemory x (fun _ ↦ m₀.SameMemory) fun _ ↦ m₀.SameMemory

private theorem untouched_readReg (i : ℕ) : Untouched m₀ (readReg i) := by
  intro m hm
  rw [readReg]
  by_cases hi : i < numTotalRegs
  · rw [if_pos hi]
    exact hm
  · rw [if_neg hi]
    exact hm

theorem untouched_writeReg (i : ℕ) (v : Word) : Untouched m₀ (writeReg i v) := by
  intro m hm
  rw [writeReg]
  by_cases hi : i < numTotalRegs
  · rw [if_pos hi]
    exact ⟨hm.mainMemory, hm.tlb, hm.pageTable⟩
  · rw [if_neg hi]
    exact hm

private theorem untouched_raiseException (which : ExceptionType) (badVAddr : Word) :
    Untouched m₀ (raiseException which badVAddr : Exec α) :=
  (untouched_writeReg _ _).bind fun _ ↦
    ((untouched_readReg _).bind fun _ ↦ (untouched_readReg _).bind fun _ ↦
      (untouched_writeReg _ _).bind fun _ ↦ (untouched_writeReg _ _).bind fun _ ↦
        (untouched_writeReg _ _).bind fun _ ↦ untouched_writeReg _ _).bind fun _ ↦
      Triple.throw _ fun _ h ↦ h

private theorem sameMemory_of_physicalAddress_error {m m' : Machine} {addr : Word} {size : ℕ}
    {writing : Bool} {e : Stop} (h : physicalAddress addr size writing m = .error e m') :
    m.SameMemory m' := by
  rw [physicalAddress] at h
  split at h
  · cases h
    exact ⟨rfl, rfl, rfl⟩
  · exact (untouched_raiseException _ _).of_error ⟨rfl, rfl, rfl⟩ h
  · cases h

end failing

/-- A failing read changes no memory byte and no bit of the tables. -/
private theorem sameMemory_of_readMem_error {m m' : Machine} {addr : Word} {size : ℕ}
    (hsize : size = 1 ∨ size = 2 ∨ size = 4) {e : Stop} (h : readMem addr size m = .error e m') :
    m.SameMemory m' := by
  rw [readMem, bind_apply] at h
  cases hp : physicalAddress addr size false m with
  | error e' m₁ =>
    rw [hp] at h
    cases h
    exact sameMemory_of_physicalAddress_error hp
  | ok a m₁ =>
    rw [hp] at h
    rcases hsize with rfl | rfl | rfl <;> cases h

/-- A failing write changes no memory byte and no bit of the tables. -/
private theorem sameMemory_of_writeMem_error {m m' : Machine} {addr : Word} {size : ℕ}
    {value : Word} (hsize : size = 1 ∨ size = 2 ∨ size = 4) {e : Stop}
    (h : writeMem addr size value m = .error e m') : m.SameMemory m' := by
  rw [writeMem, bind_apply] at h
  cases hp : physicalAddress addr size true m with
  | error e' m₁ =>
    rw [hp] at h
    cases h
    exact sameMemory_of_physicalAddress_error hp
  | ok a m₁ =>
    rw [hp] at h
    rcases hsize with rfl | rfl | rfl <;> cases h

/-! ## Dirty bits -/

/-- The dirty bit of page `p`. -/
def Machine.dirty (m : Machine) (p : ℕ) : Bool :=
  match m.pageTable with
  | some pt => (pt p).dirty
  | none => false

private theorem dirty_touchPage (pt : ℕ → TranslationEntry) (addr : Word) (writing : Bool) (p : ℕ) :
    (touchPage pt addr writing p).dirty
      = ((pt p).dirty || (writing && decide (p = addr.toNat / pageSize))) := by
  rw [touchPage]
  by_cases hp : p = addr.toNat / pageSize
  · rw [← hp, Function.update_self]
    simp [TranslationEntry.touch]
  · rw [Function.update_of_ne hp]
    simp [hp]

private theorem dirty_of_success {m : Machine} (hm : m.Linear) {addr : Word} {size a : ℕ}
    {writing : Bool}
    (hsize : size = 1 ∨ size = 2 ∨ size = 4) {tlb pageTable : Option (ℕ → TranslationEntry)}
    (h : m.translate addr size writing = .success a tlb pageTable) (p : ℕ) :
    (m.setTables tlb pageTable).dirty p
      = (m.dirty p || (writing && decide (p = addr.toNat / pageSize))) := by
  obtain ⟨pt, hpt⟩ := hm.pageTable_some
  obtain ⟨-, -, rfl⟩ := success_eq hm.tlb_none hpt hsize h
  rw [Machine.dirty, Machine.dirty, hpt]
  exact dirty_touchPage pt addr writing p

/-! ## The byte array -/

/-- Through a linear page table, whatever its frame numbers: a translation that succeeds stays
inside physical memory; with distinct frames a read after a write sees the written bytes at the
written addresses and the old ones elsewhere; a failing access touches neither memory nor tables;
and only a successful write makes a page dirty, the page it writes to. -/
theorem virtualMemory_byteArray {m : Machine} (hm : m.Linear) {a : Word} {s : ℕ}
    (hs : s = 1 ∨ s = 2 ∨ s = 4) :
    (∀ writing, m.translate a s writing ≠ .abort ∧
      ∀ phys tlb pageTable, m.translate a s writing = .success phys tlb pageTable →
        phys + s ≤ memorySize) ∧
    (m.DistinctFrames → ∀ v u m', writeMem a s v m = .ok u m' →
      ∀ b t, t = 1 ∨ t = 2 ∨ t = 4 → ∀ r m'', readMem b t m' = .ok r m'' →
        ∃ old : ℕ → Byte, r = combine t (fun k ↦
            if a.toNat ≤ b.toNat + k ∧ b.toNat + k < a.toNat + s
              then wordByte v (b.toNat + k - a.toNat) else old k) ∧
          ∀ k < t, ¬(a.toNat ≤ b.toNat + k ∧ b.toNat + k < a.toNat + s) →
            m.byteAt (b + BitVec.ofNat 32 k) = some (old k)) ∧
    ((∀ e m', readMem a s m = .error e m' → m.SameMemory m') ∧
      ∀ v e m', writeMem a s v m = .error e m' → m.SameMemory m') ∧
    (∀ r m', readMem a s m = .ok r m' → ∀ p, m'.dirty p = m.dirty p) ∧
    ∀ v u m', writeMem a s v m = .ok u m' →
      ∀ p, m'.dirty p = (m.dirty p || decide (p = a.toNat / pageSize)) := by
  obtain ⟨pt, hpt⟩ := hm.pageTable_some
  refine ⟨fun writing ↦ ⟨translate_ne_abort hm hs writing, ?_⟩, ?_,
    ⟨fun e m' ↦ sameMemory_of_readMem_error hs, fun v e m' ↦ sameMemory_of_writeMem_error hs⟩,
    ?_, ?_⟩
  · intro phys tlb pageTable h
    rw [(success_eq hm.tlb_none hpt hs h).1]
    exact frameAddress_add_le hs (maps_of_success hm.tlb_none hpt h)
  · intro hdist v u m' hw b t ht r m'' hr
    obtain ⟨phys, tlb, pageTable, hsucc, hm'⟩ := writeMem_eq_ok hw
    -- the write leaves a linear table, so the read goes through the same frames
    have hlin : m'.Linear := by
      rw [hm']
      exact ⟨(hm.translate hsucc).tlb_none, (hm.translate hsucc).pageTable_some⟩
    obtain ⟨c, hc, rfl⟩ := readMem_combine hlin ht hr
    refine ⟨c, combine_congr ht fun k hk ↦ ?_, fun k hk hout ↦ ?_⟩
    · obtain ⟨hbyte, hsum⟩ := hc k hk
      rw [byteAt_writeMem hm hdist hs hw, hsum] at hbyte
      split_ifs at hbyte ⊢
      · exact (Option.some.inj hbyte).symm
      · rfl
    · obtain ⟨hbyte, hsum⟩ := hc k hk
      rwa [byteAt_writeMem hm hdist hs hw, hsum, if_neg hout] at hbyte
  · intro r m' h p
    obtain ⟨phys, tlb, pageTable, hsucc, rfl⟩ := readMem_eq_ok h
    simpa using dirty_of_success hm hs hsucc p
  · intro v u m' h p
    obtain ⟨phys, tlb, pageTable, hsucc, rfl⟩ := writeMem_eq_ok h
    exact dirty_of_success hm hs hsucc p

/-- Sixteen pages, each in the frame of its own number. -/
def identityMap : Machine where
  registers := fun _ ↦ 0
  mainMemory := fun _ ↦ 0
  tlb := none
  pageTable := some fun i ↦ ⟨BitVec.ofNat 32 i, BitVec.ofNat 32 i, true, false, false, false⟩
  pageTableSize := 16

theorem identityMap_distinctFrames : identityMap.DistinctFrames := by
  rintro pt hpt i j hi hj - - heq
  cases hpt
  have hnat := congrArg BitVec.toNat heq
  rw [BitVec.toNat_ofNat, BitVec.toNat_ofNat] at hnat
  simp only [identityMap] at hi hj
  have h16 : (16 : Word).toNat = 16 := rfl
  omega

/-- A short written over the upper half of a word. -/
theorem identityMap_byteArray :
    identityMap.Linear ∧ ∃ m' r m'', writeMem 130 2 0xbeef identityMap = .ok () m' ∧
      readMem 128 4 m' = .ok r m'' ∧
      ∃ old : ℕ → Byte, r = combine 4 (fun k ↦
          if (130 : Word).toNat ≤ (128 : Word).toNat + k ∧
              (128 : Word).toNat + k < (130 : Word).toNat + 2
            then wordByte 0xbeef ((128 : Word).toNat + k - (130 : Word).toNat) else old k) ∧
        ∀ k < 4, ¬((130 : Word).toNat ≤ (128 : Word).toNat + k ∧
            (128 : Word).toNat + k < (130 : Word).toNat + 2) →
          identityMap.byteAt (128 + BitVec.ofNat 32 k) = some (old k) := by
  have hlin : identityMap.Linear := ⟨rfl, _, rfl⟩
  refine ⟨hlin, _, _, _, rfl, rfl, ?_⟩
  exact (virtualMemory_byteArray hlin (Or.inr (Or.inl rfl))).2.1 identityMap_distinctFrames
    _ _ _ rfl _ _ (Or.inr (Or.inr rfl)) _ _ rfl

end Nachos
