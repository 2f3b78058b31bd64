import Nachos.Machine.Translate

/-!
# User memory seen through the page table

Whether an access succeeds, and where it goes, depends on the entries of the tables but not on
their use and dirty bits. So a successful access leaves the map from virtual to physical addresses
as it was: `Machine.physical` is the part of the machine that survives it, and `Machine.Alike`
relates two machines that differ in those bits only.
-/

namespace Nachos

open Program

/-! ## Addresses -/

/-- The address a translation delivers. -/
def Translation.address : Translation → Option ℕ
  | .success a _ _ => some a
  | _ => none

/-- What a translation comes to, its tables left aside: nothing (a failed assertion), an exception
or an address. -/
def Translation.outcome : Translation → Option (ExceptionType ⊕ ℕ)
  | .abort => none
  | .exception which => some (.inl which)
  | .success a _ _ => some (.inr a)

theorem Translation.address_of_outcome {t t' : Translation} (h : t'.outcome = t.outcome) :
    t'.address = t.address := by
  cases t <;> cases t' <;> cases h <;> rfl

/-- Where an access goes, if it succeeds. -/
def Machine.physical (m : Machine) (addr : Word) (size : ℕ) (writing : Bool) : Option ℕ :=
  (m.translate addr size writing).address

theorem physical_of_success {m : Machine} {addr : Word} {size a : ℕ} {writing : Bool}
    {tlb pageTable : Option (ℕ → TranslationEntry)}
    (h : m.translate addr size writing = .success a tlb pageTable) :
    m.physical addr size writing = some a := by
  rw [Machine.physical, h]
  rfl

theorem success_of_physical {m : Machine} {addr : Word} {size a : ℕ} {writing : Bool}
    (h : m.physical addr size writing = some a) :
    ∃ tlb pageTable, m.translate addr size writing = .success a tlb pageTable := by
  rw [Machine.physical] at h
  cases ht : m.translate addr size writing with
  | abort =>
    rw [ht] at h
    cases h
  | exception which =>
    rw [ht] at h
    cases h
  | success a' tlb pageTable =>
    rw [ht] at h
    cases h
    exact ⟨tlb, pageTable, rfl⟩

/-! ## Tables that differ in their bits -/

/-- Two entries translate alike. -/
structure TranslationEntry.Alike (e e' : TranslationEntry) : Prop where
  virtualPage : e'.virtualPage = e.virtualPage
  physicalPage : e'.physicalPage = e.physicalPage
  valid : e'.valid = e.valid
  readOnly : e'.readOnly = e.readOnly

theorem TranslationEntry.Alike.refl (e : TranslationEntry) : e.Alike e := ⟨rfl, rfl, rfl, rfl⟩

private theorem touch_alike (e : TranslationEntry) (writing : Bool) : e.Alike (e.touch writing) :=
  ⟨rfl, rfl, rfl, rfl⟩

/-- Two tables are both absent or translate alike. -/
def TablesAlike (t t' : Option (ℕ → TranslationEntry)) : Prop :=
  match t, t' with
  | none, none => True
  | some t, some t' => ∀ i, (t i).Alike (t' i)
  | _, _ => False

theorem TablesAlike.refl (t : Option (ℕ → TranslationEntry)) : TablesAlike t t := by
  cases t with
  | none => trivial
  | some t => exact fun i ↦ TranslationEntry.Alike.refl (t i)

theorem TablesAlike.isSome_eq {t t' : Option (ℕ → TranslationEntry)} (h : TablesAlike t t') :
    t'.isSome = t.isSome := by
  cases t <;> cases t' <;> first | rfl | exact h.elim

private theorem update_alike (t : ℕ → TranslationEntry) (i : ℕ) (writing : Bool) :
    TablesAlike (some t) (some (Function.update t i ((t i).touch writing))) := by
  intro j
  by_cases hj : j = i
  · subst hj
    rw [Function.update_self]
    exact touch_alike _ _
  · rw [Function.update_of_ne hj]
    exact TranslationEntry.Alike.refl _

private theorem outcome_useEntry {e e' : TranslationEntry} (h : e.Alike e')
    (tlb pt tlb' pt' : Option (ℕ → TranslationEntry)) (offset size : ℕ) (writing : Bool) :
    (useEntry e' tlb' pt' offset size writing).outcome
      = (useEntry e tlb pt offset size writing).outcome := by
  rw [useEntry, useEntry, h.readOnly, h.physicalPage]
  split
  · rfl
  · split
    · rfl
    · split <;> rfl

private theorem tlbLookup_alike {t t' : ℕ → TranslationEntry} (h : ∀ i, (t i).Alike (t' i))
    (vpn : ℕ) : tlbLookup t' vpn = tlbLookup t vpn := by
  rw [tlbLookup, tlbLookup]
  congr 1
  funext i
  rw [(h i).valid, (h i).virtualPage]

/-- Machines that differ in the use and dirty bits of their tables only. -/
structure Machine.Alike (m m' : Machine) : Prop where
  registers : m'.registers = m.registers
  mainMemory : m'.mainMemory = m.mainMemory
  tlb : TablesAlike m.tlb m'.tlb
  pageTable : TablesAlike m.pageTable m'.pageTable
  pageTableSize : m'.pageTableSize = m.pageTableSize

theorem Machine.Alike.refl (m : Machine) : m.Alike m :=
  ⟨rfl, rfl, TablesAlike.refl _, TablesAlike.refl _, rfl⟩

/-- Machines that are alike translate alike. -/
theorem Machine.Alike.outcome {m m' : Machine} (h : m.Alike m') (addr : Word) (size : ℕ)
    (writing : Bool) :
    (m'.translate addr size writing).outcome = (m.translate addr size writing).outcome := by
  obtain ⟨-, -, htlb, hpt, hsize⟩ := h
  rw [Machine.translate, Machine.translate, hsize]
  split
  · rfl
  · -- page table or TLB; with both or neither the assertions fail alike
    dsimp only
    cases htlb₀ : m.tlb with
    | none =>
      cases htlb₁ : m'.tlb with
      | some t => simp [TablesAlike, htlb₀, htlb₁] at htlb
      | none =>
        cases hpt₀ : m.pageTable with
        | none =>
          cases hpt₁ : m'.pageTable with
          | none => rfl
          | some t => simp [TablesAlike, hpt₀, hpt₁] at hpt
        | some t =>
          cases hpt₁ : m'.pageTable with
          | none => simp [TablesAlike, hpt₀, hpt₁] at hpt
          | some t' =>
            rw [hpt₀, hpt₁] at hpt
            have hentry := hpt (addr.toNat / pageSize)
            simp only [hentry.valid]
            split
            · rfl
            · split
              · rfl
              · exact outcome_useEntry hentry _ _ _ _ _ _ _
    | some t =>
      cases htlb₁ : m'.tlb with
      | none => simp [TablesAlike, htlb₀, htlb₁] at htlb
      | some t' =>
        cases hpt₀ : m.pageTable with
        | some _ =>
          cases hpt₁ : m'.pageTable with
          | none => simp [TablesAlike, hpt₀, hpt₁] at hpt
          | some _ => rfl
        | none =>
          cases hpt₁ : m'.pageTable with
          | some _ => simp [TablesAlike, hpt₀, hpt₁] at hpt
          | none =>
            rw [htlb₀, htlb₁] at htlb
            simp only [tlbLookup_alike htlb]
            split
            · rfl
            · exact outcome_useEntry (htlb _) _ _ _ _ _ _ _

theorem Machine.Alike.physical {m m' : Machine} (h : m.Alike m') (addr : Word) (size : ℕ)
    (writing : Bool) : m'.physical addr size writing = m.physical addr size writing :=
  Translation.address_of_outcome (h.outcome addr size writing)

theorem TablesAlike.trans {t t' t'' : Option (ℕ → TranslationEntry)} (h : TablesAlike t t')
    (h' : TablesAlike t' t'') : TablesAlike t t'' := by
  cases t <;> cases t' <;> cases t'' <;> simp only [TablesAlike] at h h' ⊢
  intro i
  exact ⟨by rw [(h' i).virtualPage, (h i).virtualPage],
    by rw [(h' i).physicalPage, (h i).physicalPage], by rw [(h' i).valid, (h i).valid],
    by rw [(h' i).readOnly, (h i).readOnly]⟩

theorem Machine.Alike.trans {m m' m'' : Machine} (h : m.Alike m') (h' : m'.Alike m'') :
    m.Alike m'' :=
  ⟨by rw [h'.registers, h.registers], by rw [h'.mainMemory, h.mainMemory], h.tlb.trans h'.tlb,
    h.pageTable.trans h'.pageTable, by rw [h'.pageTableSize, h.pageTableSize]⟩

private theorem tablesAlike_of_useEntry {e : TranslationEntry}
    {tlb₀ pt₀ tlb₁ pt₁ tlb pt : Option (ℕ → TranslationEntry)} {offset size a : ℕ} {writing : Bool}
    (htlb : TablesAlike tlb₀ tlb₁) (hpt : TablesAlike pt₀ pt₁)
    (h : useEntry e tlb₁ pt₁ offset size writing = .success a tlb pt) :
    TablesAlike tlb₀ tlb ∧ TablesAlike pt₀ pt := by
  rw [useEntry] at h
  split at h
  · cases h
  · split at h
    · cases h
    · split at h
      · cases h
        exact ⟨htlb, hpt⟩
      · cases h

/-- A successful translation leaves a machine that is alike. -/
theorem alike_of_success {m : Machine} {addr : Word} {size a : ℕ} {writing : Bool}
    {tlb pageTable : Option (ℕ → TranslationEntry)}
    (h : m.translate addr size writing = .success a tlb pageTable) :
    m.Alike (m.setTables tlb pageTable) := by
  suffices htables : TablesAlike m.tlb tlb ∧ TablesAlike m.pageTable pageTable from
    ⟨rfl, rfl, htables.1, htables.2, rfl⟩
  rw [Machine.translate] at h
  split at h
  · cases h
  · dsimp only at h
    split at h
    · cases h
    · cases h
    · rename_i htlb hpt
      split at h
      · cases h
      · split at h
        · cases h
        · rw [htlb, hpt]
          exact tablesAlike_of_useEntry (TablesAlike.refl _) (update_alike _ _ _) h
    · rename_i htlb hpt
      split at h
      · cases h
      · rw [htlb, hpt]
        exact tablesAlike_of_useEntry (update_alike _ _ _) (TablesAlike.refl _) h

/-! ## Bytes -/

/-- The byte a program reads at `addr`, if it may. -/
def Machine.byteAt (m : Machine) (addr : Word) : Option Byte :=
  (m.physical addr 1 false).map m.mainMemory

theorem Machine.Alike.byteAt {m m' : Machine} (h : m.Alike m') (addr : Word) :
    m'.byteAt addr = m.byteAt addr := by
  rw [Machine.byteAt, Machine.byteAt, h.physical, h.mainMemory]

/-- Reading a byte the program may read. -/
theorem readMem_of_byteAt {m : Machine} {addr : Word} {c : Byte} (h : m.byteAt addr = some c) :
    ∃ m', readMem addr 1 m = .ok (c.signExtend 32) m' ∧ m.Alike m' := by
  obtain ⟨a, ha, rfl⟩ := Option.map_eq_some_iff.mp h
  obtain ⟨tlb, pageTable, ht⟩ := success_of_physical ha
  refine ⟨m.setTables tlb pageTable, ?_, alike_of_success ht⟩
  rw [readMem, bind_of_ok (physicalAddress_eq_ok.mpr ⟨tlb, pageTable, ht, rfl⟩)]
  rfl

/-- Reading a byte the program may not read traps or stops. -/
theorem readMem_of_byteAt_none {m : Machine} {addr : Word} (h : m.byteAt addr = none) {v : Word}
    {m' : Machine} : readMem addr 1 m ≠ .ok v m' := by
  intro hread
  obtain ⟨a, _, _, ht, -⟩ := readMem_eq_ok hread
  rw [Machine.byteAt, physical_of_success ht] at h
  cases h

/-- Writing a byte where the program may. -/
theorem writeMem_of_physical {m : Machine} {addr : Word} {a : ℕ}
    (h : m.physical addr 1 true = some a) (value : Word) :
    ∃ m', writeMem addr 1 value m = .ok () (m'.store a 1 value) ∧ m.Alike m' := by
  obtain ⟨tlb, pageTable, ht⟩ := success_of_physical h
  refine ⟨m.setTables tlb pageTable, ?_, alike_of_success ht⟩
  rw [writeMem, bind_of_ok (physicalAddress_eq_ok.mpr ⟨tlb, pageTable, ht, rfl⟩)]
  rfl

/-- Stores do not move pages. -/
theorem Machine.physical_store (m : Machine) (a n : ℕ) (v : Word) (addr : Word) (size : ℕ)
    (writing : Bool) : (m.store a n v).physical addr size writing = m.physical addr size writing :=
  rfl

end Nachos
