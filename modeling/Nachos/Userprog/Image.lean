import Nachos.Machine.OneInstruction
import Nachos.Machine.VirtualMemory
import Nachos.Userprog.AddrSpace

/-!
# The address space a program starts in

The constructor of `AddrSpace` maps every page to the frame of its own number and clears memory,
`Load` puts the segments in place, and `Execute` sets the registers and installs the table. What the
program then finds is settled by the header of its file.

`AddrSpace::Translate` is a second copy of `Machine::Translate`, for the kernel. It does not look at
the valid bit, and it takes the frame number for an `int`.
-/

namespace Nachos

open Program

/-- `class AddrSpace`, with the page table itself for the pointer to it. -/
structure AddrSpace where
  pageTable : ℕ → TranslationEntry
  numPages : Word

namespace AddrSpace

/-! ## The two translators -/

/-- `AddrSpace::Translate`. The arithmetic is that of `unsigned int`s; there is no TLB to update. -/
def translate (space : AddrSpace) (vaddr : Word) (isReadWrite : Bool) : Translation :=
  let vpn := vaddr.toNat / pageSize
  let offset := vaddr % 128
  if space.numPages.toNat ≤ vpn then
    .exception .addressErrorException
  else
    let pte := space.pageTable vpn
    if isReadWrite = true ∧ pte.readOnly = true then
      .exception .readOnlyException
    else
      let pfn := pte.physicalPage
      -- `pfn` is an `int`
      if (numPhysPages : ℤ) ≤ pfn.toInt then
        .exception .busErrorException
      else
        let paddr := pfn * 128 + offset
        if paddr.toNat < memorySize then
          .success paddr.toNat none
            (some (Function.update space.pageTable vpn (pte.touch isReadWrite)))
        else
          .abort

/-- `AddrSpace::RestoreState`. -/
def restoreState (space : AddrSpace) (m : Machine) : Machine :=
  { m with pageTable := some space.pageTable, pageTableSize := space.numPages }

/-- The page table entry for an address. -/
def entry (space : AddrSpace) (vaddr : Word) : TranslationEntry :=
  space.pageTable (vaddr.toNat / pageSize)

section translators

variable {space : AddrSpace} {vaddr : Word} {isReadWrite : Bool}

/-- The physical address for a frame of physical memory. -/
private theorem toNat_paddr {pfn : Word} (h : pfn.toNat < numPhysPages) (vaddr : Word) :
    (pfn * 128 + vaddr % 128).toNat = pfn.toNat * pageSize + vaddr.toNat % pageSize := by
  have hpage : (128 : Word).toNat = 128 := rfl
  rw [BitVec.toNat_add, BitVec.toNat_mul, BitVec.toNat_umod, hpage]
  simp only [numPhysPages, pageSize] at *
  omega

private theorem translate_of_ge (h : space.numPages.toNat ≤ vaddr.toNat / pageSize) :
    space.translate vaddr isReadWrite = .exception .addressErrorException := if_pos h

private theorem machine_translate_of_ge {m : Machine} (hm : m.tlb = none)
    (h : space.numPages.toNat ≤ vaddr.toNat / pageSize) :
    (space.restoreState m).translate vaddr 1 isReadWrite
      = .exception .addressErrorException := by
  rw [Machine.translate, if_neg (aligned_one vaddr), restoreState, hm]
  exact if_pos h

/-- `Machine::Translate` beyond the size test. -/
private theorem machine_translate_of_lt {m : Machine} (hm : m.tlb = none)
    (h : vaddr.toNat / pageSize < space.numPages.toNat) :
    (space.restoreState m).translate vaddr 1 isReadWrite =
      if (space.entry vaddr).valid = false then .exception .pageFaultException
      else useEntry (space.entry vaddr) none (some (Function.update space.pageTable
        (vaddr.toNat / pageSize) ((space.entry vaddr).touch isReadWrite)))
        (vaddr.toNat % pageSize) 1 isReadWrite := by
  rw [Machine.translate, if_neg (aligned_one vaddr), restoreState, hm]
  exact if_neg (Nat.not_le.mpr h)

/-- `AddrSpace::Translate` beyond the size test. -/
private theorem translate_of_lt (h : vaddr.toNat / pageSize < space.numPages.toNat) :
    space.translate vaddr isReadWrite =
      if isReadWrite = true ∧ (space.entry vaddr).readOnly = true then
        .exception .readOnlyException
      else if (numPhysPages : ℤ) ≤ (space.entry vaddr).physicalPage.toInt then
        .exception .busErrorException
      else if ((space.entry vaddr).physicalPage * 128 + vaddr % 128).toNat < memorySize then
        .success ((space.entry vaddr).physicalPage * 128 + vaddr % 128).toNat none
          (some (Function.update space.pageTable (vaddr.toNat / pageSize)
            ((space.entry vaddr).touch isReadWrite)))
      else .abort := if_neg (Nat.not_le.mpr h)

private theorem translate_ne_pageFault :
    space.translate vaddr isReadWrite ≠ .exception .pageFaultException := by
  rw [translate]
  dsimp only
  split
  · simp
  · split
    · simp
    · split
      · simp
      · split <;> simp

/-- A frame number that is no negative `int`. -/
private theorem agrees_of_nonneg {e : TranslationEntry} (hframe : 0 ≤ e.physicalPage.toInt)
    (tables : Option (ℕ → TranslationEntry)) (vaddr : Word) :
    (if isReadWrite = true ∧ e.readOnly = true then .exception .readOnlyException
      else if (numPhysPages : ℤ) ≤ e.physicalPage.toInt then .exception .busErrorException
      else if (e.physicalPage * 128 + vaddr % 128).toNat < memorySize then
        .success (e.physicalPage * 128 + vaddr % 128).toNat none tables
      else .abort)
      = useEntry e none tables (vaddr.toNat % pageSize) 1 isReadWrite := by
  have hint := BitVec.toInt_eq_toNat_of_lt (BitVec.toInt_pos_iff.mp hframe)
  rw [useEntry]
  by_cases hro : isReadWrite = true ∧ e.readOnly = true
  · rw [if_pos hro, if_pos hro.symm]
  · rw [if_neg hro, if_neg (show ¬(e.readOnly = true ∧ isReadWrite = true) from
      fun h ↦ hro h.symm)]
    by_cases hbig : numPhysPages ≤ e.physicalPage.toNat
    · rw [if_pos hbig, if_pos (by rw [hint]; exact_mod_cast hbig)]
    · have hoff := Nat.mod_lt vaddr.toNat (show 0 < pageSize by decide)
      rw [if_neg hbig, if_neg (by rw [hint]; exact_mod_cast hbig),
        toNat_paddr (Nat.not_le.mp hbig)]
      simp only [numPhysPages, pageSize, memorySize] at *
      rw [if_pos (by omega), if_pos (by omega)]

/-- A frame number that is a negative `int`: `Machine::Translate` takes it for a large one. -/
private theorem useEntry_of_neg {e : TranslationEntry} (hframe : ¬0 ≤ e.physicalPage.toInt)
    (hro : ¬(e.readOnly = true ∧ isReadWrite = true)) (tables : Option (ℕ → TranslationEntry))
    (offset : ℕ) :
    useEntry e none tables offset 1 isReadWrite = .exception .busErrorException := by
  have hbig : numPhysPages ≤ e.physicalPage.toNat := by
    have hlt := e.physicalPage.isLt
    have hint := BitVec.toInt_eq_toNat_cond e.physicalPage
    simp only [numPhysPages]
    split at hint <;> omega
  rw [useEntry, if_neg hro, if_pos hbig]

/-- **The two translators agree exactly when** the page is out of range, or its entry is valid and
either the access is refused as a write to a read-only page or the frame number is not negative. -/
theorem translate_agrees_iff (space : AddrSpace) {m : Machine} (hm : m.tlb = none) (vaddr : Word)
    (isReadWrite : Bool) :
    space.translate vaddr isReadWrite = (space.restoreState m).translate vaddr 1 isReadWrite ↔
      space.numPages.toNat ≤ vaddr.toNat / pageSize ∨
      (space.entry vaddr).valid = true ∧
        (isReadWrite = true ∧ (space.entry vaddr).readOnly = true ∨
          0 ≤ (space.entry vaddr).physicalPage.toInt) := by
  by_cases hpage : space.numPages.toNat ≤ vaddr.toNat / pageSize
  · rw [translate_of_ge hpage, machine_translate_of_ge hm hpage]
    exact iff_of_true rfl (.inl hpage)
  rw [or_iff_right hpage]
  have hlt := Nat.not_le.mp hpage
  rw [machine_translate_of_lt hm hlt]
  cases hvalid : (space.entry vaddr).valid with
  | false =>
    rw [if_pos rfl]
    exact iff_of_false translate_ne_pageFault fun h ↦ absurd h.1 (by decide)
  | true =>
    rw [if_neg (by decide), and_iff_right rfl, translate_of_lt hlt]
    by_cases hframe : 0 ≤ (space.entry vaddr).physicalPage.toInt
    · exact iff_of_true (agrees_of_nonneg hframe _ _) (.inr hframe)
    · rw [or_iff_left hframe]
      by_cases hro : isReadWrite = true ∧ (space.entry vaddr).readOnly = true
      · rw [if_pos hro, useEntry, if_pos hro.symm]
        exact iff_of_true rfl hro
      · rw [if_neg hro, if_neg (by simp only [numPhysPages]; omega),
          useEntry_of_neg hframe fun h ↦ hro h.symm]
        refine iff_of_false ?_ hro
        split <;> simp

end translators

/-- A machine with no address space installed. -/
def bareMachine : Machine := ⟨fun _ ↦ 0, fun _ ↦ 0, none, none, 0⟩

/-- One page, marked invalid. -/
def invalidPage : AddrSpace := ⟨fun _ ↦ ⟨0, 0, false, false, false, false⟩, 1⟩

/-- The kernel's translator delivers an address where the machine's reports a page fault. -/
theorem invalidPage_translators_differ :
    ¬∀ (space : AddrSpace) (m : Machine), m.tlb = none → ∀ vaddr isReadWrite,
      space.translate vaddr isReadWrite
        = (space.restoreState m).translate vaddr 1 isReadWrite := by
  intro h
  have heq := h invalidPage bareMachine rfl 0 false
  have hspace : (invalidPage.translate 0 false).outcome = some (.inr 0) := rfl
  rw [heq] at hspace
  cases hspace

/-- One valid page. -/
def validPage : AddrSpace := ⟨fun _ ↦ ⟨0, 0, true, false, false, false⟩, 1⟩

theorem validPage_translators_agree :
    validPage.translate 5 true = (validPage.restoreState bareMachine).translate 5 1 true :=
  (translate_agrees_iff validPage rfl 5 true).mpr (.inr ⟨rfl, .inr (by decide)⟩)

/-! ## Building the address space -/

/-- The page table the constructor sets up: `NumPhysPages` entries, and behind them whatever the
host has there. -/
def identityTable (behind : ℕ → TranslationEntry) : ℕ → TranslationEntry := fun i ↦
  if i < numPhysPages then ⟨BitVec.ofNat 32 i, BitVec.ofNat 32 i, true, false, false, false⟩
  else behind i

/-- The constructor clears `mainMemory`. -/
def LoadState.construct (s : LoadState) : LoadState :=
  { s with memory := fun i ↦ if 0 ≤ i ∧ i < memorySize then 0 else s.memory i }

/-- All segments of a program; the last one has no bytes in the file. -/
def segments (noffH : NoffHeader) : List Segment :=
  [noffH.code, noffH.initData, noffH.readonlyData, noffH.uninitData]

/-- The sum of the sizes of the segments. -/
def total (noffH : NoffHeader) : ℤ :=
  noffH.code.size.toInt + noffH.initData.size.toInt + noffH.readonlyData.size.toInt +
    noffH.uninitData.size.toInt

/-- Address `i` is in the segment. -/
def Covers (seg : Segment) (i : ℤ) : Prop :=
  seg.virtualAddr.toInt ≤ i ∧ i < seg.virtualAddr.toInt + seg.size.toInt

/-- The bytes of the segment are in the file. -/
def InFile (file : List Byte) (seg : Segment) : Prop :=
  0 < seg.size.toInt →
    0 ≤ seg.inFileAddr.toInt ∧ seg.inFileAddr.toInt + seg.size.toInt ≤ file.length

instance (file : List Byte) (seg : Segment) : Decidable (InFile file seg) :=
  inferInstanceAs (Decidable (_ → _ ∧ _))

/-- A program that fits: the segments are disjoint, lie in the space their sizes add up to and leave
room for a stack, and what is to be loaded is in the file. -/
structure WellPlaced (file : List Byte) (noffH : NoffHeader) : Prop where
  size_nonneg : ∀ seg ∈ segments noffH, 0 ≤ seg.size.toInt
  disjoint : (segments noffH).Pairwise fun seg seg' ↦ ∀ i, Covers seg i → ¬Covers seg' i
  within : ∀ seg ∈ segments noffH, ∀ i, Covers seg i → 0 ≤ i ∧ i < total noffH
  inFile : ∀ seg ∈ copied noffH, InFile file seg
  fits : total noffH + userStackSize.toInt ≤ memorySize

/-! ### The copies -/

section copies

variable {file : List Byte}

theorem toNat_of_nonneg {v : Word} (h : 0 ≤ v.toInt) : (v.toNat : ℤ) = v.toInt :=
  (BitVec.toInt_eq_toNat_of_lt (BitVec.toInt_pos_iff.mp h)).symm

/-- One segment: its bytes are in place and everything else is as it was. -/
private theorem copySegment_places {seg : Segment} (hsize : 0 ≤ seg.size.toInt)
    (hfile : InFile file seg) (s : LoadState) :
    ∃ s', copySegment file seg s = .ok () s' ∧
      (∀ k < seg.size.toNat, file[seg.inFileAddr.toNat + k]?
        = some (s'.memory (seg.virtualAddr.toInt + k))) ∧
      ∀ i, ¬Covers seg i → s'.memory i = s.memory i := by
  have hsizeNat := toNat_of_nonneg hsize
  by_cases hpos : 0 < seg.size.toInt
  · obtain ⟨hoff, hend⟩ := hfile hpos
    have hoffNat := toNat_of_nonneg hoff
    have hlen : ((file.drop seg.inFileAddr.toNat).take seg.size.toNat).length
        = seg.size.toNat := by
      rw [List.length_take, List.length_drop]
      omega
    refine ⟨s.copy seg.virtualAddr.toInt ((file.drop seg.inFileAddr.toNat).take seg.size.toNat),
      ?_, fun k hk ↦ ?_, fun i hi ↦ ?_⟩
    · rw [copySegment, if_pos hpos, readAt, if_neg (by omega)]
      rfl
    · have hlt : seg.inFileAddr.toNat + k < file.length := by omega
      have hindex : (seg.virtualAddr.toInt + k - seg.virtualAddr.toInt).toNat = k := by omega
      rw [LoadState.copy, hlen]
      dsimp only
      rw [if_pos (by omega), hindex, List.getD_eq_getElem?_getD,
        List.getElem?_take_of_lt hk, List.getElem?_drop, List.getElem?_eq_getElem hlt]
      rfl
    · rw [LoadState.copy, hlen]
      dsimp only
      rw [if_neg (by rw [hsizeNat]; exact hi)]
  · refine ⟨s, ?_, fun k hk ↦ ?_, fun i _ ↦ rfl⟩
    · rw [copySegment, if_neg hpos]
      rfl
    · omega

/-- Segments that do not overlap: each ends up in place, whatever the order. -/
private theorem copySegments_places {segs : List Segment} (hsize : ∀ seg ∈ segs, 0 ≤ seg.size.toInt)
    (hfile : ∀ seg ∈ segs, InFile file seg)
    (hdisjoint : segs.Pairwise fun seg seg' ↦ ∀ i, Covers seg i → ¬Covers seg' i)
    (s : LoadState) :
    ∃ s', copySegments file segs s = .ok () s' ∧
      (∀ seg ∈ segs, ∀ k < seg.size.toNat, file[seg.inFileAddr.toNat + k]?
        = some (s'.memory (seg.virtualAddr.toInt + k))) ∧
      ∀ i, (∀ seg ∈ segs, ¬Covers seg i) → s'.memory i = s.memory i := by
  induction segs generalizing s with
  | nil => exact ⟨s, rfl, fun seg hseg ↦ absurd hseg List.not_mem_nil, fun _ _ ↦ rfl⟩
  | cons seg rest ih =>
    rw [List.forall_mem_cons] at hsize hfile
    rw [List.pairwise_cons] at hdisjoint
    obtain ⟨s₁, hrun, hplace, hframe⟩ := copySegment_places hsize.1 hfile.1 s
    obtain ⟨s₂, hrun₂, hplace₂, hframe₂⟩ := ih hsize.2 hfile.2 hdisjoint.2 s₁
    have hsizeNat := toNat_of_nonneg hsize.1
    refine ⟨s₂, ?_, ?_, fun i hi ↦ ?_⟩
    · rw [copySegments, bind_of_ok hrun, hrun₂]
    · rw [List.forall_mem_cons]
      refine ⟨fun k hk ↦ ?_, hplace₂⟩
      -- the later copies do not reach it
      have hcovers : Covers seg (seg.virtualAddr.toInt + k) := ⟨by omega, by omega⟩
      rw [hplace k hk, hframe₂ _ fun seg' hseg' ↦ hdisjoint.1 seg' hseg' _ hcovers]
    · rw [List.forall_mem_cons] at hi
      rw [hframe₂ i hi.2, hframe i hi.1]

end copies

/-! ### The pages -/

private theorem toNat_pagesFor (n : Word) : (pagesFor n).toNat = (n.toNat + 127) / 128 := by
  have hlt := n.isLt
  have hpage : (128 : Word).toNat = 128 := rfl
  have hone : (1 : Word).toNat = 1 := rfl
  have hzero : (0 : Word).toNat = 0 := rfl
  rw [pagesFor, BitVec.toNat_add, BitVec.toNat_udiv, BitVec.toNat_umod, hpage]
  split
  · rw [hone]
    omega
  · rw [hzero]
    omega

/-- No addition wraps. -/
private theorem toNat_addressSpaceSize {file : List Byte} {noffH : NoffHeader}
    (h : WellPlaced file noffH) :
    ((addressSpaceSize noffH).toNat : ℤ) = total noffH + userStackSize.toInt := by
  have hsize := h.size_nonneg
  have hfits := h.fits
  simp only [segments, List.forall_mem_cons] at hsize
  obtain ⟨hcode, hinit, hro, huninit, -⟩ := hsize
  have hcode' := toNat_of_nonneg hcode
  have hinit' := toNat_of_nonneg hinit
  have hro' := toNat_of_nonneg hro
  have huninit' := toNat_of_nonneg huninit
  have hstack : userStackSize.toInt = 1024 := rfl
  have hstack' : userStackSize.toNat = 1024 := rfl
  simp only [total, memorySize, numPhysPages, pageSize] at *
  rw [addressSpaceSize, BitVec.toNat_add, BitVec.toNat_add, BitVec.toNat_add, BitVec.toNat_add,
    hstack']
  omega

/-- Every page has the frame of its own number. -/
private theorem frameAddress_identityTable {behind : ℕ → TranslationEntry} {addr : Word}
    (h : addr.toNat / pageSize < numPhysPages) :
    frameAddress (identityTable behind) addr = addr.toNat := by
  have hframe : (BitVec.ofNat 32 (addr.toNat / pageSize)).toNat = addr.toNat / pageSize := by
    rw [BitVec.toNat_ofNat]
    simp only [numPhysPages, pageSize] at *
    omega
  rw [frameAddress, identityTable, if_pos h]
  dsimp only
  rw [hframe]
  exact Nat.div_add_mod' _ _

section identity

variable {m : Machine} {behind : ℕ → TranslationEntry} {addr : Word} {size : ℕ} {writing : Bool}

private theorem outcome_of_lt (htlb : m.tlb = none)
    (hpt : m.pageTable = some (identityTable behind))
    (hpages : m.pageTableSize.toNat ≤ numPhysPages) (hsize : size = 1 ∨ size = 2 ∨ size = 4)
    (haligned : Aligned addr size) (h : addr.toNat < m.pageTableSize.toNat * pageSize) :
    (m.translate addr size writing).outcome = some (.inr addr.toNat) := by
  have hpage : addr.toNat / pageSize < m.pageTableSize.toNat :=
    Nat.div_lt_of_lt_mul (by rwa [Nat.mul_comm])
  have hlt : addr.toNat / pageSize < numPhysPages := Nat.lt_of_lt_of_le hpage hpages
  have hentry : identityTable behind (addr.toNat / pageSize)
      = ⟨BitVec.ofNat 32 (addr.toNat / pageSize), BitVec.ofNat 32 (addr.toNat / pageSize), true,
        false, false, false⟩ := if_pos hlt
  have hmaps : m.Maps (identityTable behind) addr size writing := by
    refine ⟨haligned, hpage, ?_, ?_, ?_⟩
    · rw [hentry]
    · rw [hentry]
      exact fun hro ↦ Bool.false_ne_true hro.1
    · rw [hentry]
      dsimp only
      rw [BitVec.toNat_ofNat]
      exact Nat.lt_of_le_of_lt (Nat.mod_le _ _) hlt
  rw [translate_of_maps htlb hpt hsize hmaps, frameAddress_identityTable hlt]
  rfl

private theorem outcome_of_ge (htlb : m.tlb = none) {pt : ℕ → TranslationEntry}
    (hpt : m.pageTable = some pt) (h : m.pageTableSize.toNat * pageSize ≤ addr.toNat) :
    (m.translate addr size writing).outcome = some (.inl .addressErrorException) := by
  have hpage : m.pageTableSize.toNat ≤ addr.toNat / pageSize :=
    (Nat.le_div_iff_mul_le (by decide)).mpr h
  rw [Machine.translate, htlb, hpt]
  split
  · rfl
  · dsimp only
    rw [if_pos hpage]
    rfl

end identity

/-! ## The program that starts -/

/-- What a program finds: its segments in place and zeros around them, addresses that are their own
translations up to the end of its pages and none beyond, and room for the stack. -/
structure StartsWith (m : Machine) (file : List Byte) (noffH : NoffHeader) : Prop where
  loaded : ∀ seg ∈ copied noffH, ∀ k < seg.size.toNat, file[seg.inFileAddr.toNat + k]?
    = some (m.mainMemory (seg.virtualAddr.toNat + k))
  zero : ∀ a < memorySize, (∀ seg ∈ copied noffH, ¬Covers seg a) → m.mainMemory a = 0
  inside : ∀ addr size writing, size = 1 ∨ size = 2 ∨ size = 4 → Aligned addr size →
    addr.toNat < m.pageTableSize.toNat * pageSize →
    (m.translate addr size writing).outcome = some (.inr addr.toNat)
  outside : ∀ addr size writing, m.pageTableSize.toNat * pageSize ≤ addr.toNat →
    (m.translate addr size writing).outcome = some (.inl .addressErrorException)
  stack : ∀ seg ∈ segments noffH, ∀ i, Covers seg i →
    i + 1 + (userStackSize.toInt - 16) ≤ (m.registers stackReg).toNat

/-- **The program image.** A program that fits is loaded, and starts with its segments in place. -/
theorem load_startsWith {file : List Byte} {stack : ℕ → Byte}
    (hmagic : (readHeader file stack).noffMagic = noffMagicNumber)
    (hplaced : WellPlaced file (readHeader file stack)) (s : LoadState)
    (behind : ℕ → TranslationEntry) :
    ∃ s', load (some file) stack s.construct = .ok true s' ∧
      StartsWith (Machine.start s'.numPages (fun a ↦ s'.memory a) (identityTable behind)) file
        (readHeader file stack) := by
  have hload := load_eq hmagic s.construct
  have hheader : headerPages file stack
      = (pagesFor (addressSpaceSize (readHeader file stack))).toNat := rfl
  generalize readHeader file stack = noffH at *
  have hbytes := toNat_addressSpaceSize hplaced
  have hpages := toNat_pagesFor (addressSpaceSize noffH)
  have hfits := hplaced.fits
  have hstack : userStackSize.toInt = 1024 := rfl
  have hmemory : (memorySize : ℤ) = 16384 := rfl
  have hpagesLe : (pagesFor (addressSpaceSize noffH)).toNat ≤ numPhysPages := by
    simp only [numPhysPages]
    omega
  -- the copies
  have hcopied : ∀ seg ∈ copied noffH, seg ∈ segments noffH := fun seg hseg ↦
    List.mem_append_left [noffH.uninitData] hseg
  have hdisjoint : (copied noffH ++ [noffH.uninitData]).Pairwise fun seg seg' ↦
      ∀ i, Covers seg i → ¬Covers seg' i := hplaced.disjoint
  obtain ⟨s', hrun, hplace, hframe⟩ := copySegments_places
    (fun seg hseg ↦ hplaced.size_nonneg seg (hcopied seg hseg)) hplaced.inFile
    (List.pairwise_append.mp hdisjoint).1
    { s.construct with numPages := pagesFor (addressSpaceSize noffH) }
  have hnum : s'.numPages = pagesFor (addressSpaceSize noffH) := by
    have hkept := numPages_copySegments file (copied noffH)
      { s.construct with numPages := pagesFor (addressSpaceSize noffH) }
    rwa [hrun] at hkept
  refine ⟨s', ?_, ⟨fun seg hseg k hk ↦ ?_, fun a ha hout ↦ ?_, ?_, ?_, ?_⟩⟩
  · rw [hload, if_neg (by rw [hheader]; exact Nat.not_lt.mpr hpagesLe), bind_of_ok hrun]
    rfl
  · have hsize := toNat_of_nonneg (hplaced.size_nonneg seg (hcopied seg hseg))
    have hfirst := hplaced.within seg (hcopied seg hseg) seg.virtualAddr.toInt
      ⟨Int.le_refl _, by omega⟩
    rw [hplace seg hseg k hk, ← toNat_of_nonneg hfirst.1]
    rfl
  · have hzero := hframe a hout
    rw [LoadState.construct] at hzero
    dsimp only at hzero
    rwa [if_pos ⟨Int.natCast_nonneg a, by exact_mod_cast ha⟩] at hzero
  · intro addr size writing hsize haligned hlt
    refine outcome_of_lt rfl rfl ?_ hsize haligned hlt
    rw [Machine.start, hnum]
    exact hpagesLe
  · intro addr size writing hge
    exact outcome_of_ge rfl rfl hge
  · intro seg hseg i hi
    have hlast := hplaced.within seg hseg i hi
    have hsp : ((Machine.start s'.numPages (fun a ↦ s'.memory a)
        (identityTable behind)).registers stackReg).toNat
          = (pagesFor (addressSpaceSize noffH)).toNat * 128 - 16 := by
      have hreg : (Machine.start s'.numPages (fun a ↦ s'.memory a)
          (identityTable behind)).registers stackReg = s'.numPages * 128 - 16 := rfl
      have hpage : (128 : Word).toNat = 128 := rfl
      have hgap : (16 : Word).toNat = 16 := rfl
      rw [hreg, hnum, BitVec.toNat_sub, BitVec.toNat_mul, hpage, hgap]
      simp only [numPhysPages] at hpagesLe
      omega
    rw [hsp]
    omega

/-- Sixteen bytes of code, eight of data behind it and eight more to be cleared. -/
def smallProgram : List Byte :=
  fileOfWords [noffMagicNumber, 0, 52, 16, 16, 68, 8, 0, 0, 0, 24, 0, 8, 1, 2, 3, 4, 5, 6]

def smallHeader : NoffHeader :=
  ⟨noffMagicNumber, ⟨0, 52, 16⟩, ⟨16, 68, 8⟩, ⟨0, 0, 0⟩, ⟨24, 0, 8⟩⟩

private theorem smallProgram_wellPlaced :
    WellPlaced smallProgram (readHeader smallProgram fun _ ↦ 0) := by
  have hheader : readHeader smallProgram (fun _ ↦ 0) = smallHeader := by decide
  have happart : (segments smallHeader).Pairwise fun seg seg' ↦
      seg.virtualAddr.toInt + seg.size.toInt ≤ seg'.virtualAddr.toInt ∨
        seg'.virtualAddr.toInt + seg'.size.toInt ≤ seg.virtualAddr.toInt := by decide
  have hwithin : ∀ seg ∈ segments smallHeader,
      0 ≤ seg.virtualAddr.toInt ∧ seg.virtualAddr.toInt + seg.size.toInt ≤ total smallHeader := by
    decide
  rw [hheader]
  refine ⟨by decide, happart.imp ?_, fun seg hseg i hi ↦ ?_, by decide, by decide⟩
  · rintro seg seg' h i ⟨hge, hlt⟩ ⟨hge', hlt'⟩
    omega
  · obtain ⟨hge, hlt⟩ := hi
    have hbounds := hwithin seg hseg
    omega

theorem smallProgram_startsWith :
    ∃ s', load (some smallProgram) (fun _ ↦ 0) LoadState.fresh.construct = .ok true s' ∧
      StartsWith (Machine.start s'.numPages (fun a ↦ s'.memory a)
        (identityTable fun _ ↦ ⟨0, 0, false, false, false, false⟩)) smallProgram
        (readHeader smallProgram fun _ ↦ 0) :=
  load_startsWith (by decide) smallProgram_wellPlaced LoadState.fresh _

end AddrSpace

end Nachos
