import Nachos.Machine.State
import Nachos.Program.Bytes
import Nachos.Program.Exec

/-!
# Loading a program

`AddrSpace::Load` reads the header of an object file, computes how many pages the program needs from
the sizes in it, and then copies the segments, each to the address its own header entry gives. The
two have nothing to do with each other: the sizes are summed in 32 bits, and no address is tested.
So a copy can go anywhere, before the array as well as behind it. `written` records the bytes the
copies reach, as distances from the start of `mainMemory`; what the host keeps there is not
modelled.

The build is the one for a little-endian host with the stub file system, so `SwapHeader` is never
called, and `ReadAt` is a `lseek` that aborts on a negative position followed by a `read` of what
the file has.
-/

namespace Nachos

open Program

/-! ## The object file -/

structure Segment where
  virtualAddr : Word
  inFileAddr : Word
  size : Word
  deriving DecidableEq, Repr

structure NoffHeader where
  noffMagic : Word
  code : Segment
  initData : Segment
  readonlyData : Segment
  uninitData : Segment
  deriving DecidableEq, Repr

@[simp] abbrev noffMagicNumber : Word := 0xbadfad

@[simp] abbrev userStackSize : Word := 1024

/-- The three words of a segment entry at `a`. -/
def segmentAt (b : ℕ → Byte) (a : ℕ) : Segment := ⟨wordAt b a, wordAt b (a + 4), wordAt b (a + 8)⟩

/-- The header after `ReadAt`: a file that is too short leaves the rest of the variable as it
was. -/
def readHeader (file : List Byte) (stack : ℕ → Byte) : NoffHeader :=
  let b : ℕ → Byte := fun k ↦ file.getD k (stack k)
  { noffMagic := wordAt b 0
    code := segmentAt b 4
    initData := segmentAt b 16
    readonlyData := segmentAt b 28
    uninitData := segmentAt b 40 }

/-! ## Loading -/

namespace AddrSpace

/-- The memory of the host around `mainMemory`, counted from its start; which bytes of it the loader
has written; and the address space's `numPages`. -/
structure LoadState where
  memory : ℤ → Byte
  written : ℤ → Bool
  numPages : Word

abbrev Loader := EStateM Fault LoadState

/-- `bytes` stored from `into` on. -/
def LoadState.copy (s : LoadState) (into : ℤ) (bytes : List Byte) : LoadState :=
  { s with
    memory := fun i ↦
      if into ≤ i ∧ i < into + bytes.length then bytes.getD (i - into).toNat 0 else s.memory i
    written := fun i ↦ s.written i || decide (into ≤ i ∧ i < into + bytes.length) }

/-- `executable->ReadAt(&mainMemory[into], numBytes, position)`. -/
def readAt (file : List Byte) (into numBytes position : Word) : Loader Unit :=
  if position.toInt < 0 then throw .assertFailed
  else modify fun s ↦ s.copy into.toInt ((file.drop position.toNat).take numBytes.toNat)

/-- Copy one segment in. -/
def copySegment (file : List Byte) (seg : Segment) : Loader Unit :=
  if 0 < seg.size.toInt then readAt file seg.virtualAddr seg.size seg.inFileAddr else pure ()

/-- The size of the address space, in bytes. -/
def addressSpaceSize (noffH : NoffHeader) : Word :=
  noffH.code.size + noffH.readonlyData.size + noffH.initData.size + noffH.uninitData.size +
    userStackSize

/-- `divRoundUp(n, PageSize)`. -/
def pagesFor (n : Word) : Word := n / 128 + if 0 < (n % 128).toNat then 1 else 0

/-- `AddrSpace::Load`; `file` is the content of the named file, if it can be opened, and `stack`
what the header variable held before. -/
def load (file : Option (List Byte)) (stack : ℕ → Byte) : Loader Bool :=
  match file with
  | none => pure false
  | some file => do
    let noffH := readHeader file stack
    if noffH.noffMagic ≠ noffMagicNumber then throw .assertFailed
    modify fun s ↦ { s with numPages := pagesFor (addressSpaceSize noffH) }
    if numPhysPages < (pagesFor (addressSpaceSize noffH)).toNat then throw .assertFailed
    copySegment file noffH.code
    copySegment file noffH.initData
    copySegment file noffH.readonlyData
    return true

/-! ## Staying inside the address space -/

/-- The state a run ends in, however it ends. -/
def endState {α : Type} : EStateM.Result Fault LoadState α → LoadState
  | .ok _ s => s
  | .error _ s => s

/-- Everything written so far lies in the first `limit` bytes of `mainMemory`. -/
def LoadState.Within (s : LoadState) (limit : ℕ) : Prop :=
  ∀ i, s.written i = true → 0 ≤ i ∧ i < limit

/-- The load stopped before it wrote anything, or wrote only inside the pages of the address space,
of which there are no more than physical pages. -/
def Confined (r : EStateM.Result Fault LoadState Bool) : Prop :=
  ((∀ s, r ≠ .ok true s) ∧ ∀ i, (endState r).written i = false) ∨
    ((endState r).numPages.toNat ≤ numPhysPages ∧
      (endState r).Within ((endState r).numPages.toNat * pageSize))

/-- How much of a segment the file has. -/
def present (file : List Byte) (seg : Segment) : ℕ :=
  min seg.size.toNat (file.length - seg.inFileAddr.toNat)

/-- The data of the segment, as far as the file has it, belongs inside the first `limit` bytes. -/
def Fits (seg : Segment) (file : List Byte) (limit : ℕ) : Prop :=
  0 < present file seg →
    0 ≤ seg.virtualAddr.toInt ∧ seg.virtualAddr.toInt + present file seg ≤ limit

instance (seg : Segment) (file : List Byte) (limit : ℕ) : Decidable (Fits seg file limit) :=
  inferInstanceAs (Decidable (_ → _ ∧ _))

/-- The segments that are copied fit; a negative file offset ends the copying. -/
def SegmentsFit (file : List Byte) (limit : ℕ) : List Segment → Prop
  | [] => True
  | seg :: rest =>
    if 0 < seg.size.toInt then
      if seg.inFileAddr.toInt < 0 then True else Fits seg file limit ∧ SegmentsFit file limit rest
    else SegmentsFit file limit rest

instance decidableSegmentsFit (file : List Byte) (limit : ℕ) :
    (segs : List Segment) → Decidable (SegmentsFit file limit segs)
  | [] => .isTrue trivial
  | seg :: rest =>
    have := decidableSegmentsFit file limit rest
    inferInstanceAs (Decidable (if 0 < seg.size.toInt then
      if seg.inFileAddr.toInt < 0 then True else Fits seg file limit ∧ SegmentsFit file limit rest
      else SegmentsFit file limit rest))

/-- Copy several segments. -/
def copySegments (file : List Byte) : List Segment → Loader Unit
  | [] => pure ()
  | seg :: rest => do
    copySegment file seg
    copySegments file rest

section copying

variable {file : List Byte} {limit : ℕ}

private theorem length_read (file : List Byte) (seg : Segment) :
    ((file.drop seg.inFileAddr.toNat).take seg.size.toNat).length = present file seg := by
  rw [List.length_take, List.length_drop, present]

private theorem within_copy_iff (s : LoadState) (into : ℤ) (bytes : List Byte) :
    (s.copy into bytes).Within limit ↔
      s.Within limit ∧ (0 < bytes.length → 0 ≤ into ∧ into + bytes.length ≤ limit) := by
  simp only [LoadState.Within, LoadState.copy, Bool.or_eq_true, decide_eq_true_eq]
  constructor
  · intro h
    refine ⟨fun i hi ↦ h i (Or.inl hi), fun hpos ↦ ?_⟩
    have hfirst := h into (Or.inr ⟨by omega, by omega⟩)
    have hlast := h (into + bytes.length - 1) (Or.inr ⟨by omega, by omega⟩)
    omega
  · rintro ⟨hs, hnew⟩ i (hi | hi)
    · exact hs i hi
    · have := hnew (by omega)
      omega

/-- What the copies reach is decided by the header entries and the length of the file. -/
private theorem within_copySegments_iff (segs : List Segment) (s : LoadState) :
    (endState (copySegments file segs s)).Within limit ↔
      s.Within limit ∧ SegmentsFit file limit segs := by
  induction segs generalizing s with
  | nil => exact ⟨fun h ↦ ⟨h, trivial⟩, fun h ↦ h.1⟩
  | cons seg rest ih =>
    rw [SegmentsFit, copySegments]
    by_cases hsize : 0 < seg.size.toInt
    · rw [if_pos hsize]
      by_cases hpos : seg.inFileAddr.toInt < 0
      · have hstop : copySegment file seg s = .error .assertFailed s := by
          rw [copySegment, if_pos hsize, readAt, if_pos hpos]
          rfl
        rw [bind_of_error hstop, if_pos hpos, and_true]
        rfl
      · have hcopy : copySegment file seg s = .ok () (s.copy seg.virtualAddr.toInt
            ((file.drop seg.inFileAddr.toNat).take seg.size.toNat)) := by
          rw [copySegment, if_pos hsize, readAt, if_neg hpos]
          rfl
        rw [bind_of_ok hcopy, if_neg hpos, ih, within_copy_iff, length_read, and_assoc]
        rfl
    · have hskip : copySegment file seg s = .ok () s := by
        rw [copySegment, if_neg hsize]
        rfl
      rw [bind_of_ok hskip, if_neg hsize, ih]

theorem numPages_copySegments (file : List Byte) (segs : List Segment) (s : LoadState) :
    (endState (copySegments file segs s)).numPages = s.numPages := by
  induction segs generalizing s with
  | nil => rfl
  | cons seg rest ih =>
    rw [copySegments, copySegment]
    by_cases hsize : 0 < seg.size.toInt
    · rw [if_pos hsize, readAt]
      by_cases hpos : seg.inFileAddr.toInt < 0
      · rw [if_pos hpos]
        rfl
      · rw [if_neg hpos]
        exact ih _
    · rw [if_neg hsize]
      exact ih _

end copying

/-! ## When a load is confined -/

/-- The pages the header asks for. -/
def headerPages (file : List Byte) (stack : ℕ → Byte) : ℕ :=
  (pagesFor (addressSpaceSize (readHeader file stack))).toNat

/-- The segments that are copied, in the order of the source. -/
def copied (noffH : NoffHeader) : List Segment :=
  [noffH.code, noffH.initData, noffH.readonlyData]

section load

variable {file : List Byte} {stack : ℕ → Byte}

theorem load_eq (hmagic : (readHeader file stack).noffMagic = noffMagicNumber) (s : LoadState) :
    load (some file) stack s =
      if numPhysPages < headerPages file stack then
        .error .assertFailed
          { s with numPages := pagesFor (addressSpaceSize (readHeader file stack)) }
      else
        (do copySegments file (copied (readHeader file stack)); return true : Loader Bool)
          { s with numPages := pagesFor (addressSpaceSize (readHeader file stack)) } := by
  rw [load, if_neg (not_not.mpr hmagic)]
  by_cases hbig : numPhysPages < headerPages file stack
  · rw [if_pos hbig]
    rw [headerPages] at hbig
    simp only [if_pos hbig]
    rfl
  · rw [if_neg hbig]
    rw [headerPages] at hbig
    simp only [if_neg hbig, copied, copySegments, bind_assoc, pure_bind]
    rfl

private theorem endState_then_true (x : Loader Unit) (s : LoadState) :
    endState ((do x; return true : Loader Bool) s) = endState (x s) := by
  rw [bind_apply]
  cases x s with
  | ok a s' => rfl
  | error e s' => rfl

/-- Away from the assertion on the number of pages, being confined is a matter of where the copies
go: one that stopped before writing has written nothing outside either. -/
private theorem confined_copy_iff {x : Loader Unit} {s : LoadState}
    (hpages : (endState (x s)).numPages.toNat ≤ numPhysPages) :
    Confined ((do x; return true : Loader Bool) s) ↔
      (endState (x s)).Within ((endState (x s)).numPages.toNat * pageSize) := by
  rw [Confined, endState_then_true]
  constructor
  · rintro (⟨-, hnone⟩ | ⟨-, hin⟩)
    · intro i hi
      rw [hnone i] at hi
      cases hi
    · exact hin
  · intro hin
    exact Or.inr ⟨hpages, hin⟩

/-- A load of an object file is confined exactly when the header asks for too many pages, which an
assertion stops, or every segment that is copied has its data, as far as the file has it, inside the
pages asked for. -/
theorem load_confined_iff (hmagic : (readHeader file stack).noffMagic = noffMagicNumber)
    {s : LoadState} (hs : ∀ i, s.written i = false) :
    Confined (load (some file) stack s) ↔
      numPhysPages < headerPages file stack ∨
        SegmentsFit file (headerPages file stack * pageSize) (copied (readHeader file stack)) := by
  rw [load_eq hmagic]
  by_cases hbig : numPhysPages < headerPages file stack
  · rw [if_pos hbig]
    refine ⟨fun _ ↦ Or.inl hbig, fun _ ↦ Or.inl ⟨fun s' h' ↦ ?_, hs⟩⟩
    cases h'
  · have hpages := numPages_copySegments file (copied (readHeader file stack))
      { s with numPages := pagesFor (addressSpaceSize (readHeader file stack)) }
    rw [if_neg hbig, confined_copy_iff (by rw [hpages]; exact Nat.not_lt.mp hbig), hpages,
      within_copySegments_iff]
    constructor
    · rintro ⟨-, hfit⟩
      exact Or.inr hfit
    · rintro (h | hfit)
      · exact absurd h hbig
      · refine ⟨fun i hi ↦ ?_, hfit⟩
        rw [hs i] at hi
        cases hi

end load

/-- The bytes of a list of words. -/
def fileOfWords (ws : List Word) : List Byte := ws.flatMap fun w ↦ (List.range 4).map (wordByte w)

/-- A program of four words, to be put at `virtualAddr`. -/
def fourWords (virtualAddr : Word) : List Byte :=
  fileOfWords [noffMagicNumber, virtualAddr, 52, 16, 0, 0, 0, 0, 0, 0, 0, 0, 0, 1, 2, 3, 4]

/-- Nothing loaded yet. -/
def LoadState.fresh : LoadState := ⟨fun _ ↦ 0, fun _ ↦ false, 0⟩

/-- Four words of code for address 32768 pass every test and are written there, twice the size of
physical memory past its start. -/
theorem fourWords_not_confined :
    ¬∀ (file : List Byte) (stack : ℕ → Byte) (s : LoadState),
      (readHeader file stack).noffMagic = noffMagicNumber → (∀ i, s.written i = false) →
        Confined (load (some file) stack s) := by
  intro h
  have hrun := h (fourWords 32768) (fun _ ↦ 0) LoadState.fresh (by decide) fun _ ↦ rfl
  have hpages : (endState (load (some (fourWords 32768)) (fun _ ↦ 0)
      LoadState.fresh)).numPages = 9 := by
    decide
  have hwritten : (endState (load (some (fourWords 32768)) (fun _ ↦ 0)
      LoadState.fresh)).written 32768 = true := by
    decide
  rcases hrun with ⟨-, hnone⟩ | ⟨-, hin⟩
  · rw [hnone] at hwritten
    cases hwritten
  · have := hin 32768 hwritten
    rw [hpages] at this
    exact absurd this.2 (by decide)

/-- The same program linked for address zero. -/
theorem fourWords_confined :
    Confined (load (some (fourWords 0)) (fun _ ↦ 0) LoadState.fresh) :=
  (load_confined_iff (by decide) fun _ ↦ rfl).mpr (Or.inr (by decide))

end AddrSpace

end Nachos
