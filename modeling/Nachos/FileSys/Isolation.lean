import Nachos.FileSys.Session

/-!
# A handle reaches its own file only

A handle keeps the header it was opened with. As long as the file is in the directory its data
sectors belong to it alone, so a write through the handle changes no other file. Once the file is
removed the sectors go back to the pool, the handle still lists them, and the next file to get them
is written through the old handle.
-/

namespace Nachos

open Program

namespace Session

/-- The disk when an operation is over, whether it returned or not. -/
def diskAfter (fs : FileSystem) (s : Session) (op : FileOp) : Disk :=
  match s.exec fs op with
  | .ok _ s' => s'.disk
  | .error _ s' => s'.disk

/-- The file in entry `j` is still there, with the same header and the same bytes. -/
structure SameFile (d d' : Disk) (j : ℕ) : Prop where
  inUse : InUse d' j
  header : fileHeader d' j = fileHeader d j
  contents : ∀ x < (fileHeader d j).length, (fileHeader d' j).flat d' x = (fileHeader d j).flat d x

/-- The sectors of the bitmap and of the directory are as they were. -/
structure SameSystem (d d' : Disk) : Prop where
  freeMapHeader : d' freeMapSector = d freeMapSector
  directoryHeader : d' directorySector = d directorySector
  freeMapData : ∀ t, (headerAt d freeMapSector).Owns t → d' t = d t
  directoryData : ∀ t, (headerAt d directorySector).Owns t → d' t = d t

/-- What is to hold of a write through a handle: it changes no file but the one that was opened, so
none at all if that one is gone, and nothing of the bitmap and the directory. -/
def StepIsolated (fs : FileSystem) (s : Session) : FileOp → Prop
  | .writeAt i junk src numBytes position =>
    ∀ h, s.handles[i]? = some h →
      (∀ j, InUse s.disk j → h.removed = true ∨ j ≠ h.entry →
        SameFile s.disk (s.diskAfter fs (.writeAt i junk src numBytes position)) j) ∧
      SameSystem s.disk (s.diskAfter fs (.writeAt i junk src numBytes position))
  | _ => True

variable {fs : FileSystem} {s : Session}

theorem Inv.stepIsolated (hs : s.Inv fs) {op : FileOp} (hpresent : s.Present op)
    (hproper : s.Proper op) : s.StepIsolated fs op := by
  cases op with
  | create | openFile | remove | readAt => exact trivial
  | writeAt i junk src numBytes position =>
    intro h hi
    have hthere := hpresent h hi
    obtain ⟨r, d, hrun, hinv, hframe⟩ :=
      hs.writeAt (List.mem_of_getElem? hi) hthere (hproper h hi) junk src
    obtain ⟨huse, -⟩ := hs.handles h (List.mem_of_getElem? hi) hthere
    have hafter : s.diskAfter fs (.writeAt i junk src numBytes position) = d := by
      rw [diskAfter, exec, hi]
      simp only [onDisk_of_ok hrun]
    rw [hafter]
    obtain ⟨-, -, -, hdirectory, hkeep⟩ := hs.consistent.written_views huse hframe
    -- a sector with another owner is not written
    have hother : ∀ o : Owner, o.Live s.disk → (∀ j, o ≠ .data h.entry j) →
        d (o.sector s.disk) = s.disk (o.sector s.disk) := by
      refine fun o ho hne ↦ hframe _ ?_
      rintro ⟨j, hj, heq⟩
      exact hne j (hs.consistent.allocated.injective (.data h.entry j) o ⟨huse, hj⟩ ho heq).symm
    refine ⟨fun j hj hne ↦ ⟨⟨hj.1, ?_⟩, (hkeep j hj).2, fun x hx ↦ ?_⟩, ?_, ?_, ?_, ?_⟩
    · rw [hdirectory.inUse hj.1, hj.2]
    · rw [(hkeep j hj).2]
      refine (hs.consistent.file_valid j hj).flat_congr ?_ hx
      rintro t ⟨m, hm, rfl⟩
      refine hother (.data j m) ⟨hj, hm⟩ fun m' heq ↦ ?_
      cases heq
      rw [hthere] at hne
      rcases hne with hne | hne
      · cases hne
      · exact hne rfl
    · exact hother .freeMapHeader trivial fun _ heq ↦ by cases heq
    · exact hother .directoryHeader trivial fun _ heq ↦ by cases heq
    · rintro t ⟨m, hm, rfl⟩
      exact hother (.freeMapData m) hm fun _ heq ↦ by cases heq
    · rintro t ⟨m, hm, rfl⟩
      exact hother (.directoryData m) hm fun _ heq ↦ by cases heq

end Session

/-- **Isolation.** From a formatted disk, along every run of `Create`, `Open`, `Remove`, `ReadAt`
and `WriteAt` in which each write goes through a handle whose file was not removed since it was
opened, at a position that is not negative, a write changes no file but the handle's own and nothing
of the bitmap and the directory. -/
theorem isolation_of_present (junk : ℕ → Garbage) (d : Disk) :
    ∃ fs d₀, FileSystem.start junk d = .ok fs d₀ ∧
      ∀ ops, Along (Session.step fs) (fun s op ↦ s.Present op ∧ s.Proper op) ⟨d₀, []⟩ ops →
        Along (Session.step fs) (Session.StepIsolated fs) ⟨d₀, []⟩ ops := by
  obtain ⟨fs, d₀, hrun, hinv⟩ := start_inv junk d
  refine ⟨fs, d₀, hrun, fun ops hops ↦ ?_⟩
  exact Along.imp (Session.Inv fs) (fun s op hs hop ↦ hs.stepIsolated hop.1 hop.2)
    (fun s op s' hs hop hstep ↦ hs.step hop.1 hop.2 hstep) hinv hops

/-- A run that meets the conditions, with a write. -/
theorem isolation_of_present_write :
    ∃ fs d₀, FileSystem.start (fun _ ↦ zeroGarbage) (fun _ _ ↦ 0) = .ok fs d₀ ∧
      Along (Session.step fs) (Session.StepIsolated fs) ⟨d₀, []⟩
        [createF, openF, .writeAt 0 (fun _ ↦ 0) (fun _ ↦ 1) 1 0] := by
  obtain ⟨fs, d₀, d₁, s, h, hstart, -, -, -, -, hcreate, hopen⟩ :=
    exists_openF (fun _ ↦ zeroGarbage) (fun _ _ ↦ 0) 256 (by decide) (by decide)
  obtain ⟨fs', d₀', hstart', hall⟩ := isolation_of_present (fun _ ↦ zeroGarbage) fun _ _ ↦ 0
  cases hstart.symm.trans hstart'
  refine ⟨fs, d₀, hstart, hall _ ⟨⟨trivial, trivial⟩, fun s₁ hs₁ ↦ ⟨⟨trivial, trivial⟩,
    fun s₂ hs₂ ↦ ?_⟩⟩⟩
  cases hcreate.symm.trans hs₁
  cases hopen.symm.trans hs₂
  refine ⟨⟨fun h' hh' ↦ ?_, fun h' hh' ↦ .inr (.inr (by decide))⟩, fun _ _ ↦ trivial⟩
  cases hh'
  rfl

/-! ## The failing run -/

/-- The name of one letter, `g`. -/
def nameG : List Byte := [0x67]

/-- A handle outlives its file: `f` is removed, `g` gets its sectors, and a write through the old
handle changes `g`. -/
theorem not_isolation_of_removed :
    ¬∀ (junk : ℕ → Garbage) (d : Disk), ∃ fs d₀, FileSystem.start junk d = .ok fs d₀ ∧
      ∀ ops, Along (Session.step fs) (Session.StepIsolated fs) ⟨d₀, []⟩ ops := by
  intro hisolated
  obtain ⟨fs, d₀, d₁, s, h, hstart, hl₀, hc, hl₁, hclears, hcreate, hopen⟩ :=
    exists_openF (fun _ ↦ zeroGarbage) (fun _ _ ↦ 0) 128 (by decide) (by decide)
  obtain ⟨fs', d₀', hstart', hall⟩ := hisolated (fun _ ↦ zeroGarbage) fun _ _ ↦ 0
  cases hstart.symm.trans hstart'
  obtain ⟨hindex, -⟩ := hl₀.open_created (by decide) hc zeroGarbage
  -- `f` is removed
  rcases hl₁.consistent.remove_cases zeroGarbage nameF with ⟨d₂, k, hk, hremove, hr⟩ | ⟨hnone, -⟩
  swap
  · rw [hindex] at hnone
    cases hnone
  have hk₂ : k = 2 := by
    rw [hindex] at hk
    exact (Int.ofNat.inj hk).symm
  subst hk₂
  have hentry : Session.entryOf ⟨d₁, [⟨h, 2, false⟩]⟩ nameF = 2 := by
    rw [Session.entryOf, hindex]
    rfl
  have hremoved : Session.step fs ⟨d₁, [⟨h, 2, false⟩]⟩ (.remove zeroGarbage nameF) =
      some ⟨d₂, [⟨h, 2, true⟩]⟩ := by
    rw [Session.step_eq_some, Session.exec, Session.onDisk_of_ok hremove, Session.dropped, hentry]
    rfl
  obtain ⟨hl₂, hclears₂⟩ := hl₀.restored hc hr
  -- `g` is created in the same sectors
  obtain ⟨d₃, s', h', hcreateG, hc', -⟩ := hl₂.create zeroGarbage nameG 128 (by decide) (by decide)
    (by decide) (by decide) (by rw [hclears₂, hclears]; decide)
  have hcreatedG : Session.step fs ⟨d₂, [⟨h, 2, true⟩]⟩ (.create zeroGarbage nameG 128) =
      some ⟨d₃, [⟨h, 2, true⟩]⟩ := Session.step_eq_some.mpr (Session.onDisk_of_ok hcreateG)
  have hcount : 0 < h.count := by
    rw [hc.count_eq]
    decide
  have hsector : h'.sectorAt 0 = h.sectorAt 0 := sectorAt_zero_unique hc hc'
    (fun t ht ↦ bit_restored hl₀.consistent hc hr ht) hcount (by rw [hc'.count_eq]; decide)
  -- one byte is written through the old handle
  have hlength : 0 < h.length := by
    rw [FileHeader.length, hc.length]
    decide
  obtain ⟨d₄, hwrite, hin, -⟩ := writeAt_flat hc.valid (fun _ ↦ 0) (Int.le_refl 0)
    (show (0 : ℤ) + 1 < 2 ^ 31 by decide) (fun _ ↦ h.flat d₃ 0 + 1) d₃
  obtain ⟨-, hrest⟩ := hall [.create zeroGarbage nameF 128, openF, .remove zeroGarbage nameF,
    .create zeroGarbage nameG 128, .writeAt 0 (fun _ ↦ 0) (fun _ ↦ h.flat d₃ 0 + 1) 1 0]
  obtain ⟨-, hrest⟩ := hrest _ hcreate
  obtain ⟨-, hrest⟩ := hrest _ hopen
  obtain ⟨-, hrest⟩ := hrest _ hremoved
  obtain ⟨hlast, -⟩ := hrest _ hcreatedG
  obtain ⟨hfiles, -⟩ := hlast ⟨h, 2, true⟩ rfl
  obtain ⟨-, -, huse, -, hheader, -⟩ := hl₂.consistent.created_views hc'
  have hafter : Session.diskAfter fs ⟨d₃, [⟨h, 2, true⟩]⟩
      (.writeAt 0 (fun _ ↦ 0) (fun _ ↦ h.flat d₃ 0 + 1) 1 0) = d₄ := by
    have hexec : Session.exec fs ⟨d₃, [⟨h, 2, true⟩]⟩
        (.writeAt 0 (fun _ ↦ 0) (fun _ ↦ h.flat d₃ 0 + 1) 1 0) = .ok () ⟨d₄, [⟨h, 2, true⟩]⟩ :=
      Session.onDisk_of_ok hwrite
    rw [Session.diskAfter, hexec]
  have hsame := hfiles 2 ((huse 2).mpr (.inr rfl)) (.inl rfl)
  rw [hafter] at hsame
  have hbyte : h.flat d₄ 0 = h.flat d₃ 0 + 1 := by
    rw [hin 0 hlength, if_pos]
    rw [FileHeader.transferred, hc.length]
    decide
  have hflat : ∀ d : Disk, h'.flat d 0 = h.flat d 0 := fun d ↦ by
    rw [FileHeader.flat, FileHeader.flat, show 0 / sectorSize = 0 from rfl, hsector]
  have hcontents := hsame.contents 0 (by
    rw [show fileHeader d₃ 2 = h' from hheader, FileHeader.length, hc'.length]
    decide)
  rw [hsame.header, show fileHeader d₃ 2 = h' from hheader, hflat, hflat, hbyte] at hcontents
  revert hcontents
  generalize h.flat d₃ 0 = x
  revert x
  decide

end Nachos
