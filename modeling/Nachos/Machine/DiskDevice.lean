import Mathlib.Data.Int.ModEq
import Mathlib.Data.Option.Basic
import Mathlib.Order.Bounds.Defs
import Nachos.FileSys.Disk

/-!
# How long a disk request takes

`Disk::ComputeLatency` puts a request together from the seek to another track, the wait for the
next sector boundary, the rotation to the sector and the transfer. What it should come to is said
over a disk that turns by one sector in every `RotationTime`: sector `s` passes the head from each
boundary `k * RotationTime` on with `k` congruent to `s` modulo the sectors of a track. The times
are integers here; the `int`s of the code are taken not to overflow.

A track buffer may serve a read when the sector has passed since `bufferInit`. That the code counts
whole sectors from there is right because `bufferInit` is always a sector boundary.
-/

namespace Nachos

/-! ## The rotating disk -/

@[simp] abbrev sectorsPerTrack : ℤ := 32

@[simp] abbrev rotationTime : ℤ := 500

@[simp] abbrev seekTime : ℤ := 500

/-- The sector passes the head from `start` to `start + rotationTime`. -/
def PassesAt (sector start : ℤ) : Prop :=
  ∃ k, start = k * rotationTime ∧ k ≡ sector [ZMOD sectorsPerTrack]

/-- The whole sector passes the head between the two times. -/
def PassesWithin (sector since upTo : ℤ) : Prop :=
  ∃ start, PassesAt sector start ∧ since ≤ start ∧ start + rotationTime ≤ upTo

/-- The number of the first sector boundary at or after a time. -/
def boundaryFrom (u : ℤ) : ℤ := (u + rotationTime - 1) / rotationTime

/-- The first number from `a` on in a residue class. -/
private theorem isLeast_modEq (a s : ℤ) {n : ℤ} (hn : 0 < n) :
    IsLeast {k | a ≤ k ∧ k ≡ s [ZMOD n]} (a + (s - a) % n) := by
  have hnonneg := Int.emod_nonneg (s - a) (Int.ne_of_gt hn)
  constructor
  · refine ⟨by omega, ?_⟩
    have hmod : (s - a) % n ≡ s - a [ZMOD n] := Int.mod_modEq _ _
    simpa using hmod.add_left a
  · rintro k ⟨hak, hk⟩
    -- `k - a` is in the same class and not negative
    have hsame : k - a ≡ s - a [ZMOD n] := hk.sub_right a
    have hquot := Int.mul_ediv_add_emod (k - a) n
    have hprod : 0 ≤ n * ((k - a) / n) :=
      Int.mul_nonneg (Int.le_of_lt hn) (Int.ediv_nonneg (by omega) (Int.le_of_lt hn))
    rw [hsame] at hquot
    omega

theorem boundaryFrom_le {u k : ℤ} : boundaryFrom u ≤ k ↔ u ≤ k * rotationTime := by
  simp only [boundaryFrom, rotationTime]
  omega

private theorem isLeast_boundaryFrom (u : ℤ) :
    IsLeast {b | rotationTime ∣ b ∧ u ≤ b} (boundaryFrom u * rotationTime) := by
  refine ⟨⟨Int.dvd_mul_left _ _, boundaryFrom_le.mp (Int.le_refl _)⟩, ?_⟩
  rintro b ⟨⟨k, rfl⟩, hb⟩
  rw [Int.mul_comm] at hb
  have := boundaryFrom_le.mpr hb
  simp only [rotationTime]
  omega

/-- The sector has passed when the disk has turned to it from the next boundary and by one sector
more. -/
theorem passesWithin_iff (sector u e : ℤ) :
    PassesWithin sector u e ↔
      (boundaryFrom u + (sector - boundaryFrom u) % sectorsPerTrack + 1) * rotationTime ≤ e := by
  obtain ⟨⟨hle, hmod⟩, hleast⟩ :=
    isLeast_modEq (boundaryFrom u) sector (show (0 : ℤ) < sectorsPerTrack by decide)
  constructor
  · rintro ⟨start, ⟨k, rfl, hk⟩, hu, he⟩
    have hfirst := hleast ⟨boundaryFrom_le.mpr hu, hk⟩
    simp only [rotationTime] at *
    omega
  · intro he
    refine ⟨_, ⟨_, rfl, hmod⟩, boundaryFrom_le.mp hle, ?_⟩
    simp only [rotationTime] at *
    omega

/-! ## The code -/

/-- `Disk`, without the file behind it. -/
structure DiskDevice where
  lastSector : ℤ
  bufferInit : ℤ
  active : Bool
  deriving DecidableEq, Repr

namespace DiskDevice

/-- `Disk::Disk`. -/
def create : DiskDevice := ⟨0, 0, false⟩

variable (d : DiskDevice) (totalTicks newSector : ℤ)

/-- `Disk::TimeToSeek`: the time of the seek, and the rotation to the next boundary after it. -/
def timeToSeek : ℤ × ℤ :=
  let newTrack := newSector.tdiv sectorsPerTrack
  let oldTrack := d.lastSector.tdiv sectorsPerTrack
  let seek := (newTrack - oldTrack).natAbs * seekTime
  let over' := (totalTicks + seek).tmod rotationTime
  (seek, if 0 < over' then rotationTime - over' else 0)

/-- `Disk::ModuloDiff`. -/
def moduloDiff (target current : ℤ) : ℤ :=
  let toOffset := target.tmod sectorsPerTrack
  let fromOffset := current.tmod sectorsPerTrack
  ((toOffset - fromOffset) + sectorsPerTrack).tmod sectorsPerTrack

/-- The test of `ComputeLatency` for the track buffer. -/
def BufferApplies (writing : Bool) : Prop :=
  let (seek, rotation) := d.timeToSeek totalTicks newSector
  let timeAfter := totalTicks + seek + rotation
  writing = false ∧ seek = 0 ∧
    moduloDiff newSector (d.bufferInit.tdiv rotationTime)
      < (timeAfter - d.bufferInit).tdiv rotationTime

instance (writing : Bool) : Decidable (d.BufferApplies totalTicks newSector writing) :=
  inferInstanceAs (Decidable (_ ∧ _))

/-- `Disk::ComputeLatency`. -/
def computeLatency (writing : Bool) : ℤ :=
  let (seek, rotation) := d.timeToSeek totalTicks newSector
  let timeAfter := totalTicks + seek + rotation
  if d.BufferApplies totalTicks newSector writing then rotationTime
  else
    let rotation := rotation + moduloDiff newSector (timeAfter.tdiv rotationTime) * rotationTime
    seek + rotation + rotationTime

/-- `Disk::UpdateLast`. -/
def updateLast : DiskDevice :=
  let (seek, rotate) := d.timeToSeek totalTicks newSector
  { d with
    bufferInit := if seek ≠ 0 then totalTicks + seek + rotate else d.bufferInit
    lastSector := newSector }

/-- `Disk::ReadRequest` and `Disk::WriteRequest`: the time after which the interrupt comes, and the
disk at work. -/
def request (writing : Bool) : Option (ℤ × DiskDevice) := do
  let ticks := d.computeLatency totalTicks newSector writing
  guard (d.active = false)
  guard (0 ≤ newSector ∧ newSector < numSectors)
  some (ticks, { d with active := true }.updateLast totalTicks newSector)

/-- `Disk::CallBack`. -/
def callBack : DiskDevice := { d with active := false }

/-- The states of the disk under any sequence of requests, with the time. The interrupt may come at
any time. -/
inductive Reachable : DiskDevice → ℤ → Prop
  | create : Reachable create 0
  | tick {d : DiskDevice} {totalTicks later : ℤ} :
      Reachable d totalTicks → totalTicks ≤ later → Reachable d later
  | request {d d' : DiskDevice} {totalTicks newSector ticks : ℤ} {writing : Bool} :
      Reachable d totalTicks → d.request totalTicks newSector writing = some (ticks, d') →
      Reachable d' totalTicks
  | callBack {d : DiskDevice} {totalTicks : ℤ} :
      Reachable d totalTicks → Reachable d.callBack totalTicks

/-! ## What it comes to -/

/-- The time a seek takes. -/
def seek : ℤ := (newSector / sectorsPerTrack - d.lastSector / sectorsPerTrack).natAbs * seekTime

theorem seek_nonneg : 0 ≤ d.seek newSector := Int.mul_nonneg (Int.natCast_nonneg _) (by decide)

/-- The last sector is on the disk, and the buffer was started at a sector boundary. -/
structure Valid : Prop where
  lastSector_nonneg : 0 ≤ d.lastSector
  lastSector_lt : d.lastSector < numSectors
  bufferInit_nonneg : 0 ≤ d.bufferInit
  bufferInit_dvd : rotationTime ∣ d.bufferInit

private theorem moduloDiff_eq {target current : ℤ} (ht : 0 ≤ target) (hc : 0 ≤ current) :
    moduloDiff target current = (target - current) % sectorsPerTrack := by
  have ht' := Int.tmod_eq_emod_of_nonneg (b := sectorsPerTrack) ht
  have hc' := Int.tmod_eq_emod_of_nonneg (b := sectorsPerTrack) hc
  rw [moduloDiff, ht', hc', Int.tmod_eq_emod_of_nonneg (by simp only [sectorsPerTrack]; omega)]
  simp only [sectorsPerTrack]
  omega

variable {d totalTicks newSector} (hd : d.Valid) (ht : 0 ≤ totalTicks) (hn : 0 ≤ newSector)

include hd ht hn

/-- After the seek and the rotation the head is at the next boundary. -/
theorem timeToSeek_eq :
    d.timeToSeek totalTicks newSector = (d.seek newSector,
      boundaryFrom (totalTicks + d.seek newSector) * rotationTime
        - (totalTicks + d.seek newSector)) := by
  have hseek := seek_nonneg d newSector
  have hlast := Int.tdiv_eq_ediv_of_nonneg (b := sectorsPerTrack) hd.lastSector_nonneg
  have hnew := Int.tdiv_eq_ediv_of_nonneg (b := sectorsPerTrack) hn
  have hover := Int.tmod_eq_emod_of_nonneg (b := rotationTime)
    (show 0 ≤ totalTicks + d.seek newSector by omega)
  rw [timeToSeek, hlast, hnew, ← seek, hover, boundaryFrom]
  refine Prod.ext rfl ?_
  simp only [rotationTime]
  split <;> omega

private theorem bufferApplies_iff (writing : Bool) :
    d.BufferApplies totalTicks newSector writing ↔
      writing = false ∧ d.seek newSector = 0 ∧
        PassesWithin newSector d.bufferInit (boundaryFrom totalTicks * rotationTime) := by
  obtain ⟨b, hb⟩ := hd.bufferInit_dvd
  have hpos := hd.bufferInit_nonneg
  have hfirst : boundaryFrom d.bufferInit = b := by
    rw [hb, boundaryFrom]
    simp only [rotationTime]
    omega
  rw [BufferApplies, timeToSeek_eq hd ht hn]
  refine and_congr_right fun _ ↦ and_congr_right fun hseek ↦ ?_
  have hstart : d.bufferInit.tdiv rotationTime = b := by
    rw [hb, Int.mul_tdiv_cancel_left _ (by decide)]
  have hafter : totalTicks + d.seek newSector
      + (boundaryFrom (totalTicks + d.seek newSector) * rotationTime
        - (totalTicks + d.seek newSector)) - d.bufferInit
      = rotationTime * (boundaryFrom totalTicks - b) := by
    rw [add_sub_cancel, hseek, Int.add_zero, hb]
    simp only [rotationTime]
    omega
  rw [passesWithin_iff, hfirst, hstart, hafter, Int.mul_tdiv_cancel_left _ (by decide),
    moduloDiff_eq hn (by simp only [rotationTime] at *; omega)]
  simp only [rotationTime]
  omega

/-- Without the buffer the request ends when the sector has passed the head behind the seek. -/
private theorem computeLatency_eq (writing : Bool) :
    totalTicks + d.computeLatency totalTicks newSector writing =
      if d.BufferApplies totalTicks newSector writing then totalTicks + rotationTime
      else
        (boundaryFrom (totalTicks + d.seek newSector)
          + (newSector - boundaryFrom (totalTicks + d.seek newSector)) % sectorsPerTrack + 1)
          * rotationTime := by
  have hseek := seek_nonneg d newSector
  have hnonneg : 0 ≤ boundaryFrom (totalTicks + d.seek newSector) := by
    simp only [boundaryFrom, rotationTime]
    omega
  rw [computeLatency, timeToSeek_eq hd ht hn]
  simp only [add_sub_cancel, Int.mul_tdiv_cancel _ (show rotationTime ≠ 0 by decide),
    moduloDiff_eq hn hnonneg]
  split
  · rfl
  · simp only [rotationTime]
    omega

omit ht hn in
theorem Valid.updateLast (ht : 0 ≤ totalTicks) (hn : 0 ≤ newSector) (hlt : newSector < numSectors) :
    (d.updateLast totalTicks newSector).Valid := by
  have hseek := seek_nonneg d newSector
  rw [DiskDevice.updateLast, timeToSeek_eq hd ht hn]
  simp only [add_sub_cancel]
  refine ⟨hn, hlt, ?_, ?_⟩
  · simp only
    split
    · simp only [boundaryFrom, rotationTime]
      omega
    · exact hd.bufferInit_nonneg
  · simp only
    split
    · exact Int.dvd_mul_left _ _
    · exact hd.bufferInit_dvd

omit hd ht hn

/-- A request that is accepted leaves the disk valid. -/
theorem Valid.request {d d' : DiskDevice} {ticks : ℤ} {writing : Bool} (hd : d.Valid)
    (ht : 0 ≤ totalTicks) (h : d.request totalTicks newSector writing = some (ticks, d')) :
    d'.Valid := by
  have hvalid : { d with active := true }.Valid :=
    ⟨hd.lastSector_nonneg, hd.lastSector_lt, hd.bufferInit_nonneg, hd.bufferInit_dvd⟩
  rw [DiskDevice.request] at h
  simp only [Option.bind_eq_bind, Option.bind_eq_some_iff, Option.guard_eq_some'] at h
  obtain ⟨-, -, -, hrange, hstate⟩ := h
  cases hstate
  exact hvalid.updateLast ht hrange.1 hrange.2

theorem Reachable.valid {d : DiskDevice} {totalTicks : ℤ} (h : Reachable d totalTicks) :
    d.Valid ∧ 0 ≤ totalTicks := by
  induction h with
  | create => exact ⟨⟨by decide, by decide, by decide, by decide⟩, by decide⟩
  | tick _ hle ih => exact ⟨ih.1, Int.le_trans ih.2 hle⟩
  | request _ hrun ih => exact ⟨ih.1.request ih.2 hrun, ih.2⟩
  | callBack _ ih =>
    obtain ⟨⟨h₁, h₂, h₃, h₄⟩, hpos⟩ := ih
    exact ⟨⟨h₁, h₂, h₃, h₄⟩, hpos⟩

/-- **The latency is that of the rotating disk.** In every reachable state, at every time and for
every sector of the disk, a request takes at least the time of a transfer. Without the track buffer
it ends at the earliest sector boundary at which the whole sector has passed the head since the end
of the seek. The track buffer serves exactly the reads without a seek whose sector has passed
between `bufferInit` and the next boundary. -/
theorem computeLatency_spec {d : DiskDevice} {now : ℤ} (h : Reachable d now) {totalTicks : ℤ}
    (ht : 0 ≤ totalTicks) {newSector : ℤ} (hn : 0 ≤ newSector ∧ newSector < numSectors)
    (writing : Bool) :
    rotationTime ≤ d.computeLatency totalTicks newSector writing ∧
    (d.BufferApplies totalTicks newSector writing →
      d.computeLatency totalTicks newSector writing = rotationTime) ∧
    (¬d.BufferApplies totalTicks newSector writing →
      IsLeast {e | rotationTime ∣ e ∧ PassesWithin newSector (totalTicks + d.seek newSector) e}
        (totalTicks + d.computeLatency totalTicks newSector writing) ∧
      (totalTicks + d.computeLatency totalTicks newSector writing) / rotationTime - 1
        ≡ newSector [ZMOD sectorsPerTrack]) ∧
    ∃ boundary, IsLeast {b | rotationTime ∣ b ∧ totalTicks ≤ b} boundary ∧
      (d.BufferApplies totalTicks newSector writing ↔
        writing = false ∧ newSector / sectorsPerTrack = d.lastSector / sectorsPerTrack ∧
          PassesWithin newSector d.bufferInit boundary) := by
  obtain ⟨hd, -⟩ := h.valid
  have hlatency := computeLatency_eq hd ht hn.1 writing
  have hseek := seek_nonneg d newSector
  have hbehind := boundaryFrom_le.mp (Int.le_refl (boundaryFrom (totalTicks + d.seek newSector)))
  refine ⟨?_, fun happlies ↦ ?_, fun happlies ↦ ⟨?_, ?_⟩,
    boundaryFrom totalTicks * rotationTime, isLeast_boundaryFrom totalTicks, ?_⟩
  · split at hlatency
    · omega
    · simp only [rotationTime, sectorsPerTrack] at *
      omega
  · rw [if_pos happlies] at hlatency
    omega
  · rw [hlatency, if_neg happlies]
    exact ⟨⟨Int.dvd_mul_left _ _, (passesWithin_iff ..).mpr (Int.le_refl _)⟩,
      fun e he ↦ (passesWithin_iff ..).mp he.2⟩
  · rw [hlatency, if_neg happlies, Int.mul_ediv_cancel _ (by decide), Int.add_sub_cancel]
    exact (isLeast_modEq _ newSector (by decide)).1.2
  · rw [bufferApplies_iff hd ht hn.1]
    refine and_congr_right fun _ ↦ and_congr_left fun _ ↦ ?_
    simp only [seek, seekTime]
    omega

/-- A write to another track; a read of the sector behind it finds it in the buffer. -/
theorem computeLatency_second_request :
    Reachable ⟨40, 500, true⟩ 0 ∧
      rotationTime ≤ computeLatency ⟨40, 500, true⟩ 20000 41 false ∧
      BufferApplies ⟨40, 500, true⟩ 20000 41 false := by
  have h : Reachable ⟨40, 500, true⟩ 0 :=
    Reachable.create.request (show create.request 0 40 true = some (4500, _) by decide +kernel)
  exact ⟨h, (computeLatency_spec h (by decide) (by decide) false).1, by decide +kernel⟩

end DiskDevice

end Nachos
