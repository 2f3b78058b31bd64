import Nachos.Userprog.WriteBytes

/-!
# What goes over a socket

`Receive` has the host read `len` bytes into an array of `MaxLenghtData`, and then copies the array
to the user as a string of at most `len` characters. So the host may write past the array; a zero
among the received bytes ends the copy; and where none comes, the zero behind them is copied as
well.

`Send` fetches a string of at most `MaxLenghtData` characters and compares its length, which is
unsigned, with the requested one, which is not: for a negative length the whole string goes out.
-/

namespace Nachos

open Program

/-! ## `Receive` -/

/-- What the host delivers to a `Receive`. -/
def Kernel.delivered (k : Kernel) (t : Trap) : Option (List Byte) :=
  (k.host.read (t.machine.registers 4) (t.machine.registers 6) t.env.readFails t.env.received).1

/-- A `Receive` into a buffer of the requested length that the user program may write. -/
structure Trap.Receiving (t : Trap) : Prop where
  code : t.machine.registers 2 = Syscall.receive.code
  linear : t.machine.Linear
  frames : t.machine.DistinctFrames
  writable : 0 ≤ (t.machine.registers 6).toInt →
    t.machine.Writable (t.machine.registers 5) (t.machine.registers 6).toNat

/-- The call returns. Where the descriptor is negative or the host fails, its result is `-1` and
user memory is as it was. Otherwise the host has not written past the array, the result is the
number of bytes received, these bytes are in the buffer, and no other byte of user memory is
touched. -/
def Kernel.ReceivesExactly (k : Kernel) (t : Trap) : Prop :=
  ∃ k', k.handle t = .ok () k' ∧
    match (if (t.machine.registers 4).toInt < 0 then none else k.delivered t) with
    | none => k'.machine.registers 2 = -1 ∧ ∀ x, k'.machine.byteAt x = t.machine.byteAt x
    | some bytes => bytes.length ≤ maxLengthData.toNat ∧
        (k'.machine.registers 2).toInt = bytes.length ∧
        t.machine.Copied k'.machine (t.machine.registers 5) bytes

/-- What `System2User` leaves out of the received bytes, or adds to them, is in user memory
already. -/
structure Trap.Harmless (t : Trap) (bytes : List Byte) : Prop where
  fits : bytes.length ≤ maxLengthData.toNat
  /-- Nothing is copied for a negative length. -/
  negative : (t.machine.registers 6).toInt < 0 → ∀ j < bytes.length,
    t.machine.byteAt (t.machine.registers 5 + BitVec.ofNat 32 j) = bytes[j]?
  /-- Nothing is copied behind a zero. -/
  behind : 0 ≤ (t.machine.registers 6).toInt → ∀ j < bytes.length,
    (∃ i < j, bytes[i]? = some 0) →
      t.machine.byteAt (t.machine.registers 5 + BitVec.ofNat 32 j) = bytes[j]?
  /-- Without a zero the copy goes on to the next one in the array. -/
  terminator : 0 ≤ (t.machine.registers 6).toInt → 0 ∉ bytes →
    bytes.length < (t.machine.registers 6).toNat → bytes.length < maxLengthData.toNat ∧
      t.machine.byteAt (t.machine.registers 5 + BitVec.ofNat 32 bytes.length) = some 0

/-- The array after the host has read into it. -/
def recvBlock (bytes : List Byte) : List Byte :=
  bytes ++ List.replicate (maxLengthData.toNat - bytes.length) 0

theorem fillRecv_of_le {bytes : List Byte} (h : bytes.length ≤ maxLengthData.toNat) (k : Kernel) :
    fillRecv bytes k = .ok (recvBlock bytes) k := by
  rw [fillRecv, if_pos h, splice_zero, List.drop_replicate]
  rfl

private theorem length_recvBlock {bytes : List Byte} (h : bytes.length ≤ maxLengthData.toNat) :
    (recvBlock bytes).length = maxLengthData.toNat := by
  rw [recvBlock, List.length_append, List.length_replicate]
  omega

theorem Kernel.delivers_charOf (k : Kernel) (block : List Byte) :
    k.Delivers (charOf block) block := by
  intro m j c hc
  rw [charOf]
  simp only [hc]

/-- The copy does not return if it runs past the end of the block. -/
private theorem copyToUser_overrun {virtAddr : Word} {block : List Byte} {i rest : ℕ}
    {k k' : Kernel}
    {v : Word} (hi : i ≤ block.length) (hlen : block.length < i + rest) (hzero : 0 ∉ block) :
    copyToUser virtAddr (charOf block) i rest k ≠ .ok v k' := by
  induction rest generalizing i k with
  | zero => omega
  | succ rest ih =>
    intro h
    rw [copyToUser] at h
    obtain ⟨c, k₁, hchar, h₁⟩ := bind_eq_ok.mp h
    obtain ⟨_, k₂, -, h₂⟩ := bind_eq_ok.mp h₁
    rw [charOf] at hchar
    split at hchar
    · rename_i hc
      cases hchar
      have hne : c ≠ 0 := fun heq ↦ hzero (heq ▸ List.mem_of_getElem? hc)
      rw [if_neg hne] at h₂
      exact ih (List.getElem?_eq_some_iff.mp hc).1 (by omega) h₂
    · cases hchar

section receive

variable (env : Env) {k : Kernel}

private theorem scReceive_negative (h : (k.machine.registers 4).toInt < 0) :
    scReceive env k = .ok () { k with machine := k.machine.setReg 2 (-1) } := by
  rw [scReceive, bind_of_ok (readRegister_of_lt (by decide) k), if_pos h, setResult_eq]

variable (h : ¬(k.machine.registers 4).toInt < 0)

include h

private theorem scReceive_failed
    (hread : (k.host.read (k.machine.registers 4) (k.machine.registers 6)
      env.readFails env.received).1 = none) :
    ∃ host, scReceive env k
      = .ok () { k with host := host, machine := k.machine.setReg 2 (-1) } := by
  refine ⟨((k.host.record (.read (k.machine.registers 4) (k.machine.registers 6))).read
    (k.machine.registers 4) (k.machine.registers 6) env.readFails env.received).2, ?_⟩
  rw [scReceive, bind_of_ok (readRegister_of_lt (by decide) k), if_neg h,
    bind_of_ok (readRegister_of_lt (by decide) k), bind_of_ok (readRegister_of_lt (by decide) k),
    bind_of_ok (onHost_eq _ k), Host.record_read_fst, hread]
  exact setResult_eq _ _

theorem scReceive_delivered {bytes : List Byte} (hread : (k.host.read (k.machine.registers 4)
      (k.machine.registers 6) env.readFails env.received).1 = some bytes) :
    ∃ host, scReceive env k = (do
      let recv ← fillRecv bytes
      setResult (BitVec.ofNat 32 bytes.length)
      let _ ← system2User (k.machine.registers 5) (k.machine.registers 6) (charOf recv)
      return : Kern Unit) { k with host := host } := by
  refine ⟨((k.host.record (.read (k.machine.registers 4) (k.machine.registers 6))).read
    (k.machine.registers 4) (k.machine.registers 6) env.readFails env.received).2, ?_⟩
  rw [scReceive, bind_of_ok (readRegister_of_lt (by decide) k), if_neg h,
    bind_of_ok (readRegister_of_lt (by decide) k), bind_of_ok (readRegister_of_lt (by decide) k),
    bind_of_ok (onHost_eq _ k), Host.record_read_fst, hread]

end receive

private theorem take_recvBlock {bytes : List Byte} {n : ℕ} (hn : bytes.length ≤ n) :
    (recvBlock bytes).take n = bytes ++
      List.replicate (min (n - bytes.length) (maxLengthData.toNat - bytes.length)) 0 := by
  rw [recvBlock, List.take_append, List.take_of_length_le hn, List.take_replicate]

/-- What `System2User` copies of the array: up to the first zero of the received bytes, -/
private theorem uptoZero_recvBlock_of_mem {bytes : List Byte} {n : ℕ} (hn : bytes.length ≤ n)
    (h : 0 ∈ bytes ∨ bytes.length = n) :
    uptoZero ((recvBlock bytes).take n) = uptoZero bytes := by
  rw [take_recvBlock hn]
  rcases h with hzero | hall
  · exact uptoZero_append_of_mem hzero _
  · rw [hall, Nat.sub_self, Nat.zero_min, List.replicate_zero, List.append_nil]

/-- or all of them and the zero behind them. -/
private theorem uptoZero_recvBlock_of_not_mem {bytes : List Byte} {n : ℕ} (hn : bytes.length < n)
    (hroom : bytes.length < maxLengthData.toNat) (h : 0 ∉ bytes) :
    uptoZero ((recvBlock bytes).take n) = bytes ++ [0] := by
  obtain ⟨j, hj⟩ := Nat.exists_eq_add_of_lt
    (show 0 < min (n - bytes.length) (maxLengthData.toNat - bytes.length) by omega)
  rw [take_recvBlock (Nat.le_of_lt hn), hj, Nat.zero_add, List.replicate_succ]
  exact uptoZero_append_zero (fun c hc heq ↦ h (heq ▸ hc)) _

/-- The host delivers no more than it was asked for. -/
private theorem length_delivered_le {k : Kernel} {t : Trap} {bytes : List Byte}
    (h : k.delivered t = some bytes) : bytes.length ≤ (t.machine.registers 6).toNat := by
  simp only [Kernel.delivered, Host.read] at h
  split at h
  · cases h
    rw [List.length_take]
    exact Nat.min_le_left _ _
  · cases h
    rw [List.length_take]
    exact Nat.min_le_left _ _
  · cases h

section receiving

variable {k : Kernel} {t : Trap} (h : t.Receiving)
  (hpos : ¬(t.machine.registers 4).toInt < 0) {bytes : List Byte}
  (hread : k.delivered t = some bytes)

include h hpos hread

/-- What a `Receive` does with the bytes that were delivered, if they fit. -/
theorem Trap.Receiving.handle_delivered (hfits : bytes.length ≤ maxLengthData.toNat)
    (hlen : 0 ≤ (t.machine.registers 6).toInt)
    (hend : (t.machine.registers 6).toNat ≤ maxLengthData.toNat ∨ 0 ∈ recvBlock bytes) :
    ∃ k', k.handle t = .ok () k' ∧
      k'.machine.registers 2 = BitVec.ofNat 32 bytes.length ∧
      t.machine.Copied k'.machine (t.machine.registers 5)
        (uptoZero ((recvBlock bytes).take (t.machine.registers 6).toNat)) := by
  obtain ⟨host, hrun⟩ := scReceive_delivered t.env (k := { k with machine := t.machine }) hpos hread
  obtain ⟨m, hcopy, hregs, hcopied⟩ := system2User_copied (t.machine.registers 5)
    (Kernel.delivers_charOf { k with
      machine := t.machine.setReg 2 (BitVec.ofNat 32 bytes.length), host := host }
      (recvBlock bytes))
    ⟨h.linear.tlb_none, h.linear.pageTable_some⟩ h.frames hlen
    (by rwa [length_recvBlock hfits])
    (Machine.Writable.mono (h.writable hlen) (length_uptoZero_take_le _ _))
  have hbody : Syscall.receive.body t.env { k with machine := t.machine }
      = .ok () { k with machine := m, host := host } := by
    refine hrun.trans ?_
    rw [bind_of_ok (fillRecv_of_le hfits _), bind_of_ok (setResult_eq _ _)]
    exact bind_of_ok hcopy
  refine ⟨_, handle_of_body h.code hbody, ?_, ⟨hcopied.copied, hcopied.frame⟩⟩
  rw [Machine.skip_result]
  exact (congrFun hregs 2).trans (Machine.setReg_registers_self _ _ _)

/-- For a negative length nothing is copied. -/
theorem Trap.Receiving.handle_negative (hfits : bytes.length ≤ maxLengthData.toNat)
    (hlen : (t.machine.registers 6).toInt < 0) :
    ∃ k', k.handle t = .ok () k' ∧
      k'.machine.registers 2 = BitVec.ofNat 32 bytes.length ∧
      t.machine.Copied k'.machine (t.machine.registers 5) [] := by
  obtain ⟨host, hrun⟩ := scReceive_delivered t.env (k := { k with machine := t.machine }) hpos hread
  have hbody : Syscall.receive.body t.env { k with machine := t.machine } = .ok ()
      { k with machine := t.machine.setReg 2 (BitVec.ofNat 32 bytes.length), host := host } := by
    refine hrun.trans ?_
    rw [bind_of_ok (fillRecv_of_le hfits _), bind_of_ok (setResult_eq _ _), system2User,
      if_pos hlen]
    rfl
  refine ⟨_, handle_of_body h.code hbody, ?_, fun i hi ↦ absurd hi (Nat.not_lt_zero i),
    fun x _ ↦ rfl⟩
  rw [Machine.skip_result, Machine.setReg_registers_self]

/-- The copy that runs past the array does not return. -/
theorem Trap.Receiving.handle_overrun (hfits : bytes.length ≤ maxLengthData.toNat)
    (hlen : 0 ≤ (t.machine.registers 6).toInt)
    (hlong : maxLengthData.toNat < (t.machine.registers 6).toNat) (hzero : 0 ∉ recvBlock bytes)
    (k' : Kernel) : k.handle t ≠ .ok () k' := by
  intro hrun
  obtain ⟨host, heq⟩ := scReceive_delivered t.env (k := { k with machine := t.machine }) hpos hread
  obtain ⟨k₁, hbody, -⟩ := handle_eq_ok h.code hrun
  have hbody' := heq.symm.trans hbody
  rw [bind_of_ok (fillRecv_of_le hfits _), bind_of_ok (setResult_eq _ _)] at hbody'
  obtain ⟨v, k₂, hcopy, -⟩ := bind_eq_ok.mp hbody'
  rw [system2User, if_neg (Int.not_lt.mpr hlen)] at hcopy
  refine copyToUser_overrun (Nat.zero_le _) ?_ hzero hcopy
  rwa [length_recvBlock hfits, Nat.zero_add]

end receiving

/-- The property of a `Receive` that gets bytes from the host. -/
theorem receivesExactly_of_delivered {k : Kernel} {t : Trap}
    (hpos : ¬(t.machine.registers 4).toInt < 0) {bytes : List Byte}
    (hread : k.delivered t = some bytes) : k.ReceivesExactly t ↔
      ∃ k', k.handle t = .ok () k' ∧ bytes.length ≤ maxLengthData.toNat ∧
        (k'.machine.registers 2).toInt = bytes.length ∧
        t.machine.Copied k'.machine (t.machine.registers 5) bytes := by
  rw [Kernel.ReceivesExactly, if_neg hpos, hread]

/-- If the call returns with the right result, all depends on what is copied. -/
private theorem receivesExactly_of_handle {k k' : Kernel} {t : Trap}
    (hpos : ¬(t.machine.registers 4).toInt < 0) {bytes : List Byte}
    (hread : k.delivered t = some bytes) (hfits : bytes.length ≤ maxLengthData.toNat)
    (hrun : k.handle t = .ok () k')
    (hresult : k'.machine.registers 2 = BitVec.ofNat 32 bytes.length) :
    k.ReceivesExactly t ↔ t.machine.Copied k'.machine (t.machine.registers 5) bytes := by
  rw [receivesExactly_of_delivered hpos hread]
  constructor
  · rintro ⟨k'', hrun', -, -, hcopied⟩
    rw [hrun] at hrun'
    cases hrun'
    exact hcopied
  · intro hcopied
    refine ⟨k', hrun, hfits, ?_, hcopied⟩
    rw [hresult, toInt_ofNat_of_lt]
    exact Nat.lt_of_le_of_lt hfits (by decide)

/-- What `System2User` leaves out are the bytes behind a zero. -/
private theorem uptoZero_harmless_iff {m m' : Machine} {addr : Word} {bytes : List Byte}
    (h : m.Copied m' addr (uptoZero bytes)) (hlen : bytes.length < 2 ^ 32) :
    m.Copied m' addr bytes ↔ ∀ j < bytes.length, (∃ i < j, bytes[i]? = some 0) →
      m.byteAt (addr + BitVec.ofNat 32 j) = bytes[j]? := by
  rw [h.of_prefix_iff (uptoZero_isPrefix bytes) hlen]
  refine forall_congr' fun j ↦ imp_congr_right fun hj ↦ imp_congr_left ?_
  exact length_uptoZero_le_iff bytes j hj

/-- `Receive` with bytes from the host. -/
theorem Trap.Receiving.exactly_iff_harmless {k : Kernel} {t : Trap} (h : t.Receiving)
    (hpos : ¬(t.machine.registers 4).toInt < 0) {bytes : List Byte}
    (hread : k.delivered t = some bytes) : k.ReceivesExactly t ↔ t.Harmless bytes := by
  have hle := length_delivered_le hread
  by_cases hfits : bytes.length ≤ maxLengthData.toNat
  · have hsmall : bytes.length + 1 < 2 ^ 31 :=
      Nat.lt_of_le_of_lt (Nat.succ_le_succ hfits) (by decide)
    by_cases hlen : (t.machine.registers 6).toInt < 0
    · obtain ⟨k', hrun, hresult, hcopied⟩ := h.handle_negative hpos hread hfits hlen
      rw [receivesExactly_of_handle hpos hread hfits hrun hresult,
        hcopied.of_prefix_iff List.nil_prefix (by omega)]
      refine ⟨fun hall ↦ ?_, fun hharmless j hj _ ↦ hharmless.negative hlen j hj⟩
      exact ⟨hfits, fun _ j hj ↦ hall j hj (Nat.zero_le j), fun hge ↦ absurd hlen (by omega),
        fun hge ↦ absurd hlen (by omega)⟩
    · have hge := Int.not_lt.mp hlen
      by_cases hend : (t.machine.registers 6).toNat ≤ maxLengthData.toNat ∨ 0 ∈ recvBlock bytes
      · obtain ⟨k', hrun, hresult, hcopied⟩ :=
          h.handle_delivered hpos hread hfits hge hend
        rw [receivesExactly_of_handle hpos hread hfits hrun hresult]
        by_cases hall : 0 ∈ bytes ∨ bytes.length = (t.machine.registers 6).toNat
        · rw [uptoZero_recvBlock_of_mem hle hall] at hcopied
          rw [uptoZero_harmless_iff hcopied (by omega)]
          refine ⟨fun hbehind ↦ ⟨hfits, fun hneg ↦ absurd hneg hlen, fun _ ↦ hbehind, ?_⟩,
            fun hharmless ↦ hharmless.behind hge⟩
          intro _ hzero hshort
          exact (hall.elim hzero (Nat.ne_of_lt hshort)).elim
        · obtain ⟨hzero, hne⟩ := not_or.mp hall
          have hshort := Nat.lt_of_le_of_ne hle hne
          have hroom : bytes.length < maxLengthData.toNat := by
            rcases hend with hend | hend
            · exact Nat.lt_of_lt_of_le hshort hend
            · rcases List.mem_append.mp hend with hmem | hmem
              · exact absurd hmem hzero
              · have := (List.mem_replicate.mp hmem).1
                omega
          rw [uptoZero_recvBlock_of_not_mem hshort hroom hzero] at hcopied
          rw [hcopied.of_append_iff (by omega)]
          refine ⟨fun hlast ↦ ⟨hfits, fun hneg ↦ absurd hneg hlen, fun _ j hj hbefore ↦ ?_,
            fun _ _ _ ↦ ⟨hroom, hlast⟩⟩, fun hharmless ↦ (hharmless.terminator hge hzero hshort).2⟩
          obtain ⟨i, -, hi⟩ := hbefore
          exact absurd (List.mem_of_getElem? hi) hzero
      · obtain ⟨hlong, hzero⟩ := not_or.mp hend
        have hbytes : 0 ∉ bytes := fun hmem ↦ hzero (List.mem_append_left _ hmem)
        refine iff_of_false (fun hexact ↦ ?_) fun hharmless ↦ hzero ?_
        · obtain ⟨k', hrun, -⟩ := (receivesExactly_of_delivered hpos hread).mp hexact
          exact h.handle_overrun hpos hread hfits hge (Nat.not_le.mp hlong) hzero k' hrun
        · have hroom := (hharmless.terminator hge hbytes (by omega)).1
          exact List.mem_append_right _ (List.mem_replicate.mpr ⟨by omega, rfl⟩)
  · refine iff_of_false (fun hexact ↦ ?_) fun hharmless ↦ hfits hharmless.fits
    obtain ⟨k', -, hfits', -⟩ := (receivesExactly_of_delivered hpos hread).mp hexact
    exact hfits hfits'

/-- **`Receive` is exact exactly when** the descriptor is negative or the host fails, or no more
bytes arrive than the array takes and whatever the copy leaves out or adds is in user memory
already. -/
theorem receive_exact_iff {k : Kernel} {t : Trap} (h : t.Receiving) :
    k.ReceivesExactly t ↔ (t.machine.registers 4).toInt < 0 ∨ k.delivered t = none ∨
      ∃ bytes, k.delivered t = some bytes ∧ t.Harmless bytes := by
  by_cases hneg : (t.machine.registers 4).toInt < 0
  · refine iff_of_true ?_ (.inl hneg)
    have hbody := scReceive_negative t.env (k := { k with machine := t.machine }) hneg
    refine ⟨_, handle_of_body h.code hbody, ?_⟩
    rw [if_pos hneg]
    refine ⟨?_, fun x ↦ rfl⟩
    rw [Machine.skip_result, Machine.setReg_registers_self]
  · rw [or_iff_right hneg]
    cases hread : k.delivered t with
    | none =>
      refine iff_of_true ?_ (.inl rfl)
      obtain ⟨host, hbody⟩ :=
        scReceive_failed t.env (k := { k with machine := t.machine }) hneg hread
      refine ⟨_, handle_of_body h.code hbody, ?_⟩
      rw [if_neg hneg, hread]
      refine ⟨?_, fun x ↦ rfl⟩
      rw [Machine.skip_result, Machine.setReg_registers_self]
    | some bytes =>
      rw [h.exactly_iff_harmless hneg hread]
      refine ⟨fun hharmless ↦ .inr ⟨bytes, rfl, hharmless⟩, ?_⟩
      rintro (hnone | ⟨bytes', hbytes, hharmless⟩)
      · cases hnone
      · cases hbytes
        exact hharmless

/-- A machine about to make a call with three arguments. -/
def socketMachine (code fd addr len : Word) : Machine :=
  { identityMap with registers := fun i ↦ if i = 2 then code else if i = 4 then fd else
      if i = 5 then addr else if i = 6 then len else 0 }

/-- `Receive(4, 128, 3)`, where the host has these bytes for it. -/
def receiveTrap (received : List Byte) : Trap :=
  ⟨socketMachine 19 4 128 3, { Env.quiet with received := received }⟩

/-- Descriptor 4 is a socket. -/
def socketKernel : Kernel :=
  Kernel.initial (callMachine 0 0) ⟨fun _ ↦ [], []⟩
    { Host.empty with fds := fun fd ↦ if fd = 4 then some .stream else none } []

theorem receiveTrap_receiving (received : List Byte) : (receiveTrap received).Receiving where
  code := rfl
  linear := ⟨rfl, _, rfl⟩
  frames := identityMap_distinctFrames
  writable _ := by
    have hall : ∀ i < 3,
        ((socketMachine 19 4 128 3).physical (128 + BitVec.ofNat 32 i) 1 true).isSome = true := by
      decide
    exact hall

/-- The bytes `a`, `0`, `b`: the user program is told that it has three of them, and gets two. -/
theorem receiveTrap_not_exact :
    ¬∀ (k : Kernel) (t : Trap), t.Receiving → k.ReceivesExactly t := by
  intro h
  have hexact := h socketKernel (receiveTrap [97, 0, 98]) (receiveTrap_receiving _)
  have hharmless := ((receiveTrap_receiving _).exactly_iff_harmless (by decide)
    (show socketKernel.delivered (receiveTrap [97, 0, 98]) = some [97, 0, 98] by decide)).mp hexact
  exact absurd (hharmless.behind (by decide) 2 (by decide) ⟨1, by decide, rfl⟩) (by decide +kernel)

/-- Without a zero all three arrive. -/
theorem receiveTrap_exact :
    (receiveTrap [97, 99, 98]).Receiving ∧
      socketKernel.ReceivesExactly (receiveTrap [97, 99, 98]) := by
  refine ⟨receiveTrap_receiving _, (receive_exact_iff (receiveTrap_receiving _)).mpr
    (.inr (.inr ⟨[97, 99, 98], by decide, ?_⟩))⟩
  refine ⟨by decide, fun hneg ↦ absurd hneg (by decide), fun _ j _ ⟨i, _, hi⟩ ↦ ?_,
    fun _ _ hshort ↦ absurd hshort (by decide)⟩
  exact absurd (List.mem_of_getElem? hi) (by decide)

/-! ## `Send` -/

/-- A `Send` on a descriptor that is not negative, from a buffer of the requested length that can be
read. -/
structure Trap.Sending (t : Trap) : Prop where
  code : t.machine.registers 2 = Syscall.send.code
  descriptor : 0 ≤ (t.machine.registers 4).toInt
  readable : t.machine.Readable (t.machine.registers 5) (t.machine.registers 6).toInt.toNat

/-- What is asked to be sent: of the first `len` bytes, none for a negative length and at most
`MaxLenghtData`, those before the first NUL. -/
def Trap.asked (t : Trap) : List Byte :=
  cString (t.machine.bytesFrom (t.machine.registers 5)
    (min (t.machine.registers 6).toInt.toNat maxLengthData.toNat))

/-- The call returns, and the one host call it has made is to send just these bytes. -/
def Kernel.SendsExactly (k : Kernel) (t : Trap) : Prop :=
  ∃ k', k.handle t = .ok () k' ∧
    k'.host.calls = .send (t.machine.registers 4) t.asked :: k.host.calls

private theorem stringAt_take {m : Machine} {addr : Word} {n i : ℕ} {s : List Byte}
    (h : m.stringAt addr n = some s) (hi : i ≤ n) : m.stringAt addr i = some (s.take i) := by
  induction n generalizing addr i s with
  | zero =>
    cases Nat.le_zero.mp hi
    rfl
  | succ n ih =>
    cases i with
    | zero => rfl
    | succ i =>
      rw [Machine.stringAt]
      obtain ⟨hc, rfl⟩ | ⟨c, s', hc, hne, hs', rfl⟩ := stringAt_succ_cases h
      · rw [hc, List.take_nil]
        rfl
      · rw [hc, ih hs' (Nat.le_of_succ_le_succ hi)]
        exact if_neg hne

private theorem calls_onStream (h : Host) (fd : Word) (call : HostCall) (ret : Word) :
    (h.onStream fd call ret).2.calls = call :: h.calls := by
  rw [Host.onStream]
  split <;> rfl

/-- `Send` of a string that can be read. -/
private theorem scSend_eq (env : Env) {k : Kernel} {s : List Byte}
    (hpos : 0 ≤ (k.machine.registers 4).toInt)
    (hs : k.machine.stringAt (k.machine.registers 5) maxLengthData.toNat = some s) :
    ∃ m heap, scSend env k = .ok () { k with
      machine := m
      heap := heap
      host := (k.host.onStream (k.machine.registers 4)
        (.send (k.machine.registers 4) (s.take (k.machine.registers 6).toNat)) env.ret).2 } := by
  obtain ⟨m, halike, hfetch⟩ := user2System_eq env (by decide) hs
  have hlen : (k.withString m env.kernelBuf s maxLengthData.toNat).machine.registers 6
      = k.machine.registers 6 := congrFun halike.registers 6
  refine ⟨m.setReg 2 (k.host.onStream (k.machine.registers 4)
    (.send (k.machine.registers 4) (s.take (k.machine.registers 6).toNat)) env.ret).1,
    (k.heap.new env.kernelBuf (stringBlock s maxLengthData.toNat)).delete env.kernelBuf, ?_⟩
  rw [scSend, bind_of_ok (readRegister_of_lt (by decide) k), if_neg (Int.not_lt.mpr hpos),
    bind_of_ok (readRegister_of_lt (by decide) k), bind_of_ok hfetch,
    bind_of_ok (readRegister_of_lt (by decide) _), bind_of_ok (blockBytes_eq _ _),
    cString_withString hs, hlen, bind_of_ok (onHost_eq _ _), bind_of_ok (setResult_eq _ _),
    deleteBlock_eq]
  rfl

/-- A `Send` that returns has fetched its string. -/
private theorem fetched_of_scSend {env : Env} {k k' : Kernel} {u : Unit}
    (hpos : 0 ≤ (k.machine.registers 4).toInt) (h : scSend env k = .ok u k') :
    ∃ s, k.machine.stringAt (k.machine.registers 5) maxLengthData.toNat = some s := by
  rw [scSend, bind_of_ok (readRegister_of_lt (by decide) k), if_neg (Int.not_lt.mpr hpos),
    bind_of_ok (readRegister_of_lt (by decide) k)] at h
  obtain ⟨_, _, hfetch, -⟩ := bind_eq_ok.mp h
  obtain ⟨-, s, -, hs, -⟩ := user2System_eq_ok (by decide) hfetch
  exact ⟨s, hs⟩

/-- What is asked for is the fetched string, cut to the length as an `int`. -/
theorem Trap.Sending.asked_eq {t : Trap} (h : t.Sending) {s : List Byte}
    (hs : t.machine.stringAt (t.machine.registers 5) maxLengthData.toNat = some s) :
    t.asked = s.take (t.machine.registers 6).toInt.toNat := by
  have hreadable : t.machine.Readable (t.machine.registers 5)
      (min (t.machine.registers 6).toInt.toNat maxLengthData.toNat) :=
    fun i hi ↦ h.readable i (Nat.lt_of_lt_of_le hi (Nat.min_le_left _ _))
  have hcut := stringAt_take hs
    (Nat.min_le_right (t.machine.registers 6).toInt.toNat maxLengthData.toNat)
  have hasked := Option.some.inj (hreadable.stringAt.symm.trans hcut)
  rw [Trap.asked, hasked, ← List.take_take, List.take_of_length_le (stringAt_length hs)]

/-- **`Send` is exact exactly when** the string at the buffer can be read as far as `User2System`
goes, and the length is not negative or the string is empty. -/
theorem send_exact_iff {k : Kernel} {t : Trap} (h : t.Sending) :
    k.SendsExactly t ↔
      ∃ s, t.machine.stringAt (t.machine.registers 5) maxLengthData.toNat = some s ∧
        (0 ≤ (t.machine.registers 6).toInt ∨ s = []) := by
  have hsend : ∀ s, t.machine.stringAt (t.machine.registers 5) maxLengthData.toNat = some s →
      ∃ k', k.handle t = .ok () k' ∧ k'.host.calls
        = .send (t.machine.registers 4) (s.take (t.machine.registers 6).toNat) :: k.host.calls := by
    intro s hs
    obtain ⟨m, heap, hrun⟩ :=
      scSend_eq t.env (k := { k with machine := t.machine }) h.descriptor hs
    exact ⟨_, handle_of_body h.code hrun, calls_onStream k.host _ _ t.env.ret⟩
  have hexact : ∀ s, t.machine.stringAt (t.machine.registers 5) maxLengthData.toNat = some s →
      (t.asked = s.take (t.machine.registers 6).toNat ↔
        0 ≤ (t.machine.registers 6).toInt ∨ s = []) := by
    intro s hs
    have hlen := stringAt_length hs
    rw [h.asked_eq hs]
    by_cases hneg : 0 ≤ (t.machine.registers 6).toInt
    · have hint := toInt_eq_toNat (toNat_lt_of_nonneg hneg)
      exact iff_of_true (by rw [hint, Int.toNat_natCast]) (.inl hneg)
    · -- as an unsigned number a negative length is larger than any string
      have hlarge : s.length ≤ (t.machine.registers 6).toNat := by
        refine Nat.le_trans hlen (Nat.le_of_not_lt fun hsmall ↦ hneg ?_)
        rw [toInt_eq_toNat (Nat.lt_trans hsmall (by decide))]
        omega
      rw [List.take_of_length_le hlarge, Int.toNat_of_nonpos (by omega), List.take_zero,
        or_iff_right hneg]
      exact eq_comm
  constructor
  · rintro ⟨k', hrun, hcalls⟩
    obtain ⟨k₁, hbody, -⟩ := handle_eq_ok h.code hrun
    obtain ⟨s, hs⟩ := fetched_of_scSend (k := { k with machine := t.machine }) h.descriptor hbody
    refine ⟨s, hs, (hexact s hs).mp ?_⟩
    obtain ⟨k'', hrun', hcalls'⟩ := hsend s hs
    rw [hrun] at hrun'
    cases hrun'
    rw [hcalls, List.cons.injEq, HostCall.send.injEq] at hcalls'
    exact hcalls'.1.2
  · rintro ⟨s, hs, hcond⟩
    obtain ⟨k', hrun, hcalls⟩ := hsend s hs
    exact ⟨k', hrun, by rw [hcalls, (hexact s hs).mpr hcond]⟩

/-- A machine with a letter at address 0, about to send `len` bytes from there. -/
def sendTrap (len : Word) : Trap :=
  ⟨{ socketMachine 18 4 0 len with mainMemory := fun i ↦ if i = 0 then 97 else 0 }, Env.quiet⟩

/-- For the length `-1` the letter is sent. -/
theorem sendTrap_not_exact :
    ¬∀ (k : Kernel) (t : Trap), t.Sending → k.SendsExactly t := by
  intro h
  have hsending : (sendTrap (-1)).Sending :=
    ⟨rfl, by decide, fun i hi ↦ absurd hi (Nat.not_lt_zero i)⟩
  obtain ⟨k', hrun, hcalls⟩ := h socketKernel (sendTrap (-1)) hsending
  obtain ⟨m, heap, hsend⟩ := scSend_eq (sendTrap (-1)).env
    (k := { socketKernel with machine := (sendTrap (-1)).machine }) hsending.descriptor
    (show (sendTrap (-1)).machine.stringAt 0 maxLengthData.toNat = some [97] by decide +kernel)
  rw [handle_of_body hsending.code hsend] at hrun
  cases hrun
  have hsent := hcalls.symm.trans (calls_onStream socketKernel.host _ _ (sendTrap (-1)).env.ret)
  rw [List.cons.injEq, HostCall.send.injEq] at hsent
  exact absurd hsent.1.2 (by decide)

/-- For the length 1 it is sent as well, and that is right. -/
theorem sendTrap_exact : (sendTrap 1).Sending ∧ socketKernel.SendsExactly (sendTrap 1) := by
  have hsending : (sendTrap 1).Sending := ⟨rfl, by decide, by
    have hall : ∀ i < 1, ((sendTrap 1).machine.byteAt (0 + BitVec.ofNat 32 i)).isSome = true := by
      decide +kernel
    exact hall⟩
  exact ⟨hsending, (send_exact_iff hsending).mpr ⟨[97], by decide +kernel, .inl (by decide)⟩⟩

end Nachos
