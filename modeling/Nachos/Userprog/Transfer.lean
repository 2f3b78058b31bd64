import Nachos.Machine.UserMemory
import Nachos.Userprog.Frame

/-!
# Strings between user space and the kernel

`User2System` delivers the string a user program has at an address: the bytes before the first
zero, cut to a limit, with zeros up to the end of the buffer. It returns exactly when those bytes
and the terminating zero can be read. `System2User` returns when the destination can be written.
-/

namespace Nachos

open Program

/-! ## Reading a string -/

/-- The string at `addr`, cut to `n` characters; `none` if it cannot be read. -/
def Machine.stringAt (m : Machine) : Word → ℕ → Option (List Byte)
  | _, 0 => some []
  | addr, n + 1 =>
    match m.byteAt addr with
    | none => none
    | some c => if c = 0 then some [] else (m.stringAt (addr + 1) n).map (c :: ·)

theorem Machine.Alike.stringAt {m m' : Machine} (h : m.Alike m') (addr : Word) (n : ℕ) :
    m'.stringAt addr n = m.stringAt addr n := by
  induction n generalizing addr with
  | zero => rfl
  | succ n ih => rw [Machine.stringAt, Machine.stringAt, h.byteAt, ih]

/-- The first byte of a string: its terminator or its first character. -/
theorem stringAt_succ_cases {m : Machine} {addr : Word} {n : ℕ} {s : List Byte}
    (h : m.stringAt addr (n + 1) = some s) :
    (m.byteAt addr = some 0 ∧ s = []) ∨
      ∃ c s', m.byteAt addr = some c ∧ c ≠ 0 ∧ m.stringAt (addr + 1) n = some s' ∧ s = c :: s' := by
  rw [Machine.stringAt] at h
  cases hc : m.byteAt addr with
  | none =>
    rw [hc] at h
    cases h
  | some c =>
    rw [hc] at h
    by_cases hzero : c = 0
    · simp only [if_pos hzero, Option.some.injEq] at h
      exact .inl ⟨by rw [hzero], h.symm⟩
    · simp only [if_neg hzero] at h
      obtain ⟨s', hs', rfl⟩ := Option.map_eq_some_iff.mp h
      exact .inr ⟨c, s', rfl, hzero, hs', rfl⟩

theorem stringAt_length {m : Machine} {addr : Word} {n : ℕ} {s : List Byte}
    (h : m.stringAt addr n = some s) : s.length ≤ n := by
  induction n generalizing addr s with
  | zero =>
    cases h
    exact Nat.le_refl 0
  | succ n ih =>
    obtain ⟨-, rfl⟩ | ⟨c, s', -, -, hs', rfl⟩ := stringAt_succ_cases h
    · exact Nat.zero_le _
    · exact Nat.succ_le_succ (ih hs')

theorem stringAt_ne_zero {m : Machine} {addr : Word} {n : ℕ} {s : List Byte}
    (h : m.stringAt addr n = some s) : ∀ c ∈ s, c ≠ 0 := by
  induction n generalizing addr s with
  | zero =>
    cases h
    simp
  | succ n ih =>
    obtain ⟨-, rfl⟩ | ⟨c, s', -, hc, hs', rfl⟩ := stringAt_succ_cases h
    · simp
    · rw [List.forall_mem_cons]
      exact ⟨hc, ih hs'⟩

/-- A C string with zeros behind it reads back as itself. -/
theorem cString_append_zeros {s : List Byte} (hs : ∀ c ∈ s, c ≠ 0) {n : ℕ} (hn : 0 < n) :
    cString (s ++ List.replicate n 0) = s := by
  obtain ⟨n, rfl⟩ := Nat.exists_eq_succ_of_ne_zero (Nat.pos_iff_ne_zero.mp hn)
  rw [cString, List.takeWhile_append_of_pos (by simpa using hs), List.replicate_succ]
  simp

theorem signExtend_setWidth (c : Byte) : (c.signExtend 32).setWidth 8 = c := by
  apply BitVec.eq_of_getLsbD_eq
  intro i hi
  simp only [BitVec.getLsbD_setWidth, BitVec.getLsbD_signExtend]
  simp [hi]
  omega

theorem signExtend_eq_zero {c : Byte} : c.signExtend 32 = 0 ↔ c = 0 := by
  constructor
  · intro h
    rw [← signExtend_setWidth c, h]
    rfl
  · rintro rfl
    rfl

/-! ## `User2System` -/

/-- A character stored right behind `pre`. -/
private theorem splice_one (pre : List Byte) (n : ℕ) (c : Byte) :
    splice (pre ++ List.replicate (n + 1) 0) pre.length [c] = pre ++ [c] ++ List.replicate n 0 := by
  rw [List.replicate_succ, splice_append_cons, List.append_cons]

/-- The kernel with another machine and other bytes in the block at `p`. -/
def Kernel.withBlock (k : Kernel) (m : Machine) (p : Ptr) (bytes : List Byte) : Kernel :=
  { k with machine := m, heap := k.heap.set p bytes }

private theorem storeChars_withMachine {p : Ptr} {i : ℕ} {bytes : List Byte} {k : Kernel}
    (m : Machine) (h : i + bytes.length ≤ (k.heap.bytes p).length) :
    storeChars p i bytes { k with machine := m }
      = .ok () (k.withBlock m p (splice (k.heap.bytes p) i bytes)) := if_pos h

/-- The loop of `User2System` behind the first `pre.length` characters. -/
private theorem copyFromUser_eq {virtAddr : Word} {p : Ptr} {rest : ℕ} {s : List Byte} {k : Kernel}
    {pre : List Byte} (hblock : k.heap.bytes p = pre ++ List.replicate (rest + 1) 0)
    (hs : k.machine.stringAt (virtAddr + BitVec.ofNat 32 pre.length) rest = some s) :
    ∃ m, k.machine.Alike m ∧ copyFromUser virtAddr p pre.length rest k
      = .ok () (k.withBlock m p (pre ++ s ++ List.replicate (rest + 1 - s.length) 0)) := by
  -- by induction on the characters left, with the machine changed by every read
  induction rest generalizing s k pre with
  | zero =>
    cases hs
    refine ⟨k.machine, Machine.Alike.refl _, ?_⟩
    rw [copyFromUser, Kernel.withBlock, List.append_nil, List.length_nil, ← hblock, Heap.set_bytes]
    rfl
  | succ rest ih =>
    have hroom : pre.length + 1 ≤ (k.heap.bytes p).length := by
      rw [hblock]
      simp
    obtain ⟨hc, rfl⟩ | ⟨c, s', hc, hne, hs', rfl⟩ := stringAt_succ_cases hs
    · -- the terminating zero: the block is as it was
      obtain ⟨m, hread, halike⟩ := readMem_of_byteAt hc
      refine ⟨m, halike, ?_⟩
      rw [copyFromUser, bind_of_ok (onMachine_of_ok hread), signExtend_setWidth,
        bind_of_ok (storeChars_withMachine m hroom), hblock, splice_one,
        if_pos (signExtend_eq_zero.mpr rfl), Kernel.withBlock, List.append_nil, List.length_nil,
        Nat.sub_zero, List.append_assoc]
      rfl
    · obtain ⟨m, hread, halike⟩ := readMem_of_byteAt hc
      have hlen : (pre ++ [c]).length = pre.length + 1 := by simp
      have haddr : virtAddr + BitVec.ofNat 32 (pre ++ [c]).length
          = virtAddr + BitVec.ofNat 32 pre.length + 1 := by
        rw [hlen, BitVec.ofNat_add, ← BitVec.add_assoc]
        rfl
      have hblock' : (k.withBlock m p (pre ++ [c] ++ List.replicate (rest + 1) 0)).heap.bytes p
          = (pre ++ [c]) ++ List.replicate (rest + 1) 0 := by
        simp [Kernel.withBlock]
      obtain ⟨m', halike', hrun⟩ := ih (s := s') hblock'
        (by rw [haddr, ← hs']; exact halike.stringAt _ _)
      refine ⟨m', halike.trans halike', ?_⟩
      rw [hlen] at hrun
      rw [copyFromUser, bind_of_ok (onMachine_of_ok hread), signExtend_setWidth,
        bind_of_ok (storeChars_withMachine m hroom), hblock, splice_one,
        if_neg (fun h ↦ hne (signExtend_eq_zero.mp h)), hrun]
      simp [Kernel.withBlock]

theorem addr_succ (virtAddr : Word) (i : ℕ) :
    virtAddr + BitVec.ofNat 32 (i + 1) = virtAddr + BitVec.ofNat 32 i + 1 := by
  rw [BitVec.ofNat_add, ← BitVec.add_assoc]
  rfl

theorem addr_add_one_add (addr : Word) (i : ℕ) :
    addr + 1 + BitVec.ofNat 32 i = addr + BitVec.ofNat 32 (i + 1) := by
  rw [addr_succ, BitVec.add_assoc, BitVec.add_assoc, BitVec.add_comm 1]

/-- The loop returns only if the whole string can be read. -/
private theorem stringAt_isSome_of_copyFromUser {virtAddr : Word} {p : Ptr} {i rest : ℕ}
    {k k' : Kernel} {u : Unit} (h : copyFromUser virtAddr p i rest k = .ok u k') :
    (k.machine.stringAt (virtAddr + BitVec.ofNat 32 i) rest).isSome = true := by
  induction rest generalizing i k with
  | zero => rfl
  | succ rest ih =>
    rw [copyFromUser] at h
    obtain ⟨oneChar, k₁, hread, h₁⟩ := bind_eq_ok.mp h
    obtain ⟨m, hm, rfl⟩ := onMachine_eq_ok hread
    obtain ⟨_, k₂, hstore, h₂⟩ := bind_eq_ok.mp h₁
    have halike : k.machine.Alike k₂.machine := by
      obtain ⟨_, _, _, ht, rfl⟩ := readMem_eq_ok hm
      have hmachine := keeps_storeChars (f := Kernel.machine) (fun _ _ _ ↦ rfl) _ _ _ _ _ _ hstore
      rw [hmachine]
      exact alike_of_success ht
    rw [Machine.stringAt]
    cases hc : k.machine.byteAt (virtAddr + BitVec.ofNat 32 i) with
    | none => exact absurd hm (readMem_of_byteAt_none hc)
    | some c =>
      obtain ⟨m', hm', -⟩ := readMem_of_byteAt hc
      rw [hm'] at hm
      cases hm
      by_cases hzero : c = 0
      · simp [hzero]
      · rw [if_neg (fun h ↦ hzero (signExtend_eq_zero.mp h))] at h₂
        have hrest := ih h₂
        rw [addr_succ, halike.stringAt] at hrest
        simp only [if_neg hzero, Option.isSome_map]
        exact hrest

/-- The block `User2System` leaves: the string, and zeros up to `limit + 1` characters. -/
def stringBlock (s : List Byte) (limit : ℕ) : List Byte :=
  s ++ List.replicate (limit + 1 - s.length) 0

theorem cString_stringBlock {s : List Byte} (hs : ∀ c ∈ s, c ≠ 0) {limit : ℕ}
    (hlen : s.length ≤ limit) : cString (stringBlock s limit) = s :=
  cString_append_zeros hs (by omega)

theorem length_stringBlock {s : List Byte} {limit : ℕ} (hlen : s.length ≤ limit) :
    (stringBlock s limit).length = limit + 1 := by
  rw [stringBlock, List.length_append, List.length_replicate]
  omega

/-- The kernel after `User2System` has put the string `s` into a new buffer at `p`. -/
def Kernel.withString (k : Kernel) (m : Machine) (p : Ptr) (s : List Byte) (limit : ℕ) : Kernel :=
  { k with machine := m, heap := k.heap.new p (stringBlock s limit) }

theorem Kernel.withString_bytes (k : Kernel) (m : Machine) (p : Ptr) (s : List Byte) (limit : ℕ) :
    (k.withString m p s limit).heap.bytes p = stringBlock s limit := Heap.new_bytes_self ..

theorem limit_add_one {limit : Word} (h : limit.toNat + 1 < 2 ^ 31) :
    (limit + 1).toNat = limit.toNat + 1 ∧ ¬(limit + 1).toInt < 0 ∧
      limit.toInt.toNat = limit.toNat := by
  have hnat : (limit + 1).toNat = limit.toNat + 1 := by
    rw [BitVec.toNat_add]
    exact Nat.mod_eq_of_lt (by have : (1 : Word).toNat = 1 := rfl; omega)
  refine ⟨hnat, ?_, ?_⟩
  · rw [BitVec.toInt_eq_toNat_cond, hnat]
    split <;> omega
  · rw [BitVec.toInt_eq_toNat_cond]
    split <;> omega

/-- One more than the largest `int` is a negative size. -/
theorem add_one_lt_of_nonneg {limit : Word} (hpos : 0 ≤ limit.toInt)
    (hsize : ¬(limit + 1).toInt < 0) : limit.toNat + 1 < 2 ^ 31 := by
  by_contra hge
  have hlt := limit.isLt
  have hmax : limit.toNat = 2 ^ 31 - 1 := by
    rw [BitVec.toInt_eq_toNat_cond] at hpos
    split at hpos <;> omega
  have heq : limit = 0x7fffffff := BitVec.eq_of_toNat_eq hmax
  rw [heq] at hsize
  exact hsize (by decide)

private theorem newChars_zero {p : Ptr} {n : Word} (h : ¬n.toInt < 0) (k : Kernel) :
    newChars p n (fun _ ↦ 0) k
      = .ok p { k with heap := k.heap.new p (List.replicate n.toNat 0) } := by
  rw [newChars, if_neg h, List.map_const', List.length_range]
  rfl

/-- **`User2System`.** If the string can be read, it is delivered. -/
theorem user2System_eq (env : Env) {virtAddr limit : Word} {s : List Byte} {k : Kernel}
    (hlimit : limit.toNat + 1 < 2 ^ 31) (hs : k.machine.stringAt virtAddr limit.toNat = some s) :
    ∃ m, k.machine.Alike m ∧ user2System env virtAddr limit k
      = .ok env.kernelBuf (k.withString m env.kernelBuf s limit.toNat) := by
  obtain ⟨hnat, hpos, hloop⟩ := limit_add_one hlimit
  rw [user2System, bind_of_ok (newChars_zero hpos k), hloop]
  obtain ⟨m, halike, hrun⟩ := copyFromUser_eq (p := env.kernelBuf)
    (k := { k with heap := k.heap.new env.kernelBuf (List.replicate (limit + 1).toNat 0) })
    (show _ = [] ++ List.replicate (limit.toNat + 1) 0 by
      rw [hnat]; exact Heap.new_bytes_self ..) (by simpa using hs)
  refine ⟨m, halike, ?_⟩
  rw [List.length_nil] at hrun
  rw [bind_of_ok hrun]
  simp only [Kernel.withBlock, Kernel.withString, Heap.set_new, List.nil_append]
  rfl

/-- Conversely, if it returns, that is what it did. -/
theorem user2System_eq_ok {env : Env} {virtAddr limit : Word} {p : Ptr} {k k' : Kernel}
    (hpos : 0 ≤ limit.toInt) (h : user2System env virtAddr limit k = .ok p k') :
    limit.toNat + 1 < 2 ^ 31 ∧ ∃ s m, k.machine.stringAt virtAddr limit.toNat = some s ∧
      k.machine.Alike m ∧ p = env.kernelBuf ∧
      k' = k.withString m env.kernelBuf s limit.toNat := by
  have hlimit : limit.toNat + 1 < 2 ^ 31 := by
    refine add_one_lt_of_nonneg hpos fun hneg ↦ ?_
    rw [user2System, newChars, if_pos hneg] at h
    cases h
  obtain ⟨hnat, hpos', hloop⟩ := limit_add_one hlimit
  have hsome : (k.machine.stringAt virtAddr limit.toNat).isSome = true := by
    have h' := h
    rw [user2System, bind_of_ok (newChars_zero hpos' k), hloop] at h'
    obtain ⟨_, k₁, hcopy, -⟩ := bind_eq_ok.mp h'
    simpa using stringAt_isSome_of_copyFromUser hcopy
  obtain ⟨s, hs⟩ := Option.isSome_iff_exists.mp hsome
  obtain ⟨m, halike, hrun⟩ := user2System_eq env hlimit hs
  rw [hrun] at h
  cases h
  exact ⟨hlimit, s, m, hs, halike, rfl, rfl⟩

/-! ## `System2User` -/

/-- The `n` bytes from `addr` on can be written. -/
def Machine.Writable (m : Machine) (addr : Word) (n : ℕ) : Prop :=
  ∀ i < n, (m.physical (addr + BitVec.ofNat 32 i) 1 true).isSome = true

private theorem loadChar_of_lt {p : Ptr} {i : ℕ} {k : Kernel} (h : i < (k.heap.bytes p).length) :
    ∃ c, loadChar p i k = .ok c k := by
  refine ⟨(k.heap.bytes p)[i], ?_⟩
  rw [loadChar, List.getElem?_eq_getElem h]

/-- The loop of `System2User` returns if the rest of the destination can be written. -/
private theorem copyToUser_returns {virtAddr : Word} {p : Ptr} {i rest : ℕ} {k : Kernel}
    (hlen : i + rest ≤ (k.heap.bytes p).length)
    (hwrite : ∀ j, i ≤ j → j < i + rest →
      (k.machine.physical (virtAddr + BitVec.ofNat 32 j) 1 true).isSome = true) :
    ∃ v k', copyToUser virtAddr (loadChar p) i rest k = .ok v k' := by
  induction rest generalizing i k with
  | zero => exact ⟨_, _, rfl⟩
  | succ rest ih =>
    obtain ⟨c, hc⟩ := loadChar_of_lt (p := p) (i := i) (k := k) (by omega)
    obtain ⟨a, ha⟩ := Option.isSome_iff_exists.mp (hwrite i (Nat.le_refl i) (by omega))
    obtain ⟨m, hm, halike⟩ := writeMem_of_physical ha (c.signExtend 32)
    rw [copyToUser, bind_of_ok hc, bind_of_ok (onMachine_of_ok hm)]
    split
    · exact ⟨_, _, rfl⟩
    · refine ih (k := { k with machine := m.store a 1 (c.signExtend 32) })
        (Nat.le_trans (by omega) hlen) fun j hij hj ↦ ?_
      rw [Machine.physical_store, halike.physical]
      exact hwrite j (by omega) (by omega)

theorem system2User_returns {virtAddr len : Word} {p : Ptr} {k : Kernel}
    (hlen : 0 ≤ len.toInt → len.toNat ≤ (k.heap.bytes p).length)
    (hwrite : 0 ≤ len.toInt → k.machine.Writable virtAddr len.toNat) :
    ∃ v k', system2User virtAddr len (loadChar p) k = .ok v k' := by
  rw [system2User]
  split
  · exact ⟨_, _, rfl⟩
  · rename_i hneg
    have hpos := Int.not_lt.mp hneg
    refine copyToUser_returns (by simpa using hlen hpos) fun j _ hj ↦ ?_
    exact hwrite hpos j (by simpa using hj)

end Nachos
