import Nachos.Userprog.NameCalls
import Nachos.Userprog.ReadBytes

/-!
# A string through the kernel

`User2System` stops in front of a zero and fills up with zeros; `System2User` stops behind one. So
the two fit together: a string of length `n` fetched from one place and copied to another with the
count `n + 1` arrives with its terminator, and nothing is written behind it. The source may overlap
the destination, since the string is in the kernel when the first byte of it is written.

The limit is one less than the size of the buffer, and that size has to be an `int`: the largest
limit there is leaves `User2System` with a negative size to allocate.
-/

namespace Nachos

open Program

/-! ## What is copied -/

/-- The smaller of `n` and one more than the index of the first zero. -/
def copyCount (block : List Byte) (n : ℕ) : ℕ := min n (block.findIdx (· = 0) + 1)

private theorem uptoZero_eq_take (block : List Byte) :
    uptoZero block = block.take (block.findIdx (· = 0) + 1) := by
  induction block with
  | nil => rfl
  | cons c rest ih =>
    rw [uptoZero, List.findIdx_cons]
    by_cases hc : c = 0
    · rw [if_pos hc, decide_eq_true hc]
      rfl
    · rw [if_neg hc, ih, decide_eq_false hc, cond_false, List.take_succ_cons]

private theorem uptoZero_take (block : List Byte) (n : ℕ) :
    uptoZero (block.take n) = block.take (copyCount block n) := by
  rw [uptoZero_eq_take, List.findIdx_take, List.take_take, copyCount]
  congr 1
  omega

/-- There are that many bytes if there are `n`, or if there is a zero. -/
private theorem copyCount_le_length {block : List Byte} {n : ℕ} (h : n ≤ block.length ∨ 0 ∈ block) :
    copyCount block n ≤ block.length := by
  rw [copyCount]
  rcases h with h | hzero
  · omega
  · have hindex : block.findIdx (· = 0) < block.length :=
      List.findIdx_lt_length_of_exists ⟨0, hzero, by simp⟩
    omega

/-- `System2User(b, n, buffer)` writes the first bytes of the buffer, up to the first zero and that
included but at most `n`, returns their number and changes nothing else. -/
def Kernel.CopiesOut (k : Kernel) (b n : Word) (buffer : Ptr) : Prop :=
  ∃ m, system2User b n (loadChar buffer) k
      = .ok (BitVec.ofNat 32 (copyCount (k.heap.bytes buffer) n.toNat)) { k with machine := m } ∧
    m.registers = k.machine.registers ∧
    k.machine.Copied m b
      ((k.heap.bytes buffer).take (copyCount (k.heap.bytes buffer) n.toNat))

theorem Kernel.copiesOut {k : Kernel} (hm : k.machine.Linear) (hdist : k.machine.DistinctFrames)
    {b n : Word} {buffer : Ptr} (hn : 0 ≤ n.toInt)
    (hlen : n.toNat ≤ (k.heap.bytes buffer).length ∨ 0 ∈ k.heap.bytes buffer)
    (hwrite : k.machine.Writable b (copyCount (k.heap.bytes buffer) n.toNat)) :
    k.CopiesOut b n buffer := by
  have hcount : (uptoZero ((k.heap.bytes buffer).take n.toNat)).length
      = copyCount (k.heap.bytes buffer) n.toNat := by
    rw [uptoZero_take, List.length_take, Nat.min_eq_left (copyCount_le_length hlen)]
  obtain ⟨m, hrun, hregs, hcopied⟩ := system2User_copied b (k.delivers_loadChar buffer) hm hdist hn
    hlen (by rwa [hcount])
  rw [hcount] at hrun
  rw [uptoZero_take] at hcopied
  exact ⟨m, hrun, hregs, hcopied⟩

/-! ## From one address to another -/

/-- `User2System(a, limit)` returns a buffer of `limit + 1` bytes, `s` and zeros behind it, and
leaves user memory alone. -/
def Kernel.FetchesString (k : Kernel) (env : Env) (a limit : Word) (s : List Byte) : Prop :=
  ∃ k', user2System env a limit k = .ok env.kernelBuf k' ∧
    k'.heap.bytes env.kernelBuf = s ++ List.replicate (limit.toNat + 1 - s.length) 0 ∧
    (k'.heap.bytes env.kernelBuf).length = limit.toNat + 1 ∧
    k'.machine.registers = k.machine.registers ∧
    ∀ x, k'.machine.byteAt x = k.machine.byteAt x

/-- `System2User(b, n, User2System(a, limit))`. -/
def copyString (env : Env) (a limit b n : Word) : Kern Word := do
  let buffer ← user2System env a limit
  system2User b n (loadChar buffer)

/-- With the length of `s` and its terminator for `n`, this makes `s` the string at `b`. -/
def Kernel.CopiesString (k : Kernel) (env : Env) (a limit b : Word) (s : List Byte) : Prop :=
  ∃ k', copyString env a limit b (BitVec.ofNat 32 (s.length + 1)) k
      = .ok (BitVec.ofNat 32 (s.length + 1)) k' ∧
    k'.machine.HoldsName b s ∧
    k'.machine.registers = k.machine.registers ∧
    ∀ x, (∀ i < s.length + 1, x ≠ b + BitVec.ofNat 32 i) →
      k'.machine.byteAt x = k.machine.byteAt x

/-- Strings go into the kernel, out of it, and through it. -/
structure Kernel.TransfersStrings (k : Kernel) (env : Env) (a limit : Word) (s : List Byte) :
    Prop where
  fetch : k.FetchesString env a limit s
  copyOut : ∀ b n buffer, 0 < n.toInt →
    (n.toNat ≤ (k.heap.bytes buffer).length ∨ 0 ∈ k.heap.bytes buffer) →
    k.machine.Writable b (copyCount (k.heap.bytes buffer) n.toNat) → k.CopiesOut b n buffer
  through : ∀ b, k.machine.Writable b (s.length + 1) → k.CopiesString env a limit b s

section transfer

variable {k : Kernel} {a limit : Word} {s : List Byte}

/-- A string that was copied with its zero is the string there. -/
theorem Machine.Copied.holdsName {m m' : Machine} {b : Word} (h : m.Copied m' b (s ++ [0]))
    (hs : ∀ c ∈ s, c ≠ 0) : m'.HoldsName b s where
  chars i hi := by
    rw [h.copied i (by simp; omega), List.getElem?_append_left hi]
  ne_zero := hs
  zero := by
    rw [h.copied _ (by simp), List.getElem?_concat_length]

theorem Kernel.fetchesString (env : Env) (hlimit : limit.toNat + 1 < 2 ^ 31)
    (hs : k.machine.stringAt a limit.toNat = some s) : k.FetchesString env a limit s := by
  obtain ⟨m, halike, hrun⟩ := user2System_eq env hlimit hs
  refine ⟨_, hrun, Kernel.withString_bytes .., ?_, halike.registers, halike.byteAt⟩
  rw [Kernel.withString_bytes, length_stringBlock (stringAt_length hs)]

/-- The block `User2System` leaves, up to its first zero. -/
private theorem uptoZero_stringBlock (hs : ∀ c ∈ s, c ≠ 0) {n : ℕ} (hlen : s.length ≤ n) :
    uptoZero ((stringBlock s n).take (s.length + 1)) = s ++ [0] := by
  obtain ⟨j, rfl⟩ := Nat.exists_eq_add_of_le hlen
  rw [stringBlock, show s.length + j + 1 - s.length = j + 1 by omega, List.replicate_succ,
    List.take_length_add_append, List.take_succ_cons, List.take_zero, uptoZero_append_zero hs]

theorem Kernel.copiesString (env : Env) (hm : k.machine.Linear)
    (hdist : k.machine.DistinctFrames) (hlimit : limit.toNat + 1 < 2 ^ 31)
    (hs : k.machine.stringAt a limit.toNat = some s) {b : Word}
    (hwrite : k.machine.Writable b (s.length + 1)) : k.CopiesString env a limit b s := by
  have hlen := stringAt_length hs
  have hne := stringAt_ne_zero hs
  have hn : (BitVec.ofNat 32 (s.length + 1)).toNat = s.length + 1 := toNat_ofNat_of_lt (by omega)
  have hpos : 0 ≤ (BitVec.ofNat 32 (s.length + 1)).toInt := by
    rw [toInt_ofNat_of_lt (by simp only [offsetLimit]; omega)]
    omega
  obtain ⟨m, halike, hfetch⟩ := user2System_eq env hlimit hs
  have hbuffer := (k.withString m env.kernelBuf s limit.toNat).delivers_loadChar env.kernelBuf
  rw [Kernel.withString_bytes] at hbuffer
  -- the destination is as writable as before, since fetching moves no page
  obtain ⟨m', hcopy, hregs, hcopied⟩ := system2User_copied b hbuffer (halike.linear hm)
    (halike.distinctFrames hdist) hpos (.inl (by rw [hn, length_stringBlock hlen]; omega))
    (by
      rw [hn, uptoZero_stringBlock hne hlen, List.length_append, List.length_singleton]
      exact halike.writable hwrite)
  rw [hn, uptoZero_stringBlock hne hlen] at hcopy hcopied
  rw [List.length_append, List.length_singleton] at hcopy
  refine ⟨_, (bind_of_ok hfetch).trans hcopy, hcopied.holdsName hne,
    hregs.trans halike.registers, fun x hx ↦ ?_⟩
  exact (hcopied.frame x (by simpa using hx)).trans (halike.byteAt x)

/-- **String transfer.** In every user memory, for every limit and every string in front of it: the
string is fetched, whatever is in a buffer is copied up to its first zero, and a string fetched from
one place is copied to any other, overlapping or not, exactly when the size of the kernel's buffer,
one more than the limit, is an `int`. -/
theorem transfersStrings_iff (env : Env) (hm : k.machine.Linear)
    (hdist : k.machine.DistinctFrames) (hpos : 0 ≤ limit.toInt)
    (hs : k.machine.stringAt a limit.toNat = some s) :
    k.TransfersStrings env a limit s ↔ limit.toNat ≠ 2 ^ 31 - 1 := by
  have hrange := toNat_lt_of_nonneg hpos
  simp only [offsetLimit] at hrange
  constructor
  · rintro ⟨⟨k', hrun, -⟩, -, -⟩
    have hlimit := (user2System_eq_ok hpos hrun).1
    omega
  · intro hmax
    have hlimit : limit.toNat + 1 < 2 ^ 31 := by omega
    exact
      { fetch := Kernel.fetchesString env hlimit hs
        copyOut := fun b n buffer hn hlen hwrite ↦
          Kernel.copiesOut hm hdist (Int.le_of_lt hn) hlen hwrite
        through := fun b hwrite ↦ Kernel.copiesString env hm hdist hlimit hs hwrite }

end transfer

/-! ## The largest limit -/

/-- A kernel without files on a machine with the letter `a` at address 0 and zeros behind it. -/
def stringKernel : Kernel :=
  Kernel.boot { identityMap with mainMemory := fun i ↦ if i = 0 then 97 else 0 }

private theorem stringKernel_holdsName : stringKernel.machine.HoldsName 0 [97] :=
  ⟨by decide, by decide, by decide⟩

/-- The string cannot be fetched with the limit `2 ^ 31 - 1`. -/
theorem stringKernel_not_transfersStrings :
    0 ≤ (0x7fffffff : Word).toInt ∧
      stringKernel.machine.stringAt 0 (0x7fffffff : Word).toNat = some [97] ∧
      ¬stringKernel.TransfersStrings Env.quiet 0 0x7fffffff [97] := by
  refine ⟨by decide, stringKernel_holdsName.stringAt _, ?_⟩
  rintro ⟨⟨k', hrun, -⟩, -, -⟩
  exact absurd (user2System_eq_ok (by decide) hrun).1 (by decide)

/-- With the limit 32 it can, and copied to the place of its own terminator. -/
theorem stringKernel_transfersStrings :
    stringKernel.TransfersStrings Env.quiet 0 32 [97] ∧
      stringKernel.CopiesString Env.quiet 0 32 1 [97] := by
  have htransfer : stringKernel.TransfersStrings Env.quiet 0 32 [97] :=
    (transfersStrings_iff Env.quiet ⟨rfl, _, rfl⟩ identityMap_distinctFrames (by decide)
      (stringKernel_holdsName.stringAt _)).mpr (by decide)
  have hwrite : ∀ i < 2,
      (stringKernel.machine.physical (1 + BitVec.ofNat 32 i) 1 true).isSome = true := by decide
  exact ⟨htransfer, htransfer.through 1 hwrite⟩

end Nachos
