import Mathlib.Data.List.TakeWhile
import Mathlib.Data.Stream.Init
import Nachos.Userprog.EndOfInput
import Nachos.Userprog.ReadWrite

/-!
# `SysReadString`

The function allocates `length + 1` bytes, for `length` characters and a NUL. Its loop counts the
characters with an index that starts at `-1` and goes on while this is below `length`, which is one
round too many: a line of `length` characters is read with its newline and ends in place, but of a
longer one `length + 1` characters are stored, and the NUL goes behind the buffer.
-/

namespace Nachos

open Program

/-! ## The function -/

/-- The loop, with `buffer[0..i]` filled; the result is `i` at its end. -/
def readStringLoop (buffer : Ptr) (length i : ℤ) : Kern ℤ :=
  if i < length then do
    let c ← getChar
    if c ≠ 10 then do
      storeChars buffer (i + 1).toNat [c]
      readStringLoop buffer length (i + 1)
    else return i
  else return i
termination_by (length - i).toNat

/-- `SysReadString`. -/
def sysReadString (env : Env) (length : Word) : Kern Ptr := do
  let buffer ← newChars env.buf (length + 1) env.junk
  let i ← readStringLoop buffer length.toInt (-1)
  storeChars buffer (i + 1).toNat [0]
  return buffer

/-! ## A line of the input -/

/-- The input up to the newline, cut to at most `n` characters. -/
def inputLine (s : Stream' Byte) (n : ℕ) : List Byte := (s.take n).takeWhile (· ≠ 10)

private theorem inputLine_newline {s : Stream' Byte} (h : s.head = 10) (n : ℕ) :
    inputLine s (n + 1) = [] := by
  rw [inputLine, Stream'.take_succ, List.takeWhile_cons_of_neg (by simpa using h)]

private theorem inputLine_char {s : Stream' Byte} (h : s.head ≠ 10) (n : ℕ) :
    inputLine s (n + 1) = s.head :: inputLine s.tail n := by
  rw [inputLine, Stream'.take_succ, List.takeWhile_cons_of_pos (by simpa using h)]
  rfl

theorem length_inputLine_le (s : Stream' Byte) (n : ℕ) : (inputLine s n).length ≤ n := by
  have hle := (List.takeWhile_prefix (l := s.take n) (· ≠ 10)).length_le
  rwa [Stream'.length_take] at hle

/-- The bound does not cut the line exactly if there is a newline in front of it. -/
theorem length_inputLine_lt_iff {s : Stream' Byte} {n : ℕ} :
    (inputLine s n).length < n ↔ 10 ∈ s.take n := by
  have hpre := List.takeWhile_prefix (l := s.take n) (· ≠ 10)
  have hlen := Stream'.length_take n s
  constructor
  · intro hlt
    by_contra hnone
    have hall : inputLine s n = s.take n :=
      List.takeWhile_eq_self_iff.mpr fun c hc ↦ decide_eq_true fun heq ↦ hnone (heq ▸ hc)
    rw [hall, hlen] at hlt
    exact Nat.lt_irrefl n hlt
  · intro hmem
    refine Nat.lt_of_le_of_ne (length_inputLine_le s n) fun heq ↦ ?_
    have hall : inputLine s n = s.take n := hpre.eq_of_length (heq.trans hlen.symm)
    exact of_decide_eq_true (List.takeWhile_eq_self_iff.mp hall 10 hmem) rfl

/-- A line that ends in time is not cut by the smaller bound either. -/
private theorem inputLine_succ {s : Stream' Byte} {n : ℕ} (h : 10 ∈ s.take (n + 1)) :
    inputLine s (n + 1) = inputLine s n := by
  rw [Stream'.take_succ', List.mem_append] at h
  by_cases hmem : 10 ∈ s.take n
  · have hshort : ((s.take n).takeWhile (· ≠ 10)).length ≠ (s.take n).length := by
      rw [Stream'.length_take]
      exact Nat.ne_of_lt (length_inputLine_lt_iff.mpr hmem)
    rw [inputLine, Stream'.take_succ', List.takeWhile_append, if_neg hshort]
    rfl
  · have hlast : s.get n = 10 := (List.mem_singleton.mp (h.resolve_left hmem)).symm
    have hall : (s.take n).takeWhile (· ≠ 10) = s.take n :=
      List.takeWhile_eq_self_iff.mpr fun c hc ↦ decide_eq_true fun heq ↦ hmem (heq ▸ hc)
    rw [inputLine, inputLine, Stream'.take_succ', List.takeWhile_append, hall, if_pos rfl, hlast]
    simp

/-! ## The loop -/

section loop

variable {buffer : Ptr} {k : Kernel} {length i : ℤ}

private theorem readStringLoop_done (h : ¬i < length) :
    readStringLoop buffer length i k = .ok i k := by
  rw [readStringLoop, if_neg h]
  rfl

private theorem readStringLoop_newline {rest : List Byte} (h : i < length)
    (hin : k.consoleIn = 10 :: rest) :
    readStringLoop buffer length i k = .ok i { k with consoleIn := rest } := by
  rw [readStringLoop, if_pos h, bind_of_ok (getChar_cons hin)]
  rfl

private theorem readStringLoop_char {c : Byte} {rest : List Byte} (h : i < length) (hc : c ≠ 10)
    (hin : k.consoleIn = c :: rest) :
    readStringLoop buffer length i k = (do
      storeChars buffer (i + 1).toNat [c]
      readStringLoop buffer length (i + 1) : Kern ℤ) { k with consoleIn := rest } := by
  rw [readStringLoop, if_pos h, bind_of_ok (getChar_cons hin)]
  exact congrFun (if_pos hc) _

/-- The loop behind the characters in `front`, `r` rounds from its end, in a buffer with room for
these: it stores the line, cut to `r` characters. -/
private theorem readStringLoop_eq {s : Stream' Byte} {r N : ℕ} (hN : r ≤ N) (front : List Byte)
    {behind : List Byte} (hblock : k.heap.bytes buffer = front ++ behind)
    (hroom : r ≤ behind.length) (hin : k.consoleIn = s.take N) (hi : i + 1 = front.length)
    (hlength : length = i + r) :
    ∃ input, readStringLoop buffer length i k = .ok (i + (inputLine s r).length) { k with
      consoleIn := input
      heap := k.heap.set buffer
        (front ++ inputLine s r ++ behind.drop (inputLine s r).length) } := by
  -- by induction on the rounds left
  induction r generalizing s N k front behind i with
  | zero =>
    refine ⟨k.consoleIn, ?_⟩
    have hnil : inputLine s 0 = [] := rfl
    rw [readStringLoop_done (by omega), hnil, List.append_nil, List.length_nil, List.drop_zero,
      ← hblock, Heap.set_bytes, Int.natCast_zero, Int.add_zero]
  | succ r ih =>
    obtain ⟨N, rfl⟩ := Nat.exists_eq_add_of_le' (Nat.le_trans (Nat.succ_pos r) hN)
    rw [Stream'.take_succ] at hin
    by_cases hc : s.head = 10
    · refine ⟨s.tail.take N, ?_⟩
      rw [hc] at hin
      rw [readStringLoop_newline (by omega) hin, inputLine_newline hc, List.append_nil,
        List.length_nil, List.drop_zero, ← hblock, Heap.set_bytes, Int.natCast_zero, Int.add_zero]
    · obtain ⟨d, behind, rfl⟩ :=
        List.exists_cons_of_length_pos (Nat.lt_of_lt_of_le r.succ_pos hroom)
      have hstore : storeChars buffer (i + 1).toNat [s.head] { k with consoleIn := s.tail.take N }
          = .ok () { k with
            consoleIn := s.tail.take N
            heap := k.heap.set buffer ((front ++ [s.head]) ++ behind) } := by
        rw [hi, Int.toNat_natCast, storeChars_of_le (by rw [hblock]; simp), hblock,
          splice_append_cons, List.append_cons]
      obtain ⟨input, hrest⟩ := ih (s := s.tail) (N := N) (k := { k with
          consoleIn := s.tail.take N
          heap := k.heap.set buffer ((front ++ [s.head]) ++ behind) }) (i := i + 1)
        (Nat.le_of_succ_le_succ hN) (front ++ [s.head]) (Heap.set_bytes_self ..)
        (Nat.le_of_succ_le_succ hroom) rfl (by simp [hi]) (by omega)
      refine ⟨input, ?_⟩
      rw [readStringLoop_char (by omega) hc hin, bind_of_ok hstore, hrest, inputLine_char hc]
      simp [Int.add_assoc, Int.add_comm 1]

end loop

/-! ## The buffer -/

/-- The function returns a buffer of `length + 1` bytes that holds the line, cut to `length`
characters, with a NUL behind it; and nothing else has been written. -/
def Kernel.StoresLine (k : Kernel) (env : Env) (length : Word) (s : Stream' Byte) (k' : Kernel) :
    Prop :=
  sysReadString env length k = .ok env.buf k' ∧
    (k'.heap.bytes env.buf).length = length.toNat + 1 ∧
    (∃ behind, k'.heap.bytes env.buf = inputLine s length.toNat ++ 0 :: behind) ∧
    (∀ p ≠ env.buf, k'.heap.bytes p = k.heap.bytes p) ∧ k'.machine = k.machine

/-- It does, and what the caller finds there up to the first NUL is that line. -/
def Kernel.ReadsString (k : Kernel) (env : Env) (length : Word) (s : Stream' Byte) : Prop :=
  ∃ k', k.StoresLine env length s k' ∧
    cString (k'.heap.bytes env.buf) = inputLine s length.toNat

section line

variable (env : Env) {k : Kernel} {length : Word} {s : Stream' Byte} {N : ℕ}

/-- The function up to the store of the NUL. -/
private theorem sysReadString_eq (hlimit : length.toNat + 1 < 2 ^ 31) (hN : length.toNat + 1 ≤ N)
    (hin : k.consoleIn = s.take N) :
    ∃ input behind, (inputLine s (length.toNat + 1) ++ behind).length = length.toNat + 1 ∧
      sysReadString env length k = (do
        storeChars env.buf (inputLine s (length.toNat + 1)).length [0]
        return env.buf : Kern Ptr) { k with
          consoleIn := input
          heap := k.heap.new env.buf (inputLine s (length.toNat + 1) ++ behind) } := by
  obtain ⟨hnat, hpos, -⟩ := limit_add_one hlimit
  have hblock : (k.buffered env (length + 1)).heap.bytes env.buf
      = [] ++ (List.range (length.toNat + 1)).map env.junk := by
    rw [List.nil_append, ← hnat]
    exact Heap.new_bytes_self ..
  have hint : length.toInt = length.toNat := toInt_eq_toNat (by simp only [offsetLimit]; omega)
  obtain ⟨input, hloop⟩ := readStringLoop_eq hN [] hblock (by simp) hin
    (show (-1 : ℤ) + 1 = ([] : List Byte).length from rfl)
    (show length.toInt = -1 + ((length.toNat + 1 : ℕ) : ℤ) by omega)
  refine ⟨input, ((List.range (length.toNat + 1)).map env.junk).drop
    (inputLine s (length.toNat + 1)).length, ?_, ?_⟩
  · have hle := length_inputLine_le s (length.toNat + 1)
    rw [List.length_append, List.length_drop, List.length_map, List.length_range]
    omega
  · rw [sysReadString, bind_of_ok (newChars_of_nonneg (Int.not_lt.mp hpos) k), bind_of_ok hloop,
      show (-1 + ((inputLine s (length.toNat + 1)).length : ℤ) + 1).toNat
        = (inputLine s (length.toNat + 1)).length by omega]
    simp only [Kernel.buffered, Heap.set_new, List.nil_append]

/-- With a newline in time the NUL has its place, -/
private theorem storesLine_of_newline (hlimit : length.toNat + 1 < 2 ^ 31)
    (hN : length.toNat + 1 ≤ N)
    (hin : k.consoleIn = s.take N) (hline : 10 ∈ s.take (length.toNat + 1)) :
    ∃ k', k.StoresLine env length s k' := by
  obtain ⟨input, behind, hlen, hrun⟩ := sysReadString_eq env hlimit hN hin
  have hshort := length_inputLine_lt_iff.mpr hline
  rw [inputLine_succ hline] at hlen hrun hshort
  rw [List.length_append] at hlen
  obtain ⟨d, behind, rfl⟩ := List.exists_cons_of_length_pos (l := behind) (by omega)
  rw [List.length_cons] at hlen
  have hstore : storeChars env.buf (inputLine s length.toNat).length [0] { k with
      consoleIn := input, heap := k.heap.new env.buf (inputLine s length.toNat ++ d :: behind) }
      = .ok () { k with
        consoleIn := input
        heap := k.heap.new env.buf (inputLine s length.toNat ++ 0 :: behind) } := by
    rw [storeChars_of_le (by simp)]
    simp only [Heap.new_bytes_self, Heap.set_new, splice_append_cons]
  rw [bind_of_ok hstore] at hrun
  refine ⟨_, hrun, ?_, ⟨behind, Heap.new_bytes_self ..⟩, fun p hp ↦ Function.update_of_ne hp ..,
    rfl⟩
  rw [Heap.new_bytes_self, List.length_append, List.length_cons]
  omega

/-- and without one it is stored behind the buffer. -/
private theorem sysReadString_overrun (hlimit : length.toNat + 1 < 2 ^ 31)
    (hN : length.toNat + 1 ≤ N)
    (hin : k.consoleIn = s.take N) (hline : 10 ∉ s.take (length.toNat + 1)) :
    ∃ k', sysReadString env length k = .error .bufferIndex k' := by
  obtain ⟨input, behind, hlen, hrun⟩ := sysReadString_eq env hlimit hN hin
  have hfull : (inputLine s (length.toNat + 1)).length = length.toNat + 1 :=
    Nat.le_antisymm (length_inputLine_le _ _)
      (Nat.not_lt.mp fun hlt ↦ hline (length_inputLine_lt_iff.mp hlt))
  refine ⟨_, hrun.trans (bind_of_error (if_neg ?_))⟩
  rw [Heap.new_bytes_self, hlen, hfull]
  exact Nat.not_succ_le_self _

/-- The largest `int` leaves a negative size to allocate. -/
private theorem lt_of_sysReadString {p : Ptr} {k' : Kernel} (hpos : 0 ≤ length.toInt)
    (h : sysReadString env length k = .ok p k') : length.toNat + 1 < 2 ^ 31 := by
  refine add_one_lt_of_nonneg hpos fun hneg ↦ ?_
  rw [sysReadString, newChars, if_pos hneg] at h
  cases h

/-- The buffer is kept to, and the line stored, exactly if the line ends in time. -/
private theorem storesLine_iff (hpos : 0 ≤ length.toInt) (hN : length.toNat + 1 ≤ N)
    (hin : k.consoleIn = s.take N) :
    (∃ k', k.StoresLine env length s k') ↔
      length.toNat ≠ 2 ^ 31 - 1 ∧ 10 ∈ s.take (length.toNat + 1) := by
  have hrange := toNat_lt_of_nonneg hpos
  simp only [offsetLimit] at hrange
  constructor
  · rintro ⟨k', hrun, -⟩
    have hlimit := lt_of_sysReadString env hpos hrun
    refine ⟨by omega, ?_⟩
    by_contra hline
    obtain ⟨k'', hover⟩ := sysReadString_overrun env hlimit hN hin hline
    rw [hrun] at hover
    cases hover
  · rintro ⟨hmax, hline⟩
    exact storesLine_of_newline env (by omega) hN hin hline

/-- **`SysReadString`.** For every length and every input, with the stream delivering as many
characters as the loop may take: the function keeps to its buffer and stores the line with a NUL
behind it exactly when the line has at most `length` characters, so that the newline is among the
first `length + 1`, and the size of the buffer is an `int`; and it returns this line as a string
exactly when there is no NUL in it besides. -/
theorem readsString_iff (hpos : 0 ≤ length.toInt) (hN : length.toNat + 1 ≤ N)
    (hin : k.consoleIn = s.take N) :
    ((∃ k', k.StoresLine env length s k') ↔
      length.toNat ≠ 2 ^ 31 - 1 ∧ 10 ∈ s.take (length.toNat + 1)) ∧
    (k.ReadsString env length s ↔
      length.toNat ≠ 2 ^ 31 - 1 ∧ 10 ∈ s.take (length.toNat + 1) ∧
        0 ∉ inputLine s length.toNat) := by
  have hstores := storesLine_iff env hpos hN hin
  refine ⟨hstores, ?_⟩
  constructor
  · rintro ⟨k', hk', hstring⟩
    obtain ⟨hmax, hline⟩ := hstores.mp ⟨k', hk'⟩
    refine ⟨hmax, hline, fun hzero ↦ ?_⟩
    rw [← hstring, cString] at hzero
    exact absurd (List.mem_takeWhile_imp hzero) (by decide)
  · rintro ⟨hmax, hline, hzero⟩
    obtain ⟨k', hk'⟩ := hstores.mpr ⟨hmax, hline⟩
    refine ⟨k', hk', ?_⟩
    obtain ⟨-, -, ⟨behind, hblock⟩, -⟩ := hk'
    have hne : ∀ c ∈ inputLine s length.toNat, (decide (c ≠ 0)) = true :=
      fun c hc ↦ decide_eq_true fun heq ↦ hzero (heq ▸ hc)
    rw [hblock, cString, List.takeWhile_append_of_pos hne]
    simp

end line

/-! ## A line that is one character too long -/

/-- The letters `a` and `b`, and newlines from then on. -/
def twoLetters : Stream' Byte := fun i ↦ if i = 0 then 97 else if i = 1 then 98 else 10

/-- A kernel to which the first three characters have been typed. -/
def lettersKernel : Kernel := { typedKernel [] with consoleIn := twoLetters.take 3 }

/-- A buffer for one character gets two, and the NUL goes behind it. -/
theorem lettersKernel_overrun :
    (∃ k', sysReadString Env.quiet 1 lettersKernel = .error .bufferIndex k') ∧
      ¬lettersKernel.ReadsString Env.quiet 1 twoLetters := by
  obtain ⟨k', hover⟩ := sysReadString_overrun (k := lettersKernel) (s := twoLetters) (N := 3)
    Env.quiet (show (1 : Word).toNat + 1 < 2 ^ 31 by decide) (by decide) rfl (by decide)
  refine ⟨⟨k', hover⟩, ?_⟩
  rintro ⟨k'', ⟨hrun, -⟩, -⟩
  rw [hrun] at hover
  cases hover

/-- A buffer for two characters is enough. -/
theorem lettersKernel_readsString : lettersKernel.ReadsString Env.quiet 2 twoLetters :=
  (readsString_iff (N := 3) Env.quiet (by decide) (by decide) rfl).2.mpr
    ⟨by decide, by decide, by decide⟩

end Nachos
