import Mathlib.Algebra.Ring.Nat
import Mathlib.Data.Stream.Init
import Mathlib.Order.Bounds.Defs
import Nachos.Userprog.EndOfInput
import Nachos.Userprog.ReadBytes

/-!
# Reading from the console

A `Read` on descriptor 0 of `n` bytes takes characters from the console until a newline or a NUL
or until it has `n - 1` of them, and hands them on with a NUL behind them. Only in the first case is
the terminator taken as well; a line of exactly `n - 1` characters leaves its newline to the next
call. The input is an unbounded stream, and every call goes on where the one before has stopped, so
that what the calls have taken, put together, is always the beginning of the stream.
-/

namespace Nachos

open Program

/-! ## A line of a stream -/

/-- The number of characters before the next terminator, at most `n`. -/
def lineLength : Stream' Byte → ℕ → ℕ
  | _, 0 => 0
  | s, n + 1 => if EndsLine s.head then 0 else lineLength s.tail n + 1

/-- The number of characters taken: the terminator counts if it, and not the bound, ends the
line. -/
def lineUsed (s : Stream' Byte) (n : ℕ) : ℕ :=
  if lineLength s n = n then lineLength s n else lineLength s n + 1

theorem lineLength_of_endsLine {s : Stream' Byte} (h : EndsLine s.head) (n : ℕ) :
    lineLength s (n + 1) = 0 := if_pos h

theorem lineLength_of_not_endsLine {s : Stream' Byte} (h : ¬EndsLine s.head) (n : ℕ) :
    lineLength s (n + 1) = lineLength s.tail n + 1 := if_neg h

private theorem lineUsed_of_endsLine {s : Stream' Byte} (h : EndsLine s.head) (n : ℕ) :
    lineUsed s (n + 1) = 1 := by
  rw [lineUsed, lineLength_of_endsLine h, if_neg (Nat.succ_ne_zero n).symm]

private theorem lineUsed_of_not_endsLine {s : Stream' Byte} (h : ¬EndsLine s.head) (n : ℕ) :
    lineUsed s (n + 1) = lineUsed s.tail n + 1 := by
  rw [lineUsed, lineUsed, lineLength_of_not_endsLine h]
  simp only [Nat.add_right_cancel_iff]
  split <;> rfl

/-- The smaller of the bound and the number of characters before the next terminator. -/
private theorem isLeast_lineLength (s : Stream' Byte) (n : ℕ) :
    IsLeast {j | j = n ∨ EndsLine (s.get j)} (lineLength s n) := by
  induction n generalizing s with
  | zero => exact ⟨.inl rfl, fun _ _ ↦ Nat.zero_le _⟩
  | succ n ih =>
    by_cases h : EndsLine s.head
    · rw [lineLength_of_endsLine h]
      exact ⟨.inr h, fun _ _ ↦ Nat.zero_le _⟩
    · rw [lineLength_of_not_endsLine h]
      obtain ⟨hmem, hleast⟩ := ih s.tail
      refine ⟨hmem.imp (congrArg (· + 1)) id, fun j hj ↦ ?_⟩
      cases j with
      | zero =>
        rcases hj with hzero | hends
        · exact absurd hzero (Nat.succ_ne_zero n).symm
        · exact absurd hends h
      | succ j => exact Nat.succ_le_succ (hleast (hj.imp Nat.succ.inj id))

theorem lineLength_le (s : Stream' Byte) (n : ℕ) : lineLength s n ≤ n :=
  (isLeast_lineLength s n).2 (.inl rfl)

private theorem lineUsed_le (s : Stream' Byte) (n : ℕ) : lineUsed s n ≤ n := by
  have hle := lineLength_le s n
  rw [lineUsed]
  split <;> omega

/-- No character of the line is a NUL. -/
private theorem line_ne_zero (s : Stream' Byte) (n : ℕ) : ∀ c ∈ s.take (lineLength s n), c ≠ 0 := by
  induction n generalizing s with
  | zero => exact fun c hc ↦ absurd hc List.not_mem_nil
  | succ n ih =>
    by_cases h : EndsLine s.head
    · rw [lineLength_of_endsLine h]
      exact fun c hc ↦ absurd hc List.not_mem_nil
    · rw [lineLength_of_not_endsLine h, Stream'.take_succ, List.forall_mem_cons]
      exact ⟨fun hzero ↦ h (.inr hzero), ih s.tail⟩

/-! ## `GetString` -/

/-- The loop behind the characters in `front`. -/
private theorem getStringLoop_eq {buffer : Ptr} {s : Stream' Byte} {n N : ℕ} (hn : n ≤ N)
    {k : Kernel}
    (front : List Byte) {behind : List Byte} (hblock : k.heap.bytes buffer = front ++ behind)
    (hlen : n ≤ behind.length) (hin : k.consoleIn = s.take N) :
    getStringLoop buffer front.length n k = .ok (front.length + lineLength s n) { k with
      consoleIn := (s.drop (lineUsed s n)).take (N - lineUsed s n)
      heap := k.heap.set buffer
        (front ++ s.take (lineLength s n) ++ behind.drop (lineLength s n)) } := by
  induction n generalizing s N k front behind with
  | zero =>
    rw [getStringLoop, lineUsed, lineLength, if_pos rfl, Stream'.take_zero, List.append_nil,
      List.drop_zero, ← hblock, Heap.set_bytes, Stream'.drop_zero, Nat.sub_zero, ← hin]
    rfl
  | succ n ih =>
    obtain ⟨N, rfl⟩ := Nat.exists_eq_add_of_le' (Nat.le_trans (Nat.succ_pos n) hn)
    rw [Stream'.take_succ] at hin
    by_cases h : EndsLine s.head
    · rw [getStringLoop_of_endsLine h hin, lineUsed_of_endsLine h, lineLength_of_endsLine h,
        Stream'.take_zero, List.append_nil, List.drop_zero, ← hblock, Heap.set_bytes,
        Nat.add_sub_cancel, ← Stream'.tail_eq_drop]
      rfl
    · obtain ⟨d, behind, rfl⟩ := List.exists_cons_of_length_pos (Nat.lt_of_lt_of_le n.succ_pos hlen)
      have hstore : storeChars buffer front.length [s.head] { k with consoleIn := s.tail.take N }
          = .ok () { k with
            consoleIn := s.tail.take N
            heap := k.heap.set buffer ((front ++ [s.head]) ++ behind) } := by
        rw [storeChars_of_le (by rw [hblock]; simp), hblock, splice_append_cons,
          List.append_cons]
      rw [getStringLoop_of_not_endsLine h hin, bind_of_ok hstore, lineUsed_of_not_endsLine h,
        lineLength_of_not_endsLine h]
      have hrest := ih (s := s.tail) (N := N) (k := { k with
          consoleIn := s.tail.take N
          heap := k.heap.set buffer ((front ++ [s.head]) ++ behind) })
        (Nat.le_of_succ_le_succ hn) (front ++ [s.head]) (Heap.set_bytes_self ..)
        (Nat.le_of_succ_le_succ hlen) rfl
      rw [List.length_append, List.length_singleton] at hrest
      rw [hrest]
      simp [Stream'.take_succ, Nat.add_assoc, Nat.add_comm 1]

/-- The whole of `GetString`, in a buffer of the size it is told. -/
private theorem getString_eq (buffer : Ptr) {s : Stream' Byte} {size : Word} {n N : ℕ}
    (hsize : 0 < size.toInt) (hn : size.toNat = n + 1) (hN : n + 1 ≤ N) {k : Kernel}
    (hblock : n + 1 ≤ (k.heap.bytes buffer).length) (hin : k.consoleIn = s.take N) :
    ∃ behind, n + 1 ≤ (s.take (lineLength s n) ++ 0 :: behind).length ∧
      getString buffer size k = .ok (BitVec.ofNat 32 (lineLength s n)) { k with
        consoleIn := (s.drop (lineUsed s n)).take (N - lineUsed s n)
        heap := k.heap.set buffer (s.take (lineLength s n) ++ 0 :: behind) } := by
  have hbound : (size.toInt - 1).toNat = n := by
    have := toInt_eq_toNat (toNat_lt_of_nonneg (Int.le_of_lt hsize))
    omega
  have hle := lineLength_le s n
  have hloop := getStringLoop_eq (show n ≤ N by omega) []
    (show k.heap.bytes buffer = [] ++ k.heap.bytes buffer from rfl) (by omega) hin
  rw [List.length_nil, Nat.zero_add, List.nil_append] at hloop
  -- there is room for the NUL
  obtain ⟨d, behind, hbehind⟩ := List.exists_cons_of_length_pos
    (l := (k.heap.bytes buffer).drop (lineLength s n)) (by rw [List.length_drop]; omega)
  have hroom := congrArg List.length hbehind
  rw [List.length_drop, List.length_cons] at hroom
  rw [hbehind] at hloop
  have hend := splice_append_cons (s.take (lineLength s n)) behind 0 d
  rw [Stream'.length_take] at hend
  refine ⟨behind, ?_, ?_⟩
  · rw [List.length_append, List.length_cons, Stream'.length_take]
    omega
  · rw [getString, hbound, bind_of_ok hloop, bind_of_ok (storeChars_of_le ?_)]
    · simp only [Heap.set_bytes_self, Heap.set_set, hend]
      rfl
    · simp

/-! ## The call -/

/-- The size asked for. -/
def Trap.readSize (t : Trap) : ℕ := (t.machine.registers 5).toNat

/-- A `Read` of at least one byte from descriptor 0 into a buffer the user program may write. -/
structure Trap.ReadsConsole (t : Trap) : Prop where
  code : t.machine.registers 2 = Syscall.read.code
  descriptor : t.machine.registers 6 = 0
  size : 1 ≤ (t.machine.registers 5).toInt
  linear : t.machine.Linear
  frames : t.machine.DistinctFrames
  writable : t.machine.Writable (t.machine.registers 4) t.readSize

/-- What a call does with the stream `s` in front of it: `count` characters are delivered and `used`
are taken. -/
structure Kernel.ReadsLine (k : Kernel) (s : Stream' Byte) (t : Trap) (count used : ℕ)
    (k' : Kernel) : Prop where
  /-- The smaller of `n - 1` and the number of characters before the next terminator. -/
  delivered : IsLeast {j | j = t.readSize - 1 ∨ EndsLine (s.get j)} count
  taken : used = if count = t.readSize - 1 then count else count + 1
  input : k.consoleIn = s.take used ++ k'.consoleIn
  result : (k'.machine.registers 2).toInt = count
  memory : t.machine.Copied k'.machine (t.machine.registers 4) (s.take count ++ [0])
  openfile : k'.openfile = k.openfile
  socket : k'.socket = k.socket
  host : k'.host = k.host
  consoleOut : k'.consoleOut = k.consoleOut
  heap : ∀ p ≠ t.env.buf, k'.heap.bytes p = k.heap.bytes p

/-- `SC_Read` on descriptor 0. -/
private theorem scRead_console (env : Env) {k : Kernel} {s : Stream' Byte} {N : ℕ}
    (hzero : k.machine.registers 6 = 0) (hpos : 0 < (k.machine.registers 5).toInt)
    (hm : k.machine.Linear) (hdist : k.machine.DistinctFrames)
    (hwrite : k.machine.Writable (k.machine.registers 4) (k.machine.registers 5).toNat)
    {n : ℕ} (hn : (k.machine.registers 5).toNat = n + 1) (hN : n + 1 ≤ N)
    (hin : k.consoleIn = s.take N) :
    ∃ m heap, scRead env k = .ok () { k with
        machine := m, heap := heap, consoleIn := (s.drop (lineUsed s n)).take (N - lineUsed s n) } ∧
      m.registers 2 = BitVec.ofNat 32 (lineLength s n) ∧
      k.machine.Copied m (k.machine.registers 4) (s.take (lineLength s n) ++ [0]) ∧
      ∀ p ≠ env.buf, heap.bytes p = k.heap.bytes p := by
  have hle := lineLength_le s n
  -- the buffer, and the line in it
  obtain ⟨behind, hroom, hline⟩ := getString_eq env.buf
    (k := k.buffered env (k.machine.registers 5)) hpos hn hN
    (by simp [Kernel.buffered, hn]) hin
  -- the copy to the user
  obtain ⟨m, hcopy, hregs, hcopied⟩ := system2User_copied (k.machine.registers 4)
    (Kernel.delivers_loadChar { k with
      machine := k.machine.setReg 2 (BitVec.ofNat 32 (lineLength s n))
      consoleIn := (s.drop (lineUsed s n)).take (N - lineUsed s n)
      heap := (k.buffered env (k.machine.registers 5)).heap.set env.buf
        (s.take (lineLength s n) ++ 0 :: behind) } env.buf)
    ⟨hm.tlb_none, hm.pageTable_some⟩ hdist (Int.le_of_lt hpos)
    (.inl (by simpa [hn] using hroom))
    (Machine.Writable.mono hwrite (length_uptoZero_take_le _ _))
  have hblock : uptoZero ((s.take (lineLength s n) ++ 0 :: behind).take (n + 1))
      = s.take (lineLength s n) ++ [0] := by
    obtain ⟨j, hj⟩ := Nat.exists_eq_add_of_le hle
    rw [show n + 1 = (s.take (lineLength s n)).length + (j + 1) by rw [Stream'.length_take]; omega,
      List.take_length_add_append, List.take_succ_cons, uptoZero_append_zero (line_ne_zero s n)]
  simp only [Heap.set_bytes_self, hn, hblock] at hcopied
  refine ⟨m, ((k.buffered env (k.machine.registers 5)).heap.set env.buf
    (s.take (lineLength s n) ++ 0 :: behind)).delete env.buf, ?_, ?_,
    ⟨hcopied.copied, hcopied.frame⟩, fun p hp ↦ ?_⟩
  · have hread : sysRead env env.buf (k.machine.registers 5) 0 (k.buffered env _) = _ := hline
    rw [scRead_eq, withBuffer, bind_of_ok (newChars_of_nonneg (Int.le_of_lt hpos) k), hzero,
      readBranches, if_neg (by decide), if_pos rfl]
    rw [bind_of_ok ((bind_of_ok hread).trans ((bind_of_ok (setResult_eq _ _)).trans
      (bind_of_ok hcopy)))]
    rfl
  · rw [hregs]
    exact Machine.setReg_registers_self _ _ _
  · simp [Heap.delete, Heap.set, Kernel.buffered, Heap.new, hp]

/-- **One call.** -/
theorem Trap.ReadsConsole.handle {t : Trap} (h : t.ReadsConsole) {k : Kernel} {s : Stream' Byte}
    {N : ℕ} (hN : t.readSize ≤ N) (hin : k.consoleIn = s.take N) :
    ∃ k', k.handle t = .ok () k' ∧
      k.ReadsLine s t (lineLength s (t.readSize - 1)) (lineUsed s (t.readSize - 1)) k' ∧
      k'.consoleIn
        = (s.drop (lineUsed s (t.readSize - 1))).take (N - lineUsed s (t.readSize - 1)) := by
  have hpos : 0 < (t.machine.registers 5).toInt := h.size
  have hrange := toNat_lt_of_nonneg (Int.le_of_lt hpos)
  have hint := toInt_eq_toNat hrange
  obtain ⟨n, hn⟩ := Nat.exists_eq_add_of_le' (show 1 ≤ t.readSize by rw [Trap.readSize]; omega)
  have hpred : t.readSize - 1 = n := by omega
  obtain ⟨m, heap, hrun, hresult, hcopied, hheap⟩ := scRead_console t.env
    (k := { k with machine := t.machine }) h.descriptor hpos h.linear h.frames h.writable hn
    (hn ▸ hN) hin
  have hle := lineLength_le s n
  have hused := lineUsed_le s n
  rw [hpred]
  refine ⟨_, handle_of_body h.code hrun, ?_, rfl⟩
  constructor
  case delivered => exact hpred ▸ isLeast_lineLength s n
  case taken => rw [hpred, lineUsed]
  case input =>
    have hsplit := Stream'.take_add (a := s) (m := lineUsed s n) (n := N - lineUsed s n)
    rw [Nat.add_sub_cancel' (by omega), ← hin] at hsplit
    exact hsplit
  case result =>
    rw [Machine.skip_result, hresult, toInt_ofNat_of_lt]
    rw [Trap.readSize] at hn
    simp only [offsetLimit] at hrange ⊢
    omega
  case memory => exact ⟨hcopied.copied, hcopied.frame⟩
  case openfile | socket | host | consoleOut => rfl
  case heap => exact hheap

/-! ## Any number of calls -/

/-- The calls in turn, each on what the ones before have left of the stream; the lists are what each
of them takes. -/
inductive ConsoleReads : Stream' Byte → Kernel → List Trap → List (List Byte) → Kernel → Prop
  | nil {s : Stream' Byte} {k : Kernel} : ConsoleReads s k [] [] k
  | cons {s : Stream' Byte} {k k₁ k' : Kernel} {t : Trap} {ts : List Trap} {count used : ℕ}
      {parts : List (List Byte)} :
      k.handle t = .ok () k₁ → k.ReadsLine s t count used k₁ →
      ConsoleReads (s.drop used) k₁ ts parts k' →
      ConsoleReads s k (t :: ts) (s.take used :: parts) k'

/-- What the calls have taken and what is left are the input. -/
theorem ConsoleReads.flatten_append {s : Stream' Byte} {k k' : Kernel} {ts : List Trap}
    {parts : List (List Byte)} (h : ConsoleReads s k ts parts k') :
    parts.flatten ++ k'.consoleIn = k.consoleIn := by
  induction h with
  | nil => rfl
  | cons _ hline _ ih => rw [List.flatten_cons, List.append_assoc, ih, hline.input]

/-- **Console reads partition the input.** On every stream and for every sequence of calls, with as
much of the stream still to be delivered as one likes: every call returns, delivers the rest of its
line as far as it fits, with a NUL behind it, and changes nothing else; it takes the terminator
exactly when this ended it; and what the calls take, put together, is the beginning of the stream,
followed by what is left. -/
theorem consoleReads_partition (s : Stream' Byte) {ts : List Trap}
    (hts : ∀ t ∈ ts, t.ReadsConsole) {N : ℕ} (hN : (ts.map Trap.readSize).sum ≤ N) {k : Kernel}
    (hin : k.consoleIn = s.take N) :
    ∃ parts k', ConsoleReads s k ts parts k' ∧ parts.flatten ++ k'.consoleIn = s.take N := by
  have hrun : ∃ parts k', ConsoleReads s k ts parts k' := by
    induction ts generalizing s N k with
    | nil => exact ⟨[], k, .nil⟩
    | cons t ts ih =>
      rw [List.forall_mem_cons] at hts
      rw [List.map_cons, List.sum_cons] at hN
      obtain ⟨k₁, hrun, hline, hleft⟩ := hts.1.handle (Nat.le_trans (Nat.le_add_right _ _) hN) hin
      have hused := lineUsed_le s (t.readSize - 1)
      obtain ⟨parts, k', hrest⟩ := ih (s.drop (lineUsed s (t.readSize - 1))) hts.2 (by omega) hleft
      exact ⟨_, k', .cons hrun hline hrest⟩
  obtain ⟨parts, k', hreads⟩ := hrun
  exact ⟨parts, k', hreads, hin ▸ hreads.flatten_append⟩

/-- A machine about to read `n` bytes from the console to address 128. -/
def consoleMachine (n : Word) : Machine :=
  { identityMap with registers := fun i ↦ if i = 2 then 7 else if i = 4 then 128 else
      if i = 5 then n else 0 }

def consoleTrap (n : Word) : Trap := ⟨consoleMachine n, Env.quiet⟩

private theorem consoleTrap_readsConsole {n : Word} (hpos : 1 ≤ n.toInt)
    (hwrite : (consoleMachine n).Writable 128 n.toNat) : (consoleTrap n).ReadsConsole where
  code := rfl
  descriptor := rfl
  size := hpos
  linear := ⟨rfl, _, rfl⟩
  frames := identityMap_distinctFrames
  writable := hwrite

/-- The letters `a`, `b`, a newline, and then NULs. The first call fills its three bytes and leaves
the newline to the second. -/
theorem twoReads_partition :
    ∃ parts k', ConsoleReads (fun i ↦ [97, 98, 10].getD i 0)
        (Kernel.initial (consoleMachine 3) ⟨fun _ ↦ [], []⟩ Host.empty [97, 98, 10, 0, 0, 0])
        [consoleTrap 3, consoleTrap 3] parts k' ∧
      parts.flatten ++ k'.consoleIn = [97, 98, 10, 0, 0, 0] := by
  have hall : ∀ i < 3,
      ((consoleMachine 3).physical (128 + BitVec.ofNat 32 i) 1 true).isSome = true := by decide
  have hread : (consoleTrap 3).ReadsConsole := consoleTrap_readsConsole (by decide) hall
  have hreads : ∀ t ∈ [consoleTrap 3, consoleTrap 3], t.ReadsConsole := by simpa using hread
  exact consoleReads_partition (fun i ↦ [97, 98, 10].getD i 0) hreads (N := 6) (by decide) rfl

end Nachos
