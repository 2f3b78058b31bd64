import Mathlib.Order.Bounds.Basic
import Nachos.Userprog.ReadBytes

/-!
# `Toupper`

The call fetches a string, turns its letters into capitals and copies it back. Each of the three
loops finds the end of the string in its own way: at the first zero or at the limit, by `strlen`
before every character, and by the count that the last `strlen` gave. They agree because no
character becomes a zero, so that the string keeps its length while it is rewritten, and because the
buffer is one byte longer than the limit.
-/

namespace Nachos

open Program

/-! ## Capitals -/

private theorem toupper_eq_zero {c : Byte} : toupper c = 0 ↔ c = 0 := by
  revert c
  decide +kernel

private theorem toupper_toupper (c : Byte) : toupper (toupper c) = toupper c := by
  revert c
  decide +kernel

theorem map_toupper_ne_zero {s : List Byte} (hs : ∀ c ∈ s, c ≠ 0) :
    ∀ c ∈ s.map toupper, c ≠ 0 := by
  intro c hc
  obtain ⟨d, hd, rfl⟩ := List.mem_map.mp hc
  exact fun h ↦ hs d hd (toupper_eq_zero.mp h)

/-! ## The loop over the buffer -/

/-- The loop of `SC_Toupper` from `data[i]` on, `rest` bytes in front of the end of the buffer. At
that end `strlen` has stopped it at the latest. -/
def upperLoop (data : Ptr) : ℕ → ℕ → Kern Unit
  | _, 0 => return
  | i, rest + 1 => do
    let bytes ← blockBytes data
    if i < (cString bytes).length then do
      let c ← loadChar data i
      storeChars data i [toupper c]
      upperLoop data (i + 1) rest
    else return

/-- `SC_Toupper` character by character. -/
def scToupperByChar (env : Env) : Kern Unit := do
  let firstAdd ← readRegister 4
  let data ← user2System env firstAdd maxLengthData
  upperLoop data 0 (maxLengthData.toNat + 1)
  let bytes ← blockBytes data
  let _ ← system2User firstAdd (BitVec.ofNat 32 (cString bytes).length) (loadChar data)
  setResult 0
  deleteBlock data

/-- The loop behind the characters in `front`. -/
private theorem upperLoop_eq {data : Ptr} {s : List Byte} {n : ℕ} (hn : 0 < n) {k : Kernel}
    (front : List Byte) (hblock : k.heap.bytes data = front ++ s ++ List.replicate n 0)
    (hne : ∀ c ∈ front ++ s, c ≠ 0) :
    upperLoop data front.length (s.length + n) k = .ok () { k with
      heap := k.heap.set data (front ++ s.map toupper ++ List.replicate n 0) } := by
  have hstring := cString_append_zeros hne hn
  -- by induction on what is left of the string
  induction s generalizing front k with
  | nil =>
    obtain ⟨n, rfl⟩ := Nat.exists_eq_add_of_lt hn
    rw [List.append_nil] at hblock hstring
    rw [List.length_nil, Nat.zero_add, upperLoop, bind_of_ok (blockBytes_eq data k), hblock,
      hstring, if_neg (Nat.lt_irrefl _), List.map_nil, List.append_nil, ← hblock, Heap.set_bytes]
    rfl
  | cons c s ih =>
    have hfront : (front ++ [toupper c]).length = front.length + 1 := by simp
    have hlong : front.length < (front ++ c :: s).length := by simp
    have hload : loadChar data front.length k = .ok c k := by
      rw [loadChar, hblock]
      simp
    have hstore : storeChars data front.length [toupper c] k = .ok () { k with
        heap := k.heap.set data (front ++ [toupper c] ++ s ++ List.replicate n 0) } := by
      rw [storeChars_of_le (by rw [hblock]; simp), hblock, List.append_assoc, List.cons_append,
        splice_append_cons, List.append_cons, List.append_assoc (front ++ [toupper c])]
    have hne' : ∀ d ∈ front ++ [toupper c] ++ s, d ≠ 0 := by
      simp only [List.mem_append, List.mem_cons, List.not_mem_nil, or_false] at hne ⊢
      rintro d ((hd | rfl) | hd)
      · exact hne d (.inl hd)
      · exact fun h ↦ hne c (.inr (.inl rfl)) (toupper_eq_zero.mp h)
      · exact hne d (.inr (.inr hd))
    have hrest := ih (front ++ [toupper c]) (k := { k with
        heap := k.heap.set data (front ++ [toupper c] ++ s ++ List.replicate n 0) })
      (Heap.set_bytes_self ..) hne' (cString_append_zeros hne' hn)
    rw [hfront] at hrest
    rw [List.length_cons, Nat.add_right_comm, upperLoop, bind_of_ok (blockBytes_eq data k), hblock,
      hstring, if_pos hlong, bind_of_ok hload, bind_of_ok hstore, hrest]
    simp

section rewritten

variable {k : Kernel} {m : Machine} {data : Ptr} {s : List Byte} {limit : ℕ}

private theorem set_withString (t : List Byte) :
    { k.withString m data s limit with
      heap := (k.withString m data s limit).heap.set data (stringBlock t limit) }
      = k.withString m data t limit := by
  simp only [Kernel.withString, Heap.set_new]

/-- The capitals stored all at once, -/
private theorem storeChars_upper (hlen : s.length ≤ limit) :
    storeChars data 0 (s.map toupper) (k.withString m data s limit)
      = .ok () (k.withString m data (s.map toupper) limit) := by
  have hnew : splice (stringBlock s limit) 0 (s.map toupper)
      = stringBlock (s.map toupper) limit := by
    rw [splice_zero, stringBlock, stringBlock, List.length_map, List.drop_left]
  have hroom : 0 + (s.map toupper).length
      ≤ ((k.withString m data s limit).heap.bytes data).length := by
    rw [Kernel.withString_bytes, length_stringBlock hlen, List.length_map]
    omega
  rw [storeChars_of_le hroom, Kernel.withString_bytes, hnew, set_withString]

/-- or one by one. -/
private theorem upperLoop_withString (hs : ∀ c ∈ s, c ≠ 0) (hlen : s.length ≤ limit) :
    upperLoop data 0 (limit + 1) (k.withString m data s limit)
      = .ok () (k.withString m data (s.map toupper) limit) := by
  have hloop := upperLoop_eq (show 0 < limit + 1 - s.length by omega) []
    (k.withString_bytes m data s limit) hs
  rw [List.length_nil, List.nil_append, show s.length + (limit + 1 - s.length) = limit + 1 by omega,
    ← List.length_map (f := toupper)] at hloop
  exact hloop.trans (congrArg _ (set_withString _))

end rewritten

/-- The two forms of the call are the same program. -/
private theorem scToupper_eq_byChar (env : Env) : scToupper env = scToupperByChar env := by
  funext k
  rw [scToupper, scToupperByChar, bind_of_ok (readRegister_of_lt (by decide) k),
    bind_of_ok (readRegister_of_lt (by decide) k)]
  cases hfetch : user2System env (k.machine.registers 4) maxLengthData k with
  | error e k₁ => rw [bind_of_error hfetch, bind_of_error hfetch]
  | ok p k₁ =>
    obtain ⟨-, s, m, hs, -, rfl, rfl⟩ := user2System_eq_ok (by decide) hfetch
    have hlen := stringAt_length hs
    have hne := stringAt_ne_zero hs
    rw [bind_of_ok hfetch, bind_of_ok hfetch, bind_of_ok (blockBytes_eq _ _),
      Kernel.withString_bytes, cString_stringBlock hne hlen, bind_of_ok (storeChars_upper hlen),
      bind_of_ok (upperLoop_withString hne hlen), bind_of_ok (blockBytes_eq _ _),
      Kernel.withString_bytes,
      cString_stringBlock (map_toupper_ne_zero hne) (by rwa [List.length_map]), List.length_map]

/-! ## The call -/

/-- The string at an address ends in front of the first zero or at the limit. -/
theorem isLeast_stringAt {m : Machine} {addr : Word} {n : ℕ} {s : List Byte}
    (h : m.stringAt addr n = some s) :
    IsLeast {j | j = n ∨ m.byteAt (addr + BitVec.ofNat 32 j) = some 0} s.length := by
  induction n generalizing addr s with
  | zero =>
    cases h
    exact ⟨.inl rfl, fun _ _ ↦ Nat.zero_le _⟩
  | succ n ih =>
    obtain ⟨hc, rfl⟩ | ⟨c, s', hc, hne, hs', rfl⟩ := stringAt_succ_cases h
    · refine ⟨.inr ?_, fun _ _ ↦ Nat.zero_le _⟩
      rw [List.length_nil, BitVec.add_zero, hc]
    · obtain ⟨hmem, hleast⟩ := ih hs'
      refine ⟨hmem.imp (congrArg (· + 1)) fun hbyte ↦ ?_, fun j hj ↦ ?_⟩
      · rw [List.length_cons, ← addr_add_one_add, hbyte]
      · cases j with
        | zero =>
          rcases hj with hend | hbyte
          · exact absurd hend (Nat.succ_ne_zero n).symm
          · rw [BitVec.add_zero, hc] at hbyte
            exact absurd (Option.some.inj hbyte) hne
        | succ j =>
          refine Nat.succ_le_succ (hleast (hj.imp Nat.succ.inj fun hbyte ↦ ?_))
          rwa [addr_add_one_add]

/-- Its characters are the bytes there. -/
theorem stringAt_getElem? {m : Machine} {addr : Word} {n : ℕ} {s : List Byte}
    (h : m.stringAt addr n = some s) {i : ℕ} (hi : i < s.length) :
    m.byteAt (addr + BitVec.ofNat 32 i) = s[i]? := by
  induction n generalizing addr s i with
  | zero =>
    cases h
    exact absurd hi (Nat.not_lt_zero i)
  | succ n ih =>
    obtain ⟨-, rfl⟩ | ⟨c, s', hc, -, hs', rfl⟩ := stringAt_succ_cases h
    · exact absurd hi (Nat.not_lt_zero i)
    · cases i with
      | zero => rw [BitVec.add_zero, hc, List.getElem?_cons_zero]
      | succ i => rw [← addr_add_one_add, ih hs' (by simpa using hi), List.getElem?_cons_succ]

/-- A `Toupper` on memory that the user program may write up to the limit of the call. -/
structure Trap.Uppercases (t : Trap) : Prop where
  code : t.machine.registers 2 = Syscall.toupper.code
  linear : t.machine.Linear
  frames : t.machine.DistinctFrames
  writable : t.machine.Writable (t.machine.registers 4) maxLengthData.toNat

/-- A string without zeros is copied as a whole. -/
private theorem uptoZero_of_ne_zero {s : List Byte} (h : ∀ c ∈ s, c ≠ 0) : uptoZero s = s := by
  induction s with
  | nil => rfl
  | cons c s ih =>
    rw [List.forall_mem_cons] at h
    rw [uptoZero, if_neg h.1, ih h.2]

private theorem scToupper_run (env : Env) {k : Kernel} {s : List Byte} (hm : k.machine.Linear)
    (hdist : k.machine.DistinctFrames)
    (hwrite : k.machine.Writable (k.machine.registers 4) maxLengthData.toNat)
    (hs : k.machine.stringAt (k.machine.registers 4) maxLengthData.toNat = some s) :
    ∃ k', scToupper env k = .ok () k' ∧ k'.machine.registers 2 = 0 ∧
      k.machine.Copied k'.machine (k.machine.registers 4) (s.map toupper) := by
  have hlen := stringAt_length hs
  have hbound : s.length ≤ 1024 := hlen
  have hne := stringAt_ne_zero hs
  have hn : (BitVec.ofNat 32 s.length).toNat = s.length := toNat_ofNat_of_lt (by omega)
  have hpos : 0 ≤ (BitVec.ofNat 32 s.length).toInt := by
    rw [toInt_ofNat_of_lt (by simp only [offsetLimit]; omega)]
    omega
  obtain ⟨m, halike, hfetch⟩ := user2System_eq env (by decide) hs
  -- what is copied back is the string, without the zeros behind it
  have hcut : uptoZero ((stringBlock (s.map toupper) maxLengthData.toNat).take s.length)
      = s.map toupper := by
    rw [stringBlock, List.take_left' (List.length_map _),
      uptoZero_of_ne_zero (map_toupper_ne_zero hne)]
  have hbuffer := Kernel.delivers_loadChar
    (k.withString m env.kernelBuf (s.map toupper) maxLengthData.toNat) env.kernelBuf
  rw [Kernel.withString_bytes] at hbuffer
  obtain ⟨m', hcopy, hregs, hcopied⟩ := system2User_copied (k.machine.registers 4) hbuffer
    (halike.linear hm) (halike.distinctFrames hdist) hpos
    (.inl (by rw [hn, length_stringBlock (by rwa [List.length_map])]; omega))
    (by
      rw [hn, hcut, List.length_map]
      exact (halike.writable hwrite).mono hlen)
  rw [hn, hcut] at hcopied
  have hstart : scToupper env k
      = (do setResult 0; deleteBlock env.kernelBuf : Kern Unit)
        { k.withString m env.kernelBuf (s.map toupper) maxLengthData.toNat with
          machine := m' } := by
    rw [scToupper, bind_of_ok (readRegister_of_lt (by decide) k), bind_of_ok hfetch,
      bind_of_ok (blockBytes_eq _ _), Kernel.withString_bytes, cString_stringBlock hne hlen,
      bind_of_ok (storeChars_upper hlen), bind_of_ok hcopy]
  rw [bind_of_ok (setResult_eq _ _), deleteBlock_eq] at hstart
  exact ⟨_, hstart, Machine.setReg_registers_self _ _ _, hcopied.copied,
    fun x hx ↦ (hcopied.frame x hx).trans (halike.byteAt x)⟩

theorem Trap.Uppercases.stringAt {t : Trap} (h : t.Uppercases) :
    ∃ s, t.machine.stringAt (t.machine.registers 4) maxLengthData.toNat = some s :=
  h.writable.stringAt h.linear

/-- One call. -/
theorem Trap.Uppercases.handle {t : Trap} (h : t.Uppercases) (k : Kernel) {s : List Byte}
    (hs : t.machine.stringAt (t.machine.registers 4) maxLengthData.toNat = some s) :
    ∃ k', k.handle t = .ok () k' ∧ k'.machine.registers 2 = 0 ∧
      t.machine.Copied k'.machine (t.machine.registers 4) (s.map toupper) := by
  obtain ⟨k', hrun, hresult, hcopied⟩ := scToupper_run t.env
    (k := { k with machine := t.machine }) h.linear h.frames h.writable hs
  exact ⟨_, handle_of_body h.code hrun, (Machine.skip_result _).trans hresult, hcopied.copied,
    hcopied.frame⟩

/-- The string there afterwards: it has kept its length, since no character has become a zero. -/
private theorem stringAt_of_copied_upper {m m' : Machine} {addr : Word} {n : ℕ} (hn : n ≤ 2 ^ 32)
    {s s' : List Byte} (hs : m.stringAt addr n = some s)
    (hcopied : m.Copied m' addr (s.map toupper)) (hs' : m'.stringAt addr n = some s') :
    s' = s.map toupper := by
  obtain ⟨hend, -⟩ := isLeast_stringAt hs
  have hle := stringAt_length hs
  have hleast : IsLeast {j | j = n ∨ m'.byteAt (addr + BitVec.ofNat 32 j) = some 0} s.length := by
    constructor
    · rcases hend with hall | hzero
      · exact .inl hall
      · by_cases hall : s.length = n
        · exact .inl hall
        · refine .inr ((hcopied.frame _ fun i hi heq ↦ ?_).trans hzero)
          rw [List.length_map] at hi
          have := addr_add_inj (by omega) (by omega) heq
          omega
    · rintro j (rfl | hzero)
      · exact hle
      · by_contra hlt
        have hj : j < (s.map toupper).length := by
          rw [List.length_map]
          omega
        rw [hcopied.copied j hj] at hzero
        exact map_toupper_ne_zero (stringAt_ne_zero hs) 0 (List.mem_of_getElem? hzero) rfl
  have hlen : s'.length = (s.map toupper).length :=
    ((isLeast_stringAt hs').unique hleast).trans (List.length_map _).symm
  refine List.ext_getElem? fun i ↦ ?_
  by_cases hi : i < s'.length
  · rw [← stringAt_getElem? hs' hi, hcopied.copied i (hlen ▸ hi)]
  · rw [List.getElem?_eq_none (Nat.not_lt.mp hi), List.getElem?_eq_none (hlen ▸ Nat.not_lt.mp hi)]

/-- **`Toupper` rewrites exactly the string.** In every user memory that may be written up to the
limit of the call, with `n` the smaller of 1024 and the number of bytes before the first zero: the
call returns 0, the first `n` bytes are turned into capitals, and no other byte of user memory
changes; and a second call on what the first has left changes nothing. The handler is the one that
goes character by character. -/
theorem toupper_rewrites_string {t : Trap} (h : t.Uppercases) (k : Kernel) :
    Syscall.toupper.body t.env = scToupperByChar t.env ∧
    ∃ n k', IsLeast {j | j = 1024 ∨
        t.machine.byteAt (t.machine.registers 4 + BitVec.ofNat 32 j) = some 0} n ∧
      k.handle t = .ok () k' ∧ k'.machine.registers 2 = 0 ∧
      (∀ i < n, k'.machine.byteAt (t.machine.registers 4 + BitVec.ofNat 32 i)
        = (t.machine.byteAt (t.machine.registers 4 + BitVec.ofNat 32 i)).map toupper) ∧
      (∀ x, (∀ i < n, x ≠ t.machine.registers 4 + BitVec.ofNat 32 i) →
        k'.machine.byteAt x = t.machine.byteAt x) ∧
      ∀ t' : Trap, t'.Uppercases → t'.machine.registers 4 = t.machine.registers 4 →
        (∀ x, t'.machine.byteAt x = k'.machine.byteAt x) →
        ∃ k'', k'.handle t' = .ok () k'' ∧
          ∀ x, k''.machine.byteAt x = t'.machine.byteAt x := by
  obtain ⟨s, hs⟩ := h.stringAt
  obtain ⟨k', hrun, hresult, hcopied⟩ := h.handle k hs
  refine ⟨scToupper_eq_byChar t.env, s.length, k', isLeast_stringAt hs, hrun, hresult,
    fun i hi ↦ ?_, fun x hx ↦ hcopied.frame x (by simpa using hx), fun t' h' haddr hbytes ↦ ?_⟩
  · rw [hcopied.copied i (by simpa using hi), stringAt_getElem? hs hi, List.getElem?_map]
  · -- the string has become `s.map toupper`, and that is rewritten to itself
    obtain ⟨s', hs'⟩ := h'.stringAt
    obtain ⟨k'', hrun', -, hcopied'⟩ := h'.handle k' hs'
    rw [haddr] at hs' hcopied'
    have hsame : s' = s.map toupper := stringAt_of_copied_upper (by decide) hs
      ⟨fun i hi ↦ (hbytes _).trans (hcopied.copied i hi),
        fun x hx ↦ (hbytes x).trans (hcopied.frame x hx)⟩ hs'
    have hfixed : s'.map toupper = s' := by
      rw [hsame, List.map_map]
      exact List.map_congr_left fun c _ ↦ toupper_toupper c
    rw [hfixed] at hcopied'
    refine ⟨k'', hrun', fun x ↦ ?_⟩
    by_cases hx : ∃ i < s'.length, x = t.machine.registers 4 + BitVec.ofNat 32 i
    · obtain ⟨i, hi, rfl⟩ := hx
      rw [hcopied'.copied i hi, stringAt_getElem? hs' hi]
    · exact hcopied'.frame x fun i hi heq ↦ hx ⟨i, hi, heq⟩

/-- A machine with the string `a1` at address 128, about to turn it into capitals. -/
def upperMachine : Machine :=
  { identityMap with
    registers := fun i ↦ if i = 2 then 25 else if i = 4 then 128 else 0
    mainMemory := fun i ↦ if i = 128 then 97 else if i = 129 then 49 else 0 }

private theorem identityMap_writable {n : ℕ} {addr : Word} (h : addr.toNat + n ≤ 2048) :
    identityMap.Writable addr n := by
  intro i hi
  have hsum : (addr + BitVec.ofNat 32 i).toNat = addr.toNat + i := by
    rw [BitVec.toNat_add, BitVec.toNat_ofNat]
    omega
  have hpage : (addr + BitVec.ofNat 32 i).toNat / pageSize < 16 := by
    rw [hsum]
    simp only [pageSize]
    omega
  have hmaps : identityMap.Maps
      (fun i ↦ ⟨BitVec.ofNat 32 i, BitVec.ofNat 32 i, true, false, false, false⟩)
      (addr + BitVec.ofNat 32 i) 1 true := by
    refine ⟨aligned_one _, hpage, rfl, (fun hro ↦ by cases hro.1), ?_⟩
    rw [BitVec.toNat_ofNat]
    exact Nat.lt_of_le_of_lt (Nat.mod_le _ _) (Nat.lt_trans hpage (by decide))
  rw [Machine.physical, translate_of_maps rfl rfl (.inl rfl) hmaps]
  rfl

private theorem upperMachine_uppercases : Trap.Uppercases ⟨upperMachine, Env.quiet⟩ where
  code := rfl
  linear := ⟨rfl, _, rfl⟩
  frames := identityMap_distinctFrames
  writable := identityMap_writable (by decide)

/-- The `a` becomes an `A`. -/
theorem upperMachine_rewritten :
    ∃ k', (Kernel.boot upperMachine).handle ⟨upperMachine, Env.quiet⟩ = .ok () k' ∧
      k'.machine.registers 2 = 0 ∧ k'.machine.byteAt 128 = some 65 := by
  obtain ⟨-, n, k', ⟨hend, -⟩, hrun, hresult, hupper, -⟩ :=
    toupper_rewrites_string upperMachine_uppercases (Kernel.boot upperMachine)
  have hpos : 0 < n := by
    rcases hend with rfl | hzero
    · decide
    · refine Nat.pos_of_ne_zero fun hn ↦ ?_
      rw [hn] at hzero
      exact absurd hzero (by decide)
  have hletter := hupper 0 hpos
  rw [show (upperMachine.byteAt (upperMachine.registers 4 + BitVec.ofNat 32 0)).map toupper
    = some 65 by decide] at hletter
  exact ⟨k', hrun, hresult, hletter⟩

end Nachos
