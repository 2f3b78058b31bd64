import Mathlib.Data.List.TakeWhile
import Nachos.Userprog.FileCalls
import Nachos.Userprog.SynchConsole

/-!
# The end of console input

At the end of its input the device wakes one more caller of `GetChar`, which gets `EOF`, and does
not poll again: from then on `GetChar` waits forever. `SynchConsoleInput::GetString` stops at a
newline, at a NUL and when the buffer is full, but not at `EOF`. It stores the marker as a character
and calls `GetChar` again.
-/

namespace Nachos

open Program Threads

/-- The characters before the end of the input. A byte `0xFF` cannot be told from the end. -/
def beforeEnd (typed : List Byte) : List Byte := typed.takeWhile (· ≠ eof)

/-- What the calls of `GetChar` report, in order. -/
def reports (typed : List Byte) : List Byte := beforeEnd typed ++ [eof]

private theorem beforeEnd_of_not_mem {typed : List Byte} (h : eof ∉ typed) :
    beforeEnd typed = typed :=
  List.takeWhile_eq_self_iff.mpr fun _ hb ↦ decide_eq_true fun heq ↦ h (heq ▸ hb)

private theorem beforeEnd_append {front : List Byte} (h : eof ∉ front) (rest : List Byte) :
    beforeEnd (front ++ rest) = front ++ beforeEnd rest :=
  List.takeWhile_append_of_pos fun _ hb ↦ decide_eq_true fun heq ↦ h (heq ▸ hb)

/-! ## What the device reports -/

namespace ConsoleInput

variable {T : Type}

/-- Either the input goes on, and no `EOF` was reported, or it has ended. -/
def Reporting (typed : List Byte) (s : ConsoleInput T) (f : T → ConsolePlace) : Prop :=
  (∃ phase, phase ≠ .finished ∧ s.Inv typed f phase ∧ eof ∉ s.delivered) ∨
    s.delivered = reports typed ∧ ∃ typed', s.Inv typed' f .finished

variable [DecidableEq T] {typed : List Byte} {s s' : ConsoleInput T} {f : T → ConsolePlace} {t : T}
  {place : ConsolePlace}

theorem Reporting.turn (h : s.Reporting typed f) (hturn : s.turn t () (f t) = .moved s' place) :
    s'.Reporting typed (Function.update f t place) := by
  rcases h with ⟨phase, hphase, hinv, hnone⟩ | ⟨hall, typed', hinv⟩
  · rcases hinv.turn_cases hturn with ⟨hkept, phase', hiff, hinv'⟩ | ⟨htaking, hplace, rfl⟩
    · exact .inl ⟨phase', fun hend ↦ hphase (hiff.mp hend), hinv', hkept ▸ hnone⟩
    · have hdelivered := delivered_getChar s t
      rcases hinv.take_cases htaking hplace with
        ⟨hbytes, heof, hinv'⟩ | ⟨hne, hinv'⟩ | ⟨heof, hbytes, hinv'⟩
      · -- the end of the file
        refine .inr ⟨?_, typed, hinv'⟩
        rw [hdelivered, heof, hbytes, reports, beforeEnd_of_not_mem (hbytes ▸ hnone)]
      · refine .inl ⟨.polling, (fun hend ↦ by cases hend), hinv', ?_⟩
        rw [hdelivered, List.mem_append, not_or]
        exact ⟨hnone, fun hmem ↦ hne (List.mem_singleton.mp hmem).symm⟩
      · refine .inr ⟨?_, _, hinv'⟩
        have hend : beforeEnd (eof :: s.keyboard) = [] := rfl
        rw [hdelivered, heof, reports, ← hbytes, beforeEnd_append hnone, hend, List.append_nil]
  · rcases hinv.turn_cases hturn with ⟨hkept, phase', hiff, hinv'⟩ | ⟨htaking, -, -⟩
    · rw [hiff.mpr rfl] at hinv'
      exact .inr ⟨hkept.trans hall, typed', hinv'⟩
    · obtain ⟨got, hgot⟩ := (hinv.takes_iff t).mp htaking
      cases hgot

omit [DecidableEq T] in
theorem Reporting.poll (h : s.Reporting typed f) (hpoll : s.Poll s') : s'.Reporting typed f := by
  rcases h with ⟨phase, -, hinv, hnone⟩ | ⟨-, typed', hinv⟩
  · obtain ⟨-, hkept, phase', hphase', hinv'⟩ := hinv.poll hpoll
    exact .inl ⟨phase', hphase', hinv', hkept ▸ hnone⟩
  · obtain ⟨hphase, -⟩ := hinv.poll hpoll
    cases hphase

private theorem reporting_of_reachable {c : Config T (ConsoleInput T) ConsolePlace}
    (hc : Reachable typed c) : c.shared.Reporting typed c.place := by
  refine hc.invariant (Reporting typed) ?_ (fun _ _ _ _ _ _ h ht ↦ h.turn ht)
    fun _ _ _ h hs ↦ h.poll hs
  exact .inl ⟨.polling, (fun hend ↦ by cases hend), inv_start typed, List.not_mem_nil⟩

/-- Nothing is scheduled or announced, so that the next call of `GetChar` waits forever. -/
structure Silent (c : Config T (ConsoleInput T) ConsolePlace) : Prop where
  polls : c.shared.polls = 0
  waitFor : c.shared.waitFor.value = 0
  taking : ∀ t, (c.place t).stage ≠ .taking

/-- In every run the calls of `GetChar` get the characters before the end of the input and then one
`EOF`, and from that one on, but not before, the device is silent. -/
private theorem delivered_reports {c : Config T (ConsoleInput T) ConsolePlace}
    (hc : Reachable typed c) :
    c.shared.delivered <+: reports typed ∧ (c.shared.delivered = reports typed ↔ Silent c) := by
  rcases reporting_of_reachable hc with ⟨phase, hphase, hinv, hnone⟩ | ⟨hall, typed', hinv⟩
  · have hne : c.shared.delivered ≠ reports typed := fun heq ↦
      hnone (heq ▸ List.mem_append_right _ (List.mem_singleton.mpr rfl))
    have hdevice := hinv.device
    have hshort : c.shared.delivered <+: typed → c.shared.delivered <+: reports typed := by
      rintro ⟨rest, hrest⟩
      rw [reports, ← hrest, beforeEnd_append hnone, List.append_assoc]
      exact List.prefix_append _ _
    cases phase with
    | polling =>
      refine ⟨hshort ⟨_, hdevice.2.2.2⟩, iff_of_false hne fun hsilent ↦ ?_⟩
      exact absurd (hsilent.polls.symm.trans hdevice.1) (by decide)
    | announced taker got =>
      refine ⟨hshort ⟨_, hdevice.2.2.2.1⟩, iff_of_false hne fun hsilent ↦ ?_⟩
      cases taker with
      | none =>
        exact Int.zero_ne_one (hsilent.waitFor.symm.trans hdevice.2.2.1)
      | some t => exact hsilent.taking t ((hinv.takes_iff t).mpr ⟨got, rfl⟩)
    | finished => exact absurd rfl hphase
  · refine ⟨hall ▸ List.prefix_rfl, iff_of_true hall ⟨hinv.device.1, hinv.device.2.2.1, ?_⟩⟩
    intro t htaking
    obtain ⟨got, hgot⟩ := (hinv.takes_iff t).mp htaking
    cases hgot

end ConsoleInput

/-! ## The loop of `GetString` -/

/-- A newline or a NUL. -/
def EndsLine (c : Byte) : Prop := c = 10 ∨ c = 0

instance (c : Byte) : Decidable (EndsLine c) := inferInstanceAs (Decidable (_ ∨ _))

section loop

variable {buffer : Ptr} {k : Kernel}

theorem getChar_cons {c : Byte} {rest : List Byte} (h : k.consoleIn = c :: rest) :
    getChar k = .ok c { k with consoleIn := rest } := by
  rw [getChar, h]

private theorem getChar_nil (h : k.consoleIn = []) : getChar k = .error .blocked k := by
  rw [getChar, h]

theorem getStringLoop_of_endsLine {c : Byte} {rest : List Byte} (hc : EndsLine c)
    (h : k.consoleIn = c :: rest) (i n : ℕ) :
    getStringLoop buffer i (n + 1) k = .ok i { k with consoleIn := rest } := by
  rw [getStringLoop, bind_of_ok (getChar_cons h)]
  exact congrFun (if_pos hc) _

theorem getStringLoop_of_not_endsLine {c : Byte} {rest : List Byte} (hc : ¬EndsLine c)
    (h : k.consoleIn = c :: rest) (i n : ℕ) :
    getStringLoop buffer i (n + 1) k = (do
      storeChars buffer i [c]
      getStringLoop buffer (i + 1) n : Kern ℕ) { k with consoleIn := rest } := by
  rw [getStringLoop, bind_of_ok (getChar_cons h)]
  exact congrFun (if_neg hc) _

theorem leaves_consoleIn_storeChars (buffer : Ptr) (i : ℕ) (bytes : List Byte) :
    Leaves Kernel.consoleIn (storeChars buffer i bytes) := by
  intro v k hk
  rw [storeChars]
  by_cases h : i + bytes.length ≤ (k.heap.bytes buffer).length
  · rw [if_pos h]
    exact hk
  · rw [if_neg h]
    exact hk

/-- A line that ends, or a buffer that is full, in front of the end of the input: wherever the loop
stops, something is left to report. -/
private theorem getStringLoop_leaves_input {rest : List Byte} (hrest : rest ≠ [])
    {front : List Byte} {n : ℕ} (h : n ≤ front.length ∨ ∃ c ∈ front, EndsLine c) (i : ℕ) :
    Triple (fun k ↦ k.consoleIn = front ++ rest) (getStringLoop buffer i n)
      (fun _ k ↦ k.consoleIn ≠ []) fun _ k ↦ k.consoleIn ≠ [] := by
  have hne : ∀ front : List Byte, front ++ rest ≠ [] := fun front ↦
    List.append_ne_nil_of_right_ne_nil front hrest
  induction n generalizing i front with
  | zero => exact Triple.pure _ fun k hk ↦ hk ▸ hne front
  | succ n ih =>
    cases front with
    | nil =>
      rcases h with hlen | ⟨c, hc, -⟩
      · exact absurd hlen (Nat.not_succ_le_zero n)
      · exact absurd hc List.not_mem_nil
    | cons c front =>
      intro k hk
      by_cases hends : EndsLine c
      · rw [getStringLoop_of_endsLine hends hk]
        exact hne front
      · rw [getStringLoop_of_not_endsLine hends hk]
        have hfront : n ≤ front.length ∨ ∃ c ∈ front, EndsLine c := by
          rcases h with hlen | ⟨d, hd, hdends⟩
          · exact .inl (Nat.le_of_succ_le_succ hlen)
          · rcases List.mem_cons.mp hd with rfl | hd
            · exact absurd hdends hends
            · exact .inr ⟨d, hd, hdends⟩
        have hstore := (leaves_consoleIn_storeChars buffer i [c] (front ++ rest)).imp
          (fun _ h ↦ h) (fun _ _ h ↦ h) fun _ k (hk : k.consoleIn = front ++ rest) ↦ hk ▸ hne front
        exact (hstore.bind fun _ ↦ ih hfront (i + 1)) _ rfl

/-- A short line that does not end: the loop stores the `EOF`, and then has as many characters as
the buffer takes or waits forever. -/
private theorem getStringLoop_takes_eof (buffer : Ptr) {front : List Byte}
    (hline : ∀ c ∈ front, ¬EndsLine c) (i : ℕ) {n : ℕ} (hn : front.length < n) :
    Triple (fun k ↦ k.consoleIn = front ++ [eof] ∧ i + n ≤ (k.heap.bytes buffer).length)
      (getStringLoop buffer i n)
      (fun j k ↦ k.consoleIn = [] ∧ j = i + front.length + 1) fun _ k ↦ k.consoleIn = [] := by
  -- storing a character that does not end the line
  have hstore : ∀ c rest n i, Triple
      (fun k ↦ k.consoleIn = rest ∧ i + (n + 1) ≤ (k.heap.bytes buffer).length)
      (storeChars buffer i [c])
      (fun _ k ↦ k.consoleIn = rest ∧ i + 1 + n ≤ (k.heap.bytes buffer).length)
      (fun _ k ↦ k.consoleIn = []) := by
    rintro c rest n i k ⟨hk, hlen⟩
    rw [storeChars_of_le (by rw [List.length_singleton]; omega)]
    refine ⟨hk, ?_⟩
    show i + 1 + n ≤ (Function.update k.heap.bytes buffer _ buffer).length
    rw [Function.update_self, length_splice, if_neg (List.cons_ne_nil c [])]
    omega
  induction front generalizing i n with
  | nil =>
    obtain ⟨n, rfl⟩ := Nat.exists_eq_succ_of_ne_zero (Nat.ne_of_gt hn)
    rintro k ⟨hk, hlen⟩
    rw [getStringLoop_of_not_endsLine (by decide) hk]
    refine ((hstore eof [] n i).bind fun _ ↦ ?_) _ ⟨rfl, hlen⟩
    rintro k ⟨hk, -⟩
    cases n with
    | zero => exact ⟨hk, rfl⟩
    | succ n =>
      rw [getStringLoop, bind_of_error (getChar_nil hk)]
      exact hk
  | cons c front ih =>
    obtain ⟨n, rfl⟩ := Nat.exists_eq_succ_of_ne_zero (Nat.ne_of_gt (Nat.zero_lt_of_lt hn))
    rw [List.forall_mem_cons] at hline
    rintro k ⟨hk, hlen⟩
    rw [getStringLoop_of_not_endsLine hline.1 hk]
    have hrest := ih hline.2 (i + 1) (Nat.lt_of_succ_lt_succ hn)
    refine ((hstore c (front ++ [eof]) n i).bind fun _ ↦ hrest.imp (fun _ h ↦ h) ?_
      fun _ _ h ↦ h) _ ⟨rfl, hlen⟩
    rintro j k ⟨hk, rfl⟩
    exact ⟨hk, by rw [List.length_cons]; omega⟩

private theorem getString_leaves_input (buffer : Ptr) {rest : List Byte} (hrest : rest ≠ [])
    {front : List Byte} {size : Word}
    (h : size.toInt - 1 ≤ front.length ∨ ∃ c ∈ front, EndsLine c) :
    Triple (fun k ↦ k.consoleIn = front ++ rest) (getString buffer size)
      (fun _ k ↦ k.consoleIn ≠ []) fun _ k ↦ k.consoleIn ≠ [] := by
  have hlen : (size.toInt - 1).toNat ≤ front.length ∨ ∃ c ∈ front, EndsLine c :=
    h.imp (fun hle ↦ by omega) id
  refine (getStringLoop_leaves_input hrest hlen 0).bind fun i ↦ ?_
  exact ((leaves_consoleIn_storeChars buffer i [0]).triple (· ≠ [])).bind fun _ ↦
    Triple.pure _ fun _ hk ↦ hk

private theorem getString_takes_eof {front : List Byte} (hline : ∀ c ∈ front, ¬EndsLine c)
    {size : Word} (hsize : front.length < size.toInt - 1) :
    Triple (fun k ↦ k.consoleIn = front ++ [eof] ∧ size.toInt ≤ (k.heap.bytes buffer).length)
      (getString buffer size)
      (fun n k ↦ k.consoleIn = [] ∧ n = BitVec.ofNat 32 (front.length + 1))
      fun _ k ↦ k.consoleIn = [] := by
  have hloop := getStringLoop_takes_eof buffer hline 0
    (show front.length < (size.toInt - 1).toNat by omega)
  refine (hloop.imp (fun k hk ↦ ⟨hk.1, by omega⟩) (fun _ _ h ↦ h) fun _ _ h ↦ h).bind fun i ↦ ?_
  rintro k ⟨hk, rfl⟩
  exact (((leaves_consoleIn_storeChars buffer _ [0]).triple (· = [])).bind fun _ ↦
    Triple.pure _ fun _ hk ↦ ⟨hk, by rw [Nat.zero_add]⟩) k hk

end loop

/-! ## The end of the input in `GetString` -/

/-- Once the call has got the `EOF`, which is the last thing to be reported, it asks for nothing
more, has not stored the `EOF` and returns the number of characters in front of it. A call that asks
for more does not return. -/
def EndsAtEof (typed : List Byte) (buffer : Ptr) (size : Word) (k : Kernel) : Prop :=
  match getString buffer size k with
  | .ok n k' => k'.consoleIn = [] → n = BitVec.ofNat 32 (beforeEnd typed).length ∧
      ∀ j : ℕ, (k'.heap.bytes buffer)[j]? = some eof → (k.heap.bytes buffer)[j]? = some eof
  | .error _ k' => k'.consoleIn ≠ []

/-- **Reading ends at the end of the input exactly when** the end is not reached: the buffer is full
before, or a line ends before. What the calls of `GetChar` report is what the device delivers in
every run. -/
theorem getString_endsAtEof_iff {T : Type} [DecidableEq T] (typed : List Byte) :
    (∀ c : Config T (ConsoleInput T) ConsolePlace, ConsoleInput.Reachable typed c →
      c.shared.delivered <+: reports typed ∧
        (c.shared.delivered = reports typed ↔ ConsoleInput.Silent c)) ∧
    ∀ (k : Kernel) (buffer : Ptr) (size : Word), k.consoleIn = reports typed →
      size.toInt ≤ (k.heap.bytes buffer).length →
      (EndsAtEof typed buffer size k ↔
        size.toInt - 1 ≤ (beforeEnd typed).length ∨ ∃ c ∈ beforeEnd typed, EndsLine c) := by
  refine ⟨fun c hc ↦ ConsoleInput.delivered_reports hc, fun k buffer size hin hbuf ↦ ⟨?_, ?_⟩⟩
  · intro h
    by_contra hcond
    obtain ⟨hlen, hline⟩ := not_or.mp hcond
    have hstring := getString_takes_eof (fun c hc hends ↦ hline ⟨c, hc, hends⟩)
      (Int.not_le.mp hlen) k ⟨hin, hbuf⟩
    rw [EndsAtEof] at h
    cases hrun : getString buffer size k with
    | ok n k' =>
      -- the marker is counted
      rw [hrun] at h hstring
      obtain ⟨hnil, hn⟩ := hstring
      have heq := congrArg BitVec.toNat (hn.symm.trans (h hnil).1)
      have hrange := BitVec.toInt_lt (x := size)
      rw [BitVec.toNat_ofNat, BitVec.toNat_ofNat] at heq
      omega
    | error e k' =>
      rw [hrun] at h hstring
      exact h hstring
  · intro hcond
    have hstring := getString_leaves_input buffer (List.cons_ne_nil eof []) hcond k hin
    rw [EndsAtEof]
    cases hrun : getString buffer size k with
    | ok n k' =>
      rw [hrun] at hstring
      exact fun hnil ↦ absurd hnil hstring
    | error e k' =>
      rw [hrun] at hstring
      exact hstring

/-- A kernel with buffers of four bytes and this console input. -/
def typedKernel (typed : List Byte) : Kernel :=
  .initial ⟨fun _ ↦ 0, fun _ ↦ 0, none, none, 0⟩ ⟨fun _ ↦ [0, 0, 0, 0], []⟩ Host.empty
    (reports typed)

/-- After the one letter the `EOF` is stored, and the call waits for a third character. -/
theorem letter_not_endsAtEof :
    ¬∀ (typed : List Byte) (k : Kernel) (buffer : Ptr) (size : Word),
      k.consoleIn = reports typed → size.toInt ≤ (k.heap.bytes buffer).length →
      EndsAtEof typed buffer size k := by
  intro h
  exact h [0x61] (typedKernel [0x61]) 0 4 rfl (by decide) rfl

/-- With a newline behind the letter it does not get there. -/
theorem line_endsAtEof : EndsAtEof [0x61, 10] 0 4 (typedKernel [0x61, 10]) :=
  ((getString_endsAtEof_iff (T := Unit) [0x61, 10]).2 (typedKernel [0x61, 10]) 0 4 rfl
    (by decide)).mpr (.inr ⟨10, by decide, by decide⟩)

end Nachos
