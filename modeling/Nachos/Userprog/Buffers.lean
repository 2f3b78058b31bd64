import Nachos.Userprog.ReadWrite
import Nachos.Userprog.StoredNames

/-!
# Buffers and their release

Eight calls allocate memory of the kernel: a buffer for a string of the user program, a buffer for
the bytes of a transfer, an `OpenFile`. Each of them has one `delete` at its end, of the pointer
that it has at hand there. Whether this is the right one depends on the branch that was taken:
`Open` may not have assigned the pointer at all, and `Read` and `Write` put a second buffer in the
place of the first.

What a call allocates and releases is read off the events of the heap. An address the call is given
by the allocator stands for the block, so it is taken to be a new one: it differs from the others of
the same call and is not in the tables yet.
-/

namespace Nachos

open Program

/-! ## Blocks and their release -/

/-- Every deletion is of a block that has been allocated and not released since; `live` are the
blocks of which this is known at the start. -/
def DeletesLive : List Ptr → List HeapEvent → Prop
  | _, [] => True
  | live, .new p :: es => DeletesLive (p :: live) es
  | live, .delete p :: es => p ∈ live ∧ DeletesLive (live.erase p) es

/-- Of the blocks allocated those that are not `Stored` are released exactly once, and nothing else
is ever deleted than a block that is there. -/
structure ReleasedOnce (es : List HeapEvent) (Stored : Ptr → Prop) : Prop where
  once : ∀ p, HeapEvent.new p ∈ es → ¬Stored p → es.count (.delete p) = 1
  live : DeletesLive [] es

section released

variable {Stored : Ptr → Prop} {p q : Ptr}

private theorem releasedOnce_nil :
    ReleasedOnce [] Stored := ⟨fun _ h ↦ absurd h List.not_mem_nil, trivial⟩

theorem releasedOnce_pair : ReleasedOnce [.new p, .delete p] Stored := by
  refine ⟨fun q hq _ ↦ ?_, List.mem_singleton_self p, trivial⟩
  obtain rfl : q = p := by simpa using hq
  simp

/-- The second block is kept. -/
private theorem releasedOnce_stored (hq : Stored q) :
    ReleasedOnce [.new p, .new q, .delete p] Stored := by
  refine ⟨fun r hr hstored ↦ ?_, by simp, trivial⟩
  have hrq : r ≠ q := fun heq ↦ hstored (heq ▸ hq)
  obtain rfl : r = p := by simpa [hrq] using hr
  simp

private theorem not_releasedOnce_delete : ¬ReleasedOnce [.delete p] Stored :=
  fun h ↦ List.not_mem_nil h.live.1

/-- The first block is lost. -/
private theorem not_releasedOnce_lost (hne : q ≠ p) (hq : ¬Stored q) :
    ¬ReleasedOnce [.new q, .new p, .delete p] Stored := by
  intro h
  have hcount := h.once q List.mem_cons_self hq
  simp [hne.symm] at hcount

end released

/-! ## The events of a call -/

def Kernel.events (k : Kernel) : List HeapEvent := k.heap.events

/-- The events between two states, the earliest first. -/
def Kernel.eventsSince (k k' : Kernel) : List HeapEvent :=
  (k'.events.take (k'.events.length - k.events.length)).reverse

theorem eventsSince_eq {k k' : Kernel} (es : List HeapEvent)
    (h : k'.events = es.reverse ++ k.events) : k.eventsSince k' = es := by
  rw [Kernel.eventsSince, h, List.length_append, Nat.add_sub_cancel, List.take_left,
    List.reverse_reverse]

private theorem eventsSince_of_logs {α : Type} {x : Kern α} {es : List HeapEvent} {q a : α}
    {k k' : Kernel} (hx : Logs Kernel.events x es q) (h : x k = .ok a k') : k.eventsSince k' = es :=
  eventsSince_eq es (hx k a k' h).2

section logs

variable {α : Type} {env : Env} {es : List HeapEvent}

theorem logs_deleteBlock (p : Ptr) : Logs Kernel.events (deleteBlock p) [.delete p] () := by
  intro k u k' h
  cases h
  exact ⟨rfl, rfl⟩

private theorem logs_newChars (p : Ptr) (n : Word) (init : ℕ → Byte) :
    Logs Kernel.events (newChars p n init) [.new p] p := by
  intro k a k' h
  rw [newChars] at h
  split at h <;> cases h
  exact ⟨rfl, rfl⟩

/-- A string is fetched and used through its address. -/
theorem logs_fetch {virtAddr limit : Word} {use : Ptr → Kern α} {r : α}
    (huse : Logs Kernel.events (use env.kernelBuf) es r) :
    Logs Kernel.events (user2System env virtAddr limit >>= use) (.new env.kernelBuf :: es) r := by
  have hcopy : Logs Kernel.events (user2System env virtAddr limit) ([.new env.kernelBuf] ++ [])
      env.kernelBuf :=
    (logs_newChars _ _ _).bind
      ((keeps_copyFromUser (fun _ _ _ ↦ rfl) (fun _ _ _ _ _ _ _ _ ↦ rfl) _ _ _ _).thenLogs
        fun _ ↦ Logs.pure _)
  exact hcopy.bind huse

/-- What comes between the use of a buffer and its release. -/
theorem keeps_events_setResult (v : Word) : Keeps Kernel.events (setResult v) :=
  keeps_setResult (fun _ _ ↦ rfl) v

private theorem keeps_events_onHost (g : Host → α × Host) : Keeps Kernel.events (onHost g) :=
  keeps_onHost (fun _ _ ↦ rfl) g

theorem keeps_events_copyBack (virtAddr len : Word) (p : Ptr) :
    Keeps Kernel.events (system2User virtAddr len (loadChar p)) :=
  keeps_copyBack (fun _ _ _ _ _ _ _ _ ↦ rfl) (fun _ _ _ ↦ rfl) virtAddr len p

private theorem logs_scCreate :
    Logs Kernel.events (scCreate env) [.new env.kernelBuf, .delete env.kernelBuf] () :=
  (keeps_readRegister _).thenLogs fun _ ↦ logs_fetch ((keeps_blockBytes _).thenLogs fun _ ↦
    (keeps_fileSystemCreate (fun _ _ ↦ rfl) _).thenLogs fun _ ↦
      (keeps_events_setResult _).thenLogs fun _ ↦ logs_deleteBlock _)

private theorem logs_scRemove :
    Logs Kernel.events (scRemove env) [.new env.kernelBuf, .delete env.kernelBuf] () :=
  (keeps_readRegister _).thenLogs fun _ ↦ logs_fetch ((keeps_blockBytes _).thenLogs fun _ ↦
    (keeps_removeNamed (fun _ _ ↦ rfl) (fun _ _ ↦ rfl) _).thenLogs fun _ ↦ logs_deleteBlock _)

private theorem logs_scToupper :
    Logs Kernel.events (scToupper env) [.new env.kernelBuf, .delete env.kernelBuf] () :=
  (keeps_readRegister _).thenLogs fun _ ↦ logs_fetch ((keeps_blockBytes _).thenLogs fun _ ↦
    (keeps_storeChars (fun _ _ _ ↦ rfl) _ _ _).thenLogs fun _ ↦
      (keeps_events_copyBack _ _ _).thenLogs fun _ ↦
        (keeps_events_setResult _).thenLogs fun _ ↦ logs_deleteBlock _)

/-- A second buffer is fetched into, used, and copied back. -/
private theorem logs_transfer {virtAddr limit : Word} {move : Ptr → Kern Word}
    (hmove : Keeps Kernel.events (move env.kernelBuf)) :
    Logs Kernel.events (transfer env virtAddr limit move) [.new env.kernelBuf] env.kernelBuf :=
  logs_fetch (hmove.thenLogs fun _ ↦ (keeps_events_setResult _).thenLogs fun _ ↦
    (keeps_events_copyBack _ _ _).thenLogs fun _ ↦ Logs.pure _)

end logs

/-! ## What is kept in the tables -/

/-- The addresses in an entry of the table. -/
def Kernel.addresses (k : Kernel) : ℕ → Option (Ptr × Ptr) :=
  fun i ↦ (k.openfile i).map fun f ↦ (f.object, f.filename)

def Kernel.Stores (k : Kernel) (p : Ptr) : Prop :=
  ∃ i < maxFile, ∃ a ∈ k.addresses i, a.1 = p ∨ a.2 = p

private theorem ignoresEffects_addresses : IgnoresEffects Kernel.addresses where
  tables _ _ _ _ _ _ _ _ := rfl
  memory _ _ _ := rfl
  result _ _ := rfl
  heap _ _ := rfl
  host _ _ := rfl
  console _ _ _ := rfl

private theorem ignoresOffsets_addresses : IgnoresOffsets Kernel.addresses := by
  intro k i file offset hslot
  funext j
  by_cases hj : j = i
  · subst hj
    simp [Kernel.addresses, hslot]
  · simp [Kernel.addresses, Function.update_of_ne hj]

theorem Kernel.Stores.of_addresses {k k' : Kernel} {p : Ptr} (hk : k'.addresses = k.addresses)
    (h : k'.Stores p) : k.Stores p := by
  rwa [Kernel.Stores, hk] at h

/-- From `k` to `k'` every block was released once, unless it is kept in the tables. -/
def Kernel.Released (k k' : Kernel) : Prop := ReleasedOnce (k.eventsSince k') k'.Stores

theorem released_of_pair {x : Kern Unit} {p : Ptr} {k k' : Kernel} {u : Unit}
    (hx : Logs Kernel.events x [.new p, .delete p] ()) (h : x k = .ok u k') : k.Released k' := by
  rw [Kernel.Released, eventsSince_of_logs hx h]
  exact releasedOnce_pair

/-! ## The calls -/

section calls

variable {env : Env} {k k' : Kernel} {u : Unit}

/-- A call on a socket allocates nothing if the socket is refused. -/
private theorem released_of_socket {body : Word → Kern Unit} {p : Ptr}
    (hbody : ∀ id, Logs Kernel.events (body id) [.new p, .delete p] ())
    (h : (do
      let id ← readRegister 4
      if id.toInt < 0 then setResult (-1) else body id : Kern Unit) k = .ok u k') :
    k.Released k' := by
  rw [bind_of_ok (readRegister_of_lt (by decide) k)] at h
  by_cases hneg : (k.machine.registers 4).toInt < 0
  · rw [if_pos hneg] at h
    have hevents : k'.events = k.events := keeps_events_setResult _ k u k' h
    rw [Kernel.Released, eventsSince_eq [] hevents]
    exact releasedOnce_nil
  · rw [if_neg hneg] at h
    exact released_of_pair (hbody _) h

private theorem released_scConnect (h : scConnect env k = .ok u k') : k.Released k' :=
  released_of_socket (fun _ ↦ (keeps_readRegister _).thenLogs fun _ ↦
    (keeps_readRegister _).thenLogs fun _ ↦ logs_fetch ((keeps_blockBytes _).thenLogs fun _ ↦
      (keeps_events_onHost _).thenLogs fun _ ↦ (keeps_events_setResult _).thenLogs fun _ ↦
        logs_deleteBlock _)) h

private theorem released_scSend (h : scSend env k = .ok u k') : k.Released k' :=
  released_of_socket (fun _ ↦ (keeps_readRegister _).thenLogs fun _ ↦
    logs_fetch ((keeps_readRegister _).thenLogs fun _ ↦ (keeps_blockBytes _).thenLogs fun _ ↦
      (keeps_events_onHost _).thenLogs fun _ ↦ (keeps_events_setResult _).thenLogs fun _ ↦
        logs_deleteBlock _)) h

/-- `Open` deletes a pointer that it has not assigned if it refuses the mode or finds no slot. -/
private theorem scOpen_released_iff (h : scOpen env k = .ok u k') :
    k.Released k' ↔ ModeOk (k.machine.registers 5) ∧
      ∃ i, 2 ≤ i ∧ i < maxFile ∧ k.openfile i = none := by
  rw [Kernel.Released]
  rcases scOpen_eq_ok h with ⟨hrefused, rfl⟩ | ⟨i, name, m, hmode, hfirst, -, -, hhost⟩
  · rw [eventsSince_eq [.delete env.filenameopen] rfl]
    refine iff_of_false not_releasedOnce_delete ?_
    rintro ⟨hmode, i, h2, hi, hfree⟩
    have hfull := hrefused.resolve_left (not_not_intro hmode)
    exact (findIndexFree_eq_neg_one_iff k).mp hfull i h2 hi hfree
  · refine iff_of_true ?_ ⟨hmode, i, hfirst.two_le, hfirst.lt, hfirst.free⟩
    rcases hhost with ⟨-, rfl⟩ | ⟨ino, -, -, -, -, -, rfl⟩
    · rw [eventsSince_eq [.new env.kernelBuf, .delete env.kernelBuf] rfl]
      exact releasedOnce_pair
    · rw [eventsSince_eq [.new env.kernelBuf, .new env.object, .delete env.kernelBuf] rfl]
      refine releasedOnce_stored ⟨i, hfirst.lt, (env.object, env.kernelBuf), ?_, .inl rfl⟩
      simp [Kernel.addresses, Kernel.afterOpen, Env.entry]

/-! ### Transfers -/

/-- The pointer at the end of a transfer: the first buffer if the call keeps to its `own`, else the
second one, which has been put in the place of the first. -/
def Kernel.HandsOn (own : Prop) (env : Env) (k k₁ : Kernel) (q : Ptr) : Prop :=
  own ∧ q = env.buf ∧ k₁.events = k.events ∨
    ¬own ∧ q = env.kernelBuf ∧ k₁.events = .new env.kernelBuf :: k.events

private theorem withBuffer_released_iff {own : Prop} {size : Word} {branches : Ptr → Kern Ptr}
    (hbranches : ∀ q k₁, branches env.buf (k.buffered env size) = .ok q k₁ →
      (k.buffered env size).HandsOn own env k₁ q)
    (hne : env.buf ≠ env.kernelBuf) (hstores : ¬k'.Stores env.buf)
    (h : withBuffer env size branches k = .ok u k') : k.Released k' ↔ own := by
  have hsize := size_nonneg_of_withBuffer h
  rw [withBuffer, bind_of_ok (newChars_of_nonneg hsize k)] at h
  obtain ⟨q, k₁, hrun, hdelete⟩ := bind_eq_ok.mp h
  cases hdelete
  rw [Kernel.Released]
  rcases hbranches q k₁ hrun with ⟨hown, rfl, hevents⟩ | ⟨hown, rfl, hevents⟩
  · rw [eventsSince_eq [.new env.buf, .delete env.buf] (congrArg _ hevents)]
    exact iff_of_true releasedOnce_pair hown
  · rw [eventsSince_eq [.new env.buf, .new env.kernelBuf, .delete env.kernelBuf]
      (congrArg _ hevents)]
    exact iff_of_false (not_releasedOnce_lost hne hstores) hown

variable {virtAddr size id : Word} {q : Ptr}

theorem handsOn_of_logs {own : Prop} {x : Kern Ptr} (hown : own)
    (hx : Logs Kernel.events x [] env.buf) (h : x k = .ok q k') : k.HandsOn own env k' q :=
  .inl ⟨hown, hx k q k' h⟩

theorem handsOn_of_transfer {own : Prop} {move : Ptr → Kern Word} (hown : ¬own)
    (hmove : Keeps Kernel.events (move env.kernelBuf))
    (h : transfer env virtAddr size move k = .ok q k') : k.HandsOn own env k' q :=
  .inr ⟨hown, logs_transfer hmove k q k' h⟩

/-- `Read` loses a buffer unless it reads from the console or refuses the descriptor. -/
private theorem readBranches_handsOn (h : readBranches env virtAddr size id env.buf k = .ok q k') :
    k.HandsOn (id.toInt < 0 ∨ 20 < id.toInt ∨ id = 0) env k' q := by
  have hread : ∀ p, Keeps Kernel.events (sysRead env p size id) := fun p ↦
    keeps_sysRead (fun _ _ _ _ _ ↦ rfl) (fun _ _ ↦ rfl) (fun _ _ _ ↦ rfl) (fun _ _ _ ↦ rfl) p _ _
  rw [readBranches] at h
  by_cases hrange : id.toInt < 0 ∨ 20 < id.toInt
  · rw [if_pos hrange] at h
    exact handsOn_of_logs (hrange.imp_right .inl)
      ((keeps_events_setResult _).thenLogs fun _ ↦ Logs.pure _) h
  · rw [if_neg hrange] at h
    by_cases hzero : id = 0
    · rw [if_pos hzero] at h
      exact handsOn_of_logs (.inr (.inr hzero)) ((hread _).thenLogs fun _ ↦
        (keeps_events_setResult _).thenLogs fun _ ↦ (keeps_events_copyBack _ _ _).thenLogs fun _ ↦
          Logs.pure _) h
    · rw [if_neg hzero] at h
      have hown : ¬(id.toInt < 0 ∨ 20 < id.toInt ∨ id = 0) := by
        rw [← or_assoc]
        exact not_or.mpr ⟨hrange, hzero⟩
      exact handsOn_of_transfer hown (hread _) h

/-- `Write` refuses the descriptor, or the file is open for reading only. -/
def Kernel.RefusesWrite (k : Kernel) (id : Word) : Prop :=
  id.toInt < 0 ∨ 20 < id.toInt ∨ id ≠ 1 ∧ ∃ f, k.openfile id.toNat = some f ∧ f.type = 1

/-- `Write` loses a buffer whenever it writes. -/
private theorem writeBranches_handsOn
    (h : writeBranches env virtAddr size id env.buf k = .ok q k') :
    k.HandsOn (k.RefusesWrite id) env k' q := by
  have hwrite : Keeps Kernel.events (sysWrite env env.kernelBuf size id) :=
    keeps_sysWrite (fun _ _ _ _ _ ↦ rfl) (fun _ _ ↦ rfl) (fun _ _ _ ↦ rfl) _ _ _
  have hrefuse : Logs Kernel.events (do setResult (-1); return env.buf : Kern Ptr) [] env.buf :=
    (keeps_events_setResult _).thenLogs fun _ ↦ Logs.pure _
  rw [writeBranches] at h
  by_cases hrange : id.toInt < 0 ∨ 20 < id.toInt
  · rw [if_pos hrange] at h
    exact handsOn_of_logs (hrange.imp_right .inl) hrefuse h
  · rw [if_neg hrange] at h
    have hown : k.RefusesWrite id → id ≠ 1 ∧ ∃ f, k.openfile id.toNat = some f ∧ f.type = 1 :=
      fun hown ↦ (or_assoc.mpr hown).resolve_left hrange
    by_cases hone : id = 1
    · rw [if_pos hone] at h
      exact handsOn_of_transfer (fun hrefuses ↦ (hown hrefuses).1 hone) hwrite h
    · rw [if_neg hone] at h
      obtain ⟨slot, k₁, hslot, hentry⟩ := bind_eq_ok.mp h
      obtain ⟨-, rfl, rfl⟩ := openfileAt_eq_ok hslot
      obtain ⟨file, k₂, hderef, hrun⟩ := bind_eq_ok.mp hentry
      obtain ⟨hfile, rfl⟩ := deref_eq_ok hderef
      by_cases htype : file.type = 1
      · rw [if_pos htype] at hrun
        exact handsOn_of_logs (.inr (.inr ⟨hone, file, hfile, htype⟩)) hrefuse hrun
      · rw [if_neg htype] at hrun
        refine handsOn_of_transfer (fun hrefuses ↦ ?_) hwrite hrun
        obtain ⟨-, f, hf, hread⟩ := hown hrefuses
        cases hf.symm.trans hfile
        exact htype hread

end calls

/-! ## Any call -/

/-- A call that allocates. -/
structure BufferTrap extends CallTrap where
  buffered : call ∈ [.create, .open_, .remove, .connect, .send, .read, .write, .toupper]

/-- The blocks of the call are new ones. -/
structure Kernel.Fresh (k : Kernel) (t : CallTrap) : Prop where
  nodup : t.allocations.Nodup
  not_stored : ∀ p ∈ t.allocations, ¬k.Stores p

/-- The call takes a branch that deletes what was allocated: `Open` has a mode it knows and a free
slot, `Read` is from the console or refused, and `Write` is refused. -/
def Kernel.TakesCleanBranch (k : Kernel) (t : CallTrap) : Prop :=
  match t.call with
  | .open_ => ModeOk (t.machine.registers 5) ∧ ∃ i, 2 ≤ i ∧ i < maxFile ∧ k.openfile i = none
  | .read => (t.machine.registers 6).toInt < 0 ∨ 20 < (t.machine.registers 6).toInt ∨
      t.machine.registers 6 = 0
  | .write => k.RefusesWrite (t.machine.registers 6)
  | _ => True

/-- The first buffer of a transfer is a new one, and not stored by the call. -/
theorem Kernel.Fresh.transfer {k k₁ : Kernel} {t : CallTrap} (h : k.Fresh t)
    (hcall : t.call = .read ∨ t.call = .write) (hk₁ : k₁.addresses = k.addresses) :
    t.env.buf ≠ t.env.kernelBuf ∧ ¬k₁.Stores t.env.buf := by
  have hallocations : t.allocations = [t.env.buf, t.env.kernelBuf] := by
    rw [CallTrap.allocations]
    rcases hcall with hcall | hcall <;> rw [hcall]
  obtain ⟨hnodup, hstored⟩ := h
  rw [hallocations] at hnodup hstored
  refine ⟨fun heq ↦ (List.nodup_cons.mp hnodup).1 (by rw [heq]; exact List.mem_cons_self), ?_⟩
  exact fun hst ↦ hstored _ List.mem_cons_self (hst.of_addresses hk₁)

private theorem body_released_iff {k k₁ : Kernel} {t : BufferTrap} (hfresh : k.Fresh t.toCallTrap)
    (h : t.call.body t.env { k with machine := t.machine } = .ok () k₁) :
    Kernel.Released { k with machine := t.machine } k₁ ↔ k.TakesCleanBranch t.toCallTrap := by
  have hbuffered := t.buffered
  rw [Kernel.TakesCleanBranch]
  cases hcall : t.call <;> rw [hcall] at h hbuffered
  case create => exact iff_true_intro (released_of_pair logs_scCreate h)
  case remove => exact iff_true_intro (released_of_pair logs_scRemove h)
  case toupper => exact iff_true_intro (released_of_pair logs_scToupper h)
  case connect => exact iff_true_intro (released_scConnect h)
  case send => exact iff_true_intro (released_scSend h)
  case open_ => exact scOpen_released_iff h
  case read =>
    have hkept := keeps_scRead ignoresEffects_addresses ignoresOffsets_addresses _ _ _ h
    obtain ⟨hne, hstores⟩ := hfresh.transfer (.inl hcall) hkept
    have hrun := (scRead_eq t.env _).symm.trans h
    exact withBuffer_released_iff (fun _ _ ↦ readBranches_handsOn) hne hstores hrun
  case write =>
    have hkept := keeps_scWrite ignoresEffects_addresses ignoresOffsets_addresses _ _ _ h
    obtain ⟨hne, hstores⟩ := hfresh.transfer (.inr hcall) hkept
    have hrun := (scWrite_eq t.env _).symm.trans h
    exact withBuffer_released_iff (fun _ _ ↦ writeBranches_handsOn) hne hstores hrun
  all_goals exact absurd hbuffered (by decide)

/-- A returning call has released what it has allocated, once, unless it is kept in the tables, and
has deleted nothing else. -/
def Kernel.ReleasesBuffers (k : Kernel) (t : Trap) : Prop :=
  ∀ k', k.handle t = .ok () k' → k.Released k'

/-- **Kernel buffers are released exactly once**, by a call that returns, if and only if the call
takes a clean branch. -/
theorem releasesBuffers_iff {k k' : Kernel} {t : BufferTrap} (hfresh : k.Fresh t.toCallTrap)
    (hreturns : k.handle t.toTrap = .ok () k') :
    k.ReleasesBuffers t.toTrap ↔ k.TakesCleanBranch t.toCallTrap := by
  obtain ⟨k₁, hbody, rfl⟩ := handle_eq_ok t.code hreturns
  rw [← body_released_iff hfresh hbody]
  constructor
  · intro h
    have hreleased := h _ hreturns
    exact hreleased
  · intro h k' hk'
    cases hreturns.symm.trans hk'
    exact h

/-- `Open("a", type)`. -/
def openAs (type : Word) : BufferTrap where
  machine := nameMachine 97 6 0 type
  env := Env.quiet
  call := .open_
  code := rfl
  buffered := by decide

/-- No file is open yet. -/
private theorem openAs_fresh (type : Word) (m : Machine) (host : Host) :
    (Kernel.initial m ⟨fun _ ↦ [], []⟩ host []).Fresh (openAs type).toCallTrap where
  nodup := show [1, 3].Nodup by decide
  not_stored p _ := by
    rintro ⟨i, -, a, ha, -⟩
    cases ha

/-- A mode that `Open` does not know: it deletes what happens to be in the pointer. -/
theorem openAs_two_not_released :
    ¬∀ (k k' : Kernel) (t : BufferTrap), k.Fresh t.toCallTrap →
      k.handle t.toTrap = .ok () k' → k.ReleasesBuffers t.toTrap := by
  intro h
  have hmode : ¬ModeOk ((openAs 2).machine.registers 5) := by
    rintro (htype | htype) <;> exact absurd htype (by decide)
  have hbody : scOpen (openAs 2).env
      { Kernel.boot (callMachine 0 0) with machine := (openAs 2).machine } = _ :=
    scOpen_refused (.inl hmode)
  have hrun := handle_of_body (openAs 2).code hbody
  have hreleased := h _ _ (openAs 2) (openAs_fresh 2 _ _) hrun _ hrun
  exact hmode ((scOpen_released_iff hbody).mp hreleased).1

/-- A file that exists: the name is released, the `OpenFile` goes into the table. -/
theorem openAs_zero_released :
    ∃ k', (Kernel.initial (callMachine 0 0) ⟨fun _ ↦ [], []⟩ Host.oneFile []).handle
        (openAs 0).toTrap = .ok () k' ∧
      (Kernel.initial (callMachine 0 0) ⟨fun _ ↦ [], []⟩ Host.oneFile []).ReleasesBuffers
        (openAs 0).toTrap := by
  have hsome : ((Kernel.initial (callMachine 0 0) ⟨fun _ ↦ [], []⟩ Host.oneFile []).trap
      (openAs 0).toTrap).isSome = true := by decide +kernel
  obtain ⟨k', hk'⟩ := Option.isSome_iff_exists.mp hsome
  have hrun := handle_of_trap hk'
  refine ⟨k', hrun, (releasesBuffers_iff (openAs_fresh 0 _ _) hrun).mpr ⟨.inl ?_, 2, ?_⟩⟩
  · decide
  · exact ⟨Nat.le_refl 2, by decide, rfl⟩

end Nachos
