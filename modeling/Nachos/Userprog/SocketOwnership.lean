import Nachos.Userprog.SocketTable

/-!
# Whose sockets

A user program gets descriptors of the host from two calls, `SocketTCP` and `Accept`, and names them
in seven others. Only `SocketTCP` puts what it returns into the table. `CloseSoc`, `Bind`, `Listen`
and `Accept` ask the table about the descriptor they are given, so an accepted connection is not
theirs to use; `Connect`, `Send` and `Receive` only ask whether it is negative, so any descriptor
of the process is.

The first part is about closing what was accepted, the second about reaching what was not handed
out.
-/

namespace Nachos

open Program

/-! ## The calls of a server -/

section calls

variable {env : Env} {k : Kernel}

private theorem notRegistered_iff (k : Kernel) (id : Word) :
    k.notRegistered id ↔ id.toInt < 0 ∨ ¬k.Registered id := by
  rw [Kernel.notRegistered]
  by_cases hneg : id.toInt < 0
  · exact ⟨fun _ ↦ .inl hneg, fun _ ↦ .inl hneg⟩
  · refine or_congr_right ?_
    by_cases hreg : k.Registered id
    · rw [findIndexSocket_of_registered hreg]
      refine ⟨fun h ↦ absurd ?_ hneg, fun h ↦ absurd hreg h⟩
      rw [h]
      decide
    · exact ⟨fun _ ↦ hreg, fun _ ↦ findIndexSocket_of_not_registered hreg⟩

private theorem scBind_of_notRegistered (h : k.notRegistered (k.machine.registers 4)) :
    scBind env k = .ok () { k with machine := k.machine.setReg 2 (-1) } := by
  rw [scBind, bind_of_ok (readRegister_of_lt (by decide) k), bind_of_ok (get_eq k), if_pos h,
    setResult_eq]

private theorem scListen_of_notRegistered (h : k.notRegistered (k.machine.registers 4)) :
    scListen env k = .ok () { k with machine := k.machine.setReg 2 (-1) } := by
  rw [scListen, bind_of_ok (readRegister_of_lt (by decide) k), bind_of_ok (get_eq k), if_pos h,
    setResult_eq]

private theorem scAccept_of_notRegistered (h : k.notRegistered (k.machine.registers 4)) :
    scAccept env k = .ok () { k with machine := k.machine.setReg 2 (-1) } := by
  rw [scAccept, bind_of_ok (readRegister_of_lt (by decide) k), bind_of_ok (get_eq k), if_pos h,
    setResult_eq]

/-- The kernel after a call on a socket with outcome `ret`. -/
def Kernel.onSocket (k : Kernel) (call : HostCall) (result : Word) : Kernel :=
  { k with host := k.host.record call, machine := k.machine.setReg 2 result }

theorem Host.onStream_snd (h : Host) (fd : Word) (call : HostCall) (ret : Word) :
    (h.onStream fd call ret).2 = h.record call := by
  rw [Host.onStream]
  split <;> rfl

private theorem scBind_of_registered (h : ¬k.notRegistered (k.machine.registers 4)) :
    ∃ result, scBind env k
      = .ok () (k.onSocket (.bind (k.machine.registers 4)) result) := by
  rw [scBind, bind_of_ok (readRegister_of_lt (by decide) k), bind_of_ok (get_eq k), if_neg h,
    bind_of_ok (onHost_eq _ k), setResult_eq, Host.onStream_snd]
  exact ⟨_, rfl⟩

private theorem scListen_of_registered (h : ¬k.notRegistered (k.machine.registers 4)) :
    ∃ result, scListen env k
      = .ok () (k.onSocket (.listen (k.machine.registers 4) (k.machine.registers 5)) result) := by
  rw [scListen, bind_of_ok (readRegister_of_lt (by decide) k), bind_of_ok (get_eq k), if_neg h,
    bind_of_ok (readRegister_of_lt (by decide) k), bind_of_ok (onHost_eq _ k), setResult_eq,
    Host.onStream_snd]
  exact ⟨_, rfl⟩

/-- The host has a connection for `Accept`, and a descriptor for it. -/
def Kernel.HasClient (k : Kernel) (server client : Word) : Prop :=
  k.host.fds server = some .stream ∧ 0 ≤ client.toInt ∧ k.host.fds client = none

private theorem scAccept_of_client (h : ¬k.notRegistered (k.machine.registers 4))
    (hclient : k.HasClient (k.machine.registers 4) env.newFd) :
    scAccept env k = .ok () { k with
      host := (k.host.setFd env.newFd (some .stream)).record (.accept (k.machine.registers 4))
      machine := k.machine.setReg 2 env.newFd } := by
  obtain ⟨hstream, hpos, hnone⟩ := hclient
  have haccept : k.host.accept (k.machine.registers 4) env.newFd = (env.newFd,
      (k.host.setFd env.newFd (some .stream)).record (.accept (k.machine.registers 4))) := by
    simp only [Host.accept, hstream]
    rw [if_pos (Host.isFree_iff.mpr ⟨hpos, hnone⟩)]
  rw [scAccept, bind_of_ok (readRegister_of_lt (by decide) k), bind_of_ok (get_eq k), if_neg h,
    bind_of_ok (onHost_eq _ k), haccept, if_neg (Int.not_lt.mpr hpos), setResult_eq]

private theorem scAccept_of_no_client (h : ¬k.notRegistered (k.machine.registers 4))
    (hclient : ¬k.HasClient (k.machine.registers 4) env.newFd) :
    scAccept env k = .ok () (k.onSocket (.accept (k.machine.registers 4)) (-1)) := by
  have haccept : k.host.accept (k.machine.registers 4) env.newFd
      = (-1, k.host.record (.accept (k.machine.registers 4))) := by
    rw [Host.accept]
    split
    · rename_i hstream
      rw [if_neg]
      intro hfree
      obtain ⟨hpos, hnone⟩ := Host.isFree_iff.mp hfree
      exact hclient ⟨hstream, hpos, hnone⟩
    · rfl
  rw [scAccept, bind_of_ok (readRegister_of_lt (by decide) k), bind_of_ok (get_eq k), if_neg h,
    bind_of_ok (onHost_eq _ k), haccept, if_pos (show (-1 : Word).toInt < 0 by decide),
    setResult_eq]
  rfl

end calls

/-! ## Closing what was accepted -/

/-- A call of a server. -/
structure ServerTrap extends CallTrap where
  server : call ∈ [.socketTCP, .bind, .listen, .accept, .closeSoc]

/-- The kernel, with the ids that `Accept` has returned and that were not closed since. -/
structure ServerState where
  kernel : Kernel
  accepted : List Word

/-- How the result of a call changes the accepted ids. -/
def ServerTrap.acceptedAfter (t : ServerTrap) (accepted : List Word) (result : Word) : List Word :=
  match t.call with
  | .accept => if 0 ≤ result.toInt then result :: accepted else accepted
  | .closeSoc => if result = 0 then accepted.filter (· ≠ t.machine.registers 4) else accepted
  | _ => accepted

def ServerState.step (s : ServerState) (t : ServerTrap) : Option ServerState :=
  (s.kernel.trap t.toTrap).map fun k ↦ ⟨k, t.acceptedAfter s.accepted (k.machine.registers 2)⟩

/-- Before the first call. -/
def ServerState.initial (machine : Machine) (heap : Heap) (host : Host) (consoleIn : List Byte) :
    ServerState := ⟨Kernel.initial machine heap host consoleIn, []⟩

/-- The host has the descriptor open, and a `CloseSoc` of it returns 0 and closes it, once. -/
def Kernel.CanClose (k : Kernel) (id : Word) : Prop :=
  k.host.fds id ≠ none ∧
    ∀ t : Trap, t.machine.registers 2 = Syscall.code .closeSoc → t.machine.registers 4 = id →
      ∃ k', k.trap t = some k' ∧ k'.machine.registers 2 = 0 ∧ k'.host.fds id = none ∧
        k'.host.calls = .close id :: k.host.calls

/-- After the call every accepted id can be closed. -/
def ServerState.LeavesClosable (s : ServerState) (t : ServerTrap) : Prop :=
  ∀ s', s.step t = some s' → ∀ id ∈ s'.accepted, s'.kernel.CanClose id

/-- What `CloseSoc` needs of the table. -/
def ClosableIn (socket : ℕ → Word) (id : Word) : Prop :=
  id.toNat < maxSocket ∧ ∃ i < maxSocket, socket i = id

theorem canClose_iff {k : Kernel} {id : Word} (hpos : 0 ≤ id.toInt)
    (hopen : k.host.fds id ≠ none) : k.CanClose id ↔ ClosableIn k.socket id := by
  have hneg : ¬id.toInt < 0 := Int.not_lt.mpr hpos
  constructor
  · rintro ⟨-, h⟩
    obtain ⟨k', htrap, hresult, -⟩ := h ⟨callMachine 20 id, Env.quiet⟩ rfl rfl
    obtain ⟨k₁, hbody, rfl⟩ := trap_eq_some (show _ = Syscall.closeSoc.code from rfl) htrap
    rw [Machine.skip_result] at hresult
    have hrun : scCloseSoc { k with machine := callMachine 20 id } = .ok () k₁ := hbody
    by_cases hreg : k.Registered id
    · by_cases hlt : id.toNat < maxSocket
      · exact ⟨hlt, hreg⟩
      · rw [scCloseSoc_of_not_lt (k := { k with machine := callMachine 20 id }) rfl hneg hreg hlt]
          at hrun
        cases hrun
    · rw [scCloseSoc_of_not_registered (k := { k with machine := callMachine 20 id }) rfl
        (.inr hreg)] at hrun
      cases hrun
      rw [Machine.setReg_registers_self] at hresult
      exact absurd hresult (by decide)
  · rintro ⟨hlt, hreg⟩
    refine ⟨hopen, ?_⟩
    rintro t hcode rfl
    have hrun := scCloseSoc_of_lt (k := { k with machine := t.machine }) rfl hneg hreg hlt
    refine ⟨_, trap_of_body (show _ = Syscall.closeSoc.code from hcode) hrun, ?_, ?_, ?_⟩
    · exact (Machine.skip_result _).trans (Machine.setReg_registers_self _ _ _)
    · rw [Host.close_fds, Function.update_self]
    · simp only [Host.close]
      split <;> rfl

/-- The condition on a call: a client that `Accept` returns is in the table already, and the slot
that `CloseSoc` clears is not the only one of another accepted id. -/
def ServerState.KeepsClosable (s : ServerState) (t : ServerTrap) : Prop :=
  match t.call with
  | .accept => ¬s.kernel.notRegistered (t.machine.registers 4) →
    s.kernel.HasClient (t.machine.registers 4) t.env.newFd →
    ClosableIn s.kernel.socket t.env.newFd
  | .closeSoc => 0 ≤ (t.machine.registers 4).toInt → ClosableIn s.kernel.socket
      (t.machine.registers 4) →
    ∀ id ∈ s.accepted, id ≠ t.machine.registers 4 →
      ∃ i < maxSocket, i ≠ (t.machine.registers 4).toNat ∧ s.kernel.socket i = id
  | _ => True

/-- What a call of a server does to the table, to the host's descriptors and to the accepted
ids. -/
inductive ServerState.Effect (s : ServerState) (t : ServerTrap) (s' : ServerState) : Prop
  | quiet (hsocket : s'.kernel.socket = s.kernel.socket)
    (hfds : s'.kernel.host.fds = s.kernel.host.fds) (haccepted : s'.accepted = s.accepted)
  | created (hcall : t.call = .socketTCP) (i : ℕ) (hfree : s.kernel.socket i = -1)
    (hsocket : s'.kernel.socket = Function.update s.kernel.socket i t.env.newFd)
    (hfds : s'.kernel.host.fds
      = Function.update s.kernel.host.fds t.env.newFd (some .stream))
    (haccepted : s'.accepted = s.accepted)
  | accepted (hcall : t.call = .accept)
    (hserver : ¬s.kernel.notRegistered (t.machine.registers 4))
    (hclient : s.kernel.HasClient (t.machine.registers 4) t.env.newFd)
    (hsocket : s'.kernel.socket = s.kernel.socket)
    (hfds : s'.kernel.host.fds
      = Function.update s.kernel.host.fds t.env.newFd (some .stream))
    (haccepted : s'.accepted = t.env.newFd :: s.accepted)
  | closed (hcall : t.call = .closeSoc) (hpos : 0 ≤ (t.machine.registers 4).toInt)
    (hclosable : ClosableIn s.kernel.socket (t.machine.registers 4))
    (hsocket : s'.kernel.socket
      = Function.update s.kernel.socket (t.machine.registers 4).toNat (-1))
    (hfds : s'.kernel.host.fds
      = Function.update s.kernel.host.fds (t.machine.registers 4) none)
    (haccepted : s'.accepted = s.accepted.filter (· ≠ t.machine.registers 4))

section server

variable {s s' : ServerState} {t : ServerTrap}

theorem serverStep_of_body {call : Syscall} (hcall : t.call = call) {k₁ : Kernel}
    (hbody : call.body t.env { s.kernel with machine := t.machine } = .ok () k₁) :
    s.step t = some ⟨{ k₁ with machine := k₁.machine.skip },
      t.acceptedAfter s.accepted (k₁.machine.registers 2)⟩ := by
  rw [ServerState.step, trap_of_body (t.code.trans (congrArg _ hcall)) hbody, Option.map_some,
    Machine.skip_result]

/-- A call that reports failure leaves the accepted ids. -/
private theorem acceptedAfter_failure (t : ServerTrap) (accepted : List Word) :
    t.acceptedAfter accepted (-1) = accepted := by
  rw [ServerTrap.acceptedAfter]
  split
  · rfl
  · rfl
  · rfl

/-- The call refused the id, or the host refused the call. -/
theorem effect_of_failure {call : Syscall} (hcall : t.call = call) {k₁ : Kernel}
    (hbody : call.body t.env { s.kernel with machine := t.machine } = .ok () k₁)
    (hsocket : k₁.socket = s.kernel.socket) (hfds : k₁.host.fds = s.kernel.host.fds)
    (hresult : k₁.machine.registers 2 = -1) (h : s.step t = some s') : s.Effect t s' := by
  rw [serverStep_of_body hcall hbody] at h
  cases h
  refine .quiet hsocket hfds ?_
  dsimp only
  rw [hresult, acceptedAfter_failure]

/-- A call other than `Accept` and `CloseSoc` that leaves the sockets alone. -/
private theorem effect_of_quiet {call : Syscall} (hcall : t.call = call) {k₁ : Kernel}
    (hbody : call.body t.env { s.kernel with machine := t.machine } = .ok () k₁)
    (hsocket : k₁.socket = s.kernel.socket) (hfds : k₁.host.fds = s.kernel.host.fds)
    (haccept : t.call ≠ .accept) (hclose : t.call ≠ .closeSoc) (h : s.step t = some s') :
    s.Effect t s' := by
  rw [serverStep_of_body hcall hbody] at h
  cases h
  refine .quiet hsocket hfds ?_
  rw [ServerTrap.acceptedAfter]
  split
  · exact absurd ‹_› haccept
  · exact absurd ‹_› hclose
  · rfl

/-- `Accept` with a client. -/
private theorem serverStep_accept (hcall : t.call = .accept)
    (hserver : ¬s.kernel.notRegistered (t.machine.registers 4))
    (hclient : s.kernel.HasClient (t.machine.registers 4) t.env.newFd) :
    s.step t = some ⟨{ s.kernel with
        host := (s.kernel.host.setFd t.env.newFd (some .stream)).record
          (.accept (t.machine.registers 4))
        machine := (t.machine.setReg 2 t.env.newFd).skip }, t.env.newFd :: s.accepted⟩ := by
  have hok := @scAccept_of_client t.env { s.kernel with machine := t.machine } hserver hclient
  rw [serverStep_of_body hcall hok, ServerTrap.acceptedAfter, hcall]
  simp only [Machine.setReg_registers_self, if_pos hclient.2.1]

/-- `CloseSoc` of an id in the table. -/
private theorem serverStep_closeSoc (hcall : t.call = .closeSoc)
    (hpos : 0 ≤ (t.machine.registers 4).toInt)
    (hclosable : ClosableIn s.kernel.socket (t.machine.registers 4)) :
    s.step t = some ⟨{ s.kernel with
        socket := Function.update s.kernel.socket (t.machine.registers 4).toNat (-1)
        host := ((s.kernel.host.record (.close (t.machine.registers 4))).close
          (t.machine.registers 4)).2
        machine := (t.machine.setReg 2 0).skip },
      s.accepted.filter (· ≠ t.machine.registers 4)⟩ := by
  have hok := scCloseSoc_of_lt (k := { s.kernel with machine := t.machine }) rfl
    (Int.not_lt.mpr hpos) hclosable.2 hclosable.1
  rw [serverStep_of_body hcall hok, ServerTrap.acceptedAfter, hcall]
  simp only [Machine.setReg_registers_self, if_true]

private theorem effect_of_step (h : s.step t = some s') : s.Effect t s' := by
  have hserver : t.call = .socketTCP ∨ t.call = .bind ∨ t.call = .listen ∨ t.call = .accept ∨
      t.call = .closeSoc := by simpa using t.server
  rcases hserver with hcall | hcall | hcall | hcall | hcall
  · rcases scSocketTCP_cases t.env { s.kernel with machine := t.machine } with
      hfail | ⟨i, hi, hslot, hpos, hnone, hok⟩
    · exact effect_of_failure hcall hfail rfl rfl
        (Machine.setReg_registers_self _ _ _) h
    · have hfds : (s.kernel.host.socket t.env.newFd).2.fds
          = Function.update s.kernel.host.fds t.env.newFd (some .stream) := by
        rw [Host.socket, if_pos (Host.isFree_iff.mpr ⟨hpos, hnone⟩)]
        rfl
      rw [serverStep_of_body hcall hok] at h
      cases h
      refine .created hcall i hslot rfl hfds ?_
      rw [ServerTrap.acceptedAfter, hcall]
  · by_cases hreg : s.kernel.notRegistered (t.machine.registers 4)
    · exact effect_of_failure hcall (scBind_of_notRegistered hreg) rfl rfl
        (Machine.setReg_registers_self _ _ _) h
    · obtain ⟨result, hok⟩ := @scBind_of_registered t.env
        { s.kernel with machine := t.machine } hreg
      exact effect_of_quiet hcall hok rfl rfl (by rw [hcall]; decide) (by rw [hcall]; decide) h
  · by_cases hreg : s.kernel.notRegistered (t.machine.registers 4)
    · exact effect_of_failure hcall (scListen_of_notRegistered hreg) rfl rfl
        (Machine.setReg_registers_self _ _ _) h
    · obtain ⟨result, hok⟩ := @scListen_of_registered t.env
        { s.kernel with machine := t.machine } hreg
      exact effect_of_quiet hcall hok rfl rfl (by rw [hcall]; decide) (by rw [hcall]; decide) h
  · by_cases hreg : s.kernel.notRegistered (t.machine.registers 4)
    · exact effect_of_failure hcall (scAccept_of_notRegistered hreg) rfl rfl
        (Machine.setReg_registers_self _ _ _) h
    · by_cases hclient : s.kernel.HasClient (t.machine.registers 4) t.env.newFd
      · rw [serverStep_accept hcall hreg hclient] at h
        cases h
        exact .accepted hcall hreg hclient rfl rfl rfl
      · exact effect_of_failure hcall (scAccept_of_no_client hreg hclient) rfl rfl
          (Machine.setReg_registers_self _ _ _) h
  · by_cases hreg : (t.machine.registers 4).toInt < 0 ∨
      ¬s.kernel.Registered (t.machine.registers 4)
    · exact effect_of_failure hcall (scCloseSoc_of_not_registered rfl hreg) rfl rfl
        (Machine.setReg_registers_self _ _ _) h
    · rw [not_or, not_not] at hreg
      by_cases hlt : (t.machine.registers 4).toNat < maxSocket
      · rw [serverStep_closeSoc hcall (Int.not_lt.mp hreg.1) ⟨hlt, hreg.2⟩] at h
        cases h
        exact .closed hcall (Int.not_lt.mp hreg.1) ⟨hlt, hreg.2⟩ rfl (Host.close_fds _ _) rfl
      · -- `socket[id]` is beyond the array
        have herr := scCloseSoc_of_not_lt (k := { s.kernel with machine := t.machine }) rfl hreg.1
          hreg.2 hlt
        rw [ServerState.step, trap_of_body_error (t.code.trans (congrArg _ hcall)) herr] at h
        cases h

/-- Every accepted id is a descriptor of the host that `CloseSoc` can close. -/
structure ServerState.Inv (s : ServerState) : Prop where
  nonneg : ∀ id ∈ s.accepted, 0 ≤ id.toInt
  hostOpen : ∀ id ∈ s.accepted, s.kernel.host.fds id ≠ none
  closable : ∀ id ∈ s.accepted, ClosableIn s.kernel.socket id

omit s s' t in
theorem ServerState.inv_initial (machine : Machine) (heap : Heap) (host : Host)
    (consoleIn : List Byte) : (ServerState.initial machine heap host consoleIn).Inv :=
  ⟨fun _ h ↦ absurd h List.not_mem_nil, fun _ h ↦ absurd h List.not_mem_nil,
    fun _ h ↦ absurd h List.not_mem_nil⟩

/-- A call that meets the condition keeps every accepted id closable. -/
theorem ServerState.Inv.step (hs : s.Inv) (hkeeps : s.KeepsClosable t) (h : s.step t = some s') :
    s'.Inv := by
  cases effect_of_step h with
  | quiet hsocket hfds haccepted =>
    constructor
    · rw [haccepted]
      exact hs.nonneg
    · rw [haccepted, hfds]
      exact hs.hostOpen
    · rw [haccepted, hsocket]
      exact hs.closable
  | created hcall i hfree hsocket hfds haccepted =>
    constructor
    · rw [haccepted]
      exact hs.nonneg
    · intro id hid
      rw [haccepted] at hid
      rw [hfds]
      by_cases heq : id = t.env.newFd
      · rw [heq, Function.update_self]
        simp
      · rw [Function.update_of_ne heq]
        exact hs.hostOpen id hid
    · intro id hid
      rw [haccepted] at hid
      obtain ⟨hlt, j, hj, hslot⟩ := hs.closable id hid
      -- the slot that was free held -1, which is nobody's id
      have hji : j ≠ i := by
        rintro rfl
        have hpos := hs.nonneg id hid
        rw [← hslot, hfree] at hpos
        exact absurd hpos (by decide)
      refine ⟨hlt, j, hj, ?_⟩
      rw [hsocket, Function.update_of_ne hji, hslot]
  | accepted hcall hserver hclient hsocket hfds haccepted =>
    have hnew : ClosableIn s.kernel.socket t.env.newFd := by
      simp only [ServerState.KeepsClosable, hcall] at hkeeps
      exact hkeeps hserver hclient
    refine ⟨?_, ?_, ?_⟩ <;> rw [haccepted, List.forall_mem_cons]
    · exact ⟨hclient.2.1, hs.nonneg⟩
    · rw [hfds, Function.update_self]
      refine ⟨by simp, fun id hid ↦ ?_⟩
      by_cases heq : id = t.env.newFd
      · rw [heq, Function.update_self]
        simp
      · rw [Function.update_of_ne heq]
        exact hs.hostOpen id hid
    · rw [hsocket]
      exact ⟨hnew, hs.closable⟩
  | closed hcall hpos hclosable hsocket hfds haccepted =>
    -- `CloseSoc` clears the slot its id indexes, whoever is registered there
    have hothers : ∀ id ∈ s.accepted, id ≠ t.machine.registers 4 →
        ∃ i < maxSocket, i ≠ (t.machine.registers 4).toNat ∧ s.kernel.socket i = id := by
      simp only [ServerState.KeepsClosable, hcall] at hkeeps
      exact hkeeps hpos hclosable
    have hleft : ∀ id ∈ s'.accepted, id ∈ s.accepted ∧ id ≠ t.machine.registers 4 := by
      intro id hid
      rw [haccepted] at hid
      simpa using hid
    constructor
    · exact fun id hid ↦ hs.nonneg id (hleft id hid).1
    · intro id hid
      obtain ⟨hmem, hne⟩ := hleft id hid
      rw [hfds, Function.update_of_ne hne]
      exact hs.hostOpen id hmem
    · intro id hid
      obtain ⟨hmem, hne⟩ := hleft id hid
      obtain ⟨i, hi, hother, hslot⟩ := hothers id hmem hne
      refine ⟨(hs.closable id hmem).1, i, hi, ?_⟩
      rw [hsocket, Function.update_of_ne hother, hslot]

/-- **One call.** -/
theorem leavesClosable_iff (hs : s.Inv) : s.LeavesClosable t ↔ s.KeepsClosable t := by
  constructor
  · intro hleaves
    rw [ServerState.KeepsClosable]
    split
    · rename_i hcall
      intro hserver hclient
      have hclose := hleaves _ (serverStep_accept hcall hserver hclient) _ List.mem_cons_self
      exact (canClose_iff hclient.2.1 hclose.1).mp hclose
    · rename_i hcall
      intro hpos hclosable id hid hne
      have hclose := hleaves _ (serverStep_closeSoc hcall hpos hclosable) id
        (List.mem_filter.mpr ⟨hid, by simpa using hne⟩)
      obtain ⟨-, i, hi, hslot⟩ := (canClose_iff (hs.nonneg id hid) hclose.1).mp hclose
      have hother : i ≠ (t.machine.registers 4).toNat := by
        rintro rfl
        have hpos' := hs.nonneg id hid
        simp only [Function.update_self] at hslot
        rw [← hslot] at hpos'
        exact absurd hpos' (by decide)
      simp only [Function.update_of_ne hother] at hslot
      exact ⟨i, hi, hother, hslot⟩
    · trivial
  · intro hkeeps s' hstep id hid
    have hs' := hs.step hkeeps hstep
    exact (canClose_iff (hs'.nonneg id hid) (hs'.hostOpen id hid)).mpr (hs'.closable id hid)

end server

/-- **Accepted connections.** Along a run of the calls of a server from the initial table, whatever
the host does, every id that `Accept` returned can be closed until it is, if and only if every
client that `Accept` returns is in the table already, under a number below the size of the table,
and no `CloseSoc` clears the last slot of another accepted id. -/
theorem accepted_closable_iff (machine : Machine) (heap : Heap) (host : Host)
    (consoleIn : List Byte) (traps : List ServerTrap) :
    Along ServerState.step ServerState.LeavesClosable
        (ServerState.initial machine heap host consoleIn) traps ↔
      Along ServerState.step ServerState.KeepsClosable
        (ServerState.initial machine heap host consoleIn) traps :=
  along_iff ServerState.Inv (fun _ _ hs ↦ leavesClosable_iff hs)
    (fun _ _ _ hs hkeeps h ↦ hs.step hkeeps h) (ServerState.inv_initial machine heap host consoleIn)

/-- `SocketTCP`, which gets descriptor 3. -/
def serverSocket : ServerTrap where
  machine := callMachine 16 0
  env := { Env.quiet with newFd := 3 }
  call := .socketTCP
  code := rfl
  server := by decide

/-- `Accept(3)`, which gets descriptor 4. -/
def acceptFour : ServerTrap where
  machine := callMachine 22 3
  env := { Env.quiet with newFd := 4 }
  call := .accept
  code := rfl
  server := by decide

/-- `CloseSoc(4)`. -/
def closeFour : Trap := ⟨callMachine 20 4, Env.quiet⟩

/-- The first client of a server: `Accept` returns 4, and `CloseSoc(4)` returns `-1`. -/
theorem acceptFour_not_closable :
    ¬∀ (machine : Machine) (heap : Heap) (host : Host) (consoleIn : List Byte)
        (traps : List ServerTrap), Along ServerState.step ServerState.LeavesClosable
      (ServerState.initial machine heap host consoleIn) traps := by
  intro h
  have hall := h (callMachine 0 0) ⟨fun _ ↦ [], []⟩ Host.empty [] [serverSocket, acceptFour]
  have hfirst : ((ServerState.initial (callMachine 0 0) ⟨fun _ ↦ [], []⟩ Host.empty []).step
      serverSocket).isSome = true := by decide +kernel
  obtain ⟨s₁, hs₁⟩ := Option.isSome_iff_exists.mp hfirst
  have hsecond : (((ServerState.initial (callMachine 0 0) ⟨fun _ ↦ [], []⟩ Host.empty []).step
      serverSocket).bind (·.step acceptFour)).map (fun s ↦ (s.accepted,
        (s.kernel.trap closeFour).map (·.machine.registers 2))) = some ([4], some (-1)) := by
    decide +kernel
  rw [hs₁, Option.bind_some] at hsecond
  obtain ⟨s₂, hs₂, hpair⟩ := Option.map_eq_some_iff.mp hsecond
  obtain ⟨haccepted, hclose⟩ := Prod.mk.inj hpair
  obtain ⟨-, hcan⟩ := (hall.2 s₁ hs₁).1 s₂ hs₂ 4 (by rw [haccepted]; exact List.mem_cons_self)
  obtain ⟨k', htrap, hresult, -⟩ := hcan closeFour rfl rfl
  rw [htrap, Option.map_some, hresult] at hclose
  exact absurd hclose (by decide)

/-! ## Reaching what was not handed out -/

/-- The calls whose first argument names a socket. -/
def Syscall.namesSocket (call : Syscall) : Bool :=
  call ∈ [.connect, .send, .receive, .bind, .listen, .accept, .closeSoc]

/-- Those of them that only ask whether it is negative. -/
def Syscall.trustsId (call : Syscall) : Bool := call ∈ [.connect, .send, .receive]

/-- The kernel, with the ids that `SocketTCP` and `Accept` have returned and that were not closed
since. -/
structure OwnerState where
  kernel : Kernel
  live : List Word

/-- How the result of a call changes the ids of the user program. -/
def CallTrap.liveAfter (t : CallTrap) (live : List Word) (result : Word) : List Word :=
  match t.call with
  | .socketTCP => if 0 ≤ result.toInt then result :: live else live
  | .accept => if 0 ≤ result.toInt then result :: live else live
  | .closeSoc => if result = 0 then live.filter (· ≠ t.machine.registers 4) else live
  | _ => live

def OwnerState.step (s : OwnerState) (t : CallTrap) : Option OwnerState :=
  (s.kernel.trap t.toTrap).map fun k ↦ ⟨k, t.liveAfter s.live (k.machine.registers 2)⟩

/-- Before the first call. -/
def OwnerState.initial (machine : Machine) (heap : Heap) (host : Host) (consoleIn : List Byte) :
    OwnerState := ⟨Kernel.initial machine heap host consoleIn, []⟩

/-- A call that names a socket names one of the user program's own, or returns `-1` and leaves the
host as it is. -/
def OwnerState.ReachesOwn (s : OwnerState) (t : CallTrap) : Prop :=
  t.call.namesSocket = true → t.machine.registers 4 ∈ s.live ∨
    ∃ k', s.kernel.trap t.toTrap = some k' ∧ k'.machine.registers 2 = -1 ∧
      k'.host = s.kernel.host

/-- The condition on a call: the id it names is the user program's own, or negative, or the call
is one that asks the table and the table does not have it. -/
def OwnerState.NamesOwn (s : OwnerState) (t : CallTrap) : Prop :=
  t.call.namesSocket = true → t.machine.registers 4 ∈ s.live ∨ (t.machine.registers 4).toInt < 0 ∨
    t.call.trustsId = false ∧ ¬s.kernel.Registered (t.machine.registers 4)

section own

variable {env : Env} {k k' : Kernel} {u : Unit}

/-- A negative id is refused before anything else happens. -/
private theorem trusting_of_negative {call : Syscall} (hcall : call.trustsId = true)
    (hneg : (k.machine.registers 4).toInt < 0) :
    call.body env k = .ok () { k with machine := k.machine.setReg 2 (-1) } := by
  have hcases : call = .connect ∨ call = .send ∨ call = .receive := by
    simpa [Syscall.trustsId] using hcall
  rcases hcases with rfl | rfl | rfl
  · refine (bind_of_ok (readRegister_of_lt (by decide) k)).trans ?_
    rw [if_pos hneg, setResult_eq]
  · refine (bind_of_ok (readRegister_of_lt (by decide) k)).trans ?_
    rw [if_pos hneg, setResult_eq]
  · refine (bind_of_ok (readRegister_of_lt (by decide) k)).trans ?_
    rw [if_pos hneg, setResult_eq]

theorem Host.ne_of_calls {h h' : Host} {call : HostCall} (hcalls : h'.calls = call :: h.calls) :
    h' ≠ h := by
  rintro rfl
  exact List.cons_ne_self _ _ hcalls.symm

/-- The socket calls the kernel has made. -/
def Kernel.calls (k : Kernel) : List HostCall := k.host.calls

private theorem keepsCalls_user2System (virtAddr limit : Word) :
    Keeps Kernel.calls (user2System env virtAddr limit) :=
  keeps_user2System (fun _ _ ↦ rfl) (fun _ _ _ _ _ _ _ _ ↦ rfl) virtAddr limit

theorem keepsCalls_setResult (v : Word) : Keeps Kernel.calls (setResult v) :=
  keeps_setResult (fun _ _ ↦ rfl) v

private theorem keepsCalls_deleteBlock (p : Ptr) : Keeps Kernel.calls (deleteBlock p) :=
  keeps_deleteBlock (fun _ _ ↦ rfl) p

/-- A handler that calls the host once. -/
theorem calls_of_onHost {α β : Type} {g : Host → α × Host} {rest : α → Kern β} {b : β}
    (hg : ∀ h, ∃ call, (g h).2.calls = call :: h.calls) (hrest : ∀ a, Keeps Kernel.calls (rest a))
    (h : (onHost g >>= rest) k = .ok b k') : ∃ call, k'.calls = call :: k.calls := by
  rw [bind_of_ok (onHost_eq g k)] at h
  obtain ⟨call, hcall⟩ := hg k.host
  exact ⟨call, (hrest _ _ _ _ h).trans hcall⟩

theorem Host.onStream_calls (h : Host) (fd : Word) (call : HostCall) (ret : Word) :
    ∃ c, (h.onStream fd call ret).2.calls = c :: h.calls := by
  rw [Host.onStream_snd]
  exact ⟨call, rfl⟩

private theorem scConnect_calls (hpos : ¬(k.machine.registers 4).toInt < 0)
    (h : scConnect env k = .ok u k') : ∃ call, k'.calls = call :: k.calls := by
  rw [scConnect, bind_of_ok (readRegister_of_lt (by decide) k), if_neg hpos,
    bind_of_ok (readRegister_of_lt (by decide) k),
    bind_of_ok (readRegister_of_lt (by decide) k)] at h
  obtain ⟨p, k₁, hfetch, h⟩ := bind_eq_ok.mp h
  rw [bind_of_ok (blockBytes_eq p k₁)] at h
  rw [← keepsCalls_user2System _ _ _ _ _ hfetch]
  exact calls_of_onHost (fun host ↦ host.onStream_calls _ _ _)
    (fun _ ↦ (keepsCalls_setResult _).bind fun _ ↦ keepsCalls_deleteBlock p) h

private theorem scSend_calls (hpos : ¬(k.machine.registers 4).toInt < 0)
    (h : scSend env k = .ok u k') : ∃ call, k'.calls = call :: k.calls := by
  rw [scSend, bind_of_ok (readRegister_of_lt (by decide) k), if_neg hpos,
    bind_of_ok (readRegister_of_lt (by decide) k)] at h
  obtain ⟨p, k₁, hfetch, h⟩ := bind_eq_ok.mp h
  rw [bind_of_ok (readRegister_of_lt (by decide) k₁), bind_of_ok (blockBytes_eq p k₁)] at h
  rw [← keepsCalls_user2System _ _ _ _ _ hfetch]
  exact calls_of_onHost (fun host ↦ host.onStream_calls _ _ _)
    (fun _ ↦ (keepsCalls_setResult _).bind fun _ ↦ keepsCalls_deleteBlock p) h

theorem Host.read_calls (h : Host) (fd count : Word) (fails : Bool) (received : List Byte) :
    (h.read fd count fails received).2.calls = h.calls := by
  rw [Host.read.eq_def]
  split <;> rfl

private theorem keepsCalls_received (firstAdd len : Word) (received : Option (List Byte)) :
    Keeps Kernel.calls (match received with
      | none => setResult (-1)
      | some bytes => do
        let recv ← fillRecv bytes
        setResult (BitVec.ofNat 32 bytes.length)
        let _ ← system2User firstAdd len (charOf recv)
        return : Kern Unit) := by
  cases received with
  | none => exact keepsCalls_setResult _
  | some bytes =>
    exact (Keeps.ite (fun _ ↦ Keeps.pure _) fun _ ↦ Keeps.throw _).bind fun recv ↦
      (keepsCalls_setResult _).bind fun _ ↦ (keeps_system2User (fun _ _ _ _ _ _ _ _ ↦ rfl)
        (fun _ _ _ ↦ rfl) (keeps_charOf recv) _ _).bind fun _ ↦ Keeps.pure _

private theorem scReceive_calls (hpos : ¬(k.machine.registers 4).toInt < 0)
    (h : scReceive env k = .ok u k') : ∃ call, k'.calls = call :: k.calls := by
  rw [scReceive, bind_of_ok (readRegister_of_lt (by decide) k), if_neg hpos,
    bind_of_ok (readRegister_of_lt (by decide) k),
    bind_of_ok (readRegister_of_lt (by decide) k)] at h
  exact calls_of_onHost (fun host ↦ ⟨_, Host.read_calls _ _ _ _ _⟩)
    (fun received ↦ keepsCalls_received _ _ received) h

/-- `Connect`, `Send` and `Receive` on an id that is not negative go to the host. -/
private theorem trusting_calls {call : Syscall} (hcall : call.trustsId = true)
    (hpos : ¬(k.machine.registers 4).toInt < 0) (h : call.body env k = .ok u k') :
    ∃ call, k'.calls = call :: k.calls := by
  have hcases : call = .connect ∨ call = .send ∨ call = .receive := by
    simpa [Syscall.trustsId] using hcall
  rcases hcases with rfl | rfl | rfl
  · exact scConnect_calls hpos h
  · exact scSend_calls hpos h
  · exact scReceive_calls hpos h

/-- The four calls that ask the table refuse an id that is not there. -/
private theorem asking_of_not_registered {call : Syscall} (hcall : call.namesSocket = true)
    (htrusts : call.trustsId = false)
    (h : (k.machine.registers 4).toInt < 0 ∨ ¬k.Registered (k.machine.registers 4)) :
    call.body env k = .ok () { k with machine := k.machine.setReg 2 (-1) } := by
  have hnot := (notRegistered_iff k (k.machine.registers 4)).mpr h
  cases call with
  | bind => exact scBind_of_notRegistered hnot
  | listen => exact scListen_of_notRegistered hnot
  | accept => exact scAccept_of_notRegistered hnot
  | closeSoc => exact scCloseSoc_of_not_registered rfl h
  | _ => first | exact absurd hcall (by decide) | exact absurd htrusts (by decide)

/-- With an id that is there they go to the host. -/
private theorem asking_calls {call : Syscall} (hcall : call.namesSocket = true)
    (htrusts : call.trustsId = false) (hpos : ¬(k.machine.registers 4).toInt < 0)
    (hreg : k.Registered (k.machine.registers 4)) (h : call.body env k = .ok u k') :
    ∃ call, k'.calls = call :: k.calls := by
  have hnot : ¬k.notRegistered (k.machine.registers 4) := by
    rw [notRegistered_iff, not_or, not_not]
    exact ⟨hpos, hreg⟩
  cases call with
  | bind =>
    obtain ⟨result, hok⟩ := @scBind_of_registered env _ hnot
    rw [Syscall.body, hok] at h
    cases h
    exact ⟨_, rfl⟩
  | listen =>
    obtain ⟨result, hok⟩ := @scListen_of_registered env _ hnot
    rw [Syscall.body, hok] at h
    cases h
    exact ⟨_, rfl⟩
  | accept =>
    by_cases hclient : k.HasClient (k.machine.registers 4) env.newFd
    · rw [Syscall.body, scAccept_of_client hnot hclient] at h
      cases h
      exact ⟨_, rfl⟩
    · rw [Syscall.body, scAccept_of_no_client hnot hclient] at h
      cases h
      exact ⟨_, rfl⟩
  | closeSoc =>
    rw [Syscall.body] at h
    by_cases hlt : (k.machine.registers 4).toNat < maxSocket
    · rw [scCloseSoc_of_lt rfl hpos hreg hlt] at h
      cases h
      refine ⟨.close (k.machine.registers 4), ?_⟩
      simp only [Kernel.calls, Host.close]
      split <;> rfl
    · rw [scCloseSoc_of_not_lt rfl hpos hreg hlt] at h
      cases h
  | _ => first | exact absurd hcall (by decide) | exact absurd htrusts (by decide)

end own

/-- **One call.** -/
theorem reachesOwn_iff (s : OwnerState) (t : CallTrap) : s.ReachesOwn t ↔ s.NamesOwn t := by
  refine forall_congr' fun hnames ↦ or_congr_right ?_
  constructor
  · rintro ⟨k', htrap, -, hhost⟩
    obtain ⟨k₁, hbody, rfl⟩ := trap_eq_some t.code htrap
    by_contra hbad
    obtain ⟨hpos, hasks⟩ := not_or.mp hbad
    have hcalls : ∃ call, k₁.calls = call :: s.kernel.calls := by
      cases htrusts : t.call.trustsId with
      | true =>
        exact trusting_calls (k := { s.kernel with machine := t.machine }) htrusts hpos hbody
      | false =>
        have hreg := not_not.mp fun hreg ↦ hasks ⟨htrusts, hreg⟩
        exact asking_calls (k := { s.kernel with machine := t.machine }) hnames htrusts hpos hreg
          hbody
    obtain ⟨call, hcalls⟩ := hcalls
    exact Host.ne_of_calls hcalls hhost
  · intro hgood
    have hbody : t.call.body t.env { s.kernel with machine := t.machine }
        = .ok () { s.kernel with machine := t.machine.setReg 2 (-1) } := by
      cases htrusts : t.call.trustsId with
      | true =>
        refine trusting_of_negative htrusts (hgood.resolve_right fun h ↦ ?_)
        rw [htrusts] at h
        exact Bool.noConfusion h.1
      | false =>
        exact asking_of_not_registered (k := { s.kernel with machine := t.machine }) hnames htrusts
          (hgood.imp_right And.right)
    refine ⟨_, trap_of_body t.code hbody, ?_, rfl⟩
    exact (Machine.skip_result _).trans (Machine.setReg_registers_self _ _ _)

/-- **Own sockets only.** Along a run of any system calls from boot, whatever the host does, the
calls that name a socket reach only the user program's own sockets, and refuse every other id
without any effect on the host, if and only if no call names an id that is not its own and that it
does not refuse: none of `Connect`, `Send` and `Receive` a foreign id that is not negative, none of
the others a foreign id that is in the table. -/
theorem own_sockets_only_iff (machine : Machine) (heap : Heap) (host : Host)
    (consoleIn : List Byte) (traps : List CallTrap) :
    Along OwnerState.step OwnerState.ReachesOwn
        (OwnerState.initial machine heap host consoleIn) traps ↔
      Along OwnerState.step OwnerState.NamesOwn
        (OwnerState.initial machine heap host consoleIn) traps :=
  along_iff (fun _ ↦ True) (fun s t _ ↦ reachesOwn_iff s t) (fun _ _ _ _ _ _ ↦ trivial) trivial

/-- `Receive(0)` of no bytes, before any socket was made. -/
def receiveZero : CallTrap where
  machine := callMachine 19 0
  env := Env.quiet
  call := .receive
  code := rfl

/-- It reads from descriptor 0 of the host, the terminal. -/
theorem receiveZero_reaches_terminal :
    ¬∀ (machine : Machine) (heap : Heap) (host : Host) (consoleIn : List Byte)
        (traps : List CallTrap), Along OwnerState.step OwnerState.ReachesOwn
      (OwnerState.initial machine heap host consoleIn) traps := by
  intro h
  obtain ⟨hreaches, -⟩ := h (callMachine 0 0) ⟨fun _ ↦ [], []⟩
    { Host.empty with fds := fun fd ↦ if fd = 0 then some .stream else none } [] [receiveZero]
  rcases hreaches rfl with hlive | ⟨k', htrap, -, hhost⟩
  · exact absurd hlive List.not_mem_nil
  · have hcalls : ((OwnerState.initial (callMachine 0 0) ⟨fun _ ↦ [], []⟩
        { Host.empty with fds := fun fd ↦ if fd = 0 then some .stream else none }
        []).kernel.trap receiveZero.toTrap).map (·.host.calls) = some [.read 0 0] := by
      decide +kernel
    rw [htrap, Option.map_some, hhost] at hcalls
    exact absurd hcalls (by decide)

end Nachos
