import WhatTheEvent.EventLoop.Registration
import WhatTheEvent.Library.Ledger

/-!
# The descriptors of a listener

`LibeventConnectionListener` with the descriptors that it obtains from `socket` and `accept`. Each
of them is closed or handed to the accept callback once, in exactly those runs in which no second
`bind` succeeds: the descriptor that the handler had is not closed then.
-/

namespace WhatTheEvent

/-- What the calls in `bind` return, in their order, and the port that `getsockname` finds. -/
structure BindResults where
  socket : Int
  /-- `evutil_make_socket_nonblocking`. -/
  nonblocking : Int
  /-- `evutil_make_listen_socket_reuseable`. -/
  reuseable : Int
  inetPton : Int
  bind : Int
  getsockname : Int
  port : BitVec 16
  deriving DecidableEq, Repr

/-- The `error` that `bind` throws, if one of the calls fails. -/
def BindResults.error (r : BindResults) : Option String :=
  if r.socket = -1 then some "Failed to allocate socket"
  else if r.nonblocking = -1 then some "Failed to set socket non-blocking"
  else if r.reuseable = -1 then some "Failed to set socket reusable"
  else if r.inetPton ≠ 1 then some "Failed to convert address"
  else if r.bind = -1 then some "Failed to bind socket"
  else if r.getsockname = -1 then some "Failed to extract port number from socket"
  else none

lemma BindResults.socket_ne {r : BindResults} (h : r.error = none) : r.socket ≠ -1 := by
  unfold BindResults.error at h
  split_ifs at h with hsocket
  exact hsocket

/-- What can be seen of a listener. -/
inductive ListenerEvent where
  /-- `socket` returns a descriptor. -/
  | socket (fd : Int)
  /-- `accept` returns a descriptor. -/
  | accept (fd : Int)
  | xclose (fd : Int)
  | acceptCallback (fd : Int)
  | errorCallback (message : String)
  | threw (message : String)
  deriving DecidableEq, Repr

/-- The socket of a `bind` that throws, if there is one, is closed. -/
def BindResults.closed (r : BindResults) : List ListenerEvent :=
  if r.socket ≠ -1 then [.socket r.socket, .xclose r.socket] else []

/-- The descriptor that the event obtains or gives up. -/
def ListenerEvent.entry : ListenerEvent → Option (Ledger.Entry Int)
  | .socket fd => some (.acquire fd)
  | .accept fd => some (.acquire fd)
  | .xclose fd => some (.release fd)
  | .acceptCallback fd => some (.release fd)
  | _ => none

/-- A call of a method of a listener, or an event. -/
inductive ListenerAct where
  | bind (results : BindResults)
  /-- `listen`, with the result of `::listen`. -/
  | listen (rc : Int)
  | startAccepting
  | stopAccepting
  /-- `AcceptHandler::ready`, with the results of `accept` and of
  `evutil_make_socket_nonblocking`. -/
  | ready (sock rc : Int)
  /-- `~LibeventConnectionListener`. -/
  | destroy
  deriving DecidableEq, Repr

/-- Why a run stops. -/
inductive ListenerStop where
  /-- A call after the destruction, or an event that cannot happen. -/
  | disabled
  | assertion (failed : AssertionFailed)
  deriving DecidableEq, Repr

/-- A listener, with the handlers of its base. -/
structure Listener (L : Type) where
  registry : Registry L
  /-- `base_`. -/
  base : Nat
  /-- `handler_`. -/
  handler : Nat
  port : BitVec 16
  alive : Bool
  trace : List ListenerEvent

namespace Listener

variable {L : Type}

/-- A listener that was just constructed, with a handler without a descriptor. -/
def new (registry : Registry L) (base handler : Nat) : Listener L where
  registry := registry.set handler ⟨-1, none⟩ registry.libevent
  base := base
  handler := handler
  port := 0
  alive := true
  trace := []

/-- `handler_.fd()`. -/
def fd (s : Listener L) : Int := (s.registry.handlers s.handler).fd

def entries (s : Listener L) : List (Ledger.Entry Int) := s.trace.filterMap ListenerEvent.entry

/-- The system returns no descriptor that is open. -/
def Unused (s : Listener L) (fd : Int) : Prop :=
  0 ≤ fd ∧ ∀ held, Ledger.balance s.entries = some held → fd ∉ held

instance (s : Listener L) (fd : Int) : Decidable (s.Unused fd) :=
  have : Decidable (∀ held, Ledger.balance s.entries = some held → fd ∉ held) :=
    match h : Ledger.balance s.entries with
    | none => .isTrue (by simp)
    | some held =>
      decidable_of_iff (fd ∉ held) (by simp)
  inferInstanceAs (Decidable (_ ∧ _))

variable [Libevent L]

/-- A call that changes the registration of a handler. -/
def register (s : Listener L) (call : HandlerCall) : Except ListenerStop (Listener L) :=
  match s.registry.step call with
  | .ok registry => .ok { s with registry }
  | .error failed => .error (.assertion failed)

def bind (s : Listener L) (r : BindResults) : Except ListenerStop (Listener L) :=
  match r.error with
  | some error => .ok { s with trace := s.trace ++ r.closed ++ [.threw error] }
  | none =>
    let s : Listener L := { s with port := r.port, trace := s.trace ++ [.socket r.socket] }
    s.register (.setFd s.handler r.socket)

def listen (s : Listener L) (rc : Int) : Listener L :=
  if rc = -1 then { s with trace := s.trace ++ [.threw "Failed to listen"] } else s

def startAccepting (s : Listener L) : Except ListenerStop (Listener L) :=
  s.register (.registerHandler s.base s.handler .read)

def stopAccepting (s : Listener L) : Except ListenerStop (Listener L) :=
  s.register (.registerHandler s.base s.handler .none)

def ready (s : Listener L) (sock rc : Int) : Listener L :=
  if sock < 0 then
    { s with trace := s.trace ++ [.errorCallback "Failed to accept connection"] }
  else if rc = -1 then
    { s with trace := s.trace ++ [.accept sock, .xclose sock,
      .errorCallback "Failed to make accepted socket non-blocking"] }
  else { s with trace := s.trace ++ [.accept sock, .acceptCallback sock] }

def destroy (s : Listener L) : Except ListenerStop (Listener L) := do
  let s ← s.register (.unregister s.handler)
  pure { s with
    alive := false
    trace := s.trace ++ if s.fd ≠ -1 then [.xclose s.fd] else [] }

/-- What the system returns, and when it may. -/
def Enabled (s : Listener L) : ListenerAct → Prop
  | .bind r => r.socket ≠ -1 → s.Unused r.socket
  | .ready sock _ => (s.registry.handlers s.handler).registered = true ∧ (0 ≤ sock → s.Unused sock)
  | _ => True

instance (s : Listener L) : ∀ act, Decidable (s.Enabled act)
  | .bind r => inferInstanceAs (Decidable (r.socket ≠ -1 → s.Unused r.socket))
  | .ready sock _ => inferInstanceAs (Decidable
      ((s.registry.handlers s.handler).registered = true ∧ (0 ≤ sock → s.Unused sock)))
  | .listen _ | .startAccepting | .stopAccepting | .destroy => inferInstanceAs (Decidable True)

def apply (s : Listener L) : ListenerAct → Except ListenerStop (Listener L)
  | .bind r => s.bind r
  | .listen rc => .ok (s.listen rc)
  | .startAccepting => s.startAccepting
  | .stopAccepting => s.stopAccepting
  | .ready sock rc => .ok (s.ready sock rc)
  | .destroy => s.destroy

def step (s : Listener L) (act : ListenerAct) : Except ListenerStop (Listener L) :=
  if s.alive ∧ s.Enabled act then s.apply act else .error .disabled

/-! ### The law -/

/-- A `bind` that throws leaves the port and the descriptor of the handler. -/
def KeepsOnThrow (s : Listener L) : ListenerAct → Prop
  | .bind r => r.error ≠ none → ∀ s', s.step (.bind r) = .ok s' → s'.port = s.port ∧ s'.fd = s.fd
  | _ => True

/-- A `bind` succeeds although the handler has a descriptor. -/
def Rebinds (s : Listener L) : ListenerAct → Prop
  | .bind r => r.error = none ∧ s.fd ≠ -1
  | _ => False

instance (s : Listener L) : ∀ act, Decidable (s.Rebinds act)
  | .bind r => inferInstanceAs (Decidable (r.error = none ∧ s.fd ≠ -1))
  | .listen _ | .startAccepting | .stopAccepting | .ready _ _ | .destroy =>
    inferInstanceAs (Decidable False)

/-! ### Steps -/

variable {s s' : Listener L} {act : ListenerAct} {leaked : List Int} {fd : Int}

/-- The descriptor of the handler, which the destructor closes. -/
def own (s : Listener L) : List Int := if s.alive = true ∧ s.fd ≠ -1 then [s.fd] else []

/-- What the ledger holds is the descriptor of the handler, and what was leaked. -/
def Holding (s : Listener L) (leaked : List Int) : Prop :=
  Ledger.Holds s.entries (s.own ++ leaked)

lemma register_eq_ok {call : HandlerCall} (hok : s.register call = .ok s') :
    ∃ registry, s.registry.step call = .ok registry ∧ s' = { s with registry } := by
  unfold register at hok
  cases h : s.registry.step call with
  | error failed =>
    rw [h] at hok
    cases hok
  | ok registry =>
    rw [h] at hok
    exact ⟨registry, rfl, (Except.ok.inj hok).symm⟩

/-- A call that registers or unregisters the handler leaves its descriptor. -/
lemma fd_register {call : HandlerCall} (hok : s.register call = .ok s')
    (hcall : ∀ fd, call ≠ .setFd s.handler fd) :
    s'.fd = s.fd ∧ s'.alive = s.alive ∧ s'.port = s.port ∧ s'.trace = s.trace := by
  obtain ⟨registry, hstep, rfl⟩ := register_eq_ok hok
  exact ⟨Registry.fd_step hstep hcall, rfl, rfl, rfl⟩

omit [Libevent L] in
lemma Unused.not_mem (h : s.Unused fd) (hs : s.Holding leaked) : fd ∉ s.own ++ leaked := by
  obtain ⟨held, hbalance, hperm⟩ := hs
  exact fun hmem => h.2 held hbalance (hperm.mem_iff.mpr hmem)

omit [Libevent L] in
/-- A descriptor that is obtained and given up at once leaves what is held. -/
lemma Holding.pass (hs : s.Holding leaked) (hu : s.Unused fd) (e e' : ListenerEvent)
    (events : List ListenerEvent) (he : e.entry = some (.acquire fd))
    (he' : e'.entry = some (.release fd)) (hrest : events.filterMap ListenerEvent.entry = [])
    (hown : s'.own = s.own) (htrace : s'.trace = s.trace ++ e :: e' :: events) :
    s'.Holding leaked := by
  have hheld := (Ledger.Holds.acquire hs (hu.not_mem hs)).release
  unfold Holding entries at hheld ⊢
  rw [htrace, List.filterMap_append, List.filterMap_cons_some he, List.filterMap_cons_some he',
    hrest, hown]
  rwa [List.append_assoc] at hheld

omit [Libevent L] in
/-- A step in which no descriptor is obtained or given up leaves what is held. -/
lemma Holding.of_silent (hs : s.Holding leaked) (events : List ListenerEvent)
    (hsilent : events.filterMap ListenerEvent.entry = []) (hown : s'.own = s.own)
    (htrace : s'.trace = s.trace ++ events) : s'.Holding leaked := by
  unfold Holding entries
  rw [htrace, List.filterMap_append, hsilent, List.append_nil, hown]
  exact hs

omit [Libevent L] in
lemma own_eq (hfd : s'.fd = s.fd) (halive : s'.alive = s.alive) : s'.own = s.own := by
  unfold own
  rw [hfd, halive]

/-- A `bind` that succeeds leaks the descriptor that the handler had. -/
lemma holding_bind {r : BindResults} (hs : s.Holding leaked) (halive : s.alive = true)
    (hu : s.Unused r.socket) (hok : s.bind r = .ok s') (herror : r.error = none) :
    s'.Holding (s.own ++ leaked) := by
  have hheld := Ledger.Holds.acquire hs (hu.not_mem hs)
  unfold bind at hok
  rw [herror] at hok
  obtain ⟨registry, hset, rfl⟩ := register_eq_ok hok
  simp only [Registry.step, Registry.setFd] at hset
  split_ifs at hset
  obtain rfl := Except.ok.inj hset
  have hne : r.socket ≠ -1 := by
    have hpos := hu.1
    omega
  unfold Holding entries own fd
  simp only [List.filterMap_append, Registry.handlers_set_self]
  rw [if_pos ⟨halive, hne⟩]
  exact hheld

/-- The destructor closes the descriptor of the handler. -/
lemma holding_destroy (hs : s.Holding leaked) (halive : s.alive = true)
    (hok : s.destroy = .ok s') : s'.Holding leaked := by
  obtain ⟨s₁, hregister, hok⟩ := bind_eq_ok.mp hok
  obtain rfl := Except.ok.inj hok
  obtain ⟨hfd, -, -, htrace⟩ := fd_register hregister fun _ heq => by cases heq
  unfold Holding entries own at hs ⊢
  simp only [htrace, hfd, List.filterMap_append, Bool.false_eq_true, false_and, if_false,
    List.nil_append]
  by_cases hne : s.fd = -1
  · simpa [hne] using hs
  · rw [if_pos ⟨halive, hne⟩] at hs
    rw [if_pos hne]
    exact hs.release

/-- What a step leaks is the descriptor of the handler, where a `bind` succeeds. -/
lemma holding_step (hs : s.Holding leaked) (hok : s.step act = .ok s') :
    ∃ leaked', s'.Holding leaked' ∧ (leaked' = [] ↔ leaked = [] ∧ ¬ s.Rebinds act) := by
  unfold step at hok
  split_ifs at hok with hcond
  obtain ⟨halive, henabled⟩ := hcond
  cases act with
  | bind r =>
    change s.bind r = .ok s' at hok
    cases herror : r.error with
    | none =>
      have hsocket : r.socket ≠ -1 := r.socket_ne herror
      refine ⟨s.own ++ leaked, holding_bind hs halive (henabled hsocket) hok herror, ?_⟩
      simp [own, Rebinds, halive, herror, and_comm]
    | some error =>
      unfold bind at hok
      rw [herror] at hok
      obtain rfl := Except.ok.inj hok
      refine ⟨leaked, ?_, by simp [Rebinds, herror]⟩
      by_cases hsocket : r.socket = -1
      · exact hs.of_silent [.threw error] rfl rfl (by simp [BindResults.closed, hsocket])
      · exact hs.pass (henabled hsocket) (.socket r.socket) (.xclose r.socket) [.threw error] rfl
          rfl rfl rfl (by simp [BindResults.closed, hsocket])
  | listen rc =>
    obtain rfl := Except.ok.inj hok
    refine ⟨leaked, ?_, by simp [Rebinds]⟩
    unfold listen
    split_ifs
    · exact hs.of_silent [_] rfl rfl rfl
    · exact hs
  | startAccepting =>
    obtain ⟨hfd, halive', -, htrace⟩ := fd_register hok fun _ heq => by cases heq
    refine ⟨leaked, ?_, by simp [Rebinds]⟩
    exact hs.of_silent [] rfl (own_eq hfd halive') (by rw [htrace, List.append_nil])
  | stopAccepting =>
    obtain ⟨hfd, halive', -, htrace⟩ := fd_register hok fun _ heq => by cases heq
    refine ⟨leaked, ?_, by simp [Rebinds]⟩
    exact hs.of_silent [] rfl (own_eq hfd halive') (by rw [htrace, List.append_nil])
  | ready sock rc =>
    obtain rfl := Except.ok.inj hok
    refine ⟨leaked, ?_, by simp [Rebinds]⟩
    unfold ready
    split_ifs with hsock hrc
    · exact hs.of_silent [_] rfl rfl rfl
    · exact hs.pass (henabled.2 (Int.not_lt.mp hsock)) (.accept sock) (.xclose sock) [_] rfl rfl rfl
        rfl rfl
    · exact hs.pass (henabled.2 (Int.not_lt.mp hsock)) (.accept sock) (.acceptCallback sock) [] rfl
        rfl rfl rfl rfl
  | destroy => exact ⟨leaked, holding_destroy hs halive hok, by simp [Rebinds]⟩

lemma keepsOnThrow (s : Listener L) (act : ListenerAct) : s.KeepsOnThrow act := by
  cases act with
  | bind r =>
    intro herror s' hok
    obtain ⟨error, herror⟩ := Option.ne_none_iff_exists'.mp herror
    unfold step at hok
    split_ifs at hok
    simp only [apply, bind, herror, Except.ok.injEq] at hok
    subst hok
    exact ⟨rfl, rfl⟩
  | _ => trivial

/-! ### Runs -/

/-- What a run leaks. -/
lemma holding_exec {acts : List ListenerAct} (hs : s.Holding leaked)
    (h : Exec.exec step s acts = .ok s') : ∃ leaked', s'.Holding leaked' ∧
      (leaked' = [] ↔ leaked = [] ∧ Exec.Along step (fun s act => ¬ s.Rebinds act) s acts) := by
  induction acts generalizing s leaked with
  | nil =>
    obtain rfl := Except.ok.inj h
    exact ⟨leaked, hs, by simp⟩
  | cons act acts ih =>
    obtain ⟨s₁, hstep, hrest⟩ := Exec.exec_cons_eq_ok.mp h
    obtain ⟨leaked₁, hs₁, hiff₁⟩ := holding_step hs hstep
    obtain ⟨leaked', hs', hiff'⟩ := ih hs₁ hrest
    exact ⟨leaked', hs', by rw [hiff', hiff₁, Exec.along_cons hstep, and_assoc]⟩

omit [Libevent L] in
lemma holding_new (registry : Registry L) (base handler : Nat) :
    (new registry base handler).Holding [] := by
  have hfd : (new registry base handler).fd = -1 := by
    rw [fd, new, Registry.handlers_set_self]
  unfold Holding own
  rw [hfd]
  exact Ledger.holds_nil

/-- When a listener has been destroyed, every descriptor that it obtained was closed or handed to
the accept callback once, and every `bind` that threw has left the port and the descriptor of the
handler, if and only if no `bind` has succeeded when the handler had a descriptor. -/
theorem settled_iff_not_rebinds (registry : Registry L) (base handler : Nat)
    (acts : List ListenerAct)
    (h : Exec.exec step (new registry base handler) acts = .ok s) (hdestroyed : s.alive = false) :
    (Ledger.Settled s.entries ∧ Exec.Along step KeepsOnThrow (new registry base handler) acts) ↔
      Exec.Along step (fun s act => ¬ s.Rebinds act) (new registry base handler) acts := by
  rw [and_iff_left (Exec.Along.of_forall keepsOnThrow)]
  obtain ⟨leaked, hs, hiff⟩ := holding_exec (holding_new registry base handler) h
  have hown : s.own = [] := by
    unfold own
    rw [hdestroyed]
    rfl
  unfold Holding at hs
  rw [hown] at hs
  rw [hs.settled_iff, List.nil_append, hiff, and_iff_right rfl]

/-- A `bind` to a bad address, one that succeeds, and two connections, of which one cannot be made
non-blocking. -/
theorem settled_two_connections : ∃ s : Listener (List (Nat × AssignedEvent)),
    Exec.exec step (new (.new (fun _ => -1) []) 0 0)
      [.bind ⟨3, 0, 0, 0, 0, 0, 0⟩, .bind ⟨3, 0, 0, 1, 0, 0, 8080⟩, .listen 0, .startAccepting,
        .ready 4 0, .ready 5 (-1), .stopAccepting, .destroy] = .ok s ∧
    Ledger.Settled s.entries ∧
    Exec.Along step KeepsOnThrow
      (new (.new (fun _ => -1) []) 0 0 : Listener (List (Nat × AssignedEvent)))
      [.bind ⟨3, 0, 0, 0, 0, 0, 0⟩, .bind ⟨3, 0, 0, 1, 0, 0, 8080⟩, .listen 0, .startAccepting,
        .ready 4 0, .ready 5 (-1), .stopAccepting, .destroy] :=
  ⟨_, rfl, (settled_iff_not_rebinds (.new (fun _ => -1) []) 0 0 _ rfl rfl).mpr (by decide)⟩

/-- The socket of the first of two calls of `bind` that succeed is not closed. -/
theorem not_settled : ¬ ∀ (acts : List ListenerAct) (s : Listener (List (Nat × AssignedEvent))),
    Exec.exec step (new (.new (fun _ => -1) []) 0 0) acts = .ok s → s.alive = false →
      Ledger.Settled s.entries := by
  intro h
  have hsettled := h [.bind ⟨3, 0, 0, 1, 0, 0, 8080⟩, .bind ⟨4, 0, 0, 1, 0, 0, 8081⟩, .destroy] _
    rfl rfl
  exact absurd hsettled (by decide)

end Listener

end WhatTheEvent
