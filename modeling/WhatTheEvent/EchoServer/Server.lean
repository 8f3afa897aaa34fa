import WhatTheEvent.EchoServer.Account
import WhatTheEvent.EventLoop.Listener

/-!
# The echo server

The listener and the connections that it has accepted, on one event loop. At most one dispatch is in
progress at a time. Each connection is a `Connection` as above; what is proved here of each of them
holds in whatever order the loop serves them.
-/

namespace WhatTheEvent

variable {L β : Type}

/-- The listener, and the connections in the order of their acceptance; those that were deleted keep
their places. -/
structure EchoServer (L β : Type) where
  listener : Listener L
  connections : List (Connection β)

/-- An event for the listener, or a step of a connection. -/
inductive ServerAct (β : Type) where
  /-- `AcceptHandler::ready`, with the results of `accept` and of
  `evutil_make_socket_nonblocking`. -/
  | accept (sock rc : Int)
  | connection (i : Nat) (act : ConnectionAct β)
  deriving DecidableEq, Repr

/-- Why a run of the server stops. -/
inductive ServerStop where
  | disabled
  | listener (stop : ListenerStop)
  | fault (fault : Fault)
  deriving DecidableEq, Repr

/-- The event is dispatched by the loop. -/
def ConnectionAct.isReady : ConnectionAct β → Bool
  | .ready _ => true
  | _ => false

/-- The descriptors that `acceptCb` is called with. -/
def acceptCallbacks (events : List ListenerEvent) : List Int :=
  events.filterMap fun
    | .acceptCallback fd => some fd
    | _ => none

namespace EchoServer

/-- A dispatch is in progress. -/
def dispatching (s : EchoServer L β) : Bool := s.connections.any fun c => c.dispatch.isSome

/-- The descriptors of the connections that are not deleted. -/
def held (s : EchoServer L β) : List Int := (s.connections.filter (·.alive)).map (·.fd)

variable [Libevent L]

/-- `main` up to the call of `loop`, which an exception keeps from being reached. -/
def start (registry : Registry L) (base handler : Nat) (bind : BindResults) (listen : Int) :
    Except ListenerStop (EchoServer L β) :=
  if bind.error = none ∧ listen ≠ -1 then
    (Exec.exec Listener.step (.new registry base handler)
      [.bind bind, .listen listen, .startAccepting]).map (⟨·, []⟩)
  else .error .disabled

/-- `accept` returns no descriptor that a connection has. -/
def accept (s : EchoServer L β) (sock rc : Int) : Except ServerStop (EchoServer L β) :=
  if s.dispatching = false ∧ sock ∉ s.held then
    match s.listener.step (.ready sock rc) with
    | .ok listener => .ok {
        listener
        connections := s.connections ++
          (acceptCallbacks (listener.trace.drop s.listener.trace.length)).map Connection.acceptCb }
    | .error stop => .error (.listener stop)
  else .error .disabled

def connection (s : EchoServer L β) (i : Nat) (act : ConnectionAct β) :
    Except ServerStop (EchoServer L β) :=
  match s.connections[i]? with
  | some c =>
    if act.isReady = true → s.dispatching = false then
      match c.step act with
      | .ok c => .ok { s with connections := s.connections.set i c }
      | .error fault => .error (.fault fault)
    else .error .disabled
  | none => .error .disabled

def step (s : EchoServer L β) : ServerAct β → Except ServerStop (EchoServer L β)
  | .accept sock rc => s.accept sock rc
  | .connection i act => s.connection i act

/-! ### Steps -/

variable {s s' : EchoServer L β} {act : ServerAct β} {i : Nat} {c : Connection β}

/-- A connection is accepted or not, or one of them takes a step. -/
inductive Effect (s : EchoServer L β) : ServerAct β → EchoServer L β → Prop
  | accepted {sock rc : Int} {listener : Listener L} (hunheld : sock ∉ s.held)
    (hlistener : s.listener.step (.ready sock rc) = .ok listener)
    (hsock : 0 ≤ sock) : Effect s (.accept sock rc)
      ⟨listener, s.connections ++ [Connection.acceptCb sock]⟩
  | refused {sock rc : Int} {listener : Listener L}
    (hlistener : s.listener.step (.ready sock rc) = .ok listener) :
    Effect s (.accept sock rc) { s with listener }
  | served {i : Nat} {act : ConnectionAct β} {c c' : Connection β}
    (hi : s.connections[i]? = some c) (hstep : c.step act = .ok c') :
    Effect s (.connection i act) { s with connections := s.connections.set i c' }

theorem step_effect (h : s.step act = .ok s') : s.Effect act s' := by
  cases act with
  | accept sock rc =>
    change s.accept sock rc = .ok s' at h
    unfold accept at h
    split_ifs at h with hguard
    cases hlistener : s.listener.step (.ready sock rc) with
    | error stop =>
      rw [hlistener] at h
      cases h
    | ok listener =>
      rw [hlistener] at h
      obtain rfl := Except.ok.inj h
      have hready : listener = s.listener.ready sock rc := by
        unfold Listener.step at hlistener
        split_ifs at hlistener
        exact (Except.ok.inj hlistener).symm
      by_cases hsock : sock < 0
      · have htrace : acceptCallbacks (listener.trace.drop s.listener.trace.length) = [] := by
          rw [hready, Listener.ready, if_pos hsock, List.drop_left]
          rfl
        rw [htrace, List.map_nil, List.append_nil]
        exact .refused hlistener
      · by_cases hrc : rc = -1
        · have htrace : acceptCallbacks (listener.trace.drop s.listener.trace.length) = [] := by
            rw [hready, Listener.ready, if_neg hsock, if_pos hrc, List.drop_left]
            rfl
          rw [htrace, List.map_nil, List.append_nil]
          exact .refused hlistener
        · have htrace :
              acceptCallbacks (listener.trace.drop s.listener.trace.length) = [sock] := by
            rw [hready, Listener.ready, if_neg hsock, if_neg hrc, List.drop_left]
            rfl
          rw [htrace]
          exact .accepted hguard.2 hlistener (Int.not_lt.mp hsock)
  | connection i act =>
    change s.connection i act = .ok s' at h
    unfold connection at h
    cases hi : s.connections[i]? with
    | none =>
      rw [hi] at h
      cases h
    | some c =>
      simp only [hi] at h
      split_ifs at h
      cases hstep : c.step act with
      | error fault =>
        rw [hstep] at h
        cases h
      | ok c' =>
        rw [hstep] at h
        obtain rfl := Except.ok.inj h
        exact .served hi hstep

/-! ### What the server holds -/

/-- Every connection has its account, and no two of what is live share a descriptor. -/
structure Serving (s : EchoServer L β) : Prop where
  account : ∀ (i : Nat) (c : Connection β), s.connections[i]? = some c → c.Account
  distinct : ∀ (i j : Nat) (c c' : Connection β), s.connections[i]? = some c →
    s.connections[j]? = some c' → c.alive = true → c'.alive = true → c.fd = c'.fd → i = j
  listening : s.listener.alive = true ∧ s.listener.fd ≠ -1
  holding : s.listener.Holding []
  apart : s.listener.fd ∉ s.held

omit [Libevent L] in
lemma mem_held {fd : Int} :
    fd ∈ s.held ↔ ∃ (i : Nat) (c : Connection β),
      s.connections[i]? = some c ∧ c.alive = true ∧ c.fd = fd := by
  rw [held, List.mem_map]
  constructor
  · rintro ⟨c, hc, hfd⟩
    obtain ⟨hmem, halive⟩ := List.mem_filter.mp hc
    obtain ⟨i, hi⟩ := List.mem_iff_getElem?.mp hmem
    exact ⟨i, c, hi, halive, hfd⟩
  · rintro ⟨i, c, hi, halive, hfd⟩
    exact ⟨c, List.mem_filter.mpr ⟨List.mem_of_getElem? hi, halive⟩, hfd⟩

omit [Libevent L] in
lemma getElem?_accepted {fd : Int}
    (h : (s.connections ++ [Connection.acceptCb fd])[i]? = some c) :
    s.connections[i]? = some c ∨ (i = s.connections.length ∧ c = .acceptCb fd) := by
  rcases Nat.lt_or_ge i s.connections.length with hlt | hge
  · rw [List.getElem?_append_left hlt] at h
    exact .inl h
  · rw [List.getElem?_append_right hge] at h
    rw [List.getElem?_singleton] at h
    split_ifs at h with hi
    exact .inr ⟨by omega, (Option.some.inj h).symm⟩

omit [Libevent L] in
lemma getElem?_served {j : Nat} {c' c'' : Connection β} (hi : s.connections[i]? = some c)
    (h : (s.connections.set i c')[j]? = some c'') :
    (i = j ∧ c'' = c') ∨ (i ≠ j ∧ s.connections[j]? = some c'') := by
  by_cases hij : i = j
  · subst hij
    rw [List.getElem?_set_self (List.getElem?_eq_some_iff.mp hi).1] at h
    exact .inl ⟨rfl, (Option.some.inj h).symm⟩
  · rw [List.getElem?_set_ne hij] at h
    exact .inr ⟨hij, h⟩

/-- The listener waits for the next connection with the descriptor that it has. -/
lemma listener_ready {s s' : Listener L} {sock rc : Int} (hs : s.Holding [])
    (h : s.step (.ready sock rc) = .ok s') :
    s'.Holding [] ∧ s'.fd = s.fd ∧ s'.alive = s.alive ∧ (0 ≤ sock → s.Unused sock) := by
  obtain ⟨leaked, hholding, hleaked⟩ := Listener.holding_step hs h
  obtain rfl := hleaked.mpr ⟨rfl, id⟩
  unfold Listener.step at h
  split_ifs at h with hguard
  obtain rfl := Except.ok.inj h
  refine ⟨hholding, ?_, ?_, hguard.2.2⟩
  all_goals
    unfold Listener.ready
    split_ifs <;> rfl

/-- A step of the server keeps all of this. -/
theorem Serving.step (hs : s.Serving) (h : s.step act = .ok s') : s'.Serving := by
  cases step_effect h with
  | @accepted sock rc listener hunheld hlistener hsock =>
    obtain ⟨hholding, hfd, halive, hunused⟩ := listener_ready hs.holding hlistener
    have hne : s.listener.fd ≠ sock := by
      have hnot := (hunused hsock).not_mem hs.holding
      rw [Listener.own, if_pos hs.listening] at hnot
      exact fun heq => hnot (by simp [heq])
    refine ⟨?_, ?_, ?_, hholding, ?_⟩
    · intro i c hi
      rcases getElem?_accepted hi with hi | ⟨-, rfl⟩
      · exact hs.account i c hi
      · exact Connection.account_acceptCb fun heq => by simp [heq] at hsock
    · intro i j c c' hi hj hc hc' heq
      rcases getElem?_accepted hi with hi | ⟨rfl, rfl⟩
      · rcases getElem?_accepted hj with hj | ⟨rfl, rfl⟩
        · exact hs.distinct i j c c' hi hj hc hc' heq
        · exact absurd (mem_held.mpr ⟨i, c, hi, hc, heq⟩) hunheld
      · rcases getElem?_accepted hj with hj | ⟨rfl, rfl⟩
        · exact absurd (mem_held.mpr ⟨j, c', hj, hc', heq.symm⟩) hunheld
        · rfl
    · rw [halive, hfd]
      exact hs.listening
    · rw [mem_held, hfd]
      rintro ⟨i, c, hi, hc, heq⟩
      rcases getElem?_accepted hi with hi | ⟨-, rfl⟩
      · exact hs.apart (mem_held.mpr ⟨i, c, hi, hc, heq⟩)
      · exact hne heq.symm
  | refused hlistener =>
    obtain ⟨hholding, hfd, halive, -⟩ := listener_ready hs.holding hlistener
    refine ⟨hs.account, hs.distinct, ?_, hholding, ?_⟩
    · rw [halive, hfd]
      exact hs.listening
    · rw [hfd]
      exact hs.apart
  | @served i act c c' hi hstep =>
    obtain ⟨haccount, hfd, halive⟩ := (hs.account i c hi).step hstep
    -- a live connection was live before, with the same descriptor
    have hback : ∀ (j : Nat) (c'' : Connection β), (s.connections.set i c')[j]? = some c'' →
        c''.alive = true →
          ∃ d, s.connections[j]? = some d ∧ d.alive = true ∧ d.fd = c''.fd := by
      intro j c'' hj hc''
      rcases getElem?_served hi hj with ⟨rfl, rfl⟩ | ⟨-, hj⟩
      · exact ⟨c, hi, halive, hfd.symm⟩
      · exact ⟨c'', hj, hc'', rfl⟩
    refine ⟨?_, ?_, hs.listening, hs.holding, ?_⟩
    · intro j c'' hj
      rcases getElem?_served hi hj with ⟨rfl, rfl⟩ | ⟨-, hj⟩
      · exact haccount
      · exact hs.account j c'' hj
    · intro j k d d' hj hk hd hd' heq
      obtain ⟨e, he, healive, hefd⟩ := hback j d hj hd
      obtain ⟨e', he', healive', hefd'⟩ := hback k d' hk hd'
      exact hs.distinct j k e e' he he' healive healive' (by rw [hefd, hefd', heq])
    · rw [mem_held]
      rintro ⟨j, d, hj, hd, heq⟩
      obtain ⟨e, he, healive, hefd⟩ := hback j d hj hd
      exact hs.apart (mem_held.mpr ⟨j, e, he, healive, hefd.trans heq⟩)

lemma listener_bind {s s' : Listener L} {r : BindResults} (hs : s.Holding []) (hfd : s.fd = -1)
    (h : s.step (.bind r) = .ok s') (herror : r.error = none) :
    s'.Holding [] ∧ s'.alive = true ∧ s'.fd ≠ -1 := by
  obtain ⟨leaked, hholding, hleaked⟩ := Listener.holding_step hs h
  obtain rfl := hleaked.mpr ⟨rfl, fun hrebinds => hrebinds.2 hfd⟩
  refine ⟨hholding, ?_⟩
  unfold Listener.step at h
  split_ifs at h with hguard
  change s.bind r = .ok s' at h
  unfold Listener.bind at h
  rw [herror] at h
  obtain ⟨registry, hset, rfl⟩ := Listener.register_eq_ok h
  simp only [Registry.step, Registry.setFd] at hset
  split_ifs at hset
  obtain rfl := Except.ok.inj hset
  refine ⟨hguard.1, ?_⟩
  rw [Listener.fd, Registry.handlers_set_self]
  exact BindResults.socket_ne herror

lemma listener_listen {s s' : Listener L} {rc : Int} (hs : s.Holding [])
    (h : s.step (.listen rc) = .ok s') : s'.Holding [] ∧ s'.alive = s.alive ∧ s'.fd = s.fd := by
  obtain ⟨leaked, hholding, hleaked⟩ := Listener.holding_step hs h
  obtain rfl := hleaked.mpr ⟨rfl, id⟩
  refine ⟨hholding, ?_⟩
  unfold Listener.step at h
  split_ifs at h
  obtain rfl := Except.ok.inj h
  unfold Listener.listen
  split_ifs <;> exact ⟨rfl, rfl⟩

lemma listener_startAccepting {s s' : Listener L} (hs : s.Holding [])
    (h : s.step .startAccepting = .ok s') :
    s'.Holding [] ∧ s'.alive = s.alive ∧ s'.fd = s.fd := by
  obtain ⟨leaked, hholding, hleaked⟩ := Listener.holding_step hs h
  obtain rfl := hleaked.mpr ⟨rfl, id⟩
  refine ⟨hholding, ?_⟩
  unfold Listener.step at h
  split_ifs at h
  obtain ⟨hfd, halive, -⟩ := Listener.fd_register h fun _ heq => by cases heq
  exact ⟨halive, hfd⟩

/-- When `main` gets to the loop, the listener has its descriptor and there is no connection. -/
lemma serving_start {registry : Registry L} {base handler : Nat} {bind : BindResults}
    {listen : Int} (h : start registry base handler bind listen = .ok s) :
    s.Serving ∧ s.connections = [] := by
  unfold start at h
  split_ifs at h with hthrows
  obtain ⟨listener, hrun, rfl⟩ := map_eq_ok.mp h
  obtain ⟨l₁, hbind, hrest⟩ := Exec.exec_cons_eq_ok.mp hrun
  obtain ⟨l₂, hlisten, hrest⟩ := Exec.exec_cons_eq_ok.mp hrest
  obtain ⟨l₃, haccepting, hrest⟩ := Exec.exec_cons_eq_ok.mp hrest
  obtain rfl := Except.ok.inj hrest
  have hnew : (Listener.new registry base handler).fd = -1 := by
    rw [Listener.fd, Listener.new, Registry.handlers_set_self]
  obtain ⟨h₁, halive₁, hfd₁⟩ :=
    listener_bind (Listener.holding_new registry base handler) hnew hbind hthrows.1
  obtain ⟨h₂, halive₂, hfd₂⟩ := listener_listen h₁ hlisten
  obtain ⟨h₃, halive₃, hfd₃⟩ := listener_startAccepting h₂ haccepting
  refine ⟨⟨fun _ _ hi => by simp at hi, fun _ _ _ _ hi => by simp at hi, ⟨?_, ?_⟩, h₃, ?_⟩, rfl⟩
  · exact halive₃.trans (halive₂.trans halive₁)
  · change l₃.fd ≠ -1
    rw [hfd₃, hfd₂]
    exact hfd₁
  · exact List.not_mem_nil

/-! ### Runs -/

/-- The step is one of the connection `i`, and the condition holds of it. -/
def At (P : Connection β → ConnectionAct β → Prop) (i : Nat) (s : EchoServer L β) :
    ServerAct β → Prop
  | .connection j act => j = i ∧ ∃ c ∈ s.connections[i]?, P c act
  | .accept _ _ => False

instance (P : Connection β → ConnectionAct β → Prop) [∀ c act, Decidable (P c act)] (i : Nat)
    (s : EchoServer L β) : ∀ act, Decidable (s.At P i act)
  | .connection j act => inferInstanceAs (Decidable (j = i ∧ ∃ c ∈ s.connections[i]?, P c act))
  | .accept _ _ => inferInstanceAs (Decidable False)

/-- What a step does to the connection `i`. -/
inductive Turn (s : EchoServer L β) (i : Nat) (act : ServerAct β) (c' : Connection β) : Prop
  | accepted (hi : s.connections[i]? = none) {fd : Int} (hc' : c' = .acceptCb fd)
    (hat : ∀ P, ¬ s.At P i act)
  | kept (hi : s.connections[i]? = some c') (hat : ∀ P, ¬ s.At P i act)
  | served {a : ConnectionAct β} {c : Connection β} (hact : act = .connection i a)
    (hi : s.connections[i]? = some c) (hstep : c.step a = .ok c')

lemma turn_of_step (h : s.step act = .ok s') {c' : Connection β}
    (hi : s'.connections[i]? = some c') : s.Turn i act c' := by
  cases step_effect h with
  | accepted =>
    rcases getElem?_accepted hi with hi | ⟨rfl, hc'⟩
    · exact .kept hi fun _ => id
    · exact .accepted (List.getElem?_eq_none (Nat.le_refl _)) hc' fun _ => id
  | refused => exact .kept hi fun _ => id
  | served hj hstep =>
    rcases getElem?_served hj hi with ⟨rfl, rfl⟩ | ⟨hne, hi⟩
    · exact .served rfl hj hstep
    · exact .kept hi fun _ hat => hne hat.1

lemma getElem?_eq_none_of_step (h : s.step act = .ok s') (hi : s'.connections[i]? = none) :
    s.connections[i]? = none := by
  rw [List.getElem?_eq_none_iff] at hi ⊢
  cases step_effect h with
  | accepted =>
    rw [List.length_append] at hi
    exact Nat.le_trans (Nat.le_add_right _ _) hi
  | refused => exact hi
  | served => simpa using hi

omit [Libevent L] in
lemma not_at_of_none {P : Connection β → ConnectionAct β → Prop}
    (hi : s.connections[i]? = none) : ¬ s.At P i act := by
  cases act with
  | accept sock rc => exact id
  | connection j act =>
    rintro ⟨-, c, hc, -⟩
    rw [hi] at hc
    cases hc

/-- A condition on connections that each of their steps keeps exactly if it does not meet `Q` holds
of a live connection after those runs of the server in which none of its steps meets `Q`. -/
lemma connection_iff_along {P : Connection β → Prop}
    {Q : Connection β → ConnectionAct β → Prop} (hnew : ∀ fd, P (.acceptCb fd))
    (hstep : ∀ (c c' : Connection β) (a : ConnectionAct β), c.Account → c.step a = .ok c' →
      c'.alive = true → (P c' ↔ P c ∧ ¬ Q c a))
    {s₀ : EchoServer L β} {acts : List (ServerAct β)} (hs : s₀.Serving)
    (hempty : s₀.connections = []) (h : Exec.exec step s₀ acts = .ok s)
    (hi : s.connections[i]? = some c) (halive : c.alive = true) :
    P c ↔ Exec.Along step (fun s act => ¬ s.At Q i act) s₀ acts := by
  have hrun := Exec.exec_iff_along (C := fun _ _ => True) (Q := fun s act => ¬ s.At Q i act)
    (L := fun s => ∀ c : Connection β, s.connections[i]? = some c → c.alive = true)
    (R := fun s => ∀ c : Connection β, s.connections[i]? = some c → P c) Serving ?_ hs
    (.of_forall fun _ _ => trivial) h
  · obtain ⟨-, hiff⟩ := hrun
    obtain ⟨-, hiff⟩ := hiff fun c' hc' => by rwa [← Option.some.inj (hi.symm.trans hc')]
    rw [hempty] at hiff
    constructor
    · intro hP
      exact (hiff.mp fun c' hc' => by rwa [← Option.some.inj (hi.symm.trans hc')]).2
    · exact fun halong => hiff.mpr ⟨fun c' hc' => by simp at hc', halong⟩ c hi
  · intro s act s' hs _ hok
    refine ⟨hs.step hok, fun hlive => ?_⟩
    cases hi' : s'.connections[i]? with
    | none =>
      have hnone : s.connections[i]? = none := getElem?_eq_none_of_step hok hi'
      simp [hnone, not_at_of_none hnone]
    | some c' =>
      have hc' := hlive c' hi'
      simp only [Option.some.injEq, forall_eq']
      cases turn_of_step hok hi' with
      | accepted hi hc hat =>
        rw [hi]
        simpa [hat, hc] using hnew _
      | kept hi hat =>
        rw [hi]
        simp [hat, hc']
      | @served a c hact hi hstep' =>
        obtain ⟨-, -, halive⟩ := (hs.account i c hi).step hstep'
        rw [hi]
        simpa [hact, At, hi, halive] using hstep c c' a (hs.account i c hi) hstep' hc'

/-! ### What holds of every run -/

variable {registry : Registry L} {base handler : Nat} {bind : BindResults} {listen : Int}
  {s₀ : EchoServer L β} {acts : List (ServerAct β)}

lemma serving_of_exec (hstart : start registry base handler bind listen = .ok s₀)
    (h : Exec.exec step s₀ acts = .ok s) : s.Serving :=
  Exec.Reachable.invariant Serving (fun _ _ _ hs hok => hs.step hok) (serving_start hstart).1
    ⟨acts, h⟩

omit [Libevent L] in
lemma Serving.nodup_held (hs : s.Serving) : s.held.Nodup := by
  refine List.pairwise_map.mpr (List.pairwise_filter.mpr (List.pairwise_iff_getElem.mpr ?_))
  intro i j hi hj hlt halive halive' heq
  exact Nat.ne_of_lt hlt (hs.distinct i j _ _ (List.getElem?_eq_getElem hi)
    (List.getElem?_eq_getElem hj) halive halive' heq)

/-- Every connection has closed its descriptor once if it was deleted, and not at all if it was not,
and the descriptors that are not closed differ from each other and from the one that is listened
on. -/
theorem descriptors_of_exec (hstart : start registry base handler bind listen = .ok s₀)
    (h : Exec.exec step s₀ acts = .ok s) :
    (∀ c ∈ s.connections, closed c.trace = if c.alive then [] else [c.fd]) ∧
      s.held.Nodup ∧ s.listener.fd ∉ s.held := by
  have hs := serving_of_exec hstart h
  refine ⟨fun c hc => ?_, hs.nodup_held, hs.apart⟩
  obtain ⟨i, hi⟩ := List.mem_iff_getElem?.mp hc
  exact (hs.account i c hi).closed_eq

/-- Two connections, of which one has ended. -/
theorem descriptors_two_connections : ∃ s₀ s : EchoServer (List (Nat × AssignedEvent)) Nat,
    start (.new (fun _ => -1) []) 0 0 ⟨3, 0, 0, 1, 0, 0, 8080⟩ 0 = .ok s₀ ∧
    Exec.exec step s₀ [.accept 4 0, .accept 5 0, .connection 0 (.ready .read),
      .connection 0 (.xread .eof)] = .ok s ∧
    (∀ c ∈ s.connections, closed c.trace = if c.alive then [] else [c.fd]) ∧
      s.held.Nodup ∧ s.listener.fd ∉ s.held := by
  refine ⟨?_, ?_, ?hstart, ?hrun, descriptors_of_exec ?hstart ?hrun⟩
  case hstart => rfl
  case hrun => rfl

/-- What the socket of a connection has accepted are bytes received from that connection, in their
order and none of them twice. -/
theorem echoed_sublist (hstart : start registry base handler bind listen = .ok s₀)
    (h : Exec.exec step s₀ acts = .ok s) :
    ∀ c ∈ s.connections, (accepted c.trace).Sublist ((received c.trace).map some) := by
  intro c hc
  obtain ⟨i, hi⟩ := List.mem_iff_getElem?.mp hc
  exact ((serving_of_exec hstart h).account i c hi).sublist

/-- The first of two bytes is written back. -/
theorem echoed_one_byte : ∃ s₀ s : EchoServer (List (Nat × AssignedEvent)) Nat,
    start (.new (fun _ => -1) []) 0 0 ⟨3, 0, 0, 1, 0, 0, 8080⟩ 0 = .ok s₀ ∧
    Exec.exec step s₀ [.accept 4 0, .connection 0 (.ready .read),
      .connection 0 (.xread (.data [7, 8])), .connection 0 (.ready .write),
      .connection 0 (.xwrites [.count 1])] = .ok s ∧
    ∀ c ∈ s.connections, (accepted c.trace).Sublist ((received c.trace).map some) := by
  refine ⟨?_, ?_, ?hstart, ?hrun, echoed_sublist ?hstart ?hrun⟩
  case hstart => rfl
  case hrun => rfl

/-- Of a live connection, what was accepted and what is pending is all that was received, if and
only if no chunk has arrived for it while two requests were pending. -/
theorem conserves_iff_not_crowds (hstart : start registry base handler bind listen = .ok s₀)
    (h : Exec.exec step s₀ acts = .ok s) (hi : s.connections[i]? = some c)
    (halive : c.alive = true) :
    c.Conserves ↔ Exec.Along step (fun s act => ¬ s.At Connection.Crowds i act) s₀ acts := by
  obtain ⟨hs, hempty⟩ := serving_start hstart
  refine connection_iff_along (fun fd => ?_) (fun c c' a hc hstep hc' => hc.conserves_iff hstep hc')
    hs hempty h hi halive
  exact ⟨[], rfl, rfl⟩

/-- A chunk that arrives while another one is pending is not lost. -/
theorem conserves_two_chunks : ∃ (s₀ s : EchoServer (List (Nat × AssignedEvent)) Nat)
    (c : Connection Nat),
    start (.new (fun _ => -1) []) 0 0 ⟨3, 0, 0, 1, 0, 0, 8080⟩ 0 = .ok s₀ ∧
    Exec.exec step s₀ [.accept 4 0, .connection 0 (.ready .read),
      .connection 0 (.xread (.data [7, 8])), .connection 0 (.ready .read),
      .connection 0 (.xread (.data [9])), .connection 0 (.ready .write),
      .connection 0 (.xwrites [.count 1])] = .ok s ∧
    s.connections[0]? = some c ∧ c.alive = true ∧ c.Conserves := by
  refine ⟨?_, ?_, ?_, ?hstart, ?hrun, ?hi, ?halive,
    (conserves_iff_not_crowds ?hstart ?hrun ?hi ?halive).mpr ?_⟩
  case hstart | hrun | hi | halive => rfl
  decide

/-- A live connection goes on to watch for data if and only if no chunk has arrived for it while a
request was pending. -/
theorem watches_iff_not_overlaps (hstart : start registry base handler bind listen = .ok s₀)
    (h : Exec.exec step s₀ acts = .ok s) (hi : s.connections[i]? = some c)
    (halive : c.alive = true) :
    c.watched.isRead = true ↔
      Exec.Along step (fun s act => ¬ s.At Connection.Overlaps i act) s₀ acts := by
  obtain ⟨hs, hempty⟩ := serving_start hstart
  exact connection_iff_along (fun _ => rfl) (fun c c' a hc hstep hc' => hc.watches_iff hstep hc')
    hs hempty h hi halive

/-- A chunk that arrives while another one is pending is the last one that is read. -/
theorem watches_two_chunks : ∃ (s₀ s : EchoServer (List (Nat × AssignedEvent)) Nat)
    (c : Connection Nat),
    start (.new (fun _ => -1) []) 0 0 ⟨3, 0, 0, 1, 0, 0, 8080⟩ 0 = .ok s₀ ∧
    Exec.exec step s₀ [.accept 4 0, .connection 0 (.ready .read),
      .connection 0 (.xread (.data [7, 8])), .connection 0 (.ready .read),
      .connection 0 (.xread (.data [9]))] = .ok s ∧
    s.connections[0]? = some c ∧ c.alive = true ∧ ¬ c.watched.isRead = true := by
  refine ⟨?_, ?_, ?_, ?hstart, ?hrun, ?hi, ?halive,
    (watches_iff_not_overlaps ?hstart ?hrun ?hi ?halive).not.mpr ?_⟩
  case hstart | hrun | hi | halive => rfl
  decide

lemma echoesPrefix_of_along (hs : s₀.Serving) (hempty : s₀.connections = [])
    (h : Exec.exec step s₀ acts = .ok s)
    (hcrowds : Exec.Along step (fun s act => ¬ s.At Connection.Crowds i act) s₀ acts)
    (hi : s.connections[i]? = some c) : c.EchoesPrefix := by
  let Echoes (c : Connection β) : Prop := (c.alive = true → c.Conserves) ∧ c.EchoesPrefix
  have hrun := Exec.exec_invariant
    (fun s => s.Serving ∧ ∀ c : Connection β, s.connections[i]? = some c → Echoes c) ?_
    ⟨hs, fun c hi => by simp [hempty] at hi⟩ hcrowds h
  · exact (hrun.2 c hi).2
  · rintro s act s' ⟨hs, hechoes⟩ hcrowds hok
    refine ⟨hs.step hok, fun c' hi' => ?_⟩
    cases turn_of_step hok hi' with
    | accepted _ hc' =>
      rw [hc']
      exact ⟨fun _ => ⟨[], rfl, rfl⟩, List.prefix_refl _⟩
    | kept hi => exact hechoes c' hi
    | @served a c hact hi hstep =>
      have hc := hs.account i c hi
      have hnot : ¬ c.Crowds a := fun hcrowded => hcrowds (hact ▸ ⟨rfl, c, hi, hcrowded⟩)
      have hconserves : c.Conserves := (hechoes c hi).1 (hc.step hstep).2.2
      cases halive : c'.alive with
      | true =>
        have hconserves' := (hc.conserves_iff hstep halive).mpr ⟨hconserves, hnot⟩
        exact ⟨fun _ => hconserves', hconserves'.echoesPrefix⟩
      | false =>
        exact ⟨fun heq => absurd (halive.symm.trans heq) Bool.false_ne_true,
          hc.echoesPrefix_of_deleted hstep halive hconserves⟩

/-- As long as no chunk has arrived for it while two requests were pending, what the socket of a
connection has accepted is a beginning of what was received from it. -/
theorem echoesPrefix_of_not_crowds (hstart : start registry base handler bind listen = .ok s₀)
    (h : Exec.exec step s₀ acts = .ok s)
    (hcrowds : Exec.Along step (fun s act => ¬ s.At Connection.Crowds i act) s₀ acts)
    (hi : s.connections[i]? = some c) : c.EchoesPrefix := by
  obtain ⟨hs, hempty⟩ := serving_start hstart
  exact echoesPrefix_of_along hs hempty h hcrowds hi

/-- A connection that has ended before the second of its chunks was written back. -/
theorem echoesPrefix_two_chunks : ∃ (s₀ s : EchoServer (List (Nat × AssignedEvent)) Nat)
    (c : Connection Nat),
    start (.new (fun _ => -1) []) 0 0 ⟨3, 0, 0, 1, 0, 0, 8080⟩ 0 = .ok s₀ ∧
    Exec.exec step s₀ [.accept 4 0, .connection 0 (.ready .read),
      .connection 0 (.xread (.data [7, 8])), .connection 0 (.ready .readWrite),
      .connection 0 (.xwrites [.count 2]), .connection 0 (.xread (.data [9])),
      .connection 0 (.ready .read), .connection 0 (.xread .eof)] = .ok s ∧
    s.connections[0]? = some c ∧ c.alive = false ∧ c.EchoesPrefix := by
  refine ⟨?_, ?_, ?_, ?hstart, ?hrun, ?hi, ?halive,
    echoesPrefix_of_not_crowds ?hstart ?hrun ?_ ?hi⟩
  case hstart | hrun | hi | halive => rfl
  decide

/-- A connection that does not watch for data any more and is not just reading receives nothing, not
even the end of the data, and is not deleted in any run in which none of its writes fails. -/
theorem deaf_of_exec (hstart : start registry base handler bind listen = .ok s₀)
    (h : Exec.exec step s₀ acts = .ok s) (hi : s.connections[i]? = some c) (hdeaf : c.Deaf)
    {acts' : List (ServerAct β)} (h' : Exec.exec step s acts' = .ok s')
    (hwrites : ∀ results, .connection i (.xwrites results) ∈ acts' →
      ∀ e, WriteResult.error e ∉ results) :
    ∃ c' : Connection β, s'.connections[i]? = some c' ∧ c'.Deaf ∧ closed c'.trace = [] ∧
      received c'.trace = received c.trace := by
  let Stays (s : EchoServer L β) : Prop := ∃ c' : Connection β,
    s.connections[i]? = some c' ∧ c'.Deaf ∧ received c'.trace = received c.trace
  let Succeeds (act : ServerAct β) : Prop :=
    ∀ results, act = .connection i (.xwrites results) → ∀ e, WriteResult.error e ∉ results
  have hrun := Exec.exec_invariant (P := fun _ act => Succeeds act)
    (fun s => s.Serving ∧ Stays s) ?_ ⟨serving_of_exec hstart h, c, hi, hdeaf, rfl⟩
    (Exec.Along.of_mem fun act hact results heq => hwrites results (heq ▸ hact)) h'
  · obtain ⟨hs, c', hi', hdeaf', hreceived⟩ := hrun
    refine ⟨c', hi', hdeaf', ?_, hreceived⟩
    rw [(hs.account i c' hi').closed_eq, if_pos hdeaf'.1]
  · rintro s act s' ⟨hs, c', hi', hdeaf', hreceived⟩ hsucceeds hok
    refine ⟨hs.step hok, ?_⟩
    cases hi'' : s'.connections[i]? with
    | none => cases hi'.symm.trans (getElem?_eq_none_of_step hok hi'')
    | some d =>
      cases turn_of_step hok hi'' with
      | accepted hnone => cases hi'.symm.trans hnone
      | kept hkept =>
        obtain rfl := Option.some.inj (hi'.symm.trans hkept)
        exact ⟨c', hi'', hdeaf', hreceived⟩
      | @served a e hact he hstep =>
        obtain rfl := Option.some.inj (hi'.symm.trans he)
        rcases (hs.account i c' hi').deaf_step hdeaf' hstep with hstays | ⟨results, e, rfl, hmem⟩
        · exact ⟨d, hi'', hstays.1, hstays.2.trans hreceived⟩
        · exact absurd hmem (hsucceeds results hact e)

/-- A connection that has written two chunks back, and is not told of the end of the data. -/
theorem deaf_two_chunks : ∃ (s₀ s s' : EchoServer (List (Nat × AssignedEvent)) Nat)
    (c : Connection Nat),
    start (.new (fun _ => -1) []) 0 0 ⟨3, 0, 0, 1, 0, 0, 8080⟩ 0 = .ok s₀ ∧
    Exec.exec step s₀ [.accept 4 0, .connection 0 (.ready .read),
      .connection 0 (.xread (.data [7, 8])), .connection 0 (.ready .read),
      .connection 0 (.xread (.data [9]))] = .ok s ∧
    s.connections[0]? = some c ∧
    Exec.exec step s [.connection 0 (.ready .write), .connection 0 (.xwrites [.count 2]),
      .connection 0 (.xwrites [.count 1])] = .ok s' ∧
    ∃ c' : Connection Nat, s'.connections[0]? = some c' ∧ c'.Deaf ∧ closed c'.trace = [] ∧
      received c'.trace = received c.trace := by
  refine ⟨?_, ?_, ?_, ?_, ?hstart, ?hrun, ?hi, ?hrun',
    deaf_of_exec ?hstart ?hrun ?hi ⟨?halive, ?hwatched, ?_⟩ ?hrun' ?_⟩
  case hstart | hrun | hrun' | hi | halive | hwatched => rfl
  · intro heq
    cases heq
  · simp

omit [Libevent L] in
lemma exists_at_connection {P : Connection β → ConnectionAct β → Prop} {act : ConnectionAct β} :
    (∃ j, s.At P j (.connection i act)) ↔
      ∃ c : Connection β, s.connections[i]? = some c ∧ P c act := by
  constructor
  · rintro ⟨j, rfl, c, hi, hP⟩
    exact ⟨c, hi, hP⟩
  · rintro ⟨c, hi, hP⟩
    exact ⟨i, rfl, c, hi, hP⟩

/-- The server accesses freed memory where the step of one of its connections does. -/
lemma Serving.step_eq_useAfterFree_iff (hs : s.Serving) :
    s.step act = .error (.fault .useAfterFree) ↔ ∃ i, s.At Connection.FailsReading i act := by
  cases act with
  | accept sock rc =>
    refine iff_of_false (fun heq => ?_) (fun ⟨_, hat⟩ => hat)
    change s.accept sock rc = _ at heq
    unfold accept at heq
    split_ifs at heq
    · split at heq <;> cases heq
    · cases heq
  | connection i act =>
    rw [exists_at_connection]
    change s.connection i act = _ ↔ _
    unfold connection
    cases hi : s.connections[i]? with
    | none => exact iff_of_false (fun heq => by cases heq) fun ⟨_, hc, _⟩ => by cases hc
    | some c =>
      simp only [Option.some.injEq, exists_eq_left']
      rw [← (hs.account i c hi).step_eq_useAfterFree_iff]
      split_ifs with hguard
      · cases hstep : c.step act with
        | ok c' => exact iff_of_false (fun heq => by cases heq) fun heq => by cases heq
        | error fault => simp
      · -- an event that is not dispatched frees nothing
        refine iff_of_false (fun heq => by cases heq) fun heq => ?_
        have hfails := (hs.account i c hi).step_eq_useAfterFree_iff.mp heq
        cases act with
        | ready event => exact hfails
        | xwrites results => exact hguard fun heq => by cases heq
        | xread result => exact hfails

/-- A run of the server accesses no freed memory if and only if no write fails in a dispatch that
goes on to read. -/
theorem safe_iff_not_failsReading (hstart : start registry base handler bind listen = .ok s₀)
    (acts : List (ServerAct β)) :
    Exec.exec step s₀ acts ≠ .error (.fault .useAfterFree) ↔
      Exec.Along step (fun s act => ∀ i, ¬ s.At Connection.FailsReading i act) s₀ acts := by
  rw [Exec.exec_ne_error_iff]
  refine Exec.along_iff (C := fun _ _ => True) Serving ?_ ?_ (serving_start hstart).1
    (Exec.Along.of_forall fun _ _ => trivial)
  · intro s act hs _
    rw [ne_eq, hs.step_eq_useAfterFree_iff, not_exists]
  · exact fun s act s' hs _ _ hok => hs.step hok

/-- A write that fails in a dispatch that does not read. -/
theorem safe_failing_write : ∃ s₀ : EchoServer (List (Nat × AssignedEvent)) Nat,
    start (.new (fun _ => -1) []) 0 0 ⟨3, 0, 0, 1, 0, 0, 8080⟩ 0 = .ok s₀ ∧
    Exec.Along step (fun s act => ∀ i, ¬ s.At Connection.FailsReading i act) s₀
      [.accept 4 0, .connection 0 (.ready .read), .connection 0 (.xread (.data [7, 8])),
        .connection 0 (.ready .write), .connection 0 (.xwrites [.error (.other 32)])] := by
  refine ⟨?_, ?hstart, (safe_iff_not_failsReading ?hstart _).mp ?_⟩
  case hstart => rfl
  intro herror
  cases herror

end EchoServer

end WhatTheEvent
