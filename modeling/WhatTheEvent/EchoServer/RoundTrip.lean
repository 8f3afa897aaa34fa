import WhatTheEvent.EchoServer.Server
import WhatTheEvent.Stream.Peers

/-!
# The way to the server and back

A stream of a client at the other end of one of the connections of the echo server. The server has
any number of other connections, whose clients may be of any kind.
-/

namespace WhatTheEvent

variable {L β : Type}

namespace Connection

variable {s s' : Connection β} {act : ConnectionAct β}

lemma trace_prefix_of_step (h : s.step act = .ok s') : s.trace <+: s'.trace := by
  obtain ⟨s₁, h₁, hreact⟩ := bind_eq_ok.mp h
  obtain ⟨events, htrace⟩ := Stream.step_trace h₁
  have hfirst : s.trace <+: s₁.trace := htrace ▸ List.prefix_append _ _
  unfold react at hreact
  split at hreact
  · exact hfirst.trans (Stream.trace_grows hreact)
  · obtain rfl := Except.ok.inj hreact
    exact hfirst

end Connection

namespace EchoServer

variable [Libevent L] {s s' : EchoServer L β} {act : ServerAct β} {i : Nat}

/-- What has happened on the connection `i`, if it was accepted. -/
def traceOf (s : EchoServer L β) (i : Nat) : List (Event β) :=
  match s.connections[i]? with
  | some c => c.trace
  | none => []

lemma traceOf_grows (h : s.step act = .ok s') : s.traceOf i <+: s'.traceOf i := by
  unfold traceOf
  cases hi' : s'.connections[i]? with
  | none =>
    rw [getElem?_eq_none_of_step h hi']
  | some c' =>
    cases turn_of_step h hi' with
    | accepted hi =>
      rw [hi]
      exact List.nil_prefix
    | kept hi => rw [hi]
    | served _ hi hstep =>
      rw [hi]
      exact Connection.trace_prefix_of_step hstep

/-- The server as the end of the connection `i`. -/
def endpoint (i : Nat) : Duplex.Endpoint (Cell β) β ServerStop (ServerAct β) (EchoServer L β) where
  step := step
  sent s := accepted (s.traceOf i)
  got s := received (s.traceOf i)
  sent_grows s act s' h := by
    obtain ⟨events, htrace⟩ := traceOf_grows (i := i) h
    rw [← htrace, accepted_append]
    exact List.prefix_append _ _
  got_grows s act s' h := by
    obtain ⟨events, htrace⟩ := traceOf_grows (i := i) h
    rw [← htrace, received_append]
    exact List.prefix_append _ _

/-! ### A client and the server -/

/-- A client and the server before anything is written. -/
def withClient (fd : Int) (s : EchoServer L β) :
    Duplex.State (Cell β) (Stream (Requests (WriteRequest β)) β) (EchoServer L β) :=
  ⟨.new fd, s, [], []⟩

variable [DecidableEq β] {registry : Registry L} {base handler : Nat} {bind : BindResults}
  {listen fd : Int} {s₀ : EchoServer L β} {acts : List (Duplex.Act (Act β) (ServerAct β))}
  {t : Duplex.State (Cell β) (Stream (Requests (WriteRequest β)) β) (EchoServer L β)}

/-- A client of any kind that has not sent or got anything yet. -/
lemma delivers_of_client {ε ι σ : Type} {client : Duplex.Endpoint (Cell β) β ε ι σ} {c : σ}
    {acts : List (Duplex.Act ι (ServerAct β))} {t : Duplex.State (Cell β) σ (EchoServer L β)}
    (hsent : client.sent c = []) (hgot : client.got c = []) (hempty : s₀.connections = [])
    (h : Exec.exec (Duplex.step client (endpoint i) Shows) ⟨c, s₀, [], []⟩ acts = .ok t) :
    Duplex.Delivers client (endpoint i) Shows t := by
  have htrace : s₀.traceOf i = [] := by rw [traceOf, hempty, List.getElem?_nil]
  refine Duplex.delivers_of_exec (s := ⟨c, s₀, [], []⟩) ⟨⟨[], hsent, ?_⟩, ⟨[], ?_, ?_⟩⟩ h
  · change List.Forall₂ Shows [] (received (s₀.traceOf i))
    rw [htrace]
    exact .nil
  · change accepted (s₀.traceOf i) = []
    rw [htrace]
    rfl
  · rw [hgot]
    exact .nil

omit [DecidableEq β] in
lemma echoes_of_exec {acts : List (ServerAct β)}
    (hstart : start registry base handler bind listen = .ok s₀)
    (h : Exec.exec step s₀ acts = .ok s) :
    (accepted (s.traceOf i)).Sublist ((received (s.traceOf i)).map some) := by
  have hserving := serving_of_exec hstart h
  unfold traceOf
  cases hi : s.connections[i]? with
  | none => exact List.nil_sublist _
  | some c => exact (hserving.account i c hi).sublist

omit [DecidableEq β] in
lemma echoes_in_order_of_exec {acts : List (ServerAct β)}
    (hstart : start registry base handler bind listen = .ok s₀)
    (h : Exec.exec step s₀ acts = .ok s)
    (hcrowds : Exec.Along step (fun s act => ¬ s.At Connection.Crowds i act) s₀ acts) :
    accepted (s.traceOf i) <+: (received (s.traceOf i)).map some := by
  obtain ⟨hs, hempty⟩ := serving_start hstart
  unfold traceOf
  cases hi : s.connections[i]? with
  | none => exact List.prefix_refl _
  | some c => exact echoesPrefix_of_along hs hempty h hcrowds hi

/-- Whatever a client writes, whatever the other clients do and in whatever order everything is
served, what the client gets back is a subsequence of what it has written, as long as its socket
accepts no byte behind a short count. -/
theorem returned_sublist (hstart : start registry base handler bind listen = .ok s₀)
    (h : Exec.exec (Duplex.step Stream.endpoint (endpoint i) Shows) (withClient fd s₀) acts =
      .ok t)
    (hregular : Exec.Along Stream.step Stream.Regular (Stream.new fd : Connection β)
      (acts.filterMap Duplex.Act.left?)) :
    ∃ cells, cells.Sublist (written t.left.trace) ∧
      List.Forall₂ Shows cells (received t.left.trace) := by
  obtain ⟨-, hempty⟩ := serving_start hstart
  have hdelivers := delivers_of_client (c := Stream.new fd) rfl rfl hempty h
  obtain ⟨cells, hsub, hshows⟩ := hdelivers.echo_sublist (fun _ _ => shows_some)
    (echoes_of_exec hstart (Duplex.exec_right h))
  exact ⟨cells, hsub.trans (Stream.sends_of_exec (Duplex.exec_left h) hregular).1.sublist, hshows⟩

/-- A client whose second request is lost. -/
theorem returned_one_byte : ∃ (s₀ : EchoServer (List (Nat × AssignedEvent)) Nat)
    (t : Duplex.State (Cell Nat) (Stream (Requests (WriteRequest Nat)) Nat)
      (EchoServer (List (Nat × AssignedEvent)) Nat)),
    start (.new (fun _ => -1) []) 0 0 ⟨3, 0, 0, 1, 0, 0, 8080⟩ 0 = .ok s₀ ∧
    Exec.exec (Duplex.step Stream.endpoint (endpoint 0) Shows) (withClient 9 s₀)
      [.left (.write [7] none), .left (.write [8] none), .left (.write [9] none),
        .left (.startRead (some 5)), .left (.ready .write), .left (.xwrites [.count 1]),
        .left (.xwrites [.count 1]), .right (.accept 4 0), .right (.connection 0 (.ready .read)),
        .right (.connection 0 (.xread (.data [7, 9]))), .right (.connection 0 (.ready .write)),
        .right (.connection 0 (.xwrites [.count 2])), .left (.ready .read),
        .left (.xread (.data [7, 9]))] = .ok t ∧
    ∃ cells, cells.Sublist (written t.left.trace) ∧
      List.Forall₂ Shows cells (received t.left.trace) := by
  refine ⟨?_, ?_, ?hstart, ?hrun, returned_sublist (i := 0) ?hstart ?hrun ?_⟩
  case hstart | hrun => rfl
  decide

/-- If besides the client replaces no request that holds bytes and the server drops no chunk of the
connection, what the client gets back is a beginning of what it has written. -/
theorem returned_in_order (hstart : start registry base handler bind listen = .ok s₀)
    (h : Exec.exec (Duplex.step Stream.endpoint (endpoint i) Shows) (withClient fd s₀) acts =
      .ok t)
    (hregular : Exec.Along Stream.step Stream.Regular (Stream.new fd : Connection β)
      (acts.filterMap Duplex.Act.left?))
    (hreplaces : Exec.Along Stream.step (fun s act => ¬ s.Replaces act)
      (Stream.new fd : Connection β) (acts.filterMap Duplex.Act.left?))
    (hcrowds : Exec.Along step (fun s act => ¬ s.At Connection.Crowds i act) s₀
      (acts.filterMap Duplex.Act.right?)) :
    ∃ cells, cells <+: written t.left.trace ∧
      List.Forall₂ Shows cells (received t.left.trace) := by
  obtain ⟨-, hempty⟩ := serving_start hstart
  have hdelivers := delivers_of_client (c := Stream.new fd) rfl rfl hempty h
  obtain ⟨cells, hfirst, hshows⟩ := hdelivers.echo_front (fun _ _ => shows_some)
    (echoes_in_order_of_exec hstart (Duplex.exec_right h) hcrowds)
  have hclient := Stream.prefix_of_exec (Duplex.exec_left h) hregular hreplaces
  exact ⟨cells, hfirst.trans hclient.2, hshows⟩

/-- A client that writes twice and gets the first bytes back before the rest has arrived. -/
theorem returned_two_requests : ∃ (s₀ : EchoServer (List (Nat × AssignedEvent)) Nat)
    (t : Duplex.State (Cell Nat) (Stream (Requests (WriteRequest Nat)) Nat)
      (EchoServer (List (Nat × AssignedEvent)) Nat)),
    start (.new (fun _ => -1) []) 0 0 ⟨3, 0, 0, 1, 0, 0, 8080⟩ 0 = .ok s₀ ∧
    Exec.exec (Duplex.step Stream.endpoint (endpoint 0) Shows) (withClient 9 s₀)
      [.left (.startRead (some 5)), .left (.write [7, 8] none), .right (.accept 4 0),
        .left (.ready .write), .left (.xwrites [.count 2]), .left (.write [9] none),
        .right (.connection 0 (.ready .read)), .right (.connection 0 (.xread (.data [7, 8]))),
        .right (.connection 0 (.ready .write)), .right (.connection 0 (.xwrites [.count 1])),
        .left (.ready .readWrite), .left (.xwrites [.count 1]), .left (.xread (.data [7]))] =
      .ok t ∧
    ∃ cells, cells <+: written t.left.trace ∧
      List.Forall₂ Shows cells (received t.left.trace) := by
  refine ⟨?_, ?_, ?hstart, ?hrun, returned_in_order (i := 0) ?hstart ?hrun ?_ ?_ ?_⟩
  case hstart | hrun => rfl
  · decide
  · decide
  · decide

end EchoServer

end WhatTheEvent
