import WhatTheEvent.Blocking.Peers
import WhatTheEvent.EchoServer.RoundTrip

/-!
# A blocking client of the echo server

A client that uses a blocking stream at the other end of one of the connections of the server: what
its calls of `read` store comes from its own calls of `write`.
-/

namespace WhatTheEvent

variable {L β : Type}

namespace EchoServer

variable [Libevent L] [DecidableEq β] {registry : Registry L} {base handler i : Nat}
  {bind : BindResults} {listen fd : Int} {s₀ : EchoServer L β}
  {acts : List (Duplex.Act (SessionAct β) (ServerAct β))}
  {t : Duplex.State (Cell β) (Journal β) (EchoServer L β)}

/-- A blocking client and the server before anything is written. -/
def withSession (fd : Int) (s : EchoServer L β) :
    Duplex.State (Cell β) (Journal β) (EchoServer L β) :=
  ⟨.new fd, s, [], []⟩

omit [Libevent L] [DecidableEq β] in
/-- What comes back from what a session has sent is stored or held. -/
lemma eq_stored_of_shows {j : Journal β} {acts : List (SessionAct β)} {cells : List (Cell β)}
    (h : Exec.exec Journal.step (Journal.new fd) acts = .ok j)
    (hcells : cells.Sublist (accepted j.session.stream.trace))
    (hshows : List.Forall₂ Shows cells (received j.session.stream.trace)) :
    cells = j.delivered ++ j.held ∧ accepted j.session.stream.trace <+: j.given.map some := by
  have hfaithful := Journal.faithful_of_exec h
  have hfirst := (Session.conserves_of_exec (Journal.exec_session h)).2
  rw [hfaithful.written] at hfirst
  obtain ⟨bytes, -, rfl⟩ := List.sublist_map_iff.mp (hcells.trans hfirst.sublist)
  refine ⟨?_, hfirst⟩
  rw [Duplex.eq_of_forall₂_map (fun _ _ => shows_some) hshows]
  exact hfaithful.stores.law

/-- Whatever a blocking client calls, whatever the other clients do and in whatever order everything
is served, its calls of `read` store a subsequence of what its calls of `write` were given. -/
theorem stored_sublist (hstart : start registry base handler bind listen = .ok s₀)
    (h : Exec.exec (Duplex.step Journal.endpoint (endpoint i) Shows) (withSession fd s₀) acts =
      .ok t) :
    (t.left.delivered ++ t.left.held).Sublist (t.left.given.map some) := by
  obtain ⟨-, hempty⟩ := serving_start hstart
  have hdelivers := delivers_of_client (c := Journal.new fd) rfl rfl hempty h
  obtain ⟨cells, hsub, hshows⟩ := hdelivers.echo_sublist (fun _ _ => shows_some)
    (echoes_of_exec hstart (Duplex.exec_right h))
  obtain ⟨rfl, hfirst⟩ := eq_stored_of_shows (Duplex.exec_left h) hsub hshows
  exact hsub.trans hfirst.sublist

/-- A client that writes twice and then reads. -/
theorem stored_two_writes : ∃ (s₀ : EchoServer (List (Nat × AssignedEvent)) Nat)
    (t : Duplex.State (Cell Nat) (Journal Nat) (EchoServer (List (Nat × AssignedEvent)) Nat)),
    start (.new (fun _ => -1) []) 0 0 ⟨3, 0, 0, 1, 0, 0, 8080⟩ 0 = .ok s₀ ∧
    Exec.exec (Duplex.step Journal.endpoint (endpoint 0) Shows) (withSession 9 s₀)
      [.left (.write 7 [7]), .left (.ready .write), .left (.xwrites [.count 1]), .left .callback,
        .left .ret, .right (.accept 4 0), .right (.connection 0 (.ready .read)),
        .right (.connection 0 (.xread (.data [7]))), .left (.write 7 [8]), .left (.ready .write),
        .left (.xwrites [.count 1]), .left .callback, .left .ret,
        .right (.connection 0 (.ready .readWrite)), .right (.connection 0 (.xwrites [.count 1])),
        .left (.read 5 1), .left (.ready .read), .left (.xread (.data [7])), .left .callback,
        .left .ret] = .ok t ∧
    (t.left.delivered ++ t.left.held).Sublist (t.left.given.map some) := by
  refine ⟨?_, ?_, ?hstart, ?hrun, stored_sublist (i := 0) ?hstart ?hrun⟩
  case hstart | hrun => rfl

/-- As long as the server drops no chunk of the connection, its calls of `read` store a beginning of
what its calls of `write` were given. -/
theorem stored_in_order (hstart : start registry base handler bind listen = .ok s₀)
    (h : Exec.exec (Duplex.step Journal.endpoint (endpoint i) Shows) (withSession fd s₀) acts =
      .ok t)
    (hcrowds : Exec.Along step (fun s act => ¬ s.At Connection.Crowds i act) s₀
      (acts.filterMap Duplex.Act.right?)) :
    t.left.delivered ++ t.left.held <+: t.left.given.map some := by
  obtain ⟨-, hempty⟩ := serving_start hstart
  have hdelivers := delivers_of_client (c := Journal.new fd) rfl rfl hempty h
  obtain ⟨cells, hsub, hshows⟩ := hdelivers.echo_front (fun _ _ => shows_some)
    (echoes_in_order_of_exec hstart (Duplex.exec_right h) hcrowds)
  obtain ⟨rfl, hfirst⟩ := eq_stored_of_shows (Duplex.exec_left h) hsub.sublist hshows
  exact hsub.trans hfirst

/-- A client that reads one of the two bytes that have come back. -/
theorem stored_one_write : ∃ (s₀ : EchoServer (List (Nat × AssignedEvent)) Nat)
    (t : Duplex.State (Cell Nat) (Journal Nat) (EchoServer (List (Nat × AssignedEvent)) Nat)),
    start (.new (fun _ => -1) []) 0 0 ⟨3, 0, 0, 1, 0, 0, 8080⟩ 0 = .ok s₀ ∧
    Exec.exec (Duplex.step Journal.endpoint (endpoint 0) Shows) (withSession 9 s₀)
      [.left (.write 7 [7, 8]), .left (.ready .write), .left (.xwrites [.count 2]),
        .left .callback, .left .ret, .right (.accept 4 0), .right (.connection 0 (.ready .read)),
        .right (.connection 0 (.xread (.data [7, 8]))), .right (.connection 0 (.ready .write)),
        .right (.connection 0 (.xwrites [.count 2])), .left (.read 5 1), .left (.ready .read),
        .left (.xread (.data [7, 8])), .left .callback, .left .ret] = .ok t ∧
    t.left.delivered ++ t.left.held <+: t.left.given.map some := by
  refine ⟨?_, ?_, ?hstart, ?hrun, stored_in_order (i := 0) ?hstart ?hrun ?_⟩
  case hstart | hrun => rfl
  decide

end EchoServer

end WhatTheEvent
