import WhatTheEvent.Blocking.Journal
import WhatTheEvent.Stream.Peers

/-!
# Two sessions on one connection

Each blocking stream has one end of a connection. What the calls of `write` are given on one side is
what the calls of `read` store on the other side, in the same order, however the two threads are
scheduled and whatever the sockets accept at a time.
-/

namespace WhatTheEvent

variable {β : Type}

namespace Session

variable {m m' : Session β} {act : SessionAct β}

lemma trace_grows (h : m.step act = .ok m') : m.stream.trace <+: m'.stream.trace :=
  Stream.trace_grows (exec_streamActs h)

end Session

namespace Journal

/-- What a session has left of the bytes received. -/
def held (j : Journal β) : List (Cell β) := j.session.stream.readBuffer.contents

/-- A session as the end of a connection. -/
def endpoint : Duplex.Endpoint (Cell β) β Fault (SessionAct β) (Journal β) where
  step := step
  sent j := accepted j.session.stream.trace
  got j := received j.session.stream.trace
  sent_grows j act j' h := by
    obtain ⟨events, htrace⟩ := Session.trace_grows (step_eq_ok.mp h).1
    rw [← htrace, accepted_append]
    exact List.prefix_append _ _
  got_grows j act j' h := by
    obtain ⟨events, htrace⟩ := Session.trace_grows (step_eq_ok.mp h).1
    rw [← htrace, received_append]
    exact List.prefix_append _ _

/-- Two sessions, with the descriptors of both ends of a connection. -/
def peers (fd fd' : Int) : Duplex.State (Cell β) (Journal β) (Journal β) :=
  ⟨new fd, new fd', [], []⟩

/-- Every byte given to the sender is stored by the receiver, held in its read buffer, under way or
still in a request of the sender, in this order. -/
def Transferred (sender : Journal β) (underWay : List (Cell β)) (receiver : Journal β) : Prop :=
  ∃ items, Requests.Linked sender.session.stream.requests.heap sender.session.stream.requests.head
      items ∧
    sender.given.map some = receiver.delivered ++ receiver.held ++ underWay ++ Stream.outgoing items

section Sender

variable {sender receiver : Journal β} {underWay : List (Cell β)} {fd fd' : Int}
  {acts acts' : List (SessionAct β)}

/-- What shows the first of some bytes is these bytes. -/
lemma eq_of_shows {bytes got : List β} {front rest : List (Cell β)}
    (hfront : bytes.map some = front ++ rest) (hshows : List.Forall₂ Shows front got) :
    front = got.map some := by
  obtain ⟨bytes₁, bytes₂, rfl, rfl, -⟩ := List.map_eq_append_iff.mp hfront
  rw [Duplex.eq_of_forall₂_map (fun _ _ => shows_some) hshows]

lemma transferred_of_carries
    (hcarries : Duplex.Carries Shows (accepted sender.session.stream.trace) underWay
      (received receiver.session.stream.trace))
    (h : Exec.exec step (new fd) acts = .ok sender)
    (h' : Exec.exec step (new fd') acts' = .ok receiver) :
    Transferred sender underWay receiver := by
  have hsender := faithful_of_exec h
  obtain ⟨items, hlinked, hlaw⟩ :=
    (Session.conserves_of_exec (exec_session h)).1 hsender.alive
  obtain ⟨front, hsent, hshows⟩ := hcarries
  rw [hsent, hsender.written] at hlaw
  have hfront := eq_of_shows (hlaw.symm.trans (List.append_assoc _ _ _)) hshows
  refine ⟨items, hlinked, ?_⟩
  rw [← hlaw, hfront, (faithful_of_exec h').stores.law]
  rfl

end Sender

section Peers

variable [DecidableEq β] {fd fd' : Int} {acts : List (Duplex.Act (SessionAct β) (SessionAct β))}
  {s : Duplex.State (Cell β) (Journal β) (Journal β)}

lemma delivers_of_peers
    (h : Exec.exec (Duplex.step endpoint endpoint Shows) (peers fd fd') acts = .ok s) :
    Duplex.Delivers endpoint endpoint Shows s :=
  Duplex.delivers_of_exec (s := peers fd fd') ⟨⟨[], rfl, .nil⟩, ⟨[], rfl, .nil⟩⟩ h

/-- Whatever both sides call and however their steps interleave, no byte that one of them was given
is lost, repeated or overtaken on its way into the memory of the calls of `read` of the other. -/
theorem transferred_of_exec
    (h : Exec.exec (Duplex.step endpoint endpoint Shows) (peers fd fd') acts = .ok s) :
    Transferred s.left s.toRight s.right ∧ Transferred s.right s.toLeft s.left := by
  have hdelivers := delivers_of_peers h
  have hleft : Exec.exec step (new fd) (acts.filterMap Duplex.Act.left?) = .ok s.left :=
    Duplex.exec_left h
  have hright : Exec.exec step (new fd') (acts.filterMap Duplex.Act.right?) = .ok s.right :=
    Duplex.exec_right h
  exact ⟨transferred_of_carries hdelivers.toRight hleft hright,
    transferred_of_carries hdelivers.toLeft hright hleft⟩

/-- A `read` of one byte returns while the `write` of three bytes is still blocked. -/
theorem transferred_three_bytes : ∃ s,
    Exec.exec (Duplex.step endpoint endpoint Shows) (peers 3 4) [.left (.write 7 ['a', 'b', 'c']),
      .right (.read 5 1), .left (.ready .write), .left (.xwrites [.count 2]),
      .right (.ready .read), .right (.xread (.data ['a', 'b'])), .right .callback, .right .ret] =
        .ok s ∧
    Transferred s.left s.toRight s.right ∧ Transferred s.right s.toLeft s.left := by
  refine ⟨?_, ?hrun, transferred_of_exec ?hrun⟩
  case hrun => rfl

end Peers

end Journal

end WhatTheEvent
