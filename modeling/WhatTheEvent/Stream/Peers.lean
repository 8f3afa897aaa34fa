import WhatTheEvent.Library.Duplex
import WhatTheEvent.Stream.Outgoing

/-!
# Two streams on one connection

Each stream has one end of a connection, which delivers what the socket of the other one has
accepted, in order and in chunks of any size. The loops that the streams run in may be scheduled in
any way.
-/

namespace WhatTheEvent

variable {β : Type}

/-- The byte that a cell is delivered as. A cell that was never written may be any. -/
def Shows (c : Cell β) (b : β) : Prop := c = none ∨ c = some b

instance [DecidableEq β] (c : Cell β) (b : β) : Decidable (Shows c b) :=
  inferInstanceAs (Decidable (_ ∨ _))

lemma shows_some {b b' : β} (h : Shows (some b) b') : b = b' := by
  rcases h with hnone | hsome
  · cases hnone
  · exact Option.some.inj hsome

namespace Stream

/-- What has happened stays in the trace. -/
lemma trace_grows {s s' : Stream (Requests (WriteRequest β)) β} {acts : List (Act β)}
    (h : Exec.exec step s acts = .ok s') : s.trace <+: s'.trace := by
  refine Exec.exec_invariant (P := fun _ _ => True) (fun t => s.trace <+: t.trace) ?_
    (List.prefix_refl _) (.of_forall fun _ _ => trivial) h
  rintro t act t' ht - hok
  obtain ⟨events, htrace⟩ := step_trace hok
  exact htrace ▸ ht.trans (List.prefix_append _ _)

/-- A stream as the end of a connection. -/
def endpoint : Duplex.Endpoint (Cell β) β Fault (Act β) (Stream (Requests (WriteRequest β)) β) where
  step := step
  sent s := accepted s.trace
  got s := received s.trace
  sent_grows s act s' h := by
    obtain ⟨events, htrace⟩ := step_trace h
    rw [htrace, accepted_append]
    exact List.prefix_append _ _
  got_grows s act s' h := by
    obtain ⟨events, htrace⟩ := step_trace h
    rw [htrace, received_append]
    exact List.prefix_append _ _

/-- Two streams, with the descriptors of both ends of a connection. -/
def peers (fd fd' : Int) : Duplex.State (Cell β) (Stream (Requests (WriteRequest β)) β)
    (Stream (Requests (WriteRequest β)) β) :=
  ⟨new fd, new fd', [], []⟩

/-- What the receiver has got are the first of the bytes written. Those under way come next, and as
long as the sender is live its requests hold the rest. -/
def Conveyed (sender : Stream (Requests (WriteRequest β)) β) (underWay : List (Cell β))
    (receiver : Stream (Requests (WriteRequest β)) β) : Prop :=
  ∃ front, List.Forall₂ Shows front (received receiver.trace) ∧
    front ++ underWay <+: written sender.trace ∧
    (sender.alive = true → ∃ items,
      Requests.Linked sender.requests.heap sender.requests.head items ∧
      front ++ underWay ++ outgoing items = written sender.trace)

section Sender

variable {sender receiver : Stream (Requests (WriteRequest β)) β} {underWay : List (Cell β)}
  {fd : Int} {acts : List (Act β)}

lemma conveyed_of_carries
    (hcarries : Duplex.Carries Shows (accepted sender.trace) underWay (received receiver.trace))
    (h : Exec.exec step (new fd) acts = .ok sender)
    (hregular : Exec.Along step Regular (new fd : Stream (Requests (WriteRequest β)) β) acts)
    (hreplaces : Exec.Along step (fun s act => ¬ s.Replaces act)
      (new fd : Stream (Requests (WriteRequest β)) β) acts) :
    Conveyed sender underWay receiver := by
  obtain ⟨hconserves, hfirst⟩ := prefix_of_exec h hregular hreplaces
  obtain ⟨front, hsent, hfront⟩ := hcarries
  rw [hsent] at hfirst
  refine ⟨front, hfront, hfirst, fun halive => ?_⟩
  obtain ⟨items, hlinked, heq⟩ := hconserves halive
  exact ⟨items, hlinked, by rwa [hsent] at heq⟩

end Sender

section Peers

variable [DecidableEq β] {fd fd' : Int} {acts : List (Duplex.Act (Act β) (Act β))}
  {s : Duplex.State (Cell β) (Stream (Requests (WriteRequest β)) β)
    (Stream (Requests (WriteRequest β)) β)}

lemma delivers_of_peers
    (h : Exec.exec (Duplex.step endpoint endpoint Shows) (peers fd fd') acts = .ok s) :
    Duplex.Delivers endpoint endpoint Shows s :=
  Duplex.delivers_of_exec (s := peers fd fd') ⟨⟨[], rfl, .nil⟩, ⟨[], rfl, .nil⟩⟩ h

/-- As long as a stream replaces no request that holds bytes and its socket accepts no byte behind a
short count, the other one receives what it has written, from the beginning on, and nothing is lost
on the way. -/
theorem conveyed_of_exec
    (h : Exec.exec (Duplex.step endpoint endpoint Shows) (peers fd fd') acts = .ok s)
    (hregular : Exec.Along step Regular (new fd : Stream (Requests (WriteRequest β)) β)
      (acts.filterMap Duplex.Act.left?))
    (hreplaces : Exec.Along step (fun s act => ¬ s.Replaces act)
      (new fd : Stream (Requests (WriteRequest β)) β) (acts.filterMap Duplex.Act.left?)) :
    Conveyed s.left s.toRight s.right :=
  conveyed_of_carries (delivers_of_peers h).toRight (Duplex.exec_left h) hregular hreplaces

/-- Both streams write, and one of them answers before it has read everything. -/
theorem conveyed_both_ways : ∃ s,
    Exec.exec (Duplex.step endpoint endpoint Shows) (peers 3 4) [.left (.write ['a', 'b'] none),
      .right (.startRead (some 7)), .left (.ready .write), .left (.xwrites [.count 2]),
      .right (.ready .read), .right (.xread (.data ['a'])), .right (.write ['c'] none),
      .left (.write ['d'] none)] = .ok s ∧
    Conveyed s.left s.toRight s.right := by
  refine ⟨?_, ?hrun, conveyed_of_exec ?hrun ?_ ?_⟩
  case hrun => rfl
  · decide
  · decide

end Peers

end Stream

end WhatTheEvent
