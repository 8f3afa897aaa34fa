import WhatTheEvent.Blocking.Journal
import WhatTheEvent.Stream.Closing

/-!
# The destructor of a blocking stream

A blocking stream that owns its descriptor closes its stream in the destructor, and the stream then
reports the end of it to the read callback that it still holds. That callback went with the call of
`read` that installed it.
-/

namespace WhatTheEvent

variable {β : Type}

namespace Session

variable {m m' : Session β} {act : SessionAct β} {fd : Int} {acts : List (SessionAct β)}

/-- `~BlockingStreamImpl`. No call is in progress, so that a callback that `close` calls is gone. -/
def destroy (m : Session β) (autoClose : Bool) :
    Except Fault (Stream (Requests (WriteRequest β)) β) := do
  let stream ← if autoClose then m.stream.step .close else .ok m.stream
  if stream.calls = [] then stream.step .destroy else .error .useAfterFree

/-- What a session does closes no descriptor, and does not change that of the stream. -/
lemma open_step (hsane : m.Sane) (hok : m.step act = .ok m') :
    m'.stream.fd = m.stream.fd ∧ closed m'.stream.trace = closed m.stream.trace := by
  have hnone : ∀ {events : List (Event β)}, (∀ e ∈ events, e.closed = none) →
      closed (m.stream.trace ++ events) = closed m.stream.trace := fun h => by
    rw [closed_append, closed, closed, List.filterMap_eq_nil_iff.mpr h, List.append_nil]
  cases step_effect hsane.calls hok with
  | read =>
    rw [startRead_eq]
    exact ⟨rfl, rfl⟩
  | write => exact ⟨rfl, hnone (List.forall_mem_singleton.mpr rfl)⟩
  | ready =>
    rw [Stream.ready_eq]
    exact ⟨rfl, rfl⟩
  | wake | ret => exact ⟨rfl, rfl⟩
  | xwrites _ hx =>
    obtain ⟨events, htrace, hevents⟩ := Stream.xwrites_trace hx
    refine ⟨by rw [Stream.xwrites_frame hx], ?_⟩
    rw [htrace]
    refine hnone fun e he => ?_
    have hside := hevents e he
    cases e <;> first | rfl | cases hside
  | xread _ hx =>
    obtain ⟨events, htrace, hevents⟩ := Stream.xread_trace hx
    refine ⟨by rw [Stream.xread_eq hx], ?_⟩
    rw [htrace]
    refine hnone fun e he => ?_
    have hside := hevents e he
    cases e <;> first | rfl | cases hside
  | callback readBuffer _ _ _ _ hresume =>
    rw [Stream.resumeDispatch_eq hresume]
    exact ⟨rfl, rfl⟩

/-- The stream is there, and its descriptor is the one it was given and open. -/
structure Opened (m : Session β) (fd : Int) : Prop where
  alive : m.stream.alive = true
  fd : m.stream.fd = fd
  closed : closed m.stream.trace = []

lemma opened_of_exec (h : Exec.exec step (new fd : Session β) acts = .ok m) : m.Opened fd := by
  induction acts using List.reverseRecOn generalizing m with
  | nil =>
    obtain rfl := Except.ok.inj h
    exact ⟨rfl, rfl, rfl⟩
  | append_singleton acts act ih =>
    obtain ⟨m₁, hacts, hok⟩ := Exec.exec_concat_eq_ok.mp h
    obtain ⟨hsane, -⟩ := phase_of_exec hacts
    obtain ⟨hfd, hclosed⟩ := open_step hsane hok
    have hopened := ih hacts
    exact ⟨(alive_step hsane hok).trans hopened.alive, hfd.trans hopened.fd,
      hclosed.trans hopened.closed⟩

/-! ### The destructor -/

/-- A live stream between two calls. -/
structure Rests (s : Stream (Requests (WriteRequest β)) β) : Prop where
  alive : s.alive = true
  calls : s.calls = []
  dispatch : s.dispatch = none
  connect : s.connectCallback = none
  vacant : s.requests.Vacant

variable {s s' : Stream (Requests (WriteRequest β)) β}

lemma Rests.callable (h : Rests s) : s.callable = true := by
  rw [Stream.callable, h.alive, h.calls, h.dispatch]
  rfl

/-- The destructor of a stream without requests finds nothing to consume. -/
lemma Rests.destroy (h : Rests s) : ∃ s', s.step .destroy = .ok s' ∧ s'.trace = s.trace := by
  have hconsume : s.requests.consumeFront = .ok (s.requests, none) := by
    rw [Requests.consumeFront, h.vacant.head]
  refine ⟨_, (if_pos h.callable).trans (bind_eq_ok.mpr ⟨(s.requests, none), ?_, rfl⟩), rfl⟩
  exact Loop.doWhile_of_not_guard (Nat.succ_pos _) hconsume rfl

lemma Rests.close (h : Rests s) : s.step .close = .ok s.close := if_pos h.callable

/-- `close` calls no callback if none is installed. -/
lemma Rests.of_close (h : Rests s) (hcb : s.readCallback = none) :
    Rests s.close ∧ s.close.trace = s.trace ++ s.closeEvents := by
  rw [Stream.close_of_none hcb, Stream.closeConnect_of_none h.connect, Stream.closeFinish_eq]
  exact ⟨⟨h.alive, h.calls, h.dispatch, h.connect, h.vacant⟩, rfl⟩

/-- The descriptor is closed once if the destructor is to. -/
lemma exists_of_destroy {autoClose : Bool} (h : Rests m.stream)
    (hcb : autoClose = false ∨ m.stream.readCallback = none) :
    ∃ s, m.destroy autoClose = .ok s ∧
      s.trace = m.stream.trace ++ if autoClose then m.stream.closeEvents else [] := by
  cases autoClose with
  | false =>
    obtain ⟨s, hdestroy, htrace⟩ := h.destroy
    refine ⟨s, bind_eq_ok.mpr ⟨m.stream, rfl, (if_pos h.calls).trans hdestroy⟩, ?_⟩
    rw [htrace, if_neg Bool.false_ne_true, List.append_nil]
  | true =>
    obtain ⟨hrests, hclose⟩ := h.of_close (hcb.resolve_left Bool.noConfusion)
    obtain ⟨s, hdestroy, htrace⟩ := hrests.destroy
    refine ⟨s, bind_eq_ok.mpr ⟨_, h.close, (if_pos hrests.calls).trans hdestroy⟩, ?_⟩
    rw [htrace, hclose, if_pos rfl]

/-- A read callback that is still installed is called. -/
lemma destroy_of_some {callback : Nat} (h : Rests m.stream)
    (hcb : m.stream.readCallback = some callback) : m.destroy true = .error .useAfterFree := by
  have hcalls : m.stream.close.calls = .closeRead :: m.stream.calls := by
    rw [Stream.close_of_some hcb]
  unfold Session.destroy
  rw [if_pos rfl, h.close]
  exact if_neg (hcalls ▸ List.cons_ne_nil _ _)

/-- Whatever was called before, the destructor of a blocking stream ends, having closed the
descriptor exactly once if it is to and never otherwise, in exactly the sessions in which it is not
to or `read` was never called. In the others it calls a callback that is gone. -/
theorem destroy_iff (fd : Int) (acts : List (SessionAct β)) (autoClose : Bool)
    (h : Exec.exec step (new fd : Session β) acts = .ok m) (hcall : m.call = none) :
    (∃ s, m.destroy autoClose = .ok s ∧
      closed s.trace = if autoClose = true ∧ fd ≠ -1 then [fd] else []) ↔
    autoClose = false ∨ ∀ act ∈ acts, act.isRead = false := by
  obtain ⟨hsane, start, buf, hphase⟩ := phase_of_exec h
  obtain ⟨hvacant, -, hd⟩ := hphase.isWrite_of_call_none hcall
  have hopened := opened_of_exec h
  have hrests : Rests m.stream := ⟨hopened.alive, hsane.calls, hd, hsane.connect, hvacant⟩
  have hread : m.stream.readCallback = none ↔ ∀ act ∈ acts, act.isRead = false := by
    rw [← Option.not_isSome_iff_eq_none, readCallback_of_exec h]
    simp
  rw [← hread]
  constructor
  · rintro ⟨s, hdestroy, -⟩
    cases autoClose with
    | false => exact .inl rfl
    | true =>
      refine .inr (Option.eq_none_iff_forall_ne_some.mpr fun callback hcb => ?_)
      rw [destroy_of_some hrests hcb] at hdestroy
      cases hdestroy
  · intro hcb
    obtain ⟨s, hdestroy, htrace⟩ := exists_of_destroy hrests hcb
    refine ⟨s, hdestroy, ?_⟩
    rw [htrace, closed_append, hopened.closed, List.nil_append, Stream.closeEvents, hopened.fd]
    cases autoClose with
    | false => rfl
    | true => by_cases hfd : fd = -1 <;> simp [hfd, closed, Event.closed]

/-- After a call of `write`, with the descriptor to be closed. -/
theorem destroy_after_write : ∃ m : Session Char,
    Exec.exec step (new 3) [.write 7 ['a'], .ready .write, .xwrites [.count 1], .callback,
      .ret] = .ok m ∧ m.call = none ∧
    ((∃ s, m.destroy true = .ok s ∧
      closed s.trace = if true = true ∧ (3 : Int) ≠ -1 then [3] else []) ↔
    true = false ∨ ∀ act ∈ [SessionAct.write 7 ['a'], .ready .write, .xwrites [.count 1],
      .callback, .ret], act.isRead = false) :=
  ⟨_, rfl, rfl, destroy_iff 3 _ true rfl rfl⟩

end Session

end WhatTheEvent
