import WhatTheEvent.Stream.WriteSide

/-!
# What a step runs

`step_effect` says which function of the model a step runs, and from which states. The lemmas below
it say what these functions do to the descriptor, the watched events, the callbacks and the calls in
progress.
-/

namespace WhatTheEvent

variable {β Q : Type}

/-- The act is a call of `write`. -/
def Act.isWrite : Act β → Bool
  | .write _ _ => true
  | .writeBuffer _ _ => true
  | .writeReadBuffer _ => true
  | _ => false

/-- The act is a use of the buffer passed to `available()`. -/
def Act.usesReadBuffer : Act β → Bool
  | .readBuffer _ => true
  | .moveReadBuffer => true
  | _ => false

namespace Stream

variable {s s' : Stream Q β} {act : Act β} {event : What} {d : Dispatch}

lemma readyRead_dispatch_eq_none_iff :
    (s.readyRead event).dispatch = none ↔ event.isRead = false := by
  unfold readyRead
  cases event.isRead <;> simp

lemma writeLoop_eq {next : Option Nat} :
    s.writeLoop event next = { s with dispatch := (s.writeLoop event next).dispatch } := by
  cases next <;> rfl

lemma xread_eq {result : ReadResult β} (h : s.xread result = .ok s') :
    s' = { s with readBuffer := s'.readBuffer, dispatch := s'.dispatch, trace := s'.trace } := by
  cases xread_cases h <;> rfl

lemma getsockopt_cases {rc err : Int} (h : s.getsockopt event rc err = .ok s') :
    ∃ cb, s.connectCallback = some cb ∧ s' = { s with
      connectCallback := none
      dispatch := some (.connectDone event)
      trace := s.trace ++ [if rc = -1 then .connectError cb "Failed to query connection status"
        else .connectComplete cb] } := by
  unfold getsockopt at h
  cases hcb : s.connectCallback with
  | none =>
    rw [hcb] at h
    cases h
  | some cb =>
    rw [hcb] at h
    obtain rfl := Except.ok.inj h
    refine ⟨cb, rfl, ?_⟩
    split_ifs <;> rfl

lemma callable_of_inAvailable (h : s.inAvailable = true) : s.callable = true := by
  unfold inAvailable at h
  unfold callable
  split at h
  · rename_i hcalls hd
    rw [Bool.and_true] at h
    rw [h, hcalls, hd]
    rfl
  · simp at h

lemma readyRead_not_connect : ∀ event',
    (s.readyRead event).dispatch = some (.connectHelper event') ∨
    (s.readyRead event).dispatch = some (.connectDone event') → False := by
  intro event' h
  unfold readyRead at h
  cases event.isRead <;> simp at h

lemma writeLoop_not_connect {next : Option Nat} : ∀ event',
    (s.writeLoop event next).dispatch = some (.connectHelper event') ∨
    (s.writeLoop event next).dispatch = some (.connectDone event') → False := by
  cases next with
  | none => exact readyRead_not_connect
  | some req => exact fun event' h => h.elim (fun hd => nomatch hd) fun hd => nomatch hd

lemma stopRead_frame : s.stopRead.requests = s.requests ∧ s.stopRead.dispatch = s.dispatch := by
  unfold Stream.stopRead
  split_ifs <;> exact ⟨rfl, rfl⟩

lemma closeFinish_eq : s.closeFinish = { s with
    watched := .none
    trace := s.trace ++ if s.fd ≠ -1 then [.xclose s.fd] else [] } := by
  unfold closeFinish
  by_cases hfd : s.fd ≠ -1
  · simp [hfd]
  · simp [hfd]

lemma closeConnect_of_none (h : s.connectCallback = none) : s.closeConnect = s.closeFinish := by
  rw [closeConnect, h]

lemma closeConnect_of_some {cb : Nat} (h : s.connectCallback = some cb) :
    s.closeConnect = { s with
      calls := .closeConnect :: s.calls
      trace := s.trace ++ [.connectError cb "Closed before connect"] } := by
  rw [closeConnect, h]

lemma close_of_none (h : s.readCallback = none) : s.close = s.closeConnect := by
  rw [close, h]

lemma close_of_some {cb : Nat} (h : s.readCallback = some cb) : s.close = { s with
    calls := .closeRead :: s.calls
    trace := s.trace ++ [.eof cb false] } := by
  rw [close, h]

/-- What is received is on the read side. -/
lemma xread_trace {result : ReadResult β} (h : s.xread result = .ok s') :
    ∃ events, s'.trace = s.trace ++ events ∧ ∀ e ∈ events, e.onReadSide = true := by
  cases xread_cases h with
  | ended | kept => exact ⟨_, rfl, by simp [Event.onReadSide]⟩
  | failed | eof | available =>
    exact ⟨_, List.append_assoc _ _ _, by simp [Event.onReadSide]⟩

/-- How `connect` ends. -/
inductive ConnectStep (s : Stream Q β) (results : ConnectResults) (callback : Nat) :
    Stream Q β → Prop
  | failed (error : String) : ConnectStep s results callback
    (s.connectFail results.socket callback error)
  | pending (hfd : results.socket ≠ -1) : ConnectStep s results callback { s with
      fd := results.socket
      connectCallback := some callback
      watched := s.watched.ensureWrite }
  | completed (hfd : results.socket ≠ -1) (hconnect : results.connect ≠ -1) :
    ConnectStep s results callback { s with
      fd := results.socket
      calls := .connect :: s.calls
      trace := s.trace ++ [.connectComplete callback] }

theorem connect_cases {results : ConnectResults} {callback : Nat}
    (h : s.connect results callback = .ok s') :
    (s.fd = -1 ∧ s.connectCallback = none ∧ s.watched = .none) ∧
      s.ConnectStep results callback s' := by
  simp only [connect] at h
  split_ifs at h with hguard hfd hnonblocking hpton hconnect hretry
  all_goals obtain rfl := Except.ok.inj h
  · exact ⟨hguard, .failed _⟩
  · exact ⟨hguard, .failed _⟩
  · exact ⟨hguard, .failed _⟩
  · exact ⟨hguard, .pending hfd⟩
  · exact ⟨hguard, .failed _⟩
  · exact ⟨hguard, .completed hfd hconnect⟩

/-! ### Where the stream may be called -/

/-- The user is called only where the dispatch waits for it, and there is a connection to wait for
only where there is a descriptor. -/
structure Coherent (s : Stream Q β) : Prop where
  calls : s.calls ≠ [] → ∀ d, s.dispatch = some d → d.isCallback = true
  connecting : s.connectCallback ≠ none → s.fd ≠ -1
  connected : ∀ event, s.dispatch = some (.connectHelper event) ∨
    s.dispatch = some (.connectDone event) → s.fd ≠ -1

lemma alive_of_callable (hc : s.callable = true) : s.alive = true := by
  unfold callable at hc
  exact (Bool.and_eq_true_iff.mp hc).1

/-- A call of the user comes from outside or from a callback. -/
lemma Coherent.isCallback (h : s.Coherent) (hc : s.callable = true) :
    ∀ d, s.dispatch = some d → d.isCallback = true := by
  intro d hd
  cases hcalls : s.calls with
  | cons c calls => exact h.calls (by rw [hcalls]; exact List.cons_ne_nil c calls) d hd
  | nil =>
    unfold callable at hc
    rw [hcalls, hd] at hc
    exact (Bool.and_eq_true_iff.mp hc).2

/-- A change of the members that the user and the dispatches do not depend on. -/
lemma Coherent.of_same (h : s.Coherent) (hcalls : s'.calls = s.calls)
    (hdispatch : s'.dispatch = s.dispatch) (hfd : s'.fd = s.fd)
    (hcb : s'.connectCallback ≠ none → s.connectCallback ≠ none) : s'.Coherent := by
  refine ⟨?_, ?_, ?_⟩
  · rw [hcalls, hdispatch]
    exact h.calls
  · rw [hfd]
    exact fun hne => h.connecting (hcb hne)
  · rw [hfd, hdispatch]
    exact h.connected

/-- A dispatch goes on where no call is in progress. -/
lemma Coherent.of_dispatch (h : s.Coherent) (hcalls : s'.calls = []) (hfd : s'.fd = s.fd)
    (hcb : s'.connectCallback ≠ none → s.connectCallback ≠ none)
    (hd : ∀ event, s'.dispatch = some (.connectHelper event) ∨
      s'.dispatch = some (.connectDone event) → s.fd ≠ -1) : s'.Coherent := by
  refine ⟨fun hne => absurd hcalls hne, ?_, ?_⟩
  · rw [hfd]
    exact fun hne => h.connecting (hcb hne)
  · rw [hfd]
    exact hd

lemma Coherent.closeFinish (h : s.Coherent) : s.closeFinish.Coherent := by
  rw [closeFinish_eq]
  exact h.of_same rfl rfl rfl id

/-- `close` calls back where the user may be called. -/
lemma Coherent.closeConnect (h : s.Coherent)
    (hback : ∀ d, s.dispatch = some d → d.isCallback = true) : s.closeConnect.Coherent := by
  cases hcb : s.connectCallback with
  | none =>
    rw [closeConnect_of_none hcb]
    exact h.closeFinish
  | some cb =>
    rw [closeConnect_of_some hcb]
    exact ⟨fun _ => hback, h.connecting, h.connected⟩

lemma Coherent.close (h : s.Coherent)
    (hback : ∀ d, s.dispatch = some d → d.isCallback = true) : s.close.Coherent := by
  cases hcb : s.readCallback with
  | none =>
    rw [close_of_none hcb]
    exact h.closeConnect hback
  | some cb =>
    rw [close_of_some hcb]
    exact ⟨fun _ => hback, h.connecting, h.connected⟩

lemma Coherent.connect {results : ConnectResults} {callback : Nat} (h : s.Coherent)
    (hback : ∀ d, s.dispatch = some d → d.isCallback = true)
    (hok : s.connect results callback = .ok s') : s'.Coherent := by
  obtain ⟨⟨-, hnone, -⟩, hstep⟩ := connect_cases hok
  cases hstep with
  | failed error => exact ⟨fun _ => hback, h.connecting, h.connected⟩
  | pending hfd => exact ⟨h.calls, fun _ => hfd, fun _ _ => hfd⟩
  | completed hfd => exact ⟨fun _ => hback, fun _ => hfd, fun _ _ => hfd⟩

lemma Coherent.resumeCall {c : PendingCall} (h : s.Coherent)
    (hback : ∀ d, s.dispatch = some d → d.isCallback = true) (hok : s.resumeCall c = .ok s') :
    s'.Coherent := by
  cases c with
  | closeRead =>
    obtain ⟨-, rfl⟩ := access_map_eq_ok.mp hok
    exact h.closeConnect hback
  | closeConnect =>
    obtain ⟨-, rfl⟩ := access_map_eq_ok.mp hok
    exact h.closeFinish
  | connect =>
    obtain rfl := Except.ok.inj hok
    exact h

/-! ### The functions that steps run -/

variable [RequestQueue Q (WriteRequest β)]

/-- A step, by the function of the model that it runs. -/
inductive Effect (s : Stream Q β) : Act β → Stream Q β → Prop
  | queue {act : Act β} (readBuffer : BufferImpl β) {buffer : BufferImpl β} {callback : Option Nat}
    {s' : Stream Q β} (hc : s.callable = true) (hact : act.isWrite = true)
    (h : { s with readBuffer }.queueWrite buffer callback = .ok s') : Effect s act s'
  | useBuffer {act : Act β} (readBuffer : BufferImpl β) (hc : s.callable = true)
    (hact : act.usesReadBuffer = true) : Effect s act { s with readBuffer }
  | startRead (callback : Option Nat) (hc : s.callable = true) :
    Effect s (.startRead callback) (s.startRead callback)
  | stopRead (hc : s.callable = true) : Effect s .stopRead s.stopRead
  | close (hc : s.callable = true) : Effect s .close s.close
  | connect {results : ConnectResults} {callback : Nat} {s' : Stream Q β} (hc : s.callable = true)
    (h : s.connect results callback = .ok s') : Effect s (.connect results callback) s'
  | destroy {s' : Stream Q β} (hc : s.callable = true) (h : s.destroy = .ok s') :
    Effect s .destroy s'
  | ready (event : What) (ha : s.alive = true) (hd : s.dispatch = none) (hcalls : s.calls = [])
    (hamong : event.Among s.watched) : Effect s (.ready event) (s.ready event)
  | getsockopt {event : What} {rc err : Int} {s' : Stream Q β} (ha : s.alive = true)
    (hcalls : s.calls = []) (hd : s.dispatch = some (.connectHelper event))
    (h : s.getsockopt event rc err = .ok s') : Effect s (.getsockopt rc err) s'
  | xwrites {event : What} {req : Nat} {results : List WriteResult} {s' : Stream Q β}
    (ha : s.alive = true) (hcalls : s.calls = []) (hd : s.dispatch = some (.writeHelper event req))
    (h : s.xwrites event req results = .ok s') : Effect s (.xwrites results) s'
  | xread {result : ReadResult β} {s' : Stream Q β} (ha : s.alive = true) (hcalls : s.calls = [])
    (hd : s.dispatch = some .readHelper) (h : s.xread result = .ok s') : Effect s (.xread result) s'
  | returned {c : PendingCall} {calls : List PendingCall} {s' : Stream Q β}
    (hcalls : s.calls = c :: calls) (h : { s with calls }.resumeCall c = .ok s') : Effect s .ret s'
  | resumed {d : Dispatch} {s' : Stream Q β} (hcalls : s.calls = []) (hd : s.dispatch = some d)
    (h : s.resumeDispatch d = .ok s') : Effect s .ret s'

lemma call_effect (hc : s.callable = true) (h : s.call act = .ok s') : s.Effect act s' := by
  cases act with
  | write buf callback =>
    obtain ⟨buffer, -, hqueue⟩ := bind_eq_ok.mp h
    exact .queue s.readBuffer hc rfl hqueue
  | writeBuffer source callback => exact .queue s.readBuffer hc rfl h
  | startRead callback =>
    obtain rfl := Except.ok.inj h
    exact .startRead callback hc
  | stopRead =>
    obtain rfl := Except.ok.inj h
    exact .stopRead hc
  | close =>
    obtain rfl := Except.ok.inj h
    exact .close hc
  | connect results callback => exact .connect hc h
  | destroy => exact .destroy hc h
  | _ => cases h

lemma useReadBuffer_effect (hc : s.callable = true) (h : s.useReadBuffer act = .ok s') :
    s.Effect act s' := by
  cases act with
  | writeReadBuffer callback => exact .queue _ hc rfl h
  | readBuffer c =>
    simp only [useReadBuffer] at h
    split_ifs at h
    obtain ⟨⟨readBuffer, results⟩, -, rfl⟩ := map_eq_ok.mp h
    exact .useBuffer readBuffer hc rfl
  | moveReadBuffer =>
    obtain rfl := Except.ok.inj h
    exact .useBuffer _ hc rfl
  | _ => cases h

lemma advance_effect (ha : s.alive = true) (hcalls : s.calls = []) (h : s.advance act = .ok s') :
    s.Effect act s' := by
  unfold advance at h
  split at h
  · rename_i hd
    exact .getsockopt ha hcalls hd h
  · rename_i hd
    exact .xwrites ha hcalls hd h
  · rename_i hd
    exact .xread ha hcalls hd h
  · cases h

lemma ret_effect (h : s.ret = .ok s') : s.Effect .ret s' := by
  unfold ret at h
  cases hcalls : s.calls with
  | cons c calls =>
    rw [hcalls] at h
    exact .returned hcalls h
  | nil =>
    cases hd : s.dispatch with
    | none =>
      rw [hcalls, hd] at h
      cases h
    | some d =>
      rw [hcalls, hd] at h
      exact .resumed hcalls hd h

/-- Every step has one of the effects. -/
theorem step_effect (h : s.step act = .ok s') : s.Effect act s' := by
  have hcall : ∀ {a : Act β}, (if s.callable then s.call a else .error .disabled) = .ok s' →
      s.Effect a s' := by
    intro a ha
    split_ifs at ha with hc
    exact call_effect hc ha
  have huse : ∀ {a : Act β}, (if s.inAvailable then s.useReadBuffer a else .error .disabled) =
      .ok s' → s.Effect a s' := by
    intro a ha
    split_ifs at ha with hin
    exact useReadBuffer_effect (callable_of_inAvailable hin) ha
  have hadvance : ∀ {a : Act β}, (if s.alive ∧ s.calls = [] then s.advance a
      else .error .disabled) = .ok s' → s.Effect a s' := by
    intro a ha
    split_ifs at ha with hin
    exact advance_effect hin.1 hin.2 ha
  cases act with
  | ready event =>
    simp only [step] at h
    split_ifs at h with hguard
    obtain rfl := Except.ok.inj h
    exact .ready event hguard.1 hguard.2.1 hguard.2.2.1 hguard.2.2.2.2
  | getsockopt rc err => exact hadvance h
  | xwrites results => exact hadvance h
  | xread result => exact hadvance h
  | ret => exact ret_effect h
  | writeReadBuffer callback => exact huse h
  | readBuffer c => exact huse h
  | moveReadBuffer => exact huse h
  | _ => exact hcall h

/-! ### What the functions leave -/

lemma queueWrite_cases {buffer : BufferImpl β} {callback : Option Nat}
    (h : s.queueWrite buffer callback = .ok s') :
    ∃ requests, RequestQueue.append s.requests ⟨buffer, callback⟩ = .ok requests ∧
      s' = { s with
        requests
        watched := s.watched.ensureWrite
        trace := s.trace ++
          [.write (RequestQueue.fresh s.requests) buffer.contents callback] } := by
  obtain ⟨requests, happend, hok⟩ := bind_eq_ok.mp h
  exact ⟨requests, happend, (Except.ok.inj hok).symm⟩

lemma ready_eq : s.ready event = { s with dispatch := (s.ready event).dispatch } := by
  unfold ready
  split_ifs
  · rfl
  · exact writeLoop_eq
  · rfl

/-- A dispatch that is resumed changes nothing else. -/
lemma resumeDispatch_eq (h : s.resumeDispatch d = .ok s') :
    s' = { s with dispatch := s'.dispatch } := by
  have hread : ∀ {event : What}, s.resumeRead event = .ok s' →
      s' = { s with dispatch := s'.dispatch } := by
    intro event h
    unfold resumeRead at h
    split_ifs at h
    · obtain ⟨-, rfl⟩ := access_map_eq_ok.mp h
      rfl
    · obtain rfl := Except.ok.inj h
      rfl
  cases d with
  | connectDone event =>
    obtain ⟨-, rfl⟩ := access_map_eq_ok.mp h
    exact writeLoop_eq
  | writeDone event next =>
    cases next with
    | none => exact hread h
    | some next =>
      obtain ⟨-, rfl⟩ := access_map_eq_ok.mp h
      rfl
  | writeFailed event => exact hread h
  | readAvailable nread =>
    simp only [resumeDispatch] at h
    split_ifs at h
    · obtain rfl := Except.ok.inj h
      rfl
    · obtain ⟨-, rfl⟩ := access_map_eq_ok.mp h
      rfl
  | readEnded =>
    obtain rfl := Except.ok.inj h
    rfl
  | connectHelper event => cases h
  | writeHelper event req => cases h
  | readHelper => cases h

/-- What a round of the write loop changes. -/
lemma xwrites_frame {req : Nat} {results : List WriteResult}
    (h : s.xwrites event req results = .ok s') :
    s' = { s with
      requests := s'.requests
      watched := s'.watched
      dispatch := s'.dispatch
      trace := s'.trace } := by
  obtain ⟨request, -, h⟩ := bind_eq_ok.mp h
  obtain ⟨pass, -, h⟩ := bind_eq_ok.mp h
  obtain ⟨buffer, -, h⟩ := bind_eq_ok.mp h
  obtain ⟨requests, -, h⟩ := bind_eq_ok.mp h
  simp only at h
  split_ifs at h
  · split at h
    · obtain rfl := Except.ok.inj h
      rfl
    · obtain rfl := Except.ok.inj h
      rfl
  · obtain ⟨⟨requests', next⟩, -, h⟩ := bind_eq_ok.mp h
    cases hcb : request.callback with
    | none =>
      rw [hcb] at h
      obtain rfl := Except.ok.inj h
      rw [writeLoop_eq]
    | some cb =>
      rw [hcb] at h
      obtain rfl := Except.ok.inj h
      rfl

/-- A round of the write loop leaves the watched events and the head, or consumes the head and does
not watch for write events if it was the last; it does not connect. -/
lemma xwrites_eq [LawfulRequestQueue Q] {req : Nat} {results : List WriteResult}
    (h : s.xwrites event req results = .ok s') :
    s' = { s with
      requests := s'.requests
      watched := s'.watched
      dispatch := s'.dispatch
      trace := s'.trace } ∧
    ((RequestQueue.head s'.requests = RequestQueue.head s.requests ∧ s'.watched = s.watched) ∨
      s'.watched = if (RequestQueue.head s'.requests).isNone then s.watched.removeWrite
        else s.watched) ∧
    ∀ event', s'.dispatch = some (.connectHelper event') ∨
      s'.dispatch = some (.connectDone event') → False := by
  refine ⟨xwrites_frame h, ?_⟩
  obtain ⟨request, hget, h⟩ := bind_eq_ok.mp h
  obtain ⟨pass, hpass, h⟩ := bind_eq_ok.mp h
  obtain ⟨buffer, hdrain, h⟩ := bind_eq_ok.mp h
  obtain ⟨requests, hput, h⟩ := bind_eq_ok.mp h
  have hhead := LawfulRequestQueue.head_put hput
  cases hstop : pass.blocked || pass.failed with
  | true =>
    rw [hstop] at h
    simp only [if_true] at h
    split at h
    · obtain rfl := Except.ok.inj h
      exact ⟨.inl ⟨hhead, rfl⟩, fun _ hd => by simp at hd⟩
    · obtain rfl := Except.ok.inj h
      exact ⟨.inl ⟨hhead, rfl⟩, readyRead_not_connect⟩
  | false =>
    rw [hstop] at h
    simp only [Bool.false_eq_true, if_false] at h
    obtain ⟨⟨requests', next⟩, hconsume, h⟩ := bind_eq_ok.mp h
    obtain rfl := LawfulRequestQueue.head_consumeFront hconsume
    cases hcb : request.callback with
    | none =>
      rw [hcb] at h
      obtain rfl := Except.ok.inj h
      refine ⟨.inr ?_, writeLoop_not_connect⟩
      rw [writeLoop_eq]
    | some cb =>
      rw [hcb] at h
      obtain rfl := Except.ok.inj h
      exact ⟨.inr rfl, fun _ hd => by simp at hd⟩

/-- What is written is on the write side. -/
lemma xwrites_trace {req : Nat} {results : List WriteResult}
    (h : s.xwrites event req results = .ok s') :
    ∃ events, s'.trace = s.trace ++ events ∧ ∀ e ∈ events, e.onWriteSide = true := by
  obtain ⟨request, pass, buffer, requests, -, hpass, -, -, hends, -⟩ := xwrites_cases h
  have hpasses : ∀ e ∈ pass.events, e.onWriteSide = true := by
    intro e he
    have hp := passes_of_mem_events hpass he
    cases e with
    | xwrite => rfl
    | _ => exact absurd hp id
  cases hends with
  | stopped _ _ htrace =>
    refine ⟨_, htrace, List.forall_mem_append.mpr ⟨hpasses, ?_⟩⟩
    split_ifs
    · cases request.callback <;> simp [errorEvents, Event.onWriteSide]
    · exact fun e he => absurd he List.not_mem_nil
  | completed _ _ htrace =>
    refine ⟨_, htrace, List.forall_mem_append.mpr ⟨hpasses, ?_⟩⟩
    cases request.callback <;> simp [completeEvents, Event.onWriteSide]

/-- A step adds to what has happened so far. -/
lemma step_trace (hok : s.step act = .ok s') : ∃ events, s'.trace = s.trace ++ events := by
  cases step_cases hok with
  | quiet hq =>
    obtain ⟨events, htrace, -⟩ := hq.trace
    exact ⟨events, htrace⟩
  | write _ hqueue => exact ⟨_, (queueWrite_eq_ok hqueue).2.1⟩
  | writeBuffer hqueue => exact ⟨_, (queueWrite_eq_ok hqueue).2.1⟩
  | writeReadBuffer _ hqueue => exact ⟨_, (queueWrite_eq_ok hqueue).2.1⟩
  | readBuffer => exact ⟨[], (List.append_nil _).symm⟩
  | moveReadBuffer => exact ⟨[], (List.append_nil _).symm⟩
  | xwrites _ _ hx =>
    obtain ⟨events, htrace, -⟩ := xwrites_trace hx
    exact ⟨events, htrace⟩
  | xread _ _ hx =>
    obtain ⟨events, htrace, -⟩ := xread_trace hx
    exact ⟨events, htrace⟩
  | destroy hdestroy =>
    obtain ⟨⟨requests, r⟩, -, hok⟩ := bind_eq_ok.mp hdestroy
    obtain rfl := Except.ok.inj hok
    exact ⟨[], (List.append_nil _).symm⟩

lemma coherent_new (fd : Int) : (new fd : Stream Q β).Coherent :=
  ⟨fun h => absurd rfl h, fun h => absurd rfl h, fun _ h => h.elim (fun hd => nomatch hd)
    fun hd => nomatch hd⟩

lemma Coherent.ready (h : s.Coherent) (hcalls : s.calls = []) : (s.ready event).Coherent := by
  rw [ready_eq]
  refine h.of_dispatch hcalls rfl id fun event' hd => ?_
  unfold Stream.ready at hd
  split_ifs at hd with hwrite hcb
  · exact h.connecting (Option.isSome_iff_ne_none.mp hcb)
  · exact absurd hd (writeLoop_not_connect event')
  · exact absurd hd (readyRead_not_connect event')

lemma Coherent.resumeDispatch (h : s.Coherent) (hcalls : s.calls = [])
    (hok : s.resumeDispatch d = .ok s') : s'.Coherent := by
  have hread : ∀ {event : What}, s.resumeRead event = .ok s' → s'.Coherent := by
    intro event hread
    unfold resumeRead at hread
    split_ifs at hread
    · obtain ⟨-, rfl⟩ := access_map_eq_ok.mp hread
      exact h.of_dispatch hcalls rfl id fun event' hd => absurd hd (readyRead_not_connect event')
    · obtain rfl := Except.ok.inj hread
      exact h.of_dispatch hcalls rfl id fun event' hd => absurd hd (readyRead_not_connect event')
  cases d with
  | connectDone event =>
    obtain ⟨-, rfl⟩ := access_map_eq_ok.mp hok
    rw [writeHelper, writeLoop_eq]
    exact h.of_dispatch hcalls rfl id fun event' hd => absurd hd (writeLoop_not_connect event')
  | writeDone event next =>
    cases next with
    | none => exact hread hok
    | some next =>
      obtain ⟨-, rfl⟩ := access_map_eq_ok.mp hok
      exact h.of_dispatch hcalls rfl id fun event' hd => absurd hd (by simp [writeLoop])
  | writeFailed event => exact hread hok
  | readAvailable nread =>
    simp only [Stream.resumeDispatch] at hok
    split_ifs at hok
    · obtain rfl := Except.ok.inj hok
      exact h.of_dispatch hcalls rfl id fun event' hd => absurd hd (by simp)
    · obtain ⟨-, rfl⟩ := access_map_eq_ok.mp hok
      exact h.of_dispatch hcalls rfl id fun event' hd => absurd hd (by simp)
  | readEnded =>
    obtain rfl := Except.ok.inj hok
    exact h.of_dispatch hcalls rfl id fun event' hd => absurd hd (by simp)
  | connectHelper event => cases hok
  | writeHelper event req => cases hok
  | readHelper => cases hok

lemma Coherent.step [LawfulRequestQueue Q] (h : s.Coherent) (hok : s.step act = .ok s') :
    s'.Coherent := by
  cases step_effect hok with
  | queue readBuffer _ _ hqueue =>
    obtain ⟨requests, -, rfl⟩ := queueWrite_cases hqueue
    exact h.of_same rfl rfl rfl id
  | useBuffer readBuffer => exact h.of_same rfl rfl rfl id
  | startRead callback =>
    unfold startRead
    split_ifs
    · exact h
    · exact h.of_same rfl rfl rfl id
  | stopRead =>
    unfold stopRead
    split_ifs
    · exact h
    all_goals exact h.of_same rfl rfl rfl id
  | close hc => exact h.close (h.isCallback hc)
  | connect hc hconnect => exact h.connect (h.isCallback hc) hconnect
  | destroy _ hdestroy =>
    obtain ⟨⟨requests, r⟩, -, hok⟩ := bind_eq_ok.mp hdestroy
    obtain rfl := Except.ok.inj hok
    exact h.of_same rfl rfl rfl id
  | ready event _ _ hcalls => exact h.ready hcalls
  | getsockopt _ hcalls hd hget =>
    obtain ⟨cb, -, rfl⟩ := getsockopt_cases hget
    exact h.of_dispatch hcalls rfl (fun hne => absurd rfl hne) fun _ _ =>
      h.connected _ (.inl hd)
  | xwrites _ hcalls _ hx =>
    obtain ⟨heq, -, hnot⟩ := xwrites_eq hx
    rw [heq]
    exact h.of_dispatch hcalls rfl id fun event' hd => absurd hd (hnot event')
  | xread _ hcalls _ hx =>
    have hnot : ∀ event', s'.dispatch = some (.connectHelper event') ∨
        s'.dispatch = some (.connectDone event') → False := by
      intro event' hd
      cases xread_cases hx with
      | kept =>
        simp only at hd
        split_ifs at hd <;> simp at hd
      | ended | failed | eof | available => simp at hd
    rw [xread_eq hx]
    exact h.of_dispatch hcalls rfl id fun event' hd => absurd hd (hnot event')
  | @returned c calls _ hcalls hcall =>
    have hback := h.calls (by rw [hcalls]; exact List.cons_ne_nil _ _)
    have hrest : Coherent { s with calls } := ⟨fun _ => hback, h.connecting, h.connected⟩
    exact hrest.resumeCall hback hcall
  | resumed hcalls _ hd => exact h.resumeDispatch hcalls hd

end Stream

end WhatTheEvent
