import WhatTheEvent.Blocking.Session
import WhatTheEvent.Stream.Connecting
import WhatTheEvent.Stream.SoleRequest

/-!
# Blocking writes

Between the calls of a session no request is queued, and a call of `write` queues one. When the call
returns, exactly its bytes have been accepted.
-/

namespace WhatTheEvent

variable {β : Type}

/-- The dispatch has got to the read side. -/
def Dispatch.onReadSide : Dispatch → Bool
  | .readHelper => true
  | .readAvailable _ => true
  | .readEnded => true
  | _ => false

/-- The calls are of one kind, with their callbacks at the same address. -/
def BlockingCall.Alike : BlockingCall β → BlockingCall β → Prop
  | .read callback _ _, .read callback' _ _ => callback = callback'
  | .write callback _, .write callback' _ => callback = callback'
  | _, _ => False

lemma BlockingCall.alike_refl (call : BlockingCall β) : call.Alike call := by
  cases call <;> rfl

lemma BlockingCall.alike_loop (call : BlockingCall β) : call.Alike call.loop := by
  cases call <;> rfl

lemma BlockingCall.alike_of_receive {call call' : BlockingCall β} {e : Event β}
    (h : call.receive e = some call') : call.Alike call' := by
  unfold receive at h
  split at h
  · split_ifs at h
    cases h
    rfl
  · split_ifs at h
    cases h
    rfl
  · split_ifs at h
    cases h
    rfl
  · split_ifs at h
    cases h
    rfl
  · split_ifs at h
    cases h
    rfl
  · cases h

namespace Stream

variable {s : Stream (Requests (WriteRequest β)) β} {event : What}

lemma readyRead_readHelper : ∀ d, (s.readyRead event).dispatch = some d → d = .readHelper := by
  intro d hd
  unfold readyRead at hd
  split_ifs at hd
  exact (Option.some.inj hd).symm

lemma readyRead_onReadSide : ∀ d, (s.readyRead event).dispatch = some d → d.onReadSide = true := by
  intro d hd
  rw [readyRead_readHelper d hd]
  rfl

end Stream

namespace Session

variable {m m' : Session β} {act : SessionAct β} {start : List (Event β)} {buf : List β}

/-- What holds of the stream throughout a session. -/
structure Sane (m : Session β) : Prop where
  calls : m.stream.calls = []
  connect : m.stream.connectCallback = none
  reading : m.stream.watched.isRead = m.stream.readCallback.isSome

/-- No connect is pending in a session. -/
lemma Sane.ready (h : m.Sane) (event : What) : m.stream.ready event =
    if event.isWrite then m.stream.writeHelper event else m.stream.readyRead event := by
  rw [Stream.ready, h.connect]
  rfl

/-- How far the call in progress has got: a `write` of `buf`, which the stream had the trace `start`
before, is queued or has been accepted. -/
inductive Phase (start : List (Event β)) (buf : List β) (m : Session β) : Prop
  | idle (hcall : m.call = none) (hvacant : m.stream.requests.Vacant)
    (hwrite : m.stream.watched.isWrite = false) (hd : m.stream.dispatch = none)
  | reading {callback : Nat} {cb : BlockingReadCallback β} {looped : Bool}
    (hcall : m.call = some (.read callback cb looped))
    (hcb : m.stream.readCallback = some callback) (hvacant : m.stream.requests.Vacant)
    (hwrite : m.stream.watched.isWrite = false)
    (hd : ∀ d, m.stream.dispatch = some d → d.onReadSide = true)
  | writing {callback : Nat} {cb : BlockingWriteCallback} {req : Nat} {request : WriteRequest β}
    {events : List (Event β)} (hcall : m.call = some (.write callback cb))
    (hsole : m.stream.requests.Sole req request) (hrequest : request.callback = some callback)
    (hbuffer : request.buffer.OneExtent) (htrace : m.stream.trace = start ++ events)
    (haccepted : accepted events ++ request.buffer.contents = buf.map some)
    (hwrite : m.stream.watched.isWrite = true)
    (hd : ∀ d, m.stream.dispatch = some d → d.onReadSide = true ∨
      ∃ event, d = .writeHelper event req ∨ d = .writeFailed event)
  | written {callback : Nat} {cb : BlockingWriteCallback} {events : List (Event β)}
    (hcall : m.call = some (.write callback cb)) (hvacant : m.stream.requests.Vacant)
    (htrace : m.stream.trace = start ++ events) (haccepted : accepted events = buf.map some)
    (hwrite : m.stream.watched.isWrite = false)
    (hd : ∀ d, m.stream.dispatch = some d → d.onReadSide = true ∨
      ∃ event, d = .writeDone event none)

lemma sane_new (fd : Int) : (new fd : Session β).Sane := ⟨rfl, rfl, rfl⟩

lemma phase_new (fd : Int) : (new fd : Session β).Phase start buf :=
  .idle rfl Requests.vacant_empty rfl rfl

/-! ### Steps on the read side -/

/-- The session goes on to the read side of a dispatch, or to its end. -/
lemma Phase.of_readSide {call call' : BlockingCall β} {events : List (Event β)}
    (h : m.Phase start buf) (hcall : m.call = some call) (hcall' : m'.call = some call')
    (halike : call.Alike call') (hrequests : m'.stream.requests = m.stream.requests)
    (hwatched : m'.stream.watched = m.stream.watched)
    (hcb : m'.stream.readCallback = m.stream.readCallback)
    (htrace : m'.stream.trace = m.stream.trace ++ events) (hevents : ∀ e ∈ events, e.accepted = [])
    (hd : ∀ d, m'.stream.dispatch = some d → d.onReadSide = true) : m'.Phase start buf := by
  cases h with
  | idle hnone =>
    rw [hcall] at hnone
    cases hnone
  | reading hread hcallback hvacant hwrite =>
    obtain rfl := Option.some.inj (hcall.symm.trans hread)
    cases call' with
    | write callback cb => exact absurd halike id
    | read callback cb looped =>
      obtain rfl := halike
      exact .reading hcall' (hcb.trans hcallback) (hrequests ▸ hvacant) (hwatched ▸ hwrite) hd
  | writing hwriting hsole hrequest hbuffer hstart haccepted hwrite =>
    obtain rfl := Option.some.inj (hcall.symm.trans hwriting)
    cases call' with
    | read callback cb looped => exact absurd halike id
    | write callback cb =>
      obtain rfl := halike
      rw [hstart, List.append_assoc] at htrace
      refine .writing hcall' (hrequests ▸ hsole) hrequest hbuffer htrace ?_ (hwatched ▸ hwrite)
        fun d hd' => .inl (hd d hd')
      rw [accepted_append_of_nil hevents, haccepted]
  | written hwriting hvacant hstart haccepted hwrite =>
    obtain rfl := Option.some.inj (hcall.symm.trans hwriting)
    cases call' with
    | read callback cb looped => exact absurd halike id
    | write callback cb =>
      obtain rfl := halike
      rw [hstart, List.append_assoc] at htrace
      refine .written hcall' (hrequests ▸ hvacant) htrace ?_ (hwatched ▸ hwrite)
        fun d hd' => .inl (hd d hd')
      rw [accepted_append_of_nil hevents, haccepted]

/-- A dispatch goes on after a callback with `xread` or not at all. -/
lemma resumeDispatch_readHelper {s s' : Stream (Requests (WriteRequest β)) β} {d : Dispatch}
    (hd : d.onReadSide = true ∨ ∃ event, d = .writeFailed event ∨ d = .writeDone event none)
    (h : s.resumeDispatch d = .ok s') : ∀ d', s'.dispatch = some d' → d' = .readHelper := by
  have hread : ∀ {event : What}, s.resumeRead event = .ok s' →
      ∀ d', s'.dispatch = some d' → d' = .readHelper := by
    intro event hresume
    unfold Stream.resumeRead at hresume
    split_ifs at hresume
    · obtain ⟨-, rfl⟩ := Stream.access_map_eq_ok.mp hresume
      exact Stream.readyRead_readHelper
    · obtain rfl := Except.ok.inj hresume
      exact Stream.readyRead_readHelper
  rcases hd with hside | ⟨event, rfl | rfl⟩
  · cases d with
    | readAvailable nread =>
      simp only [Stream.resumeDispatch] at h
      split_ifs at h
      · obtain rfl := Except.ok.inj h
        exact fun d' hd' => by cases hd'
      · obtain ⟨-, rfl⟩ := Stream.access_map_eq_ok.mp h
        exact fun d' hd' => (Option.some.inj hd').symm
    | readEnded =>
      obtain rfl := Except.ok.inj h
      exact fun d' hd' => by cases hd'
    | readHelper => cases h
    | _ => cases hside
  · exact hread h
  · exact hread h

lemma resumeDispatch_onReadSide {s s' : Stream (Requests (WriteRequest β)) β} {d : Dispatch}
    (hd : d.onReadSide = true ∨ ∃ event, d = .writeFailed event ∨ d = .writeDone event none)
    (h : s.resumeDispatch d = .ok s') : ∀ d', s'.dispatch = some d' → d'.onReadSide = true := by
  intro d' hd'
  rw [resumeDispatch_readHelper hd h d' hd']
  rfl

lemma xread_onReadSide {s s' : Stream (Requests (WriteRequest β)) β} {result : ReadResult β}
    (h : s.xread result = .ok s') : ∀ d, s'.dispatch = some d → d.onReadSide = true := by
  intro d hd
  cases Stream.xread_cases h with
  | kept =>
    simp only at hd
    split_ifs at hd
    obtain rfl := Option.some.inj hd
    rfl
  | ended => cases hd
  | failed | eof | available =>
    obtain rfl := Option.some.inj hd
    rfl

/-! ### Steps -/

lemma Sane.watched_of_not_isWrite (hwrite : m.stream.watched.isWrite = false) :
    m.stream.watched = .none ∨ m.stream.watched = .read := by
  cases hw : m.stream.watched with
  | none => exact .inl rfl
  | read => exact .inr rfl
  | write | readWrite =>
    rw [hw] at hwrite
    cases hwrite

/-- `Sane` is kept by steps that change the watched events, the read callback and the calls in
progress in none of these ways. -/
lemma Sane.of_same (h : m.Sane) (hcalls : m'.stream.calls = m.stream.calls)
    (hconnect : m'.stream.connectCallback = m.stream.connectCallback)
    (hwatched : m'.stream.watched.isRead = m.stream.watched.isRead)
    (hcb : m'.stream.readCallback = m.stream.readCallback) : m'.Sane :=
  ⟨hcalls.trans h.calls, hconnect.trans h.connect, by rw [hwatched, hcb, h.reading]⟩

lemma Phase.isWrite_of_call_none (h : m.Phase start buf) (hcall : m.call = none) :
    m.stream.requests.Vacant ∧ m.stream.watched.isWrite = false ∧ m.stream.dispatch = none := by
  cases h with
  | idle _ hvacant hwrite hd => exact ⟨hvacant, hwrite, hd⟩
  | reading hcall' | writing hcall' | written hcall' =>
    rw [hcall] at hcall'
    cases hcall'

/-- Only the request of a call of `write` is worked on. -/
lemma Phase.of_writeHelper {event : What} {req : Nat} (h : m.Phase start buf)
    (hd : m.stream.dispatch = some (.writeHelper event req)) :
    ∃ callback cb request events, m.call = some (.write callback cb) ∧
      m.stream.requests.Sole req request ∧ request.callback = some callback ∧
      request.buffer.OneExtent ∧ m.stream.trace = start ++ events ∧
      accepted events ++ request.buffer.contents = buf.map some ∧
      m.stream.watched.isWrite = true := by
  cases h with
  | writing hcall hsole hrequest hbuffer htrace haccepted hwrite hdispatch =>
    rcases hdispatch _ hd with hside | ⟨event', heq | heq⟩
    · cases hside
    · obtain ⟨rfl, rfl⟩ := Dispatch.writeHelper.inj heq
      exact ⟨_, _, _, _, hcall, hsole, hrequest, hbuffer, htrace, haccepted, hwrite⟩
    · cases heq
  | idle _ _ _ hnone =>
    rw [hd] at hnone
    cases hnone
  | reading _ _ _ _ hdispatch => cases hdispatch _ hd
  | written _ _ _ _ _ hdispatch =>
    rcases hdispatch _ hd with hside | ⟨event', heq⟩
    · cases hside
    · cases heq

lemma sane_step (h : m.Sane) (hphase : m.Phase start buf) (hok : m.step act = .ok m') :
    m'.Sane := by
  cases step_effect h.calls hok with
  | read callback size hcall =>
    rw [Stream.startRead]
    split_ifs with hsame
    · exact h.of_same rfl rfl rfl rfl
    · exact ⟨h.calls, h.connect, by simp⟩
  | write callback buf' hcall =>
    obtain ⟨-, hwrite, -⟩ := hphase.isWrite_of_call_none hcall
    refine h.of_same rfl rfl ?_ rfl
    rcases Sane.watched_of_not_isWrite hwrite with hw | hw <;> simp only [hw] <;> rfl
  | ready event =>
    refine h.of_same ?_ ?_ ?_ ?_ <;> rw [Stream.ready_eq]
  | wake => exact h.of_same rfl rfl rfl rfl
  | xwrites hd hx =>
    obtain ⟨_, _, _, _, -, hsole, hrequest, hbuffer, -⟩ := hphase.of_writeHelper hd
    cases Stream.soleRound_of_xwrites hsole hbuffer hrequest hx with
    | blocked => exact h.of_same rfl rfl rfl rfl
    | failed => exact h.of_same rfl rfl rfl rfl
    | completed => exact h.of_same rfl rfl (What.isRead_removeWrite _) rfl
  | xread _ hx =>
    refine h.of_same ?_ ?_ ?_ ?_ <;> rw [Stream.xread_eq hx]
  | callback readBuffer _ _ _ _ hresume =>
    refine h.of_same ?_ ?_ ?_ ?_ <;> rw [Stream.resumeDispatch_eq hresume]
  | ret => exact h.of_same rfl rfl rfl rfl

lemma Phase.read {callback size : Nat} (h : m.Phase start buf) (hcall : m.call = none) :
    Phase start buf { m with
      stream := m.stream.startRead (some callback)
      call := some (.read callback (.new size) false) } := by
  obtain ⟨hvacant, hwrite, hd⟩ := h.isWrite_of_call_none hcall
  have hnone : ∀ d, m.stream.dispatch = some d → d.onReadSide = true := by
    intro d hd'
    rw [hd] at hd'
    cases hd'
  by_cases hsame : m.stream.readCallback = some callback
  · rw [Stream.startRead, if_pos hsame]
    exact .reading rfl hsame hvacant hwrite hnone
  · rw [Stream.startRead, if_neg hsame]
    refine .reading rfl rfl hvacant ?_ hnone
    rw [Bool.eq_false_iff]
    intro hensure
    rw [What.isWrite_ensureRead.mp hensure] at hwrite
    cases hwrite

lemma Phase.write {callback : Nat} {buffer : BufferImpl β} {buf' : List β}
    {requests : Requests (WriteRequest β)} (h : m.Phase start buf) (hcall : m.call = none)
    (hbuffer : BufferImpl.empty.append buf' = .ok buffer)
    (happend : m.stream.requests.append ⟨buffer, some callback⟩ = .ok requests) :
    Phase m.stream.trace buf' { m with
      stream := { m.stream with
        requests
        watched := m.stream.watched.ensureWrite
        trace := m.stream.trace ++
          [.write m.stream.requests.heap.fresh buffer.contents (some callback)] }
      call := some (.write callback .new) } := by
  obtain ⟨hvacant, -, hd⟩ := h.isWrite_of_call_none hcall
  obtain ⟨hone, hcontents⟩ := BufferImpl.oneExtent_append hbuffer
  refine .writing rfl (hvacant.append happend) rfl hone rfl hcontents
    (What.isWrite_ensureWrite _) fun d hd' => ?_
  rw [show m.stream.dispatch = some d from hd'] at hd
  cases hd

lemma Phase.ready {event : What} {call : BlockingCall β} (h : m.Phase start buf) (hsane : m.Sane)
    (hcall : m.call = some call) (hamong : event.Among m.stream.watched) :
    Phase start buf { m with stream := m.stream.ready event, call := some call.loop } := by
  have hready := hsane.ready event
  have htrace : m.stream.trace = m.stream.trace ++ [] := (List.append_nil _).symm
  have hread : m.stream.ready event = m.stream.readyRead event →
      Phase start buf { m with stream := m.stream.ready event, call := some call.loop } := by
    intro heq
    rw [heq]
    exact h.of_readSide hcall rfl call.alike_loop rfl rfl rfl htrace
      (fun _ he => absurd he List.not_mem_nil) Stream.readyRead_onReadSide
  cases hw : event.isWrite with
  | false =>
    rw [hw] at hready
    exact hread hready
  | true =>
    have hwatched := hamong.2 hw
    rw [hw, if_pos rfl] at hready
    cases h with
    | idle hnone =>
      rw [hcall] at hnone
      cases hnone
    | reading _ _ _ hwrite =>
      rw [hwrite] at hwatched
      cases hwatched
    | written _ _ _ _ hwrite =>
      rw [hwrite] at hwatched
      cases hwatched
    | @writing callback cb req request events hwriting hsole hrequest hbuffer hstart haccepted =>
      obtain rfl := Option.some.inj (hcall.symm.trans hwriting)
      have hhead : RequestQueue.head m.stream.requests = some req := hsole.head
      rw [hready, Stream.writeHelper, hhead]
      refine .writing rfl hsole hrequest hbuffer hstart haccepted hwatched fun d hd => ?_
      obtain rfl := Option.some.inj hd
      exact .inr ⟨event, .inl rfl⟩

lemma Phase.xwrites {event : What} {req : Nat} {results : List WriteResult}
    {stream : Stream (Requests (WriteRequest β)) β} (h : m.Phase start buf)
    (hd : m.stream.dispatch = some (.writeHelper event req))
    (hx : m.stream.xwrites event req results = .ok stream) :
    Phase start buf { m with stream } := by
  obtain ⟨callback, cb, request, events, hcall, hsole, hrequest, hbuffer, htrace, haccepted,
    hwrite⟩ := h.of_writeHelper hd
  have hmore : ∀ events', m.stream.trace ++ events' = start ++ (events ++ events') := by
    intro events'
    rw [htrace, List.append_assoc]
  cases Stream.soleRound_of_xwrites hsole hbuffer hrequest hx with
  | @blocked requests buffer events' hsole' hbuffer' hsplit =>
    refine .writing hcall hsole' hrequest hbuffer' (hmore events') ?_ hwrite
      fun d hd' => .inl (Stream.readyRead_onReadSide (s := m.stream) d hd')
    rw [accepted_append, List.append_assoc, hsplit, haccepted]
  | @failed requests buffer events' hsole' hbuffer' hsplit =>
    have htrace' := hmore (events' ++ [.writeError req callback "Write failed"])
    rw [← List.append_assoc] at htrace'
    refine .writing hcall hsole' hrequest hbuffer' htrace' ?_ hwrite fun d hd' => ?_
    · rw [← List.append_assoc, accepted_append_of_nil (List.forall_mem_singleton.mpr rfl),
        accepted_append, List.append_assoc, hsplit, haccepted]
    · obtain rfl := Option.some.inj hd'
      exact .inr ⟨event, .inr rfl⟩
  | @completed requests events' hvacant hall =>
    have htrace' := hmore (events' ++ [.writeComplete req callback])
    rw [← List.append_assoc] at htrace'
    refine .written hcall hvacant htrace' ?_ (What.isWrite_removeWrite _) fun d hd' => ?_
    · rw [← List.append_assoc, accepted_append_of_nil (List.forall_mem_singleton.mpr rfl),
        accepted_append, hall, haccepted]
    · obtain rfl := Option.some.inj hd'
      exact .inr ⟨event, rfl⟩

/-- The dispatch goes on after the callback of a call on the read side. -/
lemma Phase.callback_side {call : BlockingCall β} {d : Dispatch}
    {s s' : Stream (Requests (WriteRequest β)) β} (h : m.Phase start buf)
    (hcall : m.call = some call) (hd : m.stream.dispatch = some d)
    (hresume : s.resumeDispatch d = .ok s') :
    d.onReadSide = true ∨ ∃ event, d = .writeFailed event ∨ d = .writeDone event none := by
  cases h with
  | idle hnone =>
    rw [hcall] at hnone
    cases hnone
  | reading _ _ _ _ hdispatch => exact .inl (hdispatch d hd)
  | writing _ _ _ _ _ _ _ hdispatch =>
    rcases hdispatch d hd with hside | ⟨event, rfl | rfl⟩
    · exact .inl hside
    · cases hresume
    · exact .inr ⟨event, .inl rfl⟩
  | written _ _ _ _ _ hdispatch =>
    rcases hdispatch d hd with hside | ⟨event, rfl⟩
    · exact .inl hside
    · exact .inr ⟨event, .inr rfl⟩

lemma Phase.callback {call call' : BlockingCall β} {e : Event β} {d : Dispatch}
    {readBuffer : BufferImpl β} {stream : Stream (Requests (WriteRequest β)) β}
    (h : m.Phase start buf) (hcall : m.call = some call) (hreceive : call.receive e = some call')
    (hd : m.stream.dispatch = some d)
    (hresume : { m.stream with readBuffer }.resumeDispatch d = .ok stream) :
    Phase start buf { m with stream, call := some call' } := by
  have hon := resumeDispatch_onReadSide (h.callback_side hcall hd hresume) hresume
  rw [Stream.resumeDispatch_eq hresume]
  exact h.of_readSide hcall rfl (BlockingCall.alike_of_receive hreceive) rfl rfl rfl
    (List.append_nil _).symm (fun _ he => absurd he List.not_mem_nil) hon

lemma Phase.ret {call : BlockingCall β} (h : m.Phase start buf) (hcall : m.call = some call)
    (hends : call.goesOn m.stream.watched = false) (hd : m.stream.dispatch = none) :
    Phase start buf { m with call := none, results := m.results ++ [call.result] } := by
  cases h with
  | idle _ hvacant hwrite => exact .idle rfl hvacant hwrite hd
  | reading _ _ hvacant hwrite => exact .idle rfl hvacant hwrite hd
  | written _ hvacant _ _ hwrite => exact .idle rfl hvacant hwrite hd
  | writing hwriting _ _ _ _ _ hwrite =>
    -- the loop does not end while the request is watched for
    obtain rfl := Option.some.inj (hcall.symm.trans hwriting)
    have hnone : m.stream.watched = .none := by simpa [BlockingCall.goesOn] using hends
    rw [hnone] at hwrite
    cases hwrite

lemma Phase.xread {result : ReadResult β} {stream : Stream (Requests (WriteRequest β)) β}
    (h : m.Phase start buf) (hd : m.stream.dispatch = some .readHelper)
    (hx : m.stream.xread result = .ok stream) : Phase start buf { m with stream } := by
  obtain ⟨events, htrace, hevents⟩ := Stream.xread_trace hx
  have hnil : ∀ e ∈ events, e.accepted = [] := by
    intro e he
    have hside := hevents e he
    cases e with
    | xwrite => cases hside
    | _ => rfl
  have hon := xread_onReadSide hx
  obtain ⟨call, hcall⟩ : ∃ call, m.call = some call := by
    rw [← Option.ne_none_iff_exists']
    intro hnone
    rw [(h.isWrite_of_call_none hnone).2.2] at hd
    cases hd
  rw [Stream.xread_eq hx]
  exact h.of_readSide hcall hcall (BlockingCall.alike_refl call) rfl rfl rfl htrace hnil hon

/-- A step that is not a call of `write` leaves the call of `write` that is in progress. -/
theorem phase_step (hsane : m.Sane) (h : m.Phase start buf) (hok : m.step act = .ok m')
    (hact : ∀ callback buf', act ≠ .write callback buf') : m'.Phase start buf := by
  cases step_effect hsane.calls hok with
  | read callback size hcall => exact h.read hcall
  | write callback buf' => exact absurd rfl (hact callback buf')
  | ready event hcall _ hamong => exact h.ready hsane hcall hamong
  | wake hcall hd =>
    refine h.of_readSide hcall rfl (BlockingCall.alike_loop _) rfl rfl rfl
      (List.append_nil _).symm (fun _ he => absurd he List.not_mem_nil) fun d hd' => ?_
    rw [show m.stream.dispatch = some d from hd'] at hd
    cases hd
  | xwrites hd hx => exact h.xwrites hd hx
  | xread hd hx => exact h.xread hd hx
  | callback _ hcall _ hreceive hd hresume => exact h.callback hcall hreceive hd hresume
  | ret hcall hends hd => exact h.ret hcall hends hd

/-- A call of `write` finds no request and queues its own. -/
theorem phase_write {callback : Nat} {buf' : List β} (hsane : m.Sane) (h : m.Phase start buf)
    (hok : m.step (.write callback buf') = .ok m') :
    m.stream.requests.Vacant ∧ m'.Phase m.stream.trace buf' := by
  cases step_effect hsane.calls hok with
  | write _ _ hcall hbuffer happend =>
    exact ⟨(h.isWrite_of_call_none hcall).1, h.write hcall hbuffer happend⟩

/-- A call stays in progress until it returns. -/
lemma alike_of_step {call : BlockingCall β} (hcalls : m.stream.calls = [])
    (hcall : m.call = some call) (hok : m.step act = .ok m') (hret : act ≠ .ret) :
    ∃ call', m'.call = some call' ∧ call.Alike call' := by
  cases step_effect hcalls hok with
  | read _ _ hnone | write _ _ hnone =>
    rw [hcall] at hnone
    cases hnone
  | ready _ hcall' | wake hcall' =>
    obtain rfl := Option.some.inj (hcall.symm.trans hcall')
    exact ⟨_, rfl, BlockingCall.alike_loop call⟩
  | xwrites | xread => exact ⟨call, hcall, BlockingCall.alike_refl call⟩
  | callback _ hcall' _ hreceive =>
    obtain rfl := Option.some.inj (hcall.symm.trans hcall')
    exact ⟨_, rfl, BlockingCall.alike_of_receive hreceive⟩
  | ret => exact absurd rfl hret

/-! ### Runs -/

/-- Throughout a session the stream is in some phase of some call. -/
theorem phase_of_exec {fd : Int} {acts : List (SessionAct β)}
    (h : Exec.exec step (new fd : Session β) acts = .ok m) :
    m.Sane ∧ ∃ start buf, m.Phase start buf := by
  refine Exec.exec_invariant (P := fun _ _ => True)
    (fun m : Session β => m.Sane ∧ ∃ start buf, m.Phase start buf) ?_
    ⟨sane_new fd, [], [], phase_new fd⟩ (Exec.Along.of_forall fun _ _ => trivial) h
  rintro m act m' ⟨hsane, start, buf, hphase⟩ - hok
  refine ⟨sane_step hsane hphase hok, ?_⟩
  by_cases hact : ∃ callback buf', act = .write callback buf'
  · obtain ⟨callback, buf', rfl⟩ := hact
    exact ⟨_, _, (phase_write hsane hphase hok).2⟩
  · exact ⟨start, buf, phase_step hsane hphase hok fun callback buf' heq =>
      hact ⟨callback, buf', heq⟩⟩

/-- The stream has a read callback as soon as `read` was called. -/
lemma readCallback_step (hcalls : m.stream.calls = []) (hphase : m.Phase start buf)
    (hok : m.step act = .ok m') :
    m'.stream.readCallback.isSome = (m.stream.readCallback.isSome || act.isRead) := by
  cases step_effect hcalls hok with
  | read callback size =>
    rw [Stream.startRead]
    split_ifs with hsame
    · simp only [hsame]
      rfl
    · simp only [Option.isSome_some, SessionAct.isRead, Bool.or_true]
  | ready =>
    rw [Stream.ready_eq]
    simp [SessionAct.isRead]
  | xwrites hd hx =>
    obtain ⟨_, _, _, _, -, hsole, hrequest, hbuffer, -⟩ := hphase.of_writeHelper hd
    cases Stream.soleRound_of_xwrites hsole hbuffer hrequest hx <;> simp [SessionAct.isRead]
  | xread _ hx =>
    rw [Stream.xread_eq hx]
    simp [SessionAct.isRead]
  | callback _ _ _ _ _ hresume =>
    rw [Stream.resumeDispatch_eq hresume]
    simp [SessionAct.isRead]
  | write | wake | ret => simp [SessionAct.isRead]

lemma readCallback_of_exec {fd : Int} {acts : List (SessionAct β)}
    (h : Exec.exec step (new fd : Session β) acts = .ok m) :
    m.stream.readCallback.isSome = acts.any SessionAct.isRead := by
  induction acts using List.reverseRecOn generalizing m with
  | nil =>
    obtain rfl := Except.ok.inj h
    rfl
  | append_singleton acts act ih =>
    obtain ⟨m₁, hacts, hok⟩ := Exec.exec_concat_eq_ok.mp h
    obtain ⟨hsane, start, buf, hphase⟩ := phase_of_exec hacts
    rw [readCallback_step hsane.calls hphase hok, ih hacts, List.any_append, List.any_cons,
      List.any_nil, Bool.or_false]

/-- As long as a call of `write` has not returned, no other call is made. -/
lemma writing_of_exec {callback : Nat} {acts : List (SessionAct β)} (hsane : m.Sane)
    (hphase : m.Phase start buf) (hcall : ∃ cb, m.call = some (.write callback cb))
    (hret : .ret ∉ acts) (h : Exec.exec step m acts = .ok m') :
    m'.Sane ∧ m'.Phase start buf ∧ ∃ cb, m'.call = some (.write callback cb) := by
  induction acts using List.reverseRecOn generalizing m' with
  | nil =>
    obtain rfl := Except.ok.inj h
    exact ⟨hsane, hphase, hcall⟩
  | append_singleton acts act ih =>
    obtain ⟨m₁, hacts, hok⟩ := Exec.exec_concat_eq_ok.mp h
    obtain ⟨hsane₁, hphase₁, cb, hcall₁⟩ :=
      ih (fun hmem => hret (List.mem_append_left _ hmem)) hacts
    have hsane' := sane_step hsane₁ hphase₁ hok
    have hne : ∀ callback buf', act ≠ .write callback buf' := by
      rintro callback' buf' rfl
      cases step_effect hsane₁.calls hok with
      | write _ _ hnone =>
        rw [hcall₁] at hnone
        cases hnone
    have hgo : act ≠ .ret := fun heq =>
      hret (heq ▸ List.mem_append_right acts (List.mem_singleton_self act))
    obtain ⟨call', hcall', halike⟩ := alike_of_step hsane₁.calls hcall₁ hok hgo
    refine ⟨hsane', phase_step hsane₁ hphase₁ hok hne, ?_⟩
    cases call' with
    | read => exact absurd halike id
    | write callback' cb' =>
      obtain rfl : callback = callback' := halike
      exact ⟨cb', hcall'⟩

/-- Whenever a call of `write` returns or throws, exactly its bytes were accepted by the socket
since it was made, in order, and no request was queued when it was made and none is queued now. -/
theorem accepted_of_write (fd : Int) (pre acts : List (SessionAct β)) (callback : Nat)
    (buf : List β) (m₀ m m' : Session β) (hpre : Exec.exec step (new fd) pre = .ok m₀)
    (hrun : Exec.exec step m₀ (.write callback buf :: acts) = .ok m) (hacts : .ret ∉ acts)
    (hret : m.step .ret = .ok m') :
    accepted (m₀.stream.emitted m'.stream) = buf.map some ∧ m₀.stream.requests.Vacant ∧
      m'.stream.requests.Vacant := by
  obtain ⟨hsane₀, start, buf₀, hphase₀⟩ := phase_of_exec hpre
  obtain ⟨m₁, hwrite, hrun⟩ := Exec.exec_cons_eq_ok.mp hrun
  obtain ⟨hvacant, hphase₁⟩ := phase_write hsane₀ hphase₀ hwrite
  have hsane₁ := sane_step hsane₀ hphase₀ hwrite
  have hcall₁ : ∃ cb, m₁.call = some (.write callback cb) := by
    cases step_effect hsane₀.calls hwrite with
    | write => exact ⟨_, rfl⟩
  obtain ⟨hsane, hphase, cb, hcall⟩ := writing_of_exec hsane₁ hphase₁ hcall₁ hacts hrun
  cases step_effect hsane.calls hret with
  | ret hcall' hends hd =>
    obtain rfl := Option.some.inj (hcall.symm.trans hcall')
    have hnone : m.stream.watched = .none := by simpa [BlockingCall.goesOn] using hends
    cases hphase with
    | idle hnone' =>
      rw [hcall] at hnone'
      cases hnone'
    | reading hread =>
      rw [hcall] at hread
      cases hread
    | writing _ _ _ _ _ _ hisWrite =>
      rw [hnone] at hisWrite
      cases hisWrite
    | @written _ _ events _ hvacant' htrace haccepted =>
      refine ⟨?_, hvacant, hvacant'⟩
      rw [Stream.emitted_eq htrace, haccepted]

/-- The second of two calls is accepted in two pieces. -/
theorem accepted_of_write_in_pieces : ∃ m₀ m m' : Session Char,
    Exec.exec step (new 3) [.write 7 ['a'], .ready .write, .xwrites [.count 1], .callback, .ret] =
      .ok m₀ ∧
    Exec.exec step m₀ [.write 7 ['b', 'c'], .ready .write, .xwrites [.count 1], .wake,
      .ready .write, .xwrites [.count 1], .callback] = .ok m ∧ m.step .ret = .ok m' ∧
    accepted (m₀.stream.emitted m'.stream) = ['b', 'c'].map some ∧ m₀.stream.requests.Vacant ∧
      m'.stream.requests.Vacant :=
  ⟨_, _, _, rfl, rfl, rfl, accepted_of_write 3 [.write 7 ['a'], .ready .write, .xwrites [.count 1],
    .callback, .ret] [.ready .write, .xwrites [.count 1], .wake, .ready .write, .xwrites [.count 1],
    .callback] 7 ['b', 'c'] _ _ _ rfl rfl (by simp) rfl⟩

end Session

end WhatTheEvent
