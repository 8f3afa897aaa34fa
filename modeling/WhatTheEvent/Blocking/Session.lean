import WhatTheEvent.Blocking.Basic
import WhatTheEvent.Stream.Effect

/-!
# Sessions on a blocking stream

`BlockingStreamImpl` as a state machine: calls of `read` and `write` in any order, each of which
runs the event loop until it has what it waits for. The callback of a call lies on the stack and is
gone when the call returns or throws.
-/

namespace WhatTheEvent

variable {β : Type}

/-- `BlockingWriteCallback`. -/
structure BlockingWriteCallback where
  error : Option String
  complete : Bool
  deriving DecidableEq, Repr

namespace BlockingWriteCallback

def new : BlockingWriteCallback := ⟨none, false⟩

end BlockingWriteCallback

/-- A call in progress, with the address of its callback and the callback. -/
inductive BlockingCall (β : Type) where
  /-- `looped` tells whether `loop(ONCE)` has been run. -/
  | read (callback : Nat) (cb : BlockingReadCallback β) (looped : Bool)
  | write (callback : Nat) (cb : BlockingWriteCallback)
  deriving DecidableEq, Repr

/-- What a call returns, or the message of what it throws. -/
inductive BlockingResult where
  | read (result : Except String Nat)
  | write (result : Except String Unit)

namespace BlockingCall

/-- The method of the callback that the stream calls in the event, if it is one of the callback of
this call. -/
def receive : BlockingCall β → Event β → Option (BlockingCall β)
  | .read callback cb looped, .available callback' buf =>
    if callback' = callback then some (.read callback (cb.available buf) looped) else none
  | .read callback cb looped, .eof callback' _ =>
    if callback' = callback then some (.read callback { cb with eof := true } looped) else none
  | .read callback cb looped, .readError callback' message =>
    if callback' = callback then some (.read callback { cb with error := some message } looped)
    else none
  | .write callback cb, .writeComplete _ callback' =>
    if callback' = callback then some (.write callback { cb with complete := true }) else none
  | .write callback cb, .writeError _ callback' message =>
    if callback' = callback then some (.write callback { cb with error := some message }) else none
  | _, _ => none

/-- What `available` does to the buffer that it is passed. -/
def take (call : BlockingCall β) (stream : Stream (Requests (WriteRequest β)) β) :
    Event β → Except Fault (Stream (Requests (WriteRequest β)) β)
  | .available _ _ =>
    match call with
    | .read _ cb _ => stream.step (.readBuffer (.read cb.wanted))
    | .write _ _ => .error .disabled
  | _ => .ok stream

/-- Whether the call runs `event_base_loop` again: `read` until its condition is false, `write`
until no event is registered. -/
def goesOn (watched : What) : BlockingCall β → Bool
  | .read _ cb looped => !looped || cb.unsatisfied
  | .write _ _ => watched ≠ .none

/-- `event_base_loop` has been run. -/
def loop : BlockingCall β → BlockingCall β
  | .read callback cb _ => .read callback cb true
  | call => call

/-- How the call ends once its loop has ended. -/
def result : BlockingCall β → BlockingResult
  | .read _ cb _ =>
    .read (match cb.error with
      | some message => .error message
      | none => .ok cb.nread)
  | .write _ cb =>
    .write (match cb.error with
      | some message => .error message
      | none => .ok ())

end BlockingCall

/-- A blocking stream, the call in progress, and how the calls before it have ended. -/
structure Session (β : Type) where
  stream : Stream (Requests (WriteRequest β)) β
  call : Option (BlockingCall β)
  results : List BlockingResult

/-- A call of the user, or what the event loop that it runs does. -/
inductive SessionAct (β : Type) where
  | read (callback size : Nat)
  | write (callback : Nat) (buf : List β)
  /-- `event_base_loop` dispatches an event of the stream. -/
  | ready (event : What)
  /-- `event_base_loop` returns without a dispatch. -/
  | wake
  | xwrites (results : List WriteResult)
  | xread (result : ReadResult β)
  /-- The callback that the stream has called runs and returns. -/
  | callback
  /-- The call returns or throws. -/
  | ret
  deriving DecidableEq, Repr

/-- The act is a call of `read`. -/
def SessionAct.isRead : SessionAct β → Bool
  | .read _ _ => true
  | _ => false

namespace Session

/-- `BlockingStreamImpl(fd)`. -/
def new (fd : Int) : Session β := ⟨Stream.new fd, none, []⟩

/-- Whether the stream has called a callback, which has not returned yet. -/
def inCallback (m : Session β) : Bool :=
  match m.stream.dispatch with
  | some d => d.isCallback
  | none => false

/-- The callback that the stream has called runs and returns; it is gone if it is not that of the
call in progress. -/
def runCallback (m : Session β) : Except Fault (Session β) :=
  match m.call, m.stream.trace.getLast? with
  | some call, some e =>
    match call.receive e with
    | some call' => do
      let stream ← call.take m.stream e
      let stream ← stream.step .ret
      pure { m with stream, call := some call' }
    | none => .error .useAfterFree
  | _, _ => .error .useAfterFree

def step (m : Session β) : SessionAct β → Except Fault (Session β)
  | .read callback size =>
    match m.call with
    | none => do
      let stream ← m.stream.step (.startRead (some callback))
      pure { m with stream, call := some (.read callback (.new size) false) }
    | some _ => .error .disabled
  | .write callback buf =>
    match m.call with
    | none => do
      let stream ← m.stream.step (.write buf (some callback))
      pure { m with stream, call := some (.write callback .new) }
    | some _ => .error .disabled
  | .ready event =>
    match m.call with
    | some call =>
      if call.goesOn m.stream.watched then do
        let stream ← m.stream.step (.ready event)
        pure { m with stream, call := some call.loop }
      else .error .disabled
    | none => .error .disabled
  | .wake =>
    match m.call with
    | some call =>
      if call.goesOn m.stream.watched ∧ m.stream.dispatch = none then
        .ok { m with call := some call.loop }
      else .error .disabled
    | none => .error .disabled
  | .xwrites results => do
    let stream ← m.stream.step (.xwrites results)
    pure { m with stream }
  | .xread result => do
    let stream ← m.stream.step (.xread result)
    pure { m with stream }
  | .callback => if m.inCallback then m.runCallback else .error .disabled
  | .ret =>
    match m.call with
    | some call =>
      if ¬ call.goesOn m.stream.watched ∧ m.stream.dispatch = none then
        .ok { m with call := none, results := m.results ++ [call.result] }
      else .error .disabled
    | none => .error .disabled

/-! ### Steps -/

variable {m m' : Session β} {act : SessionAct β}

/-- A step, by what it does to the stream; no call of the user is in progress inside a method of the
stream. -/
inductive Effect (m : Session β) : SessionAct β → Session β → Prop
  | read (callback size : Nat) (hcall : m.call = none) : Effect m (.read callback size) { m with
    stream := m.stream.startRead (some callback)
    call := some (.read callback (.new size) false) }
  | write (callback : Nat) (buf : List β) {buffer : BufferImpl β}
    {requests : Requests (WriteRequest β)} (hcall : m.call = none)
    (hbuffer : BufferImpl.empty.append buf = .ok buffer)
    (happend : m.stream.requests.append ⟨buffer, some callback⟩ = .ok requests) :
    Effect m (.write callback buf) { m with
      stream := { m.stream with
        requests
        watched := m.stream.watched.ensureWrite
        trace := m.stream.trace ++
          [.write m.stream.requests.heap.fresh buffer.contents (some callback)] }
      call := some (.write callback .new) }
  | ready (event : What) {call : BlockingCall β} (hcall : m.call = some call)
    (hd : m.stream.dispatch = none) (hamong : event.Among m.stream.watched) :
    Effect m (.ready event) { m with
      stream := m.stream.ready event
      call := some call.loop }
  | wake {call : BlockingCall β} (hcall : m.call = some call) (hd : m.stream.dispatch = none) :
    Effect m .wake { m with call := some call.loop }
  | xwrites {event : What} {req : Nat} {results : List WriteResult}
    {stream : Stream (Requests (WriteRequest β)) β}
    (hd : m.stream.dispatch = some (.writeHelper event req))
    (hx : m.stream.xwrites event req results = .ok stream) :
    Effect m (.xwrites results) { m with stream }
  | xread {result : ReadResult β} {stream : Stream (Requests (WriteRequest β)) β}
    (hd : m.stream.dispatch = some .readHelper) (hx : m.stream.xread result = .ok stream) :
    Effect m (.xread result) { m with stream }
  | callback {call call' : BlockingCall β} {e : Event β} {d : Dispatch}
    (readBuffer : BufferImpl β) {stream : Stream (Requests (WriteRequest β)) β}
    (hcall : m.call = some call) (hlast : m.stream.trace.getLast? = some e)
    (hreceive : call.receive e = some call') (hd : m.stream.dispatch = some d)
    (hresume : { m.stream with readBuffer }.resumeDispatch d = .ok stream) :
    Effect m .callback { m with stream, call := some call' }
  | ret {call : BlockingCall β} (hcall : m.call = some call)
    (hends : call.goesOn m.stream.watched = false) (hd : m.stream.dispatch = none) :
    Effect m .ret { m with call := none, results := m.results ++ [call.result] }

/-- What is read off the buffer concerns nothing else. -/
lemma take_eq {call : BlockingCall β} {stream : Stream (Requests (WriteRequest β)) β} {e : Event β}
    (h : call.take m.stream e = .ok stream) :
    ∃ readBuffer, stream = { m.stream with readBuffer } := by
  unfold BlockingCall.take at h
  split at h
  · split at h
    · cases Stream.step_effect h with
      | queue _ _ hact => cases hact
      | useBuffer readBuffer => exact ⟨readBuffer, rfl⟩
    · cases h
  · obtain rfl := Except.ok.inj h
    exact ⟨_, rfl⟩

lemma runCallback_effect (hcalls : m.stream.calls = []) (h : m.runCallback = .ok m') :
    m.Effect .callback m' := by
  unfold runCallback at h
  split at h
  · rename_i call e hcall hlast
    split at h
    · rename_i call' hreceive
      obtain ⟨stream, htake, h⟩ := bind_eq_ok.mp h
      obtain ⟨stream', hret, h⟩ := bind_eq_ok.mp h
      obtain rfl := Except.ok.inj h
      obtain ⟨readBuffer, rfl⟩ := take_eq htake
      cases Stream.step_effect hret with
      | resumed _ hd hresume => exact .callback readBuffer hcall hlast hreceive hd hresume
      | returned hcons => exact absurd (hcalls.symm.trans hcons) (List.cons_ne_nil _ _).symm
      | queue _ _ hact => cases hact
      | useBuffer _ _ hact => cases hact
    · cases h
  · cases h

theorem step_effect (hcalls : m.stream.calls = []) (h : m.step act = .ok m') :
    m.Effect act m' := by
  cases act with
  | read callback size =>
    cases hcall : m.call with
    | some call => simp [step, hcall] at h
    | none =>
      simp only [step, hcall] at h
      obtain ⟨stream, hstream, h⟩ := bind_eq_ok.mp h
      obtain rfl := Except.ok.inj h
      cases Stream.step_effect hstream with
      | startRead => exact .read callback size hcall
      | queue _ _ hact => cases hact
      | useBuffer _ _ hact => cases hact
  | write callback buf =>
    cases hcall : m.call with
    | some call => simp [step, hcall] at h
    | none =>
      simp only [step, hcall] at h
      obtain ⟨stream, hstream, h⟩ := bind_eq_ok.mp h
      obtain rfl := Except.ok.inj h
      have hqueue : (m.stream.call (.write buf (some callback))) = .ok stream := by
        simp only [Stream.step] at hstream
        split_ifs at hstream
        exact hstream
      obtain ⟨buffer, hbuffer, hqueue⟩ := bind_eq_ok.mp hqueue
      obtain ⟨requests, happend, rfl⟩ := Stream.queueWrite_cases hqueue
      exact .write callback buf hcall hbuffer happend
  | ready event =>
    cases hcall : m.call with
    | none => simp [step, hcall] at h
    | some call =>
      simp only [step, hcall] at h
      split_ifs at h
      obtain ⟨stream, hstream, h⟩ := bind_eq_ok.mp h
      obtain rfl := Except.ok.inj h
      cases Stream.step_effect hstream with
      | ready _ _ hd _ hamong => exact .ready event hcall hd hamong
      | queue _ _ hact => cases hact
      | useBuffer _ _ hact => cases hact
  | wake =>
    cases hcall : m.call with
    | none => simp [step, hcall] at h
    | some call =>
      simp only [step, hcall] at h
      split_ifs at h with hgo
      obtain rfl := Except.ok.inj h
      exact .wake hcall hgo.2
  | xwrites results =>
    obtain ⟨stream, hstream, h⟩ := bind_eq_ok.mp h
    obtain rfl := Except.ok.inj h
    cases Stream.step_effect hstream with
    | xwrites _ _ hd hx => exact .xwrites hd hx
    | queue _ _ hact => cases hact
    | useBuffer _ _ hact => cases hact
  | xread result =>
    obtain ⟨stream, hstream, h⟩ := bind_eq_ok.mp h
    obtain rfl := Except.ok.inj h
    cases Stream.step_effect hstream with
    | xread _ _ hd hx => exact .xread hd hx
    | queue _ _ hact => cases hact
    | useBuffer _ _ hact => cases hact
  | callback =>
    simp only [step] at h
    split_ifs at h
    exact runCallback_effect hcalls h
  | ret =>
    cases hcall : m.call with
    | none => simp [step, hcall] at h
    | some call =>
      simp only [step, hcall] at h
      split_ifs at h with hends
      obtain rfl := Except.ok.inj h
      exact .ret hcall (Bool.eq_false_iff.mpr hends.1) hends.2

end Session

end WhatTheEvent
