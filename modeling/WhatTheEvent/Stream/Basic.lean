import WhatTheEvent.Buffer.Pool
import WhatTheEvent.Library.Loop
import WhatTheEvent.Stream.Handler
import WhatTheEvent.Stream.RequestQueue

/-!
# Streams

`StreamImpl` as a state machine. A method runs until it needs the result of a system call or
calls a callback; what is left of it then is kept in the state, as a `Dispatch` for the event that
is dispatched and as a `PendingCall` for a call of the user. Callbacks may call the stream again,
and may destroy it.
-/

namespace WhatTheEvent

variable {β Q : Type}

/-- What is left to do of `ready(event)` once what it waits for has happened. -/
inductive Dispatch where
  /-- `connectHelper`, before `getsockopt`. -/
  | connectHelper (event : What)
  /-- The connect callback, called from `connectHelper`. -/
  | connectDone (event : What)
  /-- `writeHelper`, before the extents of `req` are written. -/
  | writeHelper (event : What) (req : Nat)
  /-- `complete()`, called from `writeHelper` before it goes on to `next`. -/
  | writeDone (event : What) (next : Option Nat)
  /-- `error()`, called from `writeHelper`. -/
  | writeFailed (event : What)
  /-- `readHelper`, before `xread`. -/
  | readHelper
  /-- `available()`, called from `readHelper` after `nread` bytes were read. -/
  | readAvailable (nread : Nat)
  /-- `eof()` or `error()`, called from `readHelper`. -/
  | readEnded
  deriving DecidableEq, Repr

/-- Whether `ready` waits for a callback, which may call methods of the stream. -/
def Dispatch.isCallback : Dispatch → Bool
  | .connectHelper _ => false
  | .writeHelper _ _ => false
  | .readHelper => false
  | _ => true

/-- What is left to do of another method of the stream once its callback has returned. -/
inductive PendingCall where
  /-- `close`, after `eof()`. -/
  | closeRead
  /-- `close`, after the connect callback. -/
  | closeConnect
  /-- `connect`, after the connect callback. -/
  | connect
  deriving DecidableEq, Repr

/-- What happens between a stream, the socket and the callbacks. -/
inductive Event (β : Type) where
  /-- A call of `write` that allocates the request `req` for the cells. -/
  | write (req : Nat) (contents : List (Cell β)) (callback : Option Nat)
  | xwrite (fd : Int) (req : Nat) (data : List (Cell β)) (result : WriteResult)
  | writeComplete (req : Nat) (callback : Nat)
  | writeError (req : Nat) (callback : Nat) (message : String)
  | xread (fd : Int) (result : ReadResult β) (installed : Option Nat)
  | available (callback : Nat) (buffer : BufferImpl β)
  | eof (callback : Nat) (fromXread : Bool)
  | readError (callback : Nat) (message : String)
  | connectComplete (callback : Nat)
  | connectError (callback : Nat) (message : String)
  | xclose (fd : Int)
  deriving DecidableEq, Repr

/-- The members of a stream and of its handler, the methods in progress, and what has happened so
far. -/
structure Stream (Q β : Type) where
  /-- Whether the destructor has not run. -/
  alive : Bool
  fd : Int
  /-- The events of the handler; it is registered if there are any. -/
  watched : What
  requests : Q
  readCallback : Option Nat
  connectCallback : Option Nat
  readBuffer : BufferImpl β
  /-- The dispatch of an event, if one is in progress. -/
  dispatch : Option Dispatch
  /-- The calls of the user in progress, innermost first. -/
  calls : List PendingCall
  trace : List (Event β)
  deriving DecidableEq, Repr

/-- A call of a method by the user of the stream, or something that the stream waits for. -/
inductive Act (β : Type) where
  | write (buf : List β) (callback : Option Nat)
  | writeBuffer (source : BufferImpl β) (callback : Option Nat)
  /-- `write(Buffer*)` of the buffer passed to `available()`. -/
  | writeReadBuffer (callback : Option Nat)
  | startRead (callback : Option Nat)
  | stopRead
  | close
  | connect (results : ConnectResults) (callback : Nat)
  | destroy
  /-- A call of the buffer passed to `available()`. -/
  | readBuffer (call : Call β)
  /-- The buffer passed to `available()` is spliced into another one. -/
  | moveReadBuffer
  /-- The event loop dispatches an event. -/
  | ready (event : What)
  | getsockopt (rc : Int) (err : Int)
  /-- The results of `xwrite` for the extents of a request, up to the first failure. -/
  | xwrites (results : List WriteResult)
  | xread (result : ReadResult β)
  /-- The innermost callback returns. -/
  | ret
  deriving DecidableEq, Repr

namespace Stream

variable [RequestQueue Q (WriteRequest β)]

/-- `StreamImpl(base, fd)`. -/
def new (fd : Int) : Stream Q β :=
  ⟨true, fd, .none, RequestQueue.empty, none, none, BufferImpl.empty, none, [], []⟩

/-- `sizeof(buf)` in `readHelper`. -/
def readSize : Nat := 4096

/-! ### The write side -/

/-- What both overloads of `write` do with the buffer of the new request. -/
def queueWrite (s : Stream Q β) (buffer : BufferImpl β) (callback : Option Nat) :
    Except Fault (Stream Q β) := do
  let requests ← RequestQueue.append s.requests ⟨buffer, callback⟩
  pure { s with
    requests
    watched := s.watched.ensureWrite
    trace := s.trace ++ [.write (RequestQueue.fresh s.requests) buffer.contents callback] }

/-- The end of `ready(event)`, once the write side is done. -/
def readyRead (s : Stream Q β) (event : What) : Stream Q β :=
  { s with dispatch := if event.isRead then some .readHelper else none }

/-- The loop of `writeHelper` from the request `req` on. -/
def writeLoop (s : Stream Q β) (event : What) : Option Nat → Stream Q β
  | some req => { s with dispatch := some (.writeHelper event req) }
  | none => s.readyRead event

def writeHelper (s : Stream Q β) (event : What) : Stream Q β :=
  s.writeLoop event (RequestQueue.head s.requests)

/-- What the loop over the extents of a request leaves behind. -/
structure WritePass (β : Type) where
  totalWritten : Nat
  blocked : Bool
  failed : Bool
  events : List (Event β)
  deriving DecidableEq, Repr

/-- The loop over the extents of `req`: a short count does not end it, a failure does. No result
counts more than it was given. -/
def writeExtents (fd : Int) (req : Nat) :
    List (List (Cell β)) → List WriteResult → Except Fault (WritePass β)
  | [], [] => .ok ⟨0, false, false, []⟩
  | data :: extents, .count n :: results =>
    if n ≤ data.length then do
      let pass ← writeExtents fd req extents results
      pure ⟨n + pass.totalWritten, decide (n < data.length) || pass.blocked, pass.failed,
        .xwrite fd req data (.count n) :: pass.events⟩
    else .error .disabled
  | data :: _, [.error e] => .ok ⟨0, false, true, [.xwrite fd req data (.error e)]⟩
  | _, _ => .error .disabled

/-- `writeHelper` from the writing of the extents of `req` to its next callback. The assertion
that there are extents is not compiled in by default. -/
def xwrites (s : Stream Q β) (event : What) (req : Nat) (results : List WriteResult) :
    Except Fault (Stream Q β) := do
  let request ← RequestQueue.get s.requests req
  let pass ← writeExtents s.fd req (request.buffer.peekExtents SizeT.max) results
  let buffer ← request.buffer.drain pass.totalWritten
  let requests ← RequestQueue.put s.requests req { request with buffer }
  let s := { s with requests, trace := s.trace ++ pass.events }
  if pass.blocked || pass.failed then
    match pass.failed, request.callback with
    | true, some cb =>
      pure { s with
        dispatch := some (.writeFailed event)
        trace := s.trace ++ [.writeError req cb "Write failed"] }
    | _, _ => pure (s.readyRead event)
  else do
    let (requests, next) ← RequestQueue.consumeFront s.requests
    let s := { s with
      requests
      watched := if next.isNone then s.watched.removeWrite else s.watched }
    match request.callback with
    | some cb =>
      pure { s with
        dispatch := some (.writeDone event next)
        trace := s.trace ++ [.writeComplete req cb] }
    | none => pure (s.writeLoop event next)

/-! ### The read side -/

def startRead (s : Stream Q β) (callback : Option Nat) : Stream Q β :=
  if s.readCallback = callback then s
  else { s with readCallback := callback, watched := s.watched.ensureRead }

def stopRead (s : Stream Q β) : Stream Q β :=
  if s.readCallback.isNone then s
  else if !s.watched.isRead then { s with readCallback := none }
  else if s.watched.isWrite then { s with readCallback := none, watched := .write }
  else { s with readCallback := none }

/-- `readHelper` from the return of `xread` to its next callback or `xread`. -/
def xread (s : Stream Q β) (result : ReadResult β) : Except Fault (Stream Q β) :=
  let s : Stream Q β := { s with trace := s.trace ++ [.xread s.fd result s.readCallback] }
  match result with
  | .error e =>
    match isReadRetryable e, s.readCallback with
    | false, some cb =>
      .ok { s with
        dispatch := some .readEnded
        trace := s.trace ++ [.readError cb "Read failed"] }
    | _, _ => .ok { s with dispatch := none }
  | .eof =>
    match s.readCallback with
    | some cb => .ok { s with dispatch := some .readEnded, trace := s.trace ++ [.eof cb true] }
    | none => .ok { s with dispatch := none }
  | .data bytes =>
    if 0 < bytes.length ∧ bytes.length ≤ readSize then do
      let readBuffer ← s.readBuffer.append bytes
      match s.readCallback with
      | some cb =>
        pure { s with
          readBuffer
          dispatch := some (.readAvailable bytes.length)
          trace := s.trace ++ [.available cb readBuffer] }
      | none =>
        pure { s with
          readBuffer
          dispatch := if bytes.length < readSize then none else some .readHelper }
    else .error .disabled

/-! ### Connecting and closing -/

/-- The end of `connectHelper`: the callback is taken out and called. `error` is the pointer that
the source tests in place of `err`; it is null unless `getsockopt` failed. -/
def getsockopt (s : Stream Q β) (event : What) (rc _err : Int) : Except Fault (Stream Q β) :=
  let error := if rc = -1 then some "Failed to query connection status" else none
  match s.connectCallback with
  | none => .error .nullDereference
  | some cb =>
    .ok { s with
      connectCallback := none
      dispatch := some (.connectDone event)
      trace := s.trace ++ [match error with
        | some message => .connectError cb message
        | none => .connectComplete cb] }

def ready (s : Stream Q β) (event : What) : Stream Q β :=
  if event.isWrite then
    if s.connectCallback.isSome then { s with dispatch := some (.connectHelper event) }
    else s.writeHelper event
  else s.readyRead event

/-- `close` from the unregistering of the handler on. -/
def closeFinish (s : Stream Q β) : Stream Q β :=
  let s := { s with watched := .none }
  if s.fd ≠ -1 then { s with trace := s.trace ++ [.xclose s.fd] } else s

/-- `close` from the test of the connect callback on. -/
def closeConnect (s : Stream Q β) : Stream Q β :=
  match s.connectCallback with
  | some cb =>
    { s with
      calls := .closeConnect :: s.calls
      trace := s.trace ++ [.connectError cb "Closed before connect"] }
  | none => s.closeFinish

def close (s : Stream Q β) : Stream Q β :=
  match s.readCallback with
  | some cb =>
    { s with calls := .closeRead :: s.calls, trace := s.trace ++ [.eof cb false] }
  | none => s.closeConnect

/-- The end of `connect` when it fails. -/
def connectFail (s : Stream Q β) (fd : Int) (callback : Nat) (error : String) : Stream Q β :=
  { s with
    calls := .connect :: s.calls
    trace := s.trace ++ (if fd = -1 then [] else [.xclose fd]) ++ [.connectError callback error] }

/-- `connect`, which may be called once before there is a descriptor. -/
def connect (s : Stream Q β) (results : ConnectResults) (callback : Nat) :
    Except Fault (Stream Q β) :=
  let fd := results.socket
  if s.fd = -1 ∧ s.connectCallback = none ∧ s.watched = .none then
    if fd = -1 then .ok (s.connectFail fd callback "Failed to allocate socket")
    else if results.setNonblocking = -1 then
      .ok (s.connectFail fd callback "Failed to set socket non-blocking")
    else if results.inetPton ≠ 1 then
      .ok (s.connectFail fd callback "Failed to convert address")
    else if results.connect = -1 then
      if isConnectRetryable results.errno then
        .ok { s with fd, connectCallback := some callback, watched := s.watched.ensureWrite }
      else .ok (s.connectFail fd callback "Connect failed")
    else
      .ok { s with
        fd
        calls := .connect :: s.calls
        trace := s.trace ++ [.connectComplete callback] }
  else .error .disabled

/-- `~StreamImpl`, which consumes requests until there are none. -/
def destroy (s : Stream Q β) : Except Fault (Stream Q β) := do
  let (requests, _) ← Loop.doWhile .diverges (fun r => r.2.isSome)
    (fun r => RequestQueue.consumeFront r.1) (RequestQueue.fresh s.requests + 1) (s.requests, none)
  pure { s with alive := false, watched := .none, requests, readBuffer := BufferImpl.empty }

/-! ### Steps -/

/-- An access to the members of the stream. -/
def access (s : Stream Q β) : Except Fault (Stream Q β) :=
  if s.alive then .ok s else .error .useAfterFree

/-- The end of `ready(event)` after a callback of the write side. -/
def resumeRead (s : Stream Q β) (event : What) : Except Fault (Stream Q β) :=
  if event.isRead then s.access.map (·.readyRead event) else .ok (s.readyRead event)

/-- `ready` goes on once its callback has returned. -/
def resumeDispatch (s : Stream Q β) : Dispatch → Except Fault (Stream Q β)
  | .connectDone event => s.access.map (·.writeHelper event)
  | .writeDone event (some next) => s.access.map (·.writeLoop event (some next))
  | .writeDone event none => s.resumeRead event
  | .writeFailed event => s.resumeRead event
  | .readAvailable nread =>
    if nread < readSize then .ok { s with dispatch := none }
    else s.access.map ({ · with dispatch := some .readHelper })
  | .readEnded => .ok { s with dispatch := none }
  | _ => .error .disabled

/-- Another method goes on once its callback has returned. -/
def resumeCall (s : Stream Q β) : PendingCall → Except Fault (Stream Q β)
  | .closeRead => s.access.map closeConnect
  | .closeConnect => s.access.map closeFinish
  | .connect => .ok s

/-- Whether the user may call the stream: from outside, or from a callback. -/
def callable (s : Stream Q β) : Bool :=
  s.alive && match s.calls, s.dispatch with
    | [], some dispatch => dispatch.isCallback
    | _, _ => true

/-- Whether the innermost callback is `available()`, which is given the read buffer. -/
def inAvailable (s : Stream Q β) : Bool :=
  s.alive && match s.calls, s.dispatch with
    | [], some (.readAvailable _) => true
    | _, _ => false

/-- A call of the user. -/
def call (s : Stream Q β) : Act β → Except Fault (Stream Q β)
  | .write buf callback => do
    let buffer ← BufferImpl.empty.append buf
    s.queueWrite buffer callback
  | .writeBuffer source callback =>
    s.queueWrite (BufferImpl.empty.appendBuffer source).1 callback
  | .startRead callback => .ok (s.startRead callback)
  | .stopRead => .ok s.stopRead
  | .close => .ok s.close
  | .connect results callback => s.connect results callback
  | .destroy => s.destroy
  | _ => .error .disabled

/-- A use of the buffer passed to `available()`; it may not be reserved in. -/
def useReadBuffer (s : Stream Q β) : Act β → Except Fault (Stream Q β)
  | .writeReadBuffer callback =>
    let (buffer, readBuffer) := BufferImpl.empty.appendBuffer s.readBuffer
    { s with readBuffer }.queueWrite buffer callback
  | .readBuffer c =>
    if c.reserves = false ∧ c.payload.length < SizeT.objectLimit then
      (s.readBuffer.call c).map fun r => { s with readBuffer := r.1 }
    else .error .disabled
  | .moveReadBuffer => .ok { s with readBuffer := BufferImpl.empty }
  | _ => .error .disabled

/-- What `ready` waits for happens. -/
def advance (s : Stream Q β) (act : Act β) : Except Fault (Stream Q β) :=
  match act, s.dispatch with
  | .getsockopt rc err, some (.connectHelper event) => s.getsockopt event rc err
  | .xwrites results, some (.writeHelper event req) => s.xwrites event req results
  | .xread result, some .readHelper => s.xread result
  | _, _ => .error .disabled

/-- The innermost callback returns. -/
def ret (s : Stream Q β) : Except Fault (Stream Q β) :=
  match s.calls, s.dispatch with
  | call :: calls, _ => { s with calls }.resumeCall call
  | [], some dispatch => s.resumeDispatch dispatch
  | [], none => .error .disabled

def step (s : Stream Q β) (act : Act β) : Except Fault (Stream Q β) :=
  match act with
  | .ready event =>
    if s.alive ∧ s.dispatch = none ∧ s.calls = [] ∧ event ≠ .none ∧ event.Among s.watched then
      .ok (s.ready event)
    else .error .disabled
  | .getsockopt _ _ | .xwrites _ | .xread _ =>
    if s.alive ∧ s.calls = [] then s.advance act else .error .disabled
  | .ret => s.ret
  | .writeReadBuffer _ | .readBuffer _ | .moveReadBuffer =>
    if s.inAvailable then s.useReadBuffer act else .error .disabled
  | _ => if s.callable then s.call act else .error .disabled

end Stream

end WhatTheEvent
