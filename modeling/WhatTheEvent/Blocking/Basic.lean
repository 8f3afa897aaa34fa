import WhatTheEvent.Stream.Basic

/-!
# Blocking streams

`BlockingStreamImpl::read` on top of a stream: it installs a callback and runs the event loop until
the callback has what it wants. What arrives on the socket is given as the list of the results of
`xread`, after which there is only the end of stream.
-/

namespace WhatTheEvent

variable {β Q : Type}

/-- `BlockingReadCallback`. -/
structure BlockingReadCallback (β : Type) where
  /-- The cells stored to `buffer_[0]`, `buffer_[1]` and so on. -/
  buffer : List (Cell β)
  size : Nat
  nread : Nat
  eof : Bool
  error : Option String
  deriving DecidableEq, Repr

namespace BlockingReadCallback

def new (expected : Nat) : BlockingReadCallback β := ⟨[], expected, 0, false, none⟩

/-- What `available` asks the buffer for. -/
def wanted (cb : BlockingReadCallback β) : Nat := SizeT.sub cb.size cb.nread

/-- `available(buf)`, on the callback. -/
def available (cb : BlockingReadCallback β) (buf : BufferImpl β) : BlockingReadCallback β :=
  let out := (buf.read cb.wanted).2
  { cb with buffer := cb.buffer ++ out, nread := SizeT.add cb.nread out.length }

/-- The condition of the loop in `read`. -/
def unsatisfied (cb : BlockingReadCallback β) : Bool :=
  decide (cb.nread < cb.size) && cb.error.isNone && !cb.eof

end BlockingReadCallback

/-- A call of `read(buf, size)` with the address of its callback. -/
structure ReadCall where
  callback : Nat
  size : Nat
  deriving DecidableEq, Repr

/-- What a call of `read` did. -/
structure ReadRecord (β : Type) where
  size : Nat
  /-- The cells stored to `buf[0]`, `buf[1]` and so on. -/
  stored : List (Cell β)
  /-- The count returned, or the message of what is thrown. -/
  result : Except String Nat
  /-- The read buffer of the stream whenever the event loop was run. -/
  waits : List (BufferImpl β)
  /-- The values of `nread_` after the calls of `available`. -/
  nreads : List Nat
  /-- The read buffer of the stream in the end. -/
  left : BufferImpl β

/-- A blocking stream, with what is going to arrive and what its calls did. -/
structure BlockingStream (Q β : Type) where
  stream : Stream Q β
  incoming : List (ReadResult β)
  reads : List (ReadRecord β)

/-- The local state of `read`. -/
structure ReadProgress (Q β : Type) where
  stream : Stream Q β
  incoming : List (ReadResult β)
  cb : BlockingReadCallback β
  waits : List (BufferImpl β)
  nreads : List Nat

namespace ReadProgress

variable [RequestQueue Q (WriteRequest β)]

/-- The method of the callback that the stream has just called. -/
def notify (r : ReadProgress Q β) : Except Fault (ReadProgress Q β) :=
  match r.stream.trace.getLast? with
  | some (.available _ _) => do
    let stream ← r.stream.step (.readBuffer (.read r.cb.wanted))
    let cb := r.cb.available r.stream.readBuffer
    pure { r with stream, cb, nreads := r.nreads ++ [cb.nread] }
  | some (.eof _ _) => .ok { r with cb := { r.cb with eof := true } }
  | some (.readError _ message) => .ok { r with cb := { r.cb with error := some message } }
  | _ => .error .disabled

/-- The stream goes on with the next result of `xread`, or after its callback. -/
def resume (r : ReadProgress Q β) : Except Fault (ReadProgress Q β) :=
  match r.stream.dispatch with
  | some .readHelper => do
    let stream ← r.stream.step (.xread (r.incoming.headD .eof))
    pure { r with stream, incoming := r.incoming.tail }
  | _ => do
    let r ← r.notify
    let stream ← r.stream.step .ret
    pure { r with stream }

/-- `base_->loop(ONCE)`, which waits until the socket is readable and dispatches that. -/
def loopOnce (r : ReadProgress Q β) : Except Fault (ReadProgress Q β) := do
  let stream ← r.stream.step (.ready .read)
  let r' ← Loop.whileDo .diverges (fun r => r.stream.dispatch.isSome) resume
    (2 * r.incoming.length + 3) { r with stream }
  pure { r' with waits := r.waits ++ [r.stream.readBuffer] }

/-- What is known once the loop of `read` has ended. -/
def record (r : ReadProgress Q β) : ReadRecord β where
  size := r.cb.size
  stored := r.cb.buffer
  result := match r.cb.error with
    | some message => .error message
    | none => .ok r.cb.nread
  waits := r.waits
  nreads := r.nreads
  left := r.stream.readBuffer

end ReadProgress

namespace BlockingStream

variable [RequestQueue Q (WriteRequest β)]

/-- `BlockingStreamImpl(fd)`. -/
def new (fd : Int) (incoming : List (ReadResult β)) : BlockingStream Q β :=
  ⟨Stream.new fd, incoming, []⟩

/-- `read(buf, size)`. -/
def read (b : BlockingStream Q β) (call : ReadCall) : Except Fault (BlockingStream Q β) := do
  let stream ← b.stream.step (.startRead (some call.callback))
  let r ← Loop.doWhile .diverges (fun r => r.cb.unsatisfied) ReadProgress.loopOnce
    (b.incoming.length + 1) ⟨stream, b.incoming, .new call.size, [], []⟩
  pure ⟨r.stream, r.incoming, b.reads ++ [r.record]⟩

end BlockingStream

end WhatTheEvent
