import WhatTheEvent.EchoServer.Pending
import WhatTheEvent.Stream.Received

/-!
# A connection of the echo server

A `Connection` owns a stream and the two callbacks that it is used with: what was read is written
back, and the connection is deleted at the end of the data or at an error. A step is one that the
stream takes by itself, together with the callback that it calls, up to the return of the callback.
-/

namespace WhatTheEvent

variable {β : Type}

/-- `Connection`, whose callbacks have no state of their own. -/
abbrev Connection (β : Type) := Stream (Requests (WriteRequest β)) β

/-- An event that is dispatched to a connection, or what the system calls of its stream return. -/
inductive ConnectionAct (β : Type) where
  | ready (event : What)
  | xwrites (results : List WriteResult)
  | xread (result : ReadResult β)
  deriving DecidableEq, Repr

def ConnectionAct.toAct : ConnectionAct β → Act β
  | ready event => .ready event
  | xwrites results => .xwrites results
  | xread result => .xread result

namespace Connection

def readCb : Nat := 0

def writeCb : Nat := 1

/-- The connection that `acceptCb` constructs, after the call of `startRead`. -/
def acceptCb (fd : Int) : Connection β := Stream.startRead (.new fd) (some readCb)

/-- `~Connection`, with the destructor of the stream. -/
def destructor : List (Act β) := [.stopRead, .close, .destroy]

/-- What the callback does for which the stream waits, up to its return: `available`, `eof` and
`error` of `EchoReadCallback`, `complete` and `error` of `EchoWriteCallback`. -/
def callback : Dispatch → List (Act β)
  | .readAvailable _ => [.writeReadBuffer (some writeCb), .ret]
  | .readEnded => destructor ++ [.ret]
  | .writeDone _ _ => [.ret]
  | .writeFailed _ => destructor ++ [.ret]
  | _ => []

/-- The callback that the stream has called, if there is one. -/
def react (s : Connection β) : Except Fault (Connection β) :=
  match s.dispatch with
  | some d => Exec.exec Stream.step s (callback d)
  | none => .ok s

def step (s : Connection β) (act : ConnectionAct β) : Except Fault (Connection β) := do
  let s ← Stream.step s act.toAct
  react s

end Connection

end WhatTheEvent
