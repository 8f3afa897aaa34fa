import WhatTheEvent.EventLoop.MpscQueue

/-!
# The event base

`LibeventEventBase`: any number of threads call `runOnEventLoop`, `runOnEventLoopAndWait` and `stop`
while one thread at a time is in `loop`. A step is one access to a member of the base, one step of
the queue, or one system call. The operation that is passed to a call is named by the call. Calls of
one thread may overlap in any way, which includes that an operation makes calls.
-/

namespace WhatTheEvent

/-- `LoopMode`. -/
inductive LoopMode where
  | once
  | untilEmpty
  | forever
  deriving DecidableEq, Repr

/-- The method that is called. -/
inductive CallKind where
  | runOnEventLoop (defer : Bool)
  | runOnEventLoopAndWait (defer : Bool)
  | stop
  deriving DecidableEq, Repr

/-- Where a call stands. -/
inductive CallPlace where
  /-- The call was not made. -/
  | idle
  /-- Before the test of `inLoopThread()` in `runOnEventLoopAndWait`. -/
  | entered
  /-- Before the test of `inLoopThread()` in `runOnEventLoop`. -/
  | scheduling
  /-- The caller runs the operation, inside the closure that sets `done` or by itself. -/
  | running (closure started : Bool)
  | pushing
  /-- Before the write in `signalNotifyQueue`. -/
  | signalling
  /-- `runOnEventLoopAndWait` waits for `done`, `stop` for `await_.finished`. -/
  | awaiting
  | returned (result : Bool)
  deriving DecidableEq, Repr

namespace CallKind

def defer : CallKind → Bool
  | runOnEventLoop defer => defer
  | runOnEventLoopAndWait defer => defer
  | stop => false

/-- The operation is called by a closure that sets `done`. -/
def isWait : CallKind → Bool
  | runOnEventLoopAndWait _ => true
  | _ => false

/-- Where the call begins. -/
def first : CallKind → CallPlace
  | runOnEventLoopAndWait _ => .entered
  | _ => .scheduling

/-- Where the call goes on once `runOnEventLoop` has returned, whose result `stop` ignores. -/
def after : CallKind → Bool → CallPlace
  | runOnEventLoop _, result => .returned result
  | runOnEventLoopAndWait _, true => .awaiting
  | runOnEventLoopAndWait _, false => .returned false
  | stop, _ => .awaiting

end CallKind

/-- A call with the thread that makes it and the variable `done` of `runOnEventLoopAndWait`. -/
structure BaseCall where
  thread : Nat
  kind : CallKind
  place : CallPlace
  done : Bool
  deriving DecidableEq, Repr

/-- Where the thread that drives the loop stands. -/
inductive LoopPlace where
  /-- No thread is in `loop`. -/
  | idle
  /-- Before `await_.finished` is set to false. -/
  | started (mode : LoopMode)
  /-- `runOpsInQueue`, in `pop`. -/
  | popping (mode : LoopMode)
  /-- `runOpsInQueue`, at an operation. -/
  | running (mode : LoopMode) (op : Nat) (started : Bool)
  /-- In `event_base_loop`. -/
  | waiting (mode : LoopMode)
  /-- `event_base_loop` has returned, `empty` if it found no event registered. -/
  | polled (mode : LoopMode) (empty : Bool)
  /-- Before `terminate_` is reset. -/
  | left
  /-- Before `loopThread_` is reset. -/
  | reset
  /-- Before `await_.finished` is set to true. -/
  | cleared
  deriving DecidableEq, Repr

/-- What happens to an operation. -/
inductive OpEvent where
  | started (op : Nat)
  | finished (op : Nat)
  deriving DecidableEq, Repr

structure EventBase where
  /-- `notify_.queue`. -/
  queue : MpscQueue Nat
  /-- The number of unread bytes in the notification pipe or socket pair. -/
  pipe : Nat
  /-- `loopThread_`. -/
  loopThread : Option Nat
  /-- `terminate_`. -/
  terminate : Bool
  /-- `await_.finished`. -/
  finished : Bool
  /-- Whether a loop exit is pending in libevent. -/
  loopExit : Bool
  loop : LoopPlace
  calls : Nat → BaseCall
  /-- What happened to the operations so far. -/
  events : List OpEvent

/-- A step of a call or of the thread in `loop`. -/
inductive BaseAct where
  | call (c thread : Nat) (kind : CallKind)
  /-- The test of `defer` and `inLoopThread()`. -/
  | check (c : Nat)
  /-- The operation that the caller runs starts or ends. -/
  | runOp (c : Nat)
  /-- `push` allocates the node at the address. -/
  | push (c addr : Nat)
  /-- The next step of `push`. -/
  | goOn (c : Nat)
  /-- The write in `signalNotifyQueue`, and whether it writes a byte. -/
  | signal (c : Nat) (written : Bool)
  /-- The call has what it waits for. -/
  | await (c : Nat)
  | loop (thread : Nat) (mode : LoopMode)
  /-- The next step of `loop`. -/
  | goOnLoop
  /-- `event_base_loop` dispatches the notification, of which `count` bytes are read. -/
  | notified (count : Nat)
  /-- `event_base_loop` returns. -/
  | polled (empty : Bool)
  deriving DecidableEq, Repr

namespace EventBase

/-- `LibeventEventBase()`. -/
def new (addr : Nat) : EventBase where
  queue := .new addr
  pipe := 0
  loopThread := none
  terminate := false
  finished := false
  loopExit := false
  loop := .idle
  calls _ := ⟨0, .stop, .idle, false⟩
  events := []

/-- `inLoopThread()`. -/
def inLoopThread (s : EventBase) (thread : Nat) : Bool :=
  match s.loopThread with
  | none => true
  | some cur => cur == thread

/-- The call goes on. -/
def moveTo (s : EventBase) (c : Nat) (place : CallPlace) : EventBase :=
  { s with calls := Function.update s.calls c { s.calls c with place } }

/-- The operation of the call starts; that of `stop` sets `terminate_`. -/
def startOp (s : EventBase) (c : Nat) : EventBase :=
  { s with
    events := s.events ++ [.started c]
    terminate := if (s.calls c).kind = .stop then true else s.terminate }

/-- The operation of the call ends; that of `stop` calls `event_base_loopexit`, and the closure sets
`done`. -/
def finishOp (s : EventBase) (c : Nat) (closure : Bool) : EventBase :=
  { s with
    events := s.events ++ [.finished c]
    loopExit := if (s.calls c).kind = .stop then true else s.loopExit
    calls := if closure then Function.update s.calls c { s.calls c with done := true }
      else s.calls }

/-- `!defer && inLoopThread()`, in `runOnEventLoopAndWait` and in `runOnEventLoop`. -/
def check (s : EventBase) (c : Nat) : Except Fault EventBase :=
  let call := s.calls c
  let inline := !call.kind.defer && s.inLoopThread call.thread
  match call.place with
  | .entered => .ok (s.moveTo c (if inline then .running false false else .scheduling))
  | .scheduling =>
    .ok (s.moveTo c (if inline then .running call.kind.isWait false else .pushing))
  | _ => .error .disabled

def runOp (s : EventBase) (c : Nat) : Except Fault EventBase :=
  let kind := (s.calls c).kind
  match (s.calls c).place with
  | .running closure false => .ok ((s.startOp c).moveTo c (.running closure true))
  | .running closure true =>
    .ok ((s.finishOp c closure).moveTo c
      (if kind.isWait && !closure then .returned true else kind.after true))
  | _ => .error .disabled

/-- The allocation in `push`. -/
def push (s : EventBase) (c addr : Nat) : Except Fault EventBase :=
  if (s.calls c).place = .pushing then do
    let queue ← s.queue.push c c addr
    pure { s with queue }
  else .error .disabled

/-- The next step of `push`, whose result tells whether to signal. -/
def goOn (s : EventBase) (c : Nat) : Except Fault EventBase :=
  if (s.calls c).place = .pushing then do
    let queue ← s.queue.pushStep c
    match queue.pushes c with
    | .returned _ true => pure ({ s with queue }.moveTo c .signalling)
    | .returned _ false => pure ({ s with queue }.moveTo c ((s.calls c).kind.after true))
    | _ => pure { s with queue }
  else .error .disabled

/-- `signalNotifyQueue()`. -/
def signal (s : EventBase) (c : Nat) (written : Bool) : Except Fault EventBase :=
  if (s.calls c).place = .signalling then
    .ok ({ s with pipe := if written then s.pipe + 1 else s.pipe }.moveTo c
      ((s.calls c).kind.after written))
  else .error .disabled

def await (s : EventBase) (c : Nat) : Except Fault EventBase :=
  let call := s.calls c
  if call.place = .awaiting ∧
      (if call.kind = .stop then s.finished else call.done) = true then
    .ok (s.moveTo c (.returned true))
  else .error .disabled

/-- The loop goes on or not once `event_base_loop` has returned. -/
def again (s : EventBase) : LoopMode → Bool → Bool
  | .once, _ => false
  | .untilEmpty, true => false
  | _, _ => !s.terminate

/-- `loop` between the waits in `event_base_loop`. -/
def goOnLoop (s : EventBase) : Except Fault EventBase :=
  match s.loop with
  | .started mode => .ok { s with finished := false, loop := .popping mode }
  | .popping mode => do
    let queue ← s.queue.popStep
    match queue.pop, queue.trace.getLast? with
    | .idle, some (.popped op) => pure { s with queue, loop := .running mode op false }
    | .idle, _ => pure { s with queue, loop := .waiting mode }
    | _, _ => pure { s with queue }
  | .running mode op false => .ok { s.startOp op with loop := .running mode op true }
  | .running mode op true =>
    .ok { s.finishOp op (s.calls op).kind.isWait with loop := .popping mode }
  | .polled mode empty =>
    .ok { s with loop := if s.again mode empty then .popping mode else .left }
  | .left => .ok { s with terminate := false, loop := .reset }
  | .reset => .ok { s with loopThread := none, loop := .cleared }
  | .cleared => .ok { s with finished := true, loop := .idle }
  | .idle | .waiting _ => .error .disabled

/-- `receiveNotifications()`, which reads at most 8 bytes. -/
def notified (s : EventBase) (count : Nat) : Except Fault EventBase :=
  match s.loop with
  | .waiting mode =>
    if 0 < count ∧ count ≤ 8 ∧ count ≤ s.pipe then
      .ok { s with pipe := s.pipe - count, loop := .popping mode }
    else .error .disabled
  | _ => .error .disabled

def step (s : EventBase) : BaseAct → Except Fault EventBase
  | .call c thread kind =>
    if (s.calls c).place = .idle then
      .ok { s with calls := Function.update s.calls c ⟨thread, kind, kind.first, false⟩ }
    else .error .disabled
  | .check c => s.check c
  | .runOp c => s.runOp c
  | .push c addr => s.push c addr
  | .goOn c => s.goOn c
  | .signal c written => s.signal c written
  | .await c => s.await c
  | .loop thread mode =>
    if s.loop = .idle then .ok { s with loopThread := some thread, loop := .started mode }
    else .error .disabled
  | .goOnLoop => s.goOnLoop
  | .notified count => s.notified count
  | .polled empty =>
    match s.loop with
    | .waiting mode => .ok { s with loopExit := false, loop := .polled mode empty }
    | _ => .error .disabled

end EventBase

end WhatTheEvent
