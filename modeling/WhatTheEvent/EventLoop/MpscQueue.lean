import Mathlib.Logic.Function.Basic
import WhatTheEvent.Library.Exec
import WhatTheEvent.Library.Heap
import WhatTheEvent.Library.Loop
import WhatTheEvent.Memory

/-!
# The queue of operations

`ConcurrentMPSCQueue`, whose calls of `push` run in any number of threads while one thread calls
`pop`. A step of the machine is one atomic operation, one allocation or deallocation, or one access
to a node. Addresses are used again once they are free, so that pointers which compare equal need
not point to the same node.
-/

namespace WhatTheEvent

variable {α : Type}

/-- A pointer to a node: its address, by which pointers are compared, and the allocation that it was
made for. -/
structure Ptr where
  addr : Nat
  node : Nat
  deriving DecidableEq, Repr

/-- `ConcurrentMPSCQueue::Node` at an address. -/
structure Node (α : Type) where
  addr : Nat
  data : α
  next : Option Ptr
  deriving DecidableEq, Repr

/-- Where a thread stands in a call of `push`. -/
inductive Push (α : Type) where
  /-- No call was made. -/
  | idle
  /-- Before the exchange of `head_`. -/
  | allocated (cur : Ptr) (item : α)
  /-- Before the first load of `tail_`. -/
  | exchanged (cur prev : Ptr)
  /-- Before the store to `prev->next`. -/
  | checked (cur prev : Ptr) (emptyAtInit : Bool)
  /-- Before the second load of `tail_`. -/
  | published (cur prev : Ptr)
  /-- The last call has returned. -/
  | returned (cur : Ptr) (wasEmpty : Bool)
  deriving DecidableEq, Repr

namespace Push

/-- No call is in progress. -/
def isFinished : Push α → Bool
  | idle => true
  | returned _ _ => true
  | _ => false

/-- The node that was allocated and not exchanged. -/
def holds : Push α → Option Nat
  | allocated cur _ => some cur.node
  | _ => none

/-- The call has still to store `cur` to `prev->next`. -/
def Linking (cur prev : Ptr) : Push α → Prop
  | exchanged cur' prev' => cur' = cur ∧ prev' = prev
  | checked cur' prev' _ => cur' = cur ∧ prev' = prev
  | _ => False

end Push

/-- Where the consumer stands in a call of `pop`. -/
inductive Pop where
  | idle
  /-- Before the load of `tail->next`. -/
  | loadedTail (tail : Ptr)
  /-- Before the store to `tail_`. -/
  | loadedNext (tail next : Ptr)
  /-- Before `freeAligned(tail)`. -/
  | storedTail (tail next : Ptr)
  /-- Before `next->data` is moved out. -/
  | freed (next : Ptr)
  deriving DecidableEq, Repr

/-- What has happened to a queue. -/
inductive QueueEvent (α : Type) where
  /-- The exchange of `head_` by the call of `push` that allocated the node. -/
  | exchange (node : Nat) (item : α)
  /-- The store of a pointer to the node to `prev->next`. -/
  | publish (node : Nat)
  /-- `pop` returned the item. -/
  | popped (item : α)
  /-- `pop` found no item. -/
  | empty
  | free (node : Nat)
  deriving DecidableEq, Repr

/-- A queue with the calls in progress. -/
structure MpscQueue (α : Type) where
  memory : Heap (Node α)
  head : Ptr
  tail : Ptr
  /-- The calls of `push`, by thread. -/
  pushes : Nat → Push α
  pop : Pop
  trace : List (QueueEvent α)

/-- A step of one of the threads. -/
inductive QueueAct (α : Type) where
  /-- A thread calls `push(item)`, and the node is allocated at the address. -/
  | push (thread : Nat) (item : α) (addr : Nat)
  /-- A thread goes on with its call of `push`. -/
  | goOn (thread : Nat)
  /-- The consumer calls `pop` or goes on with its call. -/
  | pop
  deriving DecidableEq, Repr

namespace MpscQueue

def deref (memory : Heap (Node α)) (p : Ptr) : Except Fault (Node α) :=
  match memory.load p.node with
  | some node => if node.addr = p.addr then .ok node else .error .useAfterFree
  | none => .error .useAfterFree

/-- `ConcurrentMPSCQueue()`, with a dummy node. -/
def new [Inhabited α] (addr : Nat) : MpscQueue α :=
  ⟨Heap.empty.alloc ⟨addr, default, none⟩, ⟨addr, 0⟩, ⟨addr, 0⟩, fun _ => .idle, .idle, []⟩

/-- No node lies at the address. -/
def isUnused (memory : Heap (Node α)) (addr : Nat) : Bool :=
  memory.cells.all fun cell => cell.all fun node => node.addr != addr

/-- The allocation of the node in `push`. -/
def push (s : MpscQueue α) (thread : Nat) (item : α) (addr : Nat) :
    Except Fault (MpscQueue α) :=
  if (s.pushes thread).isFinished ∧ isUnused s.memory addr then
    .ok { s with
      memory := s.memory.alloc ⟨addr, item, none⟩
      pushes := Function.update s.pushes thread (.allocated ⟨addr, s.memory.fresh⟩ item) }
  else .error .disabled

/-- The next step of `push`. -/
def pushStep (s : MpscQueue α) (thread : Nat) : Except Fault (MpscQueue α) :=
  match s.pushes thread with
  | .allocated cur item =>
    .ok { s with
      head := cur
      pushes := Function.update s.pushes thread (.exchanged cur s.head)
      trace := s.trace ++ [.exchange cur.node item] }
  | .exchanged cur prev =>
    let emptyAtInit := decide (prev.addr = s.tail.addr)
    .ok { s with pushes := Function.update s.pushes thread (.checked cur prev emptyAtInit) }
  | .checked cur prev emptyAtInit => do
    let node ← deref s.memory prev
    pure { s with
      memory := s.memory.store prev.node { node with next := some cur }
      pushes := Function.update s.pushes thread
        (if emptyAtInit then .returned cur true else .published cur prev)
      trace := s.trace ++ [.publish cur.node] }
  | .published cur prev =>
    let wasEmpty := decide (s.tail.addr = prev.addr)
    .ok { s with pushes := Function.update s.pushes thread (.returned cur wasEmpty) }
  | _ => .error .disabled

/-- The next step of `pop`. -/
def popStep (s : MpscQueue α) : Except Fault (MpscQueue α) :=
  match s.pop with
  | .idle => .ok { s with pop := .loadedTail s.tail }
  | .loadedTail tail => do
    let node ← deref s.memory tail
    match node.next with
    | none => pure { s with pop := .idle, trace := s.trace ++ [.empty] }
    | some next => pure { s with pop := .loadedNext tail next }
  | .loadedNext tail next => .ok { s with tail := next, pop := .storedTail tail next }
  | .storedTail tail next => do
    let _ ← deref s.memory tail
    pure { s with
      memory := s.memory.free tail.node
      pop := .freed next
      trace := s.trace ++ [.free tail.node] }
  | .freed next => do
    let node ← deref s.memory next
    pure { s with pop := .idle, trace := s.trace ++ [.popped node.data] }

def step (s : MpscQueue α) : QueueAct α → Except Fault (MpscQueue α)
  | .push thread item addr => s.push thread item addr
  | .goOn thread => s.pushStep thread
  | .pop => s.popStep

/-- A call of `pop` that nothing interrupts: whether it returned an item. -/
def popCall (s : MpscQueue α) : Except Fault (MpscQueue α × Bool) := do
  let s ← s.popStep
  let s ← s.popStep
  match s.pop with
  | .idle => pure (s, false)
  | _ => do
    let s ← s.popStep
    let s ← s.popStep
    let s ← s.popStep
    pure (s, true)

/-- `~ConcurrentMPSCQueue()`. -/
def destroy (s : MpscQueue α) : Except Fault (MpscQueue α) := do
  let (s, _) ← Loop.doWhile .diverges (fun r => r.2) (fun r => r.1.popCall)
    (s.memory.fresh + 1) (s, false)
  let _ ← deref s.memory s.head
  pure { s with
    memory := s.memory.free s.head.node
    trace := s.trace ++ [.free s.head.node] }

/-! ### What a queue should do -/

/-- The nodes and items in the order of the exchanges. -/
def exchanged (trace : List (QueueEvent α)) : List (Nat × α) :=
  trace.filterMap fun
    | .exchange node item => some (node, item)
    | _ => none

/-- The items that `pop` returned. -/
def popped (trace : List (QueueEvent α)) : List α :=
  trace.filterMap fun
    | .popped item => some item
    | _ => none

/-- The nodes that were freed. -/
def frees (trace : List (QueueEvent α)) : List Nat :=
  trace.filterMap fun
    | .free node => some node
    | _ => none

/-- All calls have returned. -/
def Quiescent (s : MpscQueue α) : Prop := (∀ thread, (s.pushes thread).isFinished) ∧ s.pop = .idle

/-- What `pop` returned is the front of what was exchanged, it found no item only when the next one
was not published, and the destructor leaves every node freed, and freed once. -/
structure QueueLaw (s : MpscQueue α) : Prop where
  fifo : popped s.trace <+: (exchanged s.trace).map Prod.snd
  empty : ∀ pre post, s.trace = pre ++ .empty :: post →
    ∀ node item, (exchanged pre)[(popped pre).length]? = some (node, item) → .publish node ∉ pre
  destroy : s.Quiescent → ∃ s', s.destroy = .ok s' ∧
    ∀ node < s'.memory.fresh, s'.memory.load node = none ∧ (frees s'.trace).count node = 1

end MpscQueue

end WhatTheEvent
