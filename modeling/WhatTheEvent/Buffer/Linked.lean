import WhatTheEvent.Buffer.Pool
import WhatTheEvent.Library.Heap
import WhatTheEvent.Library.Ledger
import WhatTheEvent.Library.Ring

/-!
# Buffers in memory

`BufferImpl` with the circular list of its extents as it lies in memory: every read and write of a
pointer is a step, and the allocator may be out of memory. A program runs over any number of
buffers in one memory, from which they take their extents and hand them to each other.
-/

namespace WhatTheEvent

variable {β : Type}

/-- `InternalExtent` with its pointers. -/
structure LinkedExtent (β : Type) where
  extent : InternalExtent β
  prev : Option Nat
  next : Option Nat
  deriving DecidableEq, Repr

/-- The memory that the buffers share. -/
structure ExtentMemory (β : Type) where
  /-- The extents, the `head_` of every buffer among them. -/
  heap : Heap (LinkedExtent β)
  /-- What `new InternalExtent` and `delete` were called for. -/
  history : List (Ledger.Entry Nat)
  deriving DecidableEq, Repr

namespace ExtentMemory

def empty : ExtentMemory β := ⟨Heap.empty, []⟩

/-- `*p`. -/
def deref (m : ExtentMemory β) : Option Nat → Except Fault (LinkedExtent β)
  | none => .error .nullDereference
  | some p =>
    match m.heap.load p with
    | some node => .ok node
    | none => .error .useAfterFree

/-- `*p = node`. -/
def store (m : ExtentMemory β) (p : Option Nat) (node : LinkedExtent β) : ExtentMemory β :=
  match p with
  | none => m
  | some p => { m with heap := m.heap.store p node }

/-- `p->next = q`. -/
def setNext (m : ExtentMemory β) (p q : Option Nat) : Except Fault (ExtentMemory β) := do
  let node ← m.deref p
  pure (m.store p { node with next := q })

/-- `p->prev = q`. -/
def setPrev (m : ExtentMemory β) (p q : Option Nat) : Except Fault (ExtentMemory β) := do
  let node ← m.deref p
  pure (m.store p { node with prev := q })

/-- A change of `*p` that leaves its pointers. -/
def setExtent (m : ExtentMemory β) (p : Option Nat) (extent : InternalExtent β) :
    Except Fault (ExtentMemory β) := do
  let node ← m.deref p
  pure (m.store p { node with extent })

def cellSize : Option (LinkedExtent β) → Nat
  | some node => node.extent.size
  | none => 0

/-- The bytes that the extents take. -/
def allocated (m : ExtentMemory β) : Nat := (m.heap.cells.map cellSize).sum

/-- `new InternalExtent(size)`, `none` if it throws. `granted` tells whether there is memory, in an
address space in which the extents together do not reach `2 ^ 63` bytes. -/
def new (m : ExtentMemory β) (size : Nat) (granted : Bool) : Option (ExtentMemory β × Nat) :=
  match InternalExtent.new size with
  | .ok extent =>
    if granted = true ∧ m.allocated + size < SizeT.objectLimit then
      some ({ m with heap := m.heap.alloc ⟨extent, none, none⟩,
                     history := m.history ++ [.acquire m.heap.fresh] }, m.heap.fresh)
    else none
  | .error _ => none

/-- `delete p`. -/
def delete (m : ExtentMemory β) : Option Nat → Except Fault (ExtentMemory β)
  | none => .ok m
  | some p => do
    let _ ← m.deref (some p)
    pure { m with heap := m.heap.free p, history := m.history ++ [.release p] }

/-! ### The lists -/

/-- `listAppend(head, head2, tail)`. -/
def listAppend (m : ExtentMemory β) (head head2 tail : Option Nat) :
    Except Fault (ExtentMemory β) := do
  let last ← m.deref head
  let m ← m.setPrev head2 last.prev
  let first ← m.deref head2
  let m ← m.setNext first.prev head2
  let m ← m.setNext tail head
  let last ← m.deref tail
  m.setPrev last.next tail

/-- `listPrepend(head, head2, tail)`. -/
def listPrepend (m : ExtentMemory β) (head head2 tail : Option Nat) :
    Except Fault (ExtentMemory β) := do
  let first ← m.deref head
  let m ← m.setNext tail first.next
  let last ← m.deref tail
  let m ← m.setPrev last.next tail
  let m ← m.setPrev head2 head
  let first ← m.deref head2
  m.setNext first.prev head2

/-- `cur->prev->next = cur->next; cur->next->prev = cur->prev`. -/
def unlink (m : ExtentMemory β) (cur : Option Nat) : Except Fault (ExtentMemory β) := do
  let node ← m.deref cur
  let m ← m.setNext node.prev node.next
  let node ← m.deref cur
  m.setPrev node.next node.prev

/-- `list_empty()`, of the list at `head`. -/
def listEmpty (m : ExtentMemory β) (head : Nat) : Bool :=
  match m.deref (some head) with
  | .ok node => node.prev == some head
  | .error _ => false

end ExtentMemory

/-- Where a writable extent returned by `reserve` lies. -/
structure ReservedAt where
  extent : Nat
  offset : Nat
  size : Nat
  deriving DecidableEq, Repr

/-- How a call ends. -/
inductive LinkedResult (β : Type) where
  | copied (cells : List (Cell β))
  | extents (memory : List (List (Cell β)))
  | size (n : Nat)
  | empty (isEmpty : Bool)
  | reserved (extents : List ReservedAt)
  /-- `std::bad_alloc` was thrown. -/
  | badAlloc
  deriving DecidableEq, Repr

/-- `BufferImpl`. -/
structure LinkedBuffer where
  /-- The address of `head_`. -/
  head : Nat
  /-- `size_`. -/
  size : Nat
  deriving DecidableEq, Repr

/-- What a call leaves behind. -/
structure LinkedReturn (β : Type) where
  memory : ExtentMemory β
  size : Nat
  results : List (LinkedResult β)
  deriving DecidableEq, Repr

namespace LinkedBuffer

/-! ### Adding data -/

/-- The variables of the loops in `append` and `prepend`. -/
structure Filling (β : Type) where
  memory : ExtentMemory β
  cur : Option Nat
  remain : Nat
  /-- `new InternalExtent` threw. -/
  threw : Bool
  deriving DecidableEq, Repr

/-- `!cur || space(*cur) == 0`. -/
def lacks (space : InternalExtent β → Nat) (m : ExtentMemory β) (cur : Option Nat) :
    Except Fault Bool :=
  match cur with
  | none => .ok true
  | some _ => do
    let node ← m.deref cur
    pure (space node.extent == 0)

/-- `cur->append(buf, size)`. -/
def appendTo (m : ExtentMemory β) (cur : Option Nat) (buf : List β) (size : Nat) :
    Except Fault (ExtentMemory β × Nat) := do
  let node ← m.deref cur
  let (extent, nwrite) ← node.extent.append buf size
  let m ← m.setExtent cur extent
  pure (m, nwrite)

/-- `cur->prepend(buf, size)`. -/
def prependTo (m : ExtentMemory β) (cur : Option Nat) (buf : List β) (size : Nat) :
    Except Fault (ExtentMemory β × Nat) := do
  let node ← m.deref cur
  let (extent, nwrite) ← node.extent.prepend buf size
  let m ← m.setExtent cur extent
  pure (m, nwrite)

/-- One round of the loop in `append`. -/
def appendRound (head : Nat) (buf : List β) (granted : Bool) (st : Filling β) :
    Except Fault (Filling β) := do
  let lacking ← lacks InternalExtent.appendable st.memory st.cur
  if lacking then
    match st.memory.new st.remain granted with
    | none => pure { st with threw := true }
    | some (m, cur) =>
      let m ← m.listAppend (some head) (some cur) (some cur)
      let (m, n) ← appendTo m (some cur) buf st.remain
      pure ⟨m, some cur, SizeT.sub st.remain n, false⟩
  else
    let (m, n) ← appendTo st.memory st.cur buf st.remain
    pure { st with memory := m, remain := SizeT.sub st.remain n }

/-- `append(buf, size)`; the loop runs again while `remain > size`. -/
def append (b : LinkedBuffer) (m : ExtentMemory β) (buf : List β) (granted : Bool) :
    Except Fault (LinkedReturn β) := do
  let head ← m.deref (some b.head)
  let cur := if m.listEmpty b.head then none else head.prev
  let st ← Loop.doWhile .diverges
    (fun st => !st.threw && decide (st.remain > buf.length)) (appendRound b.head buf granted)
    (buf.length + 1) ⟨m, cur, buf.length, false⟩
  if st.threw then pure ⟨st.memory, b.size, [.badAlloc]⟩
  else pure ⟨st.memory, SizeT.add b.size buf.length, []⟩

/-- One round of the loop in `prepend`. `buf` is not advanced from one round to the next. -/
def prependRound (head : Nat) (buf : List β) (granted : Bool) (st : Filling β) :
    Except Fault (Filling β) := do
  let lacking ← lacks InternalExtent.prependable st.memory st.cur
  if lacking then
    match st.memory.new st.remain granted with
    | none => pure { st with threw := true }
    | some (m, cur) =>
      let (m, n) ← appendTo m (some cur) buf st.remain
      let m ← m.listPrepend (some head) (some cur) (some cur)
      pure ⟨m, some cur, SizeT.sub st.remain n, false⟩
  else
    let (m, n) ← prependTo st.memory st.cur buf st.remain
    pure { st with memory := m, remain := SizeT.sub st.remain n }

/-- `prepend(buf, size)`. -/
def prepend (b : LinkedBuffer) (m : ExtentMemory β) (buf : List β) (granted : Bool) :
    Except Fault (LinkedReturn β) := do
  let head ← m.deref (some b.head)
  let cur := if m.listEmpty b.head then none else head.next
  let st ← Loop.doWhile .diverges
    (fun st => !st.threw && decide (st.remain > 0)) (prependRound b.head buf granted)
    (buf.length + 1) ⟨m, cur, buf.length, false⟩
  if st.threw then pure ⟨st.memory, b.size, [.badAlloc]⟩
  else pure ⟨st.memory, SizeT.add b.size buf.length, []⟩

/-- `reset()`. -/
def reset (b : LinkedBuffer) (m : ExtentMemory β) :
    Except Fault (LinkedBuffer × ExtentMemory β) := do
  let m ← m.setPrev (some b.head) (some b.head)
  let m ← m.setNext (some b.head) (some b.head)
  pure ({ b with size := 0 }, m)

/-- `append(Buffer*)` for another buffer `o`, both buffers after the call and the memory. -/
def appendBuffer (b o : LinkedBuffer) (m : ExtentMemory β) :
    Except Fault (LinkedBuffer × LinkedBuffer × ExtentMemory β) := do
  if m.listEmpty o.head then pure (b, o, m)
  else
    let head ← m.deref (some o.head)
    let m ← m.listAppend (some b.head) head.next head.prev
    let b := { b with size := SizeT.add b.size o.size }
    let (o, m) ← o.reset m
    pure (b, o, m)

/-- `prepend(Buffer*)` for another buffer `o`, both buffers after the call and the memory. -/
def prependBuffer (b o : LinkedBuffer) (m : ExtentMemory β) :
    Except Fault (LinkedBuffer × LinkedBuffer × ExtentMemory β) := do
  if m.listEmpty o.head then pure (b, o, m)
  else
    let head ← m.deref (some o.head)
    let m ← m.listPrepend (some b.head) head.next head.prev
    let b := { b with size := SizeT.add b.size o.size }
    let (o, m) ← o.reset m
    pure (b, o, m)

/-! ### Reserving space -/

/-- The end of both forms of `reserve`: a new extent, if any space is still required. -/
def reserveRest (b : LinkedBuffer) (m : ExtentMemory β) (required : Nat) (granted : Bool) :
    Except Fault (Option (ExtentMemory β × List ReservedAt)) := do
  if required > 0 then
    match m.new required granted with
    | none => pure none
    | some (m, cur) =>
      let m ← m.listAppend (some b.head) (some cur) (some cur)
      pure (some (m, [⟨cur, 0, required⟩]))
  else pure (some (m, []))

/-- What `reserve(size)` requires beyond the space of the last extent. -/
def required (b : LinkedBuffer) (m : ExtentMemory β) (size : Nat) : Except Fault Nat :=
  if m.listEmpty b.head then .ok size
  else do
    let head ← m.deref (some b.head)
    let last ← m.deref head.prev
    pure (SizeT.sub size last.extent.appendable)

/-- `reserve(size)`. -/
def reserve (b : LinkedBuffer) (m : ExtentMemory β) (size : Nat) (granted : Bool) :
    Except Fault (LinkedReturn β) := do
  let required ← b.required m size
  match ← b.reserveRest m required granted with
  | none => pure ⟨m, b.size, [.badAlloc]⟩
  | some (m, _) => pure ⟨m, b.size, []⟩

/-- The space of the last extent that `reserve(size, extents)` hands out, and what it requires
beyond it. -/
def available (b : LinkedBuffer) (m : ExtentMemory β) (size : Nat) :
    Except Fault (List ReservedAt × Nat) :=
  if m.listEmpty b.head then .ok ([], size)
  else do
    let head ← m.deref (some b.head)
    let p ← m.deref head.prev
    let avail := p.extent.appendable
    if avail > 0 then
      pure ((head.prev.map fun a => ⟨a, p.extent.writeOffset, avail⟩).toList, SizeT.sub size avail)
    else pure ([], size)

/-- `reserve(size, extents)`. -/
def reserveExtents (b : LinkedBuffer) (m : ExtentMemory β) (size : Nat) (granted : Bool) :
    Except Fault (LinkedReturn β) := do
  let (extents, required) ← b.available m size
  match ← b.reserveRest m required granted with
  | none => pure ⟨m, b.size, [.badAlloc]⟩
  | some (m, later) => pure ⟨m, b.size, [.reserved (extents ++ later)]⟩

/-! ### Taking data out -/

/-- One round of the loop in `drain`, on the memory and `remain`. -/
def drainRound (head : Nat) : ExtentMemory β × Nat → Except Fault (ExtentMemory β × Nat)
  | (m, remain) => do
    let sentinel ← m.deref (some head)
    let cur := sentinel.next
    let node ← m.deref cur
    let consume := min remain node.extent.readable
    let (extent, nodeRemain) := node.extent.consume consume
    let m ← m.setExtent cur extent
    if nodeRemain = 0 then
      let m ← m.unlink cur
      let m ← m.delete cur
      pure (m, remain - consume)
    else pure (m, remain - consume)

/-- `remain > 0 && !list_empty()`. -/
def draining (head : Nat) (st : ExtentMemory β × Nat) : Bool :=
  decide (st.2 > 0) && !st.1.listEmpty head

/-- `drain(count)`. -/
def drain (b : LinkedBuffer) (m : ExtentMemory β) (count : Nat) :
    Except Fault (LinkedReturn β) := do
  let (m, remain) ← Loop.whileDo .diverges (draining b.head) (drainRound b.head)
    (m.heap.fresh + 1) (m, count)
  pure ⟨m, SizeT.sub b.size (count - remain), []⟩

/-- The variables of the loop in `read(buf, size, nread, consume)`. -/
structure Reading (β : Type) where
  memory : ExtentMemory β
  cur : Option Nat
  /-- The cells stored to `buf`, whose number is `total`. -/
  out : List (Cell β)
  /-- `size_`. -/
  bufSize : Nat
  /-- The loop was left by `break`. -/
  stopped : Bool
  deriving DecidableEq, Repr

/-- One round of the loop in `read(buf, size, nread, consume)`. -/
def readRound (size : Nat) (consume : Bool) (st : Reading β) : Except Fault (Reading β) := do
  let node ← st.memory.deref st.cur
  let cells := node.extent.copyout size
  if !consume then pure { st with cur := node.next, out := st.out ++ cells }
  else
    let bufSize := SizeT.sub st.bufSize cells.length
    let (extent, remain) := node.extent.consume cells.length
    let m ← st.memory.setExtent st.cur extent
    if remain = 0 then
      let m ← m.unlink st.cur
      let node ← m.deref st.cur
      let m ← m.delete st.cur
      pure ⟨m, node.next, st.out ++ cells, bufSize, false⟩
    else pure ⟨m, st.cur, st.out ++ cells, bufSize, true⟩

/-- `cur != &head_ && total < size`, unless the loop was left. -/
def reading (head size : Nat) (st : Reading β) : Bool :=
  !st.stopped && st.cur != some head && decide (st.out.length < size)

/-- `read(buf, size, nread, consume)`. -/
def readOut (b : LinkedBuffer) (m : ExtentMemory β) (size : Nat) (consume : Bool) :
    Except Fault (LinkedReturn β) := do
  let head ← m.deref (some b.head)
  let st ← Loop.whileDo .diverges (reading b.head size) (readRound size consume)
    (m.heap.fresh + 1) ⟨m, head.next, [], b.size, false⟩
  pure ⟨st.memory, st.bufSize, [.copied st.out]⟩

/-- One round of the loop in `peek(size, extents)`, on `cur`, `total` and the extents. -/
def peekRound (m : ExtentMemory β) (size : Nat) :
    Option Nat × Nat × List (List (Cell β)) → Except Fault (Option Nat × Nat × List (List (Cell β)))
  | (cur, total, extents) => do
    let node ← m.deref cur
    let avail := node.extent.readable
    let granted := if avail > 0 then
      [(node.extent.data.drop node.extent.readOffset).take (min avail (size - total))] else []
    pure (node.next, total + avail, extents ++ granted)

/-- `cur != &head_ && total < size`. -/
def peeking (head size : Nat) (st : Option Nat × Nat × List (List (Cell β))) : Bool :=
  st.1 != some head && decide (st.2.1 < size)

/-- `peek(size, extents)`. -/
def peekExtents (b : LinkedBuffer) (m : ExtentMemory β) (size : Nat) :
    Except Fault (LinkedReturn β) := do
  let head ← m.deref (some b.head)
  let (_, _, extents) ← Loop.whileDo .diverges (peeking b.head size) (peekRound m size)
    (m.heap.fresh + 1) (head.next, 0, [])
  pure ⟨m, b.size, [.extents extents]⟩

/-- The method call on a buffer. -/
def call (b : LinkedBuffer) (m : ExtentMemory β) (granted : Bool) :
    Call β → Except Fault (LinkedReturn β)
  | .append buf => b.append m buf granted
  | .prepend buf => b.prepend m buf granted
  | .read size => b.readOut m size true
  | .peek size => b.readOut m size false
  | .peekExtents size => b.peekExtents m size
  | .drain count => b.drain m count
  | .size => .ok ⟨m, b.size, [.size b.size]⟩
  | .empty => .ok ⟨m, b.size, [.empty (b.size == 0)]⟩
  | .reserve size => b.reserve m size granted
  | .reserveExtents size => b.reserveExtents m size granted

end LinkedBuffer

/-! ### Programs -/

/-- The buffers created so far, `none` once destroyed, in their memory, and how the calls so far
have ended. -/
structure LinkedPool (β : Type) where
  memory : ExtentMemory β
  buffers : List (Option LinkedBuffer)
  results : List (LinkedResult β)
  deriving DecidableEq, Repr

namespace LinkedPool

def empty : LinkedPool β := ⟨.empty, [], []⟩

def get (s : LinkedPool β) (i : Nat) : Except Fault LinkedBuffer :=
  match s.buffers[i]? with
  | some (some b) => .ok b
  | some none => .error .useAfterFree
  | none => .error .disabled

/-- `mkBuffer()`. -/
def create (s : LinkedPool β) : LinkedPool β :=
  let head := s.memory.heap.fresh
  { s with
    memory := { s.memory with
      heap := s.memory.heap.alloc ⟨⟨[], 0, 0⟩, some head, some head⟩ }
    buffers := s.buffers ++ [some ⟨head, 0⟩] }

/-- The call of a method of a single buffer. -/
def call (s : LinkedPool β) (i : Nat) (c : Call β) (granted : Bool) :
    Except Fault (LinkedPool β) := do
  let b ← s.get i
  let r ← b.call s.memory granted c
  pure ⟨r.memory, s.buffers.set i (some { b with size := r.size }), s.results ++ r.results⟩

/-- The two buffers of a splice, which have to be different ones. -/
def getTwo (s : LinkedPool β) (i o : Nat) : Except Fault (LinkedBuffer × LinkedBuffer) := do
  if i = o then .error .disabled
  else
    let b ← s.get i
    let other ← s.get o
    pure (b, other)

/-- A call of one of the splices. -/
def spliceWith (splice : LinkedBuffer → LinkedBuffer → ExtentMemory β →
      Except Fault (LinkedBuffer × LinkedBuffer × ExtentMemory β))
    (s : LinkedPool β) (i o : Nat) : Except Fault (LinkedPool β) := do
  let (b, other) ← s.getTwo i o
  let (b, other, m) ← splice b other s.memory
  pure { s with memory := m, buffers := (s.buffers.set i (some b)).set o (some other) }

/-- `~BufferImpl()`, which drains the buffer; `head_` goes with it. -/
def destroy (s : LinkedPool β) (i : Nat) : Except Fault (LinkedPool β) := do
  let b ← s.get i
  let r ← b.drain s.memory SizeT.max
  pure { s with memory := { r.memory with heap := r.memory.heap.free b.head }
                buffers := s.buffers.set i none }

/-- A step, and whether the allocator has memory for an extent in it; no call needs two. -/
def step (s : LinkedPool β) : Op β × Bool → Except Fault (LinkedPool β)
  | (.create, _) => .ok s.create
  | (.call i c, granted) => s.call i c granted
  | (.appendBuffer i o, _) => s.spliceWith LinkedBuffer.appendBuffer i o
  | (.prependBuffer i o, _) => s.spliceWith LinkedBuffer.prependBuffer i o
  | (.destroy i, _) => s.destroy i

end LinkedPool

end WhatTheEvent
