import WhatTheEvent.Library.Loop
import WhatTheEvent.Buffer.Extent

/-!
# Buffers

`BufferImpl` and its operations. The circular list of extents that hangs off `head_` is the list
of its extents, from `head_.next` to `head_.prev`.
-/

namespace WhatTheEvent

variable {β : Type}

structure BufferImpl (β : Type) where
  extents : List (InternalExtent β)
  /-- `size_`, which the source keeps apart from the extents. -/
  size : Nat
  deriving DecidableEq, Repr

/-- Where a writable extent returned by `reserve` lies. -/
structure ReservedExtent where
  /-- The position of its extent in the buffer. -/
  index : Nat
  offset : Nat
  size : Nat
  deriving DecidableEq, Repr

namespace BufferImpl

def empty : BufferImpl β := ⟨[], 0⟩

def isEmpty (b : BufferImpl β) : Bool := b.size == 0

/-! ### Adding data -/

/-- The extent `cur` that a round of `append` writes to, the last one or a new one if that is
missing or has no space, and the extents before it. -/
def appendTarget (extents : List (InternalExtent β)) (remain : Nat) :
    Except Fault (List (InternalExtent β) × InternalExtent β) :=
  match extents.getLast? with
  | some cur =>
    if cur.appendable = 0 then (InternalExtent.new remain).map (extents, ·)
    else .ok (extents.dropLast, cur)
  | none => (InternalExtent.new remain).map (extents, ·)

/-- One round of the loop in `append`, on the list and `remain`. -/
def appendRound (buf : List β) :
    List (InternalExtent β) × Nat → Except Fault (List (InternalExtent β) × Nat)
  | (extents, remain) => do
    let (front, cur) ← appendTarget extents remain
    let (cur, n) ← cur.append buf remain
    pure (front ++ [cur], SizeT.sub remain n)

/-- `append(buf, size)`; the loop runs again while `remain > size`. -/
def append (b : BufferImpl β) (buf : List β) : Except Fault (BufferImpl β) := do
  let (extents, _) ← Loop.doWhile .diverges (fun st => decide (st.2 > buf.length))
    (appendRound buf) (buf.length + 1) (b.extents, buf.length)
  pure ⟨extents, SizeT.add b.size buf.length⟩

/-- `append(Buffer*)` for another buffer `o`: both buffers after the call. -/
def appendBuffer (b o : BufferImpl β) : BufferImpl β × BufferImpl β :=
  if o.extents.isEmpty then (b, o)
  else (⟨b.extents ++ o.extents, SizeT.add b.size o.size⟩, empty)

/-- A round of `prepend` that starts a new extent. -/
def prependNew (buf : List β) (extents : List (InternalExtent β)) (remain : Nat) :
    Except Fault (List (InternalExtent β) × Nat) := do
  let cur ← InternalExtent.new remain
  let (cur, n) ← cur.append buf remain
  pure (cur :: extents, SizeT.sub remain n)

/-- One round of the loop in `prepend`, on the list and `remain`; `cur` is the first extent. `buf`
is not advanced from one round to the next. -/
def prependRound (buf : List β) :
    List (InternalExtent β) × Nat → Except Fault (List (InternalExtent β) × Nat)
  | ([], remain) => prependNew buf [] remain
  | (cur :: rest, remain) =>
    if cur.prependable = 0 then prependNew buf (cur :: rest) remain
    else do
      let (cur, n) ← cur.prepend buf remain
      pure (cur :: rest, SizeT.sub remain n)

/-- `prepend(buf, size)`. -/
def prepend (b : BufferImpl β) (buf : List β) : Except Fault (BufferImpl β) := do
  let (extents, _) ← Loop.doWhile .diverges (fun st => decide (st.2 > 0)) (prependRound buf)
    (buf.length + 1) (b.extents, buf.length)
  pure ⟨extents, SizeT.add b.size buf.length⟩

/-- `prepend(Buffer*)` for another buffer `o`: both buffers after the call. -/
def prependBuffer (b o : BufferImpl β) : BufferImpl β × BufferImpl β :=
  if o.extents.isEmpty then (b, o)
  else (⟨o.extents ++ b.extents, SizeT.add b.size o.size⟩, empty)

/-! ### Reserving space -/

/-- What the last extent still takes, `0` if there is none. -/
def spare (b : BufferImpl β) : Nat :=
  match b.extents.getLast? with
  | some cur => cur.appendable
  | none => 0

/-- `reserve(size)`. -/
def reserve (b : BufferImpl β) (size : Nat) : Except Fault (BufferImpl β) := do
  let required := SizeT.sub size b.spare
  if required > 0 then
    let cur ← InternalExtent.new required
    pure { b with extents := b.extents ++ [cur] }
  else pure b

/-- `reserve(size, extents)`. -/
def reserveExtents (b : BufferImpl β) (size : Nat) :
    Except Fault (BufferImpl β × List ReservedExtent) := do
  let granted := match b.extents.getLast? with
    | some p =>
      if p.appendable > 0 then [⟨b.extents.length - 1, p.writeOffset, p.appendable⟩] else []
    | none => []
  let required := SizeT.sub size b.spare
  if required > 0 then
    let cur ← InternalExtent.new required
    pure ({ b with extents := b.extents ++ [cur] },
      granted ++ [⟨b.extents.length, 0, required⟩])
  else pure (b, granted)

/-! ### Taking data out -/

/-- One round of the loop in `drain`: the list and `remain`. -/
def drainRound :
    List (InternalExtent β) × Nat → Except Fault (List (InternalExtent β) × Nat)
  | ([], remain) => .ok ([], remain)
  | (cur :: rest, remain) =>
    let consume := min remain cur.readable
    let (cur, nodeRemain) := cur.consume consume
    .ok (if nodeRemain = 0 then rest else cur :: rest, remain - consume)

/-- `drain(count)`, for any number of extents: every round deletes one or is the last. -/
def drain (b : BufferImpl β) (count : Nat) : Except Fault (BufferImpl β) := do
  let (extents, remain) ← Loop.whileDo .diverges
    (fun st => decide (st.2 > 0) && !st.1.isEmpty) drainRound
    (b.extents.length + 1) (b.extents, count)
  pure ⟨extents, SizeT.sub b.size (count - remain)⟩

/-- What the loop of `read(buf, size, nread, consume)` leaves behind. -/
structure ReadLoop (β : Type) where
  extents : List (InternalExtent β)
  /-- The cells stored to `buf[0]`, `buf[1]` and so on. -/
  out : List (Cell β)
  size : Nat
  deriving DecidableEq, Repr

/-- The loop of `read(buf, size, nread, consume)` from the extent `cur` on, after `total` cells
were copied. Every `copyout` is given the whole `size`. -/
def readLoop (size : Nat) (consume : Bool) :
    List (InternalExtent β) → (total bufSize : Nat) → ReadLoop β
  | [], _, bufSize => ⟨[], [], bufSize⟩
  | cur :: rest, total, bufSize =>
    if total < size then
      let out := cur.copyout size
      if !consume then
        let r := readLoop size consume rest (total + out.length) bufSize
        ⟨cur :: r.extents, out ++ r.out, r.size⟩
      else
        let bufSize := SizeT.sub bufSize out.length
        let (cur, remain) := cur.consume out.length
        if remain = 0 then
          let r := readLoop size consume rest (total + out.length) bufSize
          ⟨r.extents, out ++ r.out, r.size⟩
        else ⟨cur :: rest, out, bufSize⟩
    else ⟨cur :: rest, [], bufSize⟩

/-- `read(buf, size, &nread)`: the buffer after the call and the cells stored to `buf`, whose
number is `nread`. -/
def read (b : BufferImpl β) (size : Nat) : BufferImpl β × List (Cell β) :=
  let r := readLoop size true b.extents 0 b.size
  (⟨r.extents, r.size⟩, r.out)

/-- `peek(buf, size, &nread)`, which is `read` without consuming. -/
def peek (b : BufferImpl β) (size : Nat) : BufferImpl β × List (Cell β) :=
  let r := readLoop size false b.extents 0 b.size
  (⟨r.extents, r.size⟩, r.out)

/-- The loop of `peek(size, extents)`. -/
def peekLoop (size : Nat) : List (InternalExtent β) → (total : Nat) → List (List (Cell β))
  | [], _ => []
  | cur :: rest, total =>
    if total < size then
      let avail := cur.readable
      let later := peekLoop size rest (total + avail)
      if avail > 0 then
        let grant := min avail (size - total)
        (cur.data.drop cur.readOffset).take grant :: later
      else later
    else []

/-- `peek(size, extents)`: the memory of the extents returned. -/
def peekExtents (b : BufferImpl β) (size : Nat) : List (List (Cell β)) :=
  peekLoop size b.extents 0

/-! ### What a buffer holds -/

/-- The cells that the reading operations offer, reserved space included. -/
def contents (b : BufferImpl β) : List (Cell β) := b.extents.flatMap InternalExtent.unread

/-- The bytes that were written and not consumed. -/
def bytes (b : BufferImpl β) : List β := b.extents.flatMap InternalExtent.bytes

end BufferImpl

end WhatTheEvent
