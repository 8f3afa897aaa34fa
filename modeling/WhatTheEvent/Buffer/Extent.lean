import WhatTheEvent.Library.SizeT
import WhatTheEvent.Memory

/-!
# Extents

`BufferImpl::InternalExtent`: an allocation together with the offsets up to which it has been read
and written. `InternalExtent.of stale bytes hole` is the extent whose allocation holds bytes that
were consumed, bytes still to be read, and reserved space that was never written; each operation is
described by what it does to the three.
-/

namespace WhatTheEvent

variable {β : Type}

/-- `BufferImpl::InternalExtent`. The length of `data` is `extent.size`. -/
structure InternalExtent (β : Type) where
  data : List (Cell β)
  readOffset : Nat
  writeOffset : Nat
  deriving DecidableEq, Repr

namespace InternalExtent

/-- `extent.size`. -/
def size (e : InternalExtent β) : Nat := e.data.length

/-- `new InternalExtent(size)`. -/
def new (size : Nat) : Except Fault (InternalExtent β) :=
  if size < SizeT.objectLimit then .ok ⟨List.replicate size none, 0, 0⟩ else .error .badAlloc

def appendable (e : InternalExtent β) : Nat := SizeT.sub e.size e.writeOffset

def prependable (e : InternalExtent β) : Nat := e.readOffset

def readable (e : InternalExtent β) : Nat := SizeT.sub e.size e.readOffset

/-- Copies from the start of `buf` behind the written bytes; returns how much. The source computes
the space as `write_offset - extent.size`. -/
def append (e : InternalExtent β) (buf : List β) (size : Nat) :
    Except Fault (InternalExtent β × Nat) :=
  let space := SizeT.sub e.writeOffset e.size
  if space = 0 then .ok (e, 0)
  else
    let nwrite := min space size
    match memcpy e.data e.writeOffset (buf.take nwrite) with
    | .ok data => .ok ({ e with data, writeOffset := e.writeOffset + nwrite }, nwrite)
    | .error f => .error f

/-- Copies from the start of `buf` to the start of the allocation; returns how much. -/
def prepend (e : InternalExtent β) (buf : List β) (size : Nat) :
    Except Fault (InternalExtent β × Nat) :=
  let space := e.readOffset
  if space = 0 then .ok (e, 0)
  else
    let nwrite := min space size
    match memcpy e.data 0 (buf.take nwrite) with
    | .ok data => .ok ({ e with data, readOffset := e.readOffset - nwrite }, nwrite)
    | .error f => .error f

/-- The cells copied out; their number is the value returned. -/
def copyout (e : InternalExtent β) (size : Nat) : List (Cell β) :=
  (e.data.drop e.readOffset).take (min size (SizeT.sub e.size e.readOffset))

/-- Moves the read offset; returns what is left to read. -/
def consume (e : InternalExtent β) (size : Nat) : InternalExtent β × Nat :=
  let e := { e with readOffset := e.readOffset + size }
  (e, SizeT.sub e.size e.readOffset)

/-- The cells that the reading operations still offer. -/
def unread (e : InternalExtent β) : List (Cell β) := e.data.drop e.readOffset

/-- The bytes that were written and not consumed. -/
def bytes (e : InternalExtent β) : List β :=
  ((e.data.take e.writeOffset).drop e.readOffset).reduceOption

/-! ### The three parts of an extent -/

/-- The extent with the given consumed bytes, bytes to read and unwritten space. -/
def of (stale bytes : List β) (hole : List (Cell β)) : InternalExtent β :=
  ⟨(stale ++ bytes).map some ++ hole, stale.length, stale.length + bytes.length⟩

variable {stale bs buf : List β} {hole : List (Cell β)} {n : Nat}

@[simp] lemma of_size : (of stale bs hole).size = stale.length + bs.length + hole.length := by
  simp [of, size, Nat.add_assoc]

@[simp] lemma of_readOffset : (of stale bs hole).readOffset = stale.length := rfl

@[simp] lemma of_writeOffset :
    (of stale bs hole).writeOffset = stale.length + bs.length := rfl

@[simp] lemma appendable_of : (of stale bs hole).appendable = hole.length := by
  simp [appendable]

@[simp] lemma prependable_of : (of stale bs hole).prependable = stale.length := rfl

@[simp] lemma unread_of : (of stale bs hole).unread = bs.map some ++ hole := by
  simp [unread, of]

@[simp] lemma bytes_of : (of stale bs hole).bytes = bs := by
  have hlen : ((stale ++ bs).map (some : β → Cell β)).length = stale.length + bs.length := by simp
  simp only [bytes, of]
  rw [← hlen, List.take_left']
  · show List.filterMap id (((stale ++ bs).map some).drop stale.length) = bs
    simp [List.filterMap_map]
  · simp

/-- A fresh allocation of `n` bytes. -/
lemma new_of_lt (h : n < SizeT.objectLimit) :
    (new n : Except Fault (InternalExtent β)) = .ok (of [] [] (List.replicate n none)) := by
  simp [new, h, of]

lemma new_of_le (h : SizeT.objectLimit ≤ n) :
    (new n : Except Fault (InternalExtent β)) = .error .badAlloc := if_neg (by omega)

/-- An extent without spare space takes nothing. -/
lemma append_of_full : append (of stale bs []) buf n = .ok (of stale bs [], 0) := by
  simp [append]

/-- The space of an extent with a hole wraps to at least `2 ^ 64` less the hole, so that all of
`buf` is copied, whether or not it fits. -/
lemma append_of_hole (hhole : hole ≠ []) (hn : buf.length + hole.length < 2 ^ 64) :
    append (of stale bs hole) buf buf.length =
      (memcpy (of stale bs hole).data (stale.length + bs.length) buf).map fun data =>
        (⟨data, stale.length, stale.length + bs.length + buf.length⟩, buf.length) := by
  have hpos : 0 < hole.length := List.length_pos_iff.mpr hhole
  have hspace : SizeT.sub (stale.length + bs.length) (stale.length + bs.length + hole.length)
      = 2 ^ 64 - hole.length := by
    rw [SizeT.sub_of_lt (by omega)]; omega
  have hmin : min (2 ^ 64 - hole.length) buf.length = buf.length := by omega
  simp only [append, of_size, of_writeOffset, hspace, hmin, List.take_length]
  rw [if_neg (by omega)]
  cases memcpy (of stale bs hole).data (stale.length + bs.length) buf <;> rfl

lemma append_of (hhole : hole ≠ []) (hn : buf.length + hole.length < 2 ^ 64)
    (hfit : buf.length ≤ hole.length) :
    append (of stale bs hole) buf buf.length
      = .ok (of stale (bs ++ buf) (hole.drop buf.length), buf.length) := by
  have hcopy := memcpy_append ((stale ++ bs).map some) hole buf hfit
  simp only [List.length_map, List.length_append] at hcopy
  rw [append_of_hole hhole hn,
    show (of stale bs hole).data = (stale ++ bs).map some ++ hole from rfl, hcopy]
  simp [Except.map, of, Nat.add_assoc]

/-- Prepending overwrites the consumed bytes from the front, and gives back as many from the
end of the consumed space. -/
lemma prepend_of (hs : stale ≠ []) (hn : n ≤ buf.length) :
    prepend (of stale bs hole) buf n =
      let k := min stale.length n
      let front := buf.take k ++ stale.drop k
      .ok (of (front.take (stale.length - k)) (front.drop (stale.length - k) ++ bs) hole, k) := by
  have hpos : 0 < stale.length := List.length_pos_iff.mpr hs
  have htake : (buf.take (min stale.length n)).length = min stale.length n := by
    rw [List.length_take]; omega
  have hcopy := memcpy_append [] ((stale ++ bs).map some ++ hole) (buf.take (min stale.length n))
    (by simp only [htake, List.length_append, List.length_map]; omega)
  simp only [List.nil_append, List.length_nil] at hcopy
  simp only [prepend]
  rw [if_neg (by simp [hs]), of_readOffset,
    show (of stale bs hole).data = (stale ++ bs).map some ++ hole from rfl, hcopy, htake]
  have hdrop : ((stale ++ bs).map (some : β → Cell β) ++ hole).drop (min stale.length n)
      = (stale.drop (min stale.length n) ++ bs).map some ++ hole := by
    have hle : min stale.length n ≤ ((stale ++ bs).map (some : β → Cell β)).length := by
      simp only [List.length_map, List.length_append]
      omega
    rw [List.drop_append_of_le_length hle, ← List.map_drop,
      List.drop_append_of_le_length (by omega)]
  have hfront : (buf.take (min stale.length n) ++ stale.drop (min stale.length n)).length
      = stale.length := by
    simp only [List.length_append, htake, List.length_drop]; omega
  simp only [of, hdrop, mk.injEq, Except.ok.injEq, Prod.mk.injEq, and_true]
  refine ⟨?_, ?_, ?_⟩
  · rw [← List.append_assoc (List.take _ _) _ bs, List.take_append_drop]
    simp [List.append_assoc]
  · rw [List.length_take, hfront]; omega
  · have hsplit := congrArg List.length (List.take_append_drop (stale.length - min stale.length n)
      (buf.take (min stale.length n) ++ stale.drop (min stale.length n)))
    rw [hfront, List.length_append] at hsplit
    rw [List.length_append, ← Nat.add_assoc, hsplit]

lemma consume_of (hn : n ≤ bs.length) :
    (of stale bs hole).consume n
      = (of (stale ++ bs.take n) (bs.drop n) hole, bs.length + hole.length - n) := by
  have hlen : (bs.take n).length = n := List.length_take_of_le hn
  simp only [consume, of_readOffset, Prod.mk.injEq]
  refine ⟨?_, ?_⟩
  · simp only [of, mk.injEq, List.append_assoc, List.take_append_drop, List.length_append, hlen,
      List.length_drop, true_and]
    omega
  · change SizeT.sub (of stale bs hole).size (stale.length + n) = _
    rw [of_size, SizeT.sub_of_le (by omega)]
    omega

@[simp] lemma copyout_of :
    (of stale bs hole).copyout n = (bs.map some ++ hole).take n := by
  have hsub : SizeT.sub (of stale bs hole).size (of stale bs hole).readOffset
      = (bs.map (some : β → Cell β) ++ hole).length := by
    simp [Nat.add_assoc]
  rw [copyout, hsub, show (of stale bs hole).data.drop (of stale bs hole).readOffset
    = (of stale bs hole).unread from rfl, unread_of, ← List.take_take, List.take_length]

/-- The offsets are in order and everything below the write offset was written. -/
def WellFormed (e : InternalExtent β) : Prop :=
  ∃ stale bs hole, hole.length < SizeT.objectLimit ∧ e = of stale bs hole

/-- No reserved space is left in the extent. -/
def Full (e : InternalExtent β) : Prop := ∃ stale bs, e = of stale bs []

lemma Full.wellFormed {e : InternalExtent β} (h : e.Full) : e.WellFormed := by
  obtain ⟨stale, bs, rfl⟩ := h
  exact ⟨stale, bs, [], by simp [SizeT.objectLimit], rfl⟩

lemma full_of : (of stale bs [] : InternalExtent β).Full := ⟨stale, bs, rfl⟩

/-- Nothing unwritten is offered for reading. -/
lemma Full.unread_eq {e : InternalExtent β} (h : e.Full) : e.unread = e.bytes.map some := by
  obtain ⟨stale, bs, rfl⟩ := h
  simp

lemma Full.appendable_eq {e : InternalExtent β} (h : e.Full) : e.appendable = 0 := by
  obtain ⟨stale, bs, rfl⟩ := h
  simp

end InternalExtent

end WhatTheEvent
