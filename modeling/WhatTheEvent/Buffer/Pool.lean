import Mathlib.Algebra.Order.BigOperators.Group.List
import Mathlib.Algebra.Order.Group.Nat
import WhatTheEvent.Library.Exec
import WhatTheEvent.Library.Pointwise
import WhatTheEvent.Buffer.CopyRead

/-!
# Programs over buffers

A program creates any number of buffers and calls their methods; a `Pool` holds the buffers it has
created and what the calls have returned. `ByteLists` is what the buffers stand for: lists of bytes.
-/

namespace WhatTheEvent

variable {β : Type}

/-- A call of a method of a single buffer. -/
inductive Call (β : Type) where
  | append (buf : List β)
  | prepend (buf : List β)
  | read (size : Nat)
  | peek (size : Nat)
  | peekExtents (size : Nat)
  | drain (count : Nat)
  | size
  | empty
  | reserve (size : Nat)
  | reserveExtents (size : Nat)
  deriving DecidableEq, Repr

/-- What a call returns. -/
inductive Result (β : Type) where
  /-- The cells stored by a copying call, whose number is `nread`. -/
  | copied (cells : List (Cell β))
  | extents (memory : List (List (Cell β)))
  | size (n : Nat)
  | empty (isEmpty : Bool)
  | reserved (extents : List ReservedExtent)
  deriving DecidableEq, Repr

/-- What can be seen of a result: for extents, their concatenation. -/
inductive Observation (β : Type) where
  | cells (cells : List (Cell β))
  | size (n : Nat)
  | empty (isEmpty : Bool)
  deriving DecidableEq, Repr

def Result.observe : Result β → Option (Observation β)
  | .copied cells => some (.cells cells)
  | .extents memory => some (.cells memory.flatten)
  | .size n => some (.size n)
  | .empty isEmpty => some (.empty isEmpty)
  | .reserved _ => none

/-- The bytes that the caller hands over. -/
def Call.payload : Call β → List β
  | .append buf => buf
  | .prepend buf => buf
  | _ => []

/-- Whether the call is one of the two forms of `reserve`. -/
def Call.reserves : Call β → Bool
  | .reserve _ => true
  | .reserveExtents _ => true
  | _ => false

/-- The method call on a buffer, with its result if it has one. -/
def BufferImpl.call (b : BufferImpl β) : Call β → Except Fault (BufferImpl β × List (Result β))
  | .append buf => (b.append buf).map (·, [])
  | .prepend buf => (b.prepend buf).map (·, [])
  | .read size => .ok ((b.read size).1, [.copied (b.read size).2])
  | .peek size => .ok ((b.peek size).1, [.copied (b.peek size).2])
  | .peekExtents size => .ok (b, [.extents (b.peekExtents size)])
  | .drain count => (b.drain count).map (·, [])
  | .size => .ok (b, [.size b.size])
  | .empty => .ok (b, [.empty b.isEmpty])
  | .reserve size => (b.reserve size).map (·, [])
  | .reserveExtents size =>
    (b.reserveExtents size).map fun (b, extents) => (b, [.reserved extents])

/-- A step of a program over buffers, which are numbered in the order of their creation. -/
inductive Op (β : Type) where
  | create
  | call (i : Nat) (c : Call β)
  /-- `append(Buffer*)` on buffer `i`, of another buffer `o`. -/
  | appendBuffer (i o : Nat)
  /-- `prepend(Buffer*)` on buffer `i`, of another buffer `o`. -/
  | prependBuffer (i o : Nat)
  | destroy (i : Nat)
  deriving DecidableEq, Repr

def Op.payload : Op β → List β
  | .call _ c => c.payload
  | _ => []

def Op.reserves : Op β → Bool
  | .call _ c => c.reserves
  | _ => false

/-- The buffers created so far, `none` once destroyed, and the results of the calls so far. -/
structure Pool (β : Type) where
  buffers : List (Option (BufferImpl β))
  results : List (Result β)
  deriving DecidableEq, Repr

namespace Pool

def empty : Pool β := ⟨[], []⟩

def get (p : Pool β) (i : Nat) : Except Fault (BufferImpl β) :=
  match p.buffers[i]? with
  | some (some b) => .ok b
  | some none => .error .useAfterFree
  | none => .error .disabled

def set (p : Pool β) (i : Nat) (b : BufferImpl β) : Pool β :=
  { p with buffers := p.buffers.set i (some b) }

/-- The two buffers of a splice, which have to be different ones. -/
def getTwo (p : Pool β) (i o : Nat) : Except Fault (BufferImpl β × BufferImpl β) := do
  if i = o then .error .disabled
  else
    let b ← p.get i
    let other ← p.get o
    pure (b, other)

def apply (p : Pool β) : Op β → Except Fault (Pool β)
  | .create => .ok { p with buffers := p.buffers ++ [some BufferImpl.empty] }
  | .call i c => do
    let b ← p.get i
    let (b, results) ← b.call c
    pure { p.set i b with results := p.results ++ results }
  | .appendBuffer i o => do
    let (b, other) ← p.getTwo i o
    let (b, other) := b.appendBuffer other
    pure ((p.set i b).set o other)
  | .prependBuffer i o => do
    let (b, other) ← p.getTwo i o
    let (b, other) := b.prependBuffer other
    pure ((p.set i b).set o other)
  | .destroy i => do
    let b ← p.get i
    let _ ← b.drain SizeT.max
    pure { p with buffers := p.buffers.set i none }

def slotLoad : Option (BufferImpl β) → Nat
  | some b => b.contents.length
  | none => 0

/-- The cells held by all the buffers. -/
def load (p : Pool β) : Nat := (p.buffers.map slotLoad).sum

/-- A step, in an address space in which neither an object nor the buffers together reach
`2 ^ 63` bytes. -/
def step (p : Pool β) (op : Op β) : Except Fault (Pool β) :=
  if op.payload.length < SizeT.objectLimit then do
    let p' ← p.apply op
    if p'.load < SizeT.objectLimit then .ok p' else .error .badAlloc
  else .error .disabled

variable {p p' : Pool β} {op : Op β}

lemma step_eq_ok : p.step op = .ok p' ↔
    op.payload.length < SizeT.objectLimit ∧ p.apply op = .ok p' ∧
      p'.load < SizeT.objectLimit := by
  unfold step
  split_ifs with hpayload
  · rw [bind_eq_ok]
    constructor
    · rintro ⟨p₁, happly, hload⟩
      split_ifs at hload with hlt
      obtain rfl := Except.ok.inj hload
      exact ⟨hpayload, happly, hlt⟩
    · rintro ⟨-, happly, hlt⟩
      exact ⟨p', happly, if_pos hlt⟩
  · simp [hpayload]

lemma mem_of_get {i : Nat} {b : BufferImpl β} (h : p.get i = .ok b) :
    p.buffers[i]? = some (some b) := by
  unfold get at h
  split at h
  · rename_i b' hi
    rw [Except.ok.injEq] at h
    rw [hi, h]
  · cases h
  · cases h

/-- A property of all buffers that the one put in a slot has as well. -/
lemma forall_set {P : BufferImpl β → Prop} {i : Nat} {slot : Option (BufferImpl β)}
    (h : ∀ b, some b ∈ p.buffers → P b) (hb : ∀ b, slot = some b → P b) :
    ∀ b, some b ∈ p.buffers.set i slot → P b := by
  intro b hmem
  rcases List.mem_or_eq_of_mem_set hmem with hmem | heq
  · exact h b hmem
  · exact hb b heq.symm

lemma length_contents_le {b : BufferImpl β} (h : some b ∈ p.buffers) :
    b.contents.length ≤ p.load := by
  change slotLoad (some b) ≤ _
  exact List.le_sum_of_mem (List.mem_map_of_mem h)

lemma getTwo_eq_ok {i o : Nat} {b b' : BufferImpl β} (h : p.getTwo i o = .ok (b, b')) :
    i ≠ o ∧ p.get i = .ok b ∧ p.get o = .ok b' := by
  unfold getTwo at h
  by_cases hio : i = o
  · rw [if_pos hio] at h
    cases h
  · rw [if_neg hio] at h
    simp only [bind_eq_ok, pure_eq_ok, Except.ok.injEq, Prod.mk.injEq] at h
    obtain ⟨b₁, h₁, b₂, h₂, rfl, rfl⟩ := h
    exact ⟨hio, h₁, h₂⟩

end Pool

/-! ### The abstract system -/

/-- The byte lists that the buffers stand for, and what the calls so far show of them. -/
structure ByteLists (β : Type) where
  lists : List (Option (List β))
  observations : List (Observation β)
  deriving DecidableEq, Repr

namespace ByteLists

def empty : ByteLists β := ⟨[], []⟩

/-- What a call does to a list of bytes. -/
def afterCall (l : List β) : Call β → List β
  | .append buf => l ++ buf
  | .prepend buf => buf ++ l
  | .read size => l.drop size
  | .drain count => l.drop count
  | _ => l

/-- What a call shows of a list of bytes. -/
def shown (l : List β) : Call β → List (Observation β)
  | .read size => [.cells ((l.take size).map some)]
  | .peek size => [.cells ((l.take size).map some)]
  | .peekExtents size => [.cells ((l.take size).map some)]
  | .size => [.size l.length]
  | .empty => [.empty l.isEmpty]
  | _ => []

def get (s : ByteLists β) (i : Nat) : Except Fault (List β) :=
  match s.lists[i]? with
  | some (some l) => .ok l
  | some none => .error .useAfterFree
  | none => .error .disabled

def getTwo (s : ByteLists β) (i o : Nat) : Except Fault (List β × List β) := do
  if i = o then .error .disabled
  else
    let l ← s.get i
    let other ← s.get o
    pure (l, other)

def apply (s : ByteLists β) : Op β → Except Fault (ByteLists β)
  | .create => .ok { s with lists := s.lists ++ [some []] }
  | .call i c => do
    let l ← s.get i
    pure ⟨s.lists.set i (some (afterCall l c)), s.observations ++ shown l c⟩
  | .appendBuffer i o => do
    let (l, other) ← s.getTwo i o
    pure { s with lists := (s.lists.set i (some (l ++ other))).set o (some []) }
  | .prependBuffer i o => do
    let (l, other) ← s.getTwo i o
    pure { s with lists := (s.lists.set i (some (other ++ l))).set o (some []) }
  | .destroy i => do
    let _ ← s.get i
    pure { s with lists := s.lists.set i none }

def slotLoad : Option (List β) → Nat
  | some l => l.length
  | none => 0

/-- The bytes in all the lists. -/
def load (s : ByteLists β) : Nat := (s.lists.map slotLoad).sum

def step (s : ByteLists β) (op : Op β) : Except Fault (ByteLists β) :=
  if op.payload.length < SizeT.objectLimit then do
    let s' ← s.apply op
    if s'.load < SizeT.objectLimit then .ok s' else .error .badAlloc
  else .error .disabled

variable {s : ByteLists β}

lemma getTwo_eq_ok {i o : Nat} {l l' : List β} (h : s.getTwo i o = .ok (l, l')) :
    i ≠ o ∧ s.get i = .ok l ∧ s.get o = .ok l' := by
  unfold ByteLists.getTwo at h
  by_cases hio : i = o
  · rw [if_pos hio] at h
    cases h
  · rw [if_neg hio] at h
    simp only [bind_eq_ok, pure_eq_ok, Except.ok.injEq, Prod.mk.injEq] at h
    obtain ⟨l₁, h₁, l₂, h₂, rfl, rfl⟩ := h
    exact ⟨hio, h₁, h₂⟩

lemma lt_length_of_get {i : Nat} {l : List β} (h : s.get i = .ok l) : i < s.lists.length := by
  unfold ByteLists.get at h
  split at h
  · rename_i hi
    exact (List.getElem?_eq_some_iff.mp hi).1
  · cases h
  · cases h

end ByteLists

end WhatTheEvent
