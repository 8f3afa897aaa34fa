import WhatTheEvent.EventLoop.MpscQueue
import WhatTheEvent.Library.StoreBuffer

/-!
# The queue of operations with store buffers

`ConcurrentMPSCQueue` where the stores with release semantics, to `tail_` and to `next`, go through
a buffer of the thread that makes them, which an exchange of `head_` empties. A consumer that found
no item can miss one whose `push` does not tell of it, in exactly those runs in which one of the two
has loaded what the other has stored but not yet in memory.
-/

namespace WhatTheEvent

variable {α : Type}

/-- The members that are stored to with release semantics. -/
inductive Field where
  | tail
  | next (node : Nat)
  deriving DecidableEq, Repr

/-- `ConcurrentMPSCQueue::Node` at an address, without `next`. -/
structure PlainNode (α : Type) where
  addr : Nat
  data : α
  deriving DecidableEq, Repr

/-- The return of a call of `push` that linked the node `cur` to `prev->next`. -/
structure PushReturn where
  cur : Ptr
  prev : Ptr
  wasEmpty : Bool
  deriving DecidableEq, Repr

/-- A queue with the calls in progress. -/
structure WeakQueue (α : Type) where
  nodes : Heap (PlainNode α)
  head : Ptr
  fields : StoreBuffers Nat Field (Option Ptr)
  /-- The thread that calls `pop`. -/
  consumer : Nat
  /-- The calls of `push`, by thread. -/
  pushes : Nat → Push α
  pop : Pop
  /-- The node behind which the last call of `pop` found no item, if it found none. -/
  foundEmpty : Option Ptr
  /-- The items that `pop` has returned. -/
  popped : List α
  /-- The calls of `push` that have returned. -/
  returned : List PushReturn

/-- A step of one of the threads, or of its store buffer. -/
inductive WeakAct (α : Type) where
  /-- A thread calls `push(item)`, and the node is allocated at the address. -/
  | push (thread : Nat) (item : α) (addr : Nat)
  /-- A thread goes on with its call of `push`. -/
  | goOn (thread : Nat)
  /-- The consumer calls `pop` or goes on with its call. -/
  | pop
  /-- The oldest store in the buffer of a thread gets to the memory. -/
  | flush (thread : Nat)
  deriving DecidableEq, Repr

namespace WeakQueue

def deref (nodes : Heap (PlainNode α)) (p : Ptr) : Except Fault (PlainNode α) :=
  match nodes.load p.node with
  | some node => if node.addr = p.addr then .ok node else .error .useAfterFree
  | none => .error .useAfterFree

/-- `ConcurrentMPSCQueue()`, with a dummy node. -/
def new [Inhabited α] (addr consumer : Nat) : WeakQueue α where
  nodes := Heap.empty.alloc ⟨addr, default⟩
  head := ⟨addr, 0⟩
  fields := .new fun
    | .tail => some ⟨addr, 0⟩
    | .next _ => none
  consumer := consumer
  pushes := fun _ => .idle
  pop := .idle
  foundEmpty := none
  popped := []
  returned := []

/-- No node lies at the address. -/
def isUnused (nodes : Heap (PlainNode α)) (addr : Nat) : Bool :=
  nodes.cells.all fun cell => cell.all fun node => node.addr != addr

/-- The address that the thread loads from `tail_`. -/
def tailAddr (s : WeakQueue α) (thread : Nat) : Option Nat :=
  (s.fields.view thread .tail).map Ptr.addr

/-- The allocation of the node in `push`, by a thread that is in no other call. -/
def push (s : WeakQueue α) (thread : Nat) (item : α) (addr : Nat) : Except Fault (WeakQueue α) :=
  if (s.pushes thread).isFinished ∧ (thread = s.consumer → s.pop = .idle) ∧
      isUnused s.nodes addr then
    .ok { s with
      nodes := s.nodes.alloc ⟨addr, item⟩
      pushes := Function.update s.pushes thread (.allocated ⟨addr, s.nodes.fresh⟩ item) }
  else .error .disabled

/-- The next step of `push`. The exchange waits until the stores of the thread are in memory. -/
def pushStep (s : WeakQueue α) (thread : Nat) : Except Fault (WeakQueue α) :=
  match s.pushes thread with
  | .allocated cur _ =>
    if (s.fields.buffers thread).isEmpty then
      .ok { s with head := cur, pushes := Function.update s.pushes thread (.exchanged cur s.head) }
    else .error .disabled
  | .exchanged cur prev =>
    let emptyAtInit := decide (some prev.addr = s.tailAddr thread)
    .ok { s with pushes := Function.update s.pushes thread (.checked cur prev emptyAtInit) }
  | .checked cur prev true =>
    .ok { s with
      fields := s.fields.store thread (.next prev.node) (some cur)
      pushes := Function.update s.pushes thread (.returned cur true)
      returned := s.returned ++ [⟨cur, prev, true⟩] }
  | .checked cur prev false =>
    .ok { s with
      fields := s.fields.store thread (.next prev.node) (some cur)
      pushes := Function.update s.pushes thread (.published cur prev) }
  | .published cur prev =>
    let wasEmpty := decide (s.tailAddr thread = some prev.addr)
    .ok { s with
      pushes := Function.update s.pushes thread (.returned cur wasEmpty)
      returned := s.returned ++ [⟨cur, prev, wasEmpty⟩] }
  | _ => .error .disabled

/-- The next step of `pop`. -/
def popStep (s : WeakQueue α) : Except Fault (WeakQueue α) :=
  match s.pop with
  | .idle =>
    match s.fields.view s.consumer .tail with
    | some tail => .ok { s with pop := .loadedTail tail }
    | none => .error .nullDereference
  | .loadedTail tail => do
    let _ ← deref s.nodes tail
    match s.fields.view s.consumer (.next tail.node) with
    | none => pure { s with pop := .idle, foundEmpty := some tail }
    | some next => pure { s with pop := .loadedNext tail next }
  | .loadedNext tail next =>
    .ok { s with
      fields := s.fields.store s.consumer .tail (some next)
      pop := .storedTail tail next
      foundEmpty := none }
  | .storedTail tail next => do
    let _ ← deref s.nodes tail
    pure { s with nodes := s.nodes.free tail.node, pop := .freed next }
  | .freed next => do
    let node ← deref s.nodes next
    pure { s with pop := .idle, foundEmpty := none, popped := s.popped ++ [node.data] }

/-- The oldest store of the thread gets to the memory. It can be one of the consumer to the `next`
of a node that it has freed meanwhile, which nobody loads any more. -/
def flushStep (s : WeakQueue α) (thread : Nat) : Except Fault (WeakQueue α) :=
  match s.fields.buffers thread with
  | [] => .error .disabled
  | _ :: _ => .ok { s with fields := s.fields.flush thread }

def step (s : WeakQueue α) : WeakAct α → Except Fault (WeakQueue α)
  | .push thread item addr => s.push thread item addr
  | .goOn thread => s.pushStep thread
  | .pop => if (s.pushes s.consumer).isFinished then s.popStep else .error .disabled
  | .flush thread => s.flushStep thread

/-! ### What is hidden -/

/-- When the last call of `pop` has found no item behind a node and there is no further call, the
call of `push` that links an item there tells that the queue was empty. -/
def HidesNothing (s : WeakQueue α) : Prop :=
  ∀ t, s.pop = .idle → s.foundEmpty = some t → ∀ r ∈ s.returned, r.prev = t → r.wasEmpty = true

/-- The step loads what another thread has stored, but not yet in memory: `push` loads `tail_` for
the second time, and the consumer has stored `prev` there and then found `prev->next` null; or the
consumer loads `tail->next`, and a call of `push` has stored there and then returned false. -/
def LoadsEarly (s : WeakQueue α) : WeakAct α → Prop
  | .goOn thread => ∃ cur prev, s.pushes thread = .published cur prev ∧
    s.pop = .idle ∧ s.foundEmpty = some prev ∧
    (.tail, some prev) ∈ s.fields.buffers s.consumer ∧ s.tailAddr thread ≠ some prev.addr
  | .pop => ∃ tail r thread, s.pop = .loadedTail tail ∧ r ∈ s.returned ∧ r.prev = tail ∧
    r.wasEmpty = false ∧ (.next tail.node, some r.cur) ∈ s.fields.buffers thread ∧
    s.fields.view s.consumer (.next tail.node) = none
  | _ => False

/-! ### Steps -/

section Steps

variable {s s' : WeakQueue α} {act : WeakAct α}

/-- The steps, by what they do. -/
inductive Effect (s : WeakQueue α) : WeakAct α → WeakQueue α → Prop
  | push {thread : Nat} {item : α} {addr : Nat} :
    Effect s (.push thread item addr) { s with
      nodes := s.nodes.alloc ⟨addr, item⟩
      pushes := Function.update s.pushes thread (.allocated ⟨addr, s.nodes.fresh⟩ item) }
  | exchange {thread : Nat} {cur : Ptr} {item : α} (h : s.pushes thread = .allocated cur item) :
    Effect s (.goOn thread) { s with
      head := cur
      pushes := Function.update s.pushes thread (.exchanged cur s.head) }
  | check {thread : Nat} {cur prev : Ptr} {emptyAtInit : Bool}
    (h : s.pushes thread = .exchanged cur prev) :
    Effect s (.goOn thread) { s with
      pushes := Function.update s.pushes thread (.checked cur prev emptyAtInit) }
  | publish {thread : Nat} {cur prev : Ptr} (h : s.pushes thread = .checked cur prev true) :
    Effect s (.goOn thread) { s with
      fields := s.fields.store thread (.next prev.node) (some cur)
      pushes := Function.update s.pushes thread (.returned cur true)
      returned := s.returned ++ [⟨cur, prev, true⟩] }
  | publishUnsure {thread : Nat} {cur prev : Ptr} (h : s.pushes thread = .checked cur prev false) :
    Effect s (.goOn thread) { s with
      fields := s.fields.store thread (.next prev.node) (some cur)
      pushes := Function.update s.pushes thread (.published cur prev) }
  | recheck {thread : Nat} {cur prev : Ptr} (h : s.pushes thread = .published cur prev) :
    Effect s (.goOn thread) { s with
      pushes := Function.update s.pushes thread
        (.returned cur (decide (s.tailAddr thread = some prev.addr)))
      returned := s.returned ++ [⟨cur, prev, decide (s.tailAddr thread = some prev.addr)⟩] }
  | loadTail {tail : Ptr} (h : s.pop = .idle)
    (hview : s.fields.view s.consumer .tail = some tail) :
    Effect s .pop { s with pop := .loadedTail tail }
  | findNothing {tail : Ptr} (h : s.pop = .loadedTail tail)
    (hview : s.fields.view s.consumer (.next tail.node) = none) :
    Effect s .pop { s with pop := .idle, foundEmpty := some tail }
  | find {tail next : Ptr} (h : s.pop = .loadedTail tail)
    (hview : s.fields.view s.consumer (.next tail.node) = some next) :
    Effect s .pop { s with pop := .loadedNext tail next }
  | storeTail {tail next : Ptr} (h : s.pop = .loadedNext tail next) :
    Effect s .pop { s with
      fields := s.fields.store s.consumer .tail (some next)
      pop := .storedTail tail next
      foundEmpty := none }
  | free {tail next : Ptr} (h : s.pop = .storedTail tail next) :
    Effect s .pop { s with nodes := s.nodes.free tail.node, pop := .freed next }
  | take {next : Ptr} {item : α} (h : s.pop = .freed next) :
    Effect s .pop { s with pop := .idle, foundEmpty := none, popped := s.popped ++ [item] }
  | flush {thread : Nat} {field : Field} {value : Option Ptr} {rest : List (Field × Option Ptr)}
    (h : s.fields.buffers thread = (field, value) :: rest) :
    Effect s (.flush thread) { s with fields := s.fields.flush thread }

lemma pushStep_effect {thread : Nat} (h : s.pushStep thread = .ok s') :
    s.Effect (.goOn thread) s' := by
  unfold pushStep at h
  split at h
  · rename_i hp
    split_ifs at h
    obtain rfl := Except.ok.inj h
    exact .exchange hp
  · rename_i hp
    obtain rfl := Except.ok.inj h
    exact .check hp
  · rename_i hp
    obtain rfl := Except.ok.inj h
    exact .publish hp
  · rename_i hp
    obtain rfl := Except.ok.inj h
    exact .publishUnsure hp
  · rename_i hp
    obtain rfl := Except.ok.inj h
    exact .recheck hp
  · cases h

lemma popStep_effect (h : s.popStep = .ok s') : s.Effect .pop s' := by
  unfold popStep at h
  split at h
  · rename_i hp
    split at h
    · rename_i hview
      obtain rfl := Except.ok.inj h
      exact .loadTail hp hview
    · cases h
  · rename_i hp
    obtain ⟨_, -, h⟩ := bind_eq_ok.mp h
    split at h
    · rename_i hview
      obtain rfl := Except.ok.inj h
      exact .findNothing hp hview
    · rename_i hview
      obtain rfl := Except.ok.inj h
      exact .find hp hview
  · rename_i hp
    obtain rfl := Except.ok.inj h
    exact .storeTail hp
  · rename_i hp
    obtain ⟨_, -, h⟩ := bind_eq_ok.mp h
    obtain rfl := Except.ok.inj h
    exact .free hp
  · rename_i hp
    obtain ⟨_, -, h⟩ := bind_eq_ok.mp h
    obtain rfl := Except.ok.inj h
    exact .take hp

lemma flushStep_effect {thread : Nat} (h : s.flushStep thread = .ok s') :
    s.Effect (.flush thread) s' := by
  unfold flushStep at h
  split at h
  · cases h
  · rename_i hbuf
    obtain rfl := Except.ok.inj h
    exact .flush hbuf

theorem step_effect (h : s.step act = .ok s') : s.Effect act s' := by
  cases act with
  | push thread item addr =>
    simp only [step, push] at h
    split_ifs at h
    obtain rfl := Except.ok.inj h
    exact .push
  | goOn thread => exact pushStep_effect h
  | pop =>
    simp only [step] at h
    split_ifs at h
    exact popStep_effect h
  | flush thread => exact flushStep_effect h

end Steps

/-! ### Stores on their way -/

section Visible

variable {s s' : WeakQueue α} {act : WeakAct α} {cur prev : Ptr}
  {fields : StoreBuffers Nat Field (Option Ptr)}

/-- The node was stored to `prev->next`: the store is still in a buffer, or it is not null there. -/
def Stored (fields : StoreBuffers Nat Field (Option Ptr)) (cur prev : Ptr) : Prop :=
  fields.memory (.next prev.node) ≠ none ∨
    ∃ thread, (.next prev.node, some cur) ∈ fields.buffers thread

lemma Stored.store (h : Stored fields cur prev) {thread : Nat} {field : Field}
    {value : Option Ptr} : Stored (fields.store thread field value) cur prev := by
  refine h.imp id fun ⟨u, hmem⟩ => ⟨u, ?_⟩
  exact StoreBuffers.mem_buffers_store.mpr (.inl hmem)

lemma stored_store {thread : Nat} :
    Stored (fields.store thread (.next prev.node) (some cur)) cur prev :=
  .inr ⟨thread, StoreBuffers.mem_buffers_store.mpr (.inr ⟨rfl, rfl, rfl⟩)⟩

/-- What gets to the memory is not null. -/
lemma Stored.flush (h : Stored fields cur prev) {thread : Nat} {field : Field}
    {value : Option Ptr} {rest : List (Field × Option Ptr)}
    (hbuf : fields.buffers thread = (field, value) :: rest)
    (hnexts : ∀ node, field = .next node → value ≠ none) :
    Stored (fields.flush thread) cur prev := by
  rcases h with hmem | ⟨u, hmem⟩
  · refine .inl ?_
    rw [StoreBuffers.memory_flush hbuf]
    by_cases hf : field = .next prev.node
    · subst hf
      rw [Function.update_self]
      exact hnexts prev.node rfl
    · rwa [Function.update_of_ne (Ne.symm hf)]
  · rcases StoreBuffers.mem_buffers_flush hbuf hmem with hmem | hmem
    · exact .inr ⟨u, hmem⟩
    · refine .inl ?_
      rw [hmem]
      exact Option.some_ne_none cur

/-- Only the consumer stores to `tail_`, only nodes are stored to `next`, the consumer has loaded
the `tail_` that it sees, and what `push` has stored is on its way or there. -/
structure Visible (s : WeakQueue α) : Prop where
  tails : ∀ thread value, (.tail, value) ∈ s.fields.buffers thread → thread = s.consumer
  nexts : ∀ thread node value, (.next node, value) ∈ s.fields.buffers thread → value ≠ none
  loaded : ∀ t, s.pop = .loadedTail t → s.fields.view s.consumer .tail = some t
  found : ∀ t, s.foundEmpty = some t → s.fields.view s.consumer .tail = some t
  published : ∀ thread cur prev, s.pushes thread = .published cur prev → Stored s.fields cur prev
  returned : ∀ r ∈ s.returned, Stored s.fields r.cur r.prev

lemma visible_new [Inhabited α] (addr consumer : Nat) :
    (new addr consumer : WeakQueue α).Visible where
  tails := fun _ _ h => absurd h List.not_mem_nil
  nexts := fun _ _ _ h => absurd h List.not_mem_nil
  loaded := fun _ h => nomatch h
  found := fun _ h => nomatch h
  published := fun _ _ _ h => nomatch h
  returned := fun _ h => absurd h List.not_mem_nil

/-- A thread goes on in its call of `push`. -/
lemma published_update {thread : Nat} {p : Push α}
    (h : ∀ thread cur prev, s.pushes thread = .published cur prev → Stored fields cur prev)
    (hp : ∀ cur prev, p = .published cur prev → Stored fields cur prev) :
    ∀ u cur prev, Function.update s.pushes thread p u = .published cur prev →
      Stored fields cur prev := by
  intro u cur prev hu
  by_cases heq : u = thread
  · subst heq
    rw [Function.update_self] at hu
    exact hp cur prev hu
  · rw [Function.update_of_ne heq] at hu
    exact h u cur prev hu

/-- A store to `next` is no change of `tail_`. -/
lemma view_tail_store {thread u node : Nat} {value : Option Ptr} :
    (fields.store thread (.next node) value).view u .tail = fields.view u .tail := by
  by_cases hu : u = thread
  · subst hu
    have hne : Field.tail ≠ .next node := by simp
    rw [StoreBuffers.view_store_self, Function.update_of_ne hne]
  · rw [StoreBuffers.view_store_of_ne hu]

/-- The store of a node to `next`. -/
lemma Visible.store (h : s.Visible) {thread node : Nat} {cur' : Ptr}
    {pushes : Nat → Push α} {returned : List PushReturn}
    (hpublished : ∀ u cur prev, pushes u = .published cur prev →
      Stored (s.fields.store thread (.next node) (some cur')) cur prev)
    (hreturned : ∀ r ∈ returned,
      Stored (s.fields.store thread (.next node) (some cur')) r.cur r.prev) :
    Visible { s with
      fields := s.fields.store thread (.next node) (some cur')
      pushes
      returned } where
  tails := fun u value hmem => by
    rcases StoreBuffers.mem_buffers_store.mp hmem with hmem | ⟨-, heq, -⟩
    · exact h.tails u value hmem
    · cases heq
  nexts := fun u node value hmem => by
    rcases StoreBuffers.mem_buffers_store.mp hmem with hmem | ⟨-, -, rfl⟩
    · exact h.nexts u node value hmem
    · exact Option.some_ne_none _
  loaded := fun t ht => view_tail_store.trans (h.loaded t ht)
  found := fun t ht => view_tail_store.trans (h.found t ht)
  published := hpublished
  returned := hreturned

/-- What gets to the memory has been seen by the consumer before if it concerns it. -/
lemma Visible.flush (h : s.Visible) {thread : Nat} {field : Field} {value : Option Ptr}
    {rest : List (Field × Option Ptr)}
    (hbuf : s.fields.buffers thread = (field, value) :: rest) :
    Visible { s with fields := s.fields.flush thread } := by
  have hfirst : (field, value) ∈ s.fields.buffers thread := hbuf ▸ List.mem_cons_self
  have htail : (s.fields.flush thread).view s.consumer .tail = s.fields.view s.consumer .tail := by
    by_cases hu : s.consumer = thread
    · rw [hu, StoreBuffers.view_flush_self]
    · refine StoreBuffers.view_flush_of_ne hbuf hu fun hfield => ?_
      subst hfield
      exact hu (h.tails thread value hfirst).symm
  have hnexts : ∀ node, field = .next node → value ≠ none := fun node hfield =>
    h.nexts thread node value (hfield ▸ hfirst)
  refine ⟨fun u v hmem => ?_, fun u node v hmem => ?_, fun t ht => ?_, fun t ht => ?_,
    fun u cur prev hu => (h.published u cur prev hu).flush hbuf hnexts,
    fun r hr => (h.returned r hr).flush hbuf hnexts⟩
  · exact h.tails u v (StoreBuffers.mem_of_mem_buffers_flush hbuf hmem)
  · exact h.nexts u node v (StoreBuffers.mem_of_mem_buffers_flush hbuf hmem)
  · exact htail.trans (h.loaded t ht)
  · exact htail.trans (h.found t ht)

theorem Visible.step (h : s.Visible) (he : s.Effect act s') : s'.Visible := by
  cases he with
  | push =>
    exact ⟨h.tails, h.nexts, h.loaded, h.found, published_update h.published (by simp), h.returned⟩
  | exchange =>
    exact ⟨h.tails, h.nexts, h.loaded, h.found, published_update h.published (by simp), h.returned⟩
  | check =>
    exact ⟨h.tails, h.nexts, h.loaded, h.found, published_update h.published (by simp), h.returned⟩
  | publish =>
    refine h.store (published_update (fun u c p hu => (h.published u c p hu).store) (by simp)) ?_
    exact List.forall_mem_append.mpr ⟨fun r hr => (h.returned r hr).store,
      List.forall_mem_singleton.mpr stored_store⟩
  | publishUnsure =>
    refine h.store (published_update (fun u c p hu => (h.published u c p hu).store) ?_)
      fun r hr => (h.returned r hr).store
    intro c p heq
    obtain ⟨rfl, rfl⟩ := Push.published.inj heq
    exact stored_store
  | recheck hp =>
    refine ⟨h.tails, h.nexts, h.loaded, h.found, published_update h.published (by simp), ?_⟩
    exact List.forall_mem_append.mpr ⟨h.returned,
      List.forall_mem_singleton.mpr (h.published _ _ _ hp)⟩
  | loadTail _ hview =>
    refine ⟨h.tails, h.nexts, fun t ht => ?_, h.found, h.published, h.returned⟩
    obtain rfl := Pop.loadedTail.inj ht
    exact hview
  | findNothing hpop =>
    refine ⟨h.tails, h.nexts, by simp, fun t ht => ?_, h.published, h.returned⟩
    obtain rfl := Option.some.inj ht
    exact h.loaded _ hpop
  | find => exact ⟨h.tails, h.nexts, by simp, h.found, h.published, h.returned⟩
  | storeTail =>
    refine ⟨fun u value hmem => ?_, fun u node value hmem => ?_, by simp, by simp,
      fun u c p hu => (h.published u c p hu).store, fun r hr => (h.returned r hr).store⟩
    · rcases StoreBuffers.mem_buffers_store.mp hmem with hmem | ⟨hu, -, -⟩
      · exact h.tails u value hmem
      · exact hu
    · rcases StoreBuffers.mem_buffers_store.mp hmem with hmem | ⟨-, heq, -⟩
      · exact h.nexts u node value hmem
      · cases heq
  | free => exact ⟨h.tails, h.nexts, by simp, h.found, h.published, h.returned⟩
  | take => exact ⟨h.tails, h.nexts, by simp, by simp, h.published, h.returned⟩
  | flush hbuf => exact h.flush hbuf

/-! ### The law -/

/-- A second load of `tail_` that tells of nothing. -/
lemma hidesNothing_recheck_iff (h : s.Visible) (hlaw : s.HidesNothing) {thread : Nat}
    (hp : s.pushes thread = .published cur prev) :
    HidesNothing { s with
        pushes := Function.update s.pushes thread
          (.returned cur (decide (s.tailAddr thread = some prev.addr)))
        returned := s.returned ++ [⟨cur, prev, decide (s.tailAddr thread = some prev.addr)⟩] } ↔
      ¬ s.LoadsEarly (.goOn thread) := by
  constructor
  · rintro hlaw' ⟨cur', prev', hp', hpop, hfound, -, hne⟩
    obtain ⟨rfl, rfl⟩ := Push.published.inj (hp.symm.trans hp')
    have htrue := hlaw' prev hpop hfound _ (List.mem_append_right _ List.mem_cons_self) rfl
    exact hne (of_decide_eq_true htrue)
  · intro hno t hpop hfound r hr hprev
    rcases List.mem_append.mp hr with hr | hr
    · exact hlaw t hpop hfound r hr hprev
    · obtain rfl := List.mem_singleton.mp hr
      obtain rfl : prev = t := hprev
      have hfound : s.foundEmpty = some prev := hfound
      refine decide_eq_true (not_not.mp fun hne => hno ⟨cur, prev, hp, hpop, hfound, ?_, hne⟩)
      -- the consumer has stored `prev` to `tail_`, and not in memory
      have hview := h.found prev hfound
      refine (StoreBuffers.eq_or_mem_of_view hview).resolve_left fun hmemory => hne ?_
      by_cases hu : thread = s.consumer
      · rw [tailAddr, hu, hview]
        rfl
      · rw [tailAddr, StoreBuffers.view_of_not_mem fun v hmem => hu (h.tails thread v hmem),
          hmemory]
        rfl

/-- A load of `tail->next` that finds nothing. -/
lemma hidesNothing_findNothing_iff (h : s.Visible) {tail : Ptr} (hpop : s.pop = .loadedTail tail)
    (hview : s.fields.view s.consumer (.next tail.node) = none) :
    HidesNothing { s with pop := .idle, foundEmpty := some tail } ↔ ¬ s.LoadsEarly .pop := by
  constructor
  · rintro hlaw' ⟨tail', r, thread, hpop', hr, hprev, hfalse, -⟩
    obtain rfl := Pop.loadedTail.inj (hpop.symm.trans hpop')
    have htrue := hlaw' tail rfl rfl r hr hprev
    rw [hfalse] at htrue
    cases htrue
  · intro hno t _ hfound r hr hprev
    obtain rfl := Option.some.inj hfound
    by_contra hfalse
    -- the node was stored to `tail->next`, and not in memory
    have hmemory : s.fields.memory (.next tail.node) = none :=
      (StoreBuffers.eq_or_mem_of_view hview).resolve_right fun hmem =>
        h.nexts s.consumer tail.node none hmem rfl
    have hstored := h.returned r hr
    rw [hprev] at hstored
    obtain ⟨thread, hmem⟩ := hstored.resolve_left fun hne => hne hmemory
    exact hno ⟨tail, r, thread, hpop, hr, hprev, Bool.eq_false_iff.mpr hfalse, hmem, hview⟩

lemma hidesNothing_step_iff (h : s.Visible) (hlaw : s.HidesNothing) (he : s.Effect act s') :
    s'.HidesNothing ↔ ¬ s.LoadsEarly act := by
  have hpush : ∀ {thread}, (∀ cur prev, s.pushes thread ≠ .published cur prev) →
      ¬ s.LoadsEarly (.goOn thread) := fun hne ⟨cur, prev, hp, _⟩ => hne cur prev hp
  have hpops : (∀ tail, s.pop ≠ .loadedTail tail) → ¬ s.LoadsEarly .pop :=
    fun hne ⟨tail, _, _, hpop, _⟩ => hne tail hpop
  cases he with
  | push => exact iff_of_true hlaw id
  | exchange hp | check hp | publishUnsure hp =>
    exact iff_of_true hlaw (hpush (by simp [hp]))
  | publish hp =>
    refine iff_of_true (fun t hpop hfound r hr hprev => ?_) (hpush (by simp [hp]))
    rcases List.mem_append.mp hr with hr | hr
    · exact hlaw t hpop hfound r hr hprev
    · rw [List.mem_singleton.mp hr]
  | recheck hp => exact hidesNothing_recheck_iff h hlaw hp
  | loadTail hpop => exact iff_of_true (fun _ hidle => nomatch hidle) (hpops (by simp [hpop]))
  | findNothing hpop hview => exact hidesNothing_findNothing_iff h hpop hview
  | find hpop hview =>
    refine iff_of_true (fun _ hidle => nomatch hidle) ?_
    rintro ⟨tail, r, thread, hpop', -, -, -, -, hnone⟩
    obtain rfl := Pop.loadedTail.inj (hpop.symm.trans hpop')
    rw [hview] at hnone
    cases hnone
  | storeTail hpop | free hpop =>
    exact iff_of_true (fun _ hidle => nomatch hidle) (hpops (by simp [hpop]))
  | take hpop => exact iff_of_true (fun _ _ hfound => nomatch hfound) (hpops (by simp [hpop]))
  | flush => exact iff_of_true hlaw id

end Visible

/-- In a run nothing is ever hidden from a consumer that has stopped if and only if no step loads
what another thread has stored, but not yet in memory. -/
theorem hidesNothing_iff [Inhabited α] (addr consumer : Nat) (acts : List (WeakAct α))
    {s : WeakQueue α} (h : Exec.exec step (new addr consumer) acts = .ok s) :
    Exec.Along step (Exec.After step HidesNothing) (new addr consumer) acts ↔
      Exec.Along step (fun s act => ¬ s.LoadsEarly act) (new addr consumer) acts := by
  refine Exec.along_congr (C := fun _ _ => True) (fun s => s.Visible ∧ s.HidesNothing) ?_
    ⟨visible_new addr consumer, fun _ _ _ _ hr => absurd hr List.not_mem_nil⟩
    (Exec.Along.of_forall fun _ _ => trivial) h
  rintro s act s' ⟨hvisible, hlaw⟩ - hs
  have he := step_effect hs
  have hiff := hidesNothing_step_iff hvisible hlaw he
  exact ⟨(Exec.after_iff hs).trans hiff, fun hno => ⟨hvisible.step he, hiff.mpr hno⟩⟩

/-- The stores of a second item and of `tail_` get to the memory before the loads of the other. -/
theorem hidesNothing_flushed : ∃ s : WeakQueue Char, Exec.exec step (new 10 0)
    [.push 1 'a' 11, .goOn 1, .goOn 1, .goOn 1, .flush 1, .pop, .pop, .pop, .pop, .pop, .flush 0,
      .pop, .pop, .push 1 'b' 10, .goOn 1, .goOn 1, .goOn 1, .flush 1] = .ok s ∧
    s.foundEmpty = some ⟨11, 1⟩ ∧ s.returned.getLast? = some ⟨⟨10, 2⟩, ⟨11, 1⟩, true⟩ ∧
    (Exec.Along step (Exec.After step HidesNothing) (new 10 0 : WeakQueue Char)
      [.push 1 'a' 11, .goOn 1, .goOn 1, .goOn 1, .flush 1, .pop, .pop, .pop, .pop, .pop, .flush 0,
        .pop, .pop, .push 1 'b' 10, .goOn 1, .goOn 1, .goOn 1, .flush 1] ↔
    Exec.Along step (fun s act => ¬ s.LoadsEarly act) (new 10 0 : WeakQueue Char)
      [.push 1 'a' 11, .goOn 1, .goOn 1, .goOn 1, .flush 1, .pop, .pop, .pop, .pop, .pop, .flush 0,
        .pop, .pop, .push 1 'b' 10, .goOn 1, .goOn 1, .goOn 1, .flush 1]) :=
  ⟨_, rfl, rfl, rfl, hidesNothing_iff 10 0 _ rfl⟩

/-- The store of the consumer to `tail_` and that of the second `push` to `next` are both still in
their buffers when each of the two loads what the other has stored. -/
theorem not_hidesNothing : ¬ ∀ (acts : List (WeakAct Char)) (s : WeakQueue Char),
    Exec.exec step (new 10 0) acts = .ok s → s.HidesNothing := by
  intro h
  have hlaw := h [.push 1 'a' 11, .goOn 1, .goOn 1, .goOn 1, .flush 1, .pop, .pop, .pop, .pop, .pop,
    .push 1 'b' 12, .goOn 1, .goOn 1, .goOn 1, .goOn 1, .pop, .pop] _ rfl
  have htrue := hlaw ⟨11, 1⟩ rfl rfl ⟨⟨12, 2⟩, ⟨11, 1⟩, false⟩ (by decide) rfl
  cases htrue

end WeakQueue

end WhatTheEvent
