import WhatTheEvent.EventLoop.MpscQueue

/-!
# The backlog of a queue

Between the exchange and the store to `prev->next` of a call of `push` the list of nodes is broken.
The backlog is the list as it will be: the nodes behind `tail_` in the order of the exchanges, each
with the thread that has still to link it, if there is one.
-/

namespace WhatTheEvent

variable {α : Type}

/-- A node behind `tail_`. -/
structure Entry (α : Type) where
  ptr : Ptr
  item : α
  /-- The thread whose call of `push` has still to link the node. -/
  linker : Option Nat
  deriving DecidableEq, Repr

/-- The thread has linked its node. -/
def Entry.publish (thread : Nat) (e : Entry α) : Entry α :=
  if e.linker = some thread then { e with linker := none } else e

namespace MpscQueue

variable {memory memory' : Heap (Node α)} {pushes pushes' : Nat → Push α} {head p q cur prev : Ptr}
  {backlog : List (Entry α)} {e : Entry α} {node node' : Node α} {thread : Nat} {item : α}

/-! ### Access to nodes -/

lemma deref_eq_ok : deref memory p = .ok node ↔
    memory.load p.node = some node ∧ node.addr = p.addr := by
  unfold deref
  cases memory.load p.node with
  | none => simp
  | some node' =>
    simp only [Option.some.injEq]
    split_ifs with h
    · constructor
      · intro hok
        obtain rfl := Except.ok.inj hok
        exact ⟨rfl, h⟩
      · rintro ⟨rfl, -⟩
        rfl
    · constructor
      · intro hok
        cases hok
      · rintro ⟨rfl, haddr⟩
        exact absurd haddr h

lemma deref_alloc (h : deref memory p = .ok node) (new : Node α) :
    deref (memory.alloc new) p = .ok node := by
  rw [deref_eq_ok] at h ⊢
  exact ⟨Heap.load_alloc h.1, h.2⟩

lemma deref_alloc_fresh (addr : Nat) :
    deref (memory.alloc ⟨addr, item, none⟩) ⟨addr, memory.fresh⟩ = .ok ⟨addr, item, none⟩ :=
  deref_eq_ok.mpr ⟨Heap.load_alloc_fresh, rfl⟩

lemma deref_store_of_ne (hne : q.node ≠ p.node) :
    deref (memory.store q.node node) p = deref memory p := by
  unfold deref
  rw [Heap.load_store_of_ne hne]

lemma deref_store_self (h : deref memory p = .ok node) (next : Option Ptr) :
    deref (memory.store p.node { node with next }) p = .ok { node with next } := by
  obtain ⟨hload, haddr⟩ := deref_eq_ok.mp h
  exact deref_eq_ok.mpr ⟨Heap.load_store_self hload, haddr⟩

/-- A store to `next` leaves the data. -/
lemma deref_store_data (hq : deref memory q = .ok node') (hp : deref memory p = .ok node)
    (next : Option Ptr) :
    ∃ d, deref (memory.store p.node { node with next }) q = .ok d ∧ d.data = node'.data := by
  by_cases hne : p.node = q.node
  · obtain ⟨hloadq, haddrq⟩ := deref_eq_ok.mp hq
    obtain ⟨hloadp, -⟩ := deref_eq_ok.mp hp
    rw [← hne] at hloadq
    obtain rfl := Option.some.inj (hloadq.symm.trans hloadp)
    refine ⟨{ node' with next }, deref_eq_ok.mpr ⟨?_, haddrq⟩, rfl⟩
    rw [← hne]
    exact Heap.load_store_self hloadp
  · exact ⟨node', (deref_store_of_ne hne).trans hq, rfl⟩

lemma deref_free_of_ne (hne : q.node ≠ p.node) :
    deref (memory.free q.node) p = deref memory p := by
  unfold deref
  rw [Heap.load_free_of_ne hne]

/-! ### Chains of nodes -/

/-- The node of the entry `e` follows, or will follow, the node that `p` points to. -/
def Follows (memory : Heap (Node α)) (pushes : Nat → Push α) (p : Ptr) (e : Entry α) : Prop :=
  ∃ node, deref memory p = .ok node ∧
    match e.linker with
    | none => node.next = some e.ptr
    | some thread => node.next = none ∧ (pushes thread).Linking e.ptr p

/-- From `p` on, the backlog follows up to the node that `head` points to. -/
def Chain (memory : Heap (Node α)) (pushes : Nat → Push α) (head : Ptr) :
    Ptr → List (Entry α) → Prop
  | p, [] => p = head ∧ ∃ node, deref memory p = .ok node ∧ node.next = none
  | p, e :: backlog => Follows memory pushes p e ∧
    (∃ node, deref memory e.ptr = .ok node ∧ node.data = e.item) ∧
    Chain memory pushes head e.ptr backlog

/-- The nodes of a list of entries. -/
def nodes (backlog : List (Entry α)) : List Nat := backlog.map fun e => e.ptr.node

/-- The node in front is live. -/
lemma Chain.deref (h : Chain memory pushes head p backlog) : ∃ node, deref memory p = .ok node := by
  cases backlog with
  | nil =>
    obtain ⟨-, node, hnode, -⟩ := h
    exact ⟨node, hnode⟩
  | cons e backlog =>
    obtain ⟨⟨node, hnode, -⟩, -⟩ := h
    exact ⟨node, hnode⟩

/-- Nothing but the nodes of the chain and the calls that have to link them matters. -/
lemma Chain.frame (h : Chain memory pushes head p backlog)
    (hmemory : ∀ q node, q.node ∈ p.node :: nodes backlog → MpscQueue.deref memory q = .ok node →
      MpscQueue.deref memory' q = .ok node)
    (hpushes : ∀ e ∈ backlog, ∀ thread q, e.linker = some thread →
      (pushes thread).Linking e.ptr q → (pushes' thread).Linking e.ptr q) :
    Chain memory' pushes' head p backlog := by
  induction backlog generalizing p with
  | nil =>
    obtain ⟨hhead, node, hnode, hnext⟩ := h
    exact ⟨hhead, node, hmemory p node List.mem_cons_self hnode, hnext⟩
  | cons e backlog ih =>
    obtain ⟨⟨node, hnode, hnext⟩, ⟨data, hdata, hitem⟩, hrest⟩ := h
    refine ⟨⟨node, hmemory p node List.mem_cons_self hnode, ?_⟩,
      ⟨data, hmemory _ data (List.mem_cons_of_mem _ List.mem_cons_self) hdata, hitem⟩,
      ih hrest (fun q node hq => hmemory q node (List.mem_cons_of_mem _ hq))
        (fun e' he' => hpushes e' (List.mem_cons_of_mem _ he'))⟩
    cases hl : e.linker with
    | none =>
      rw [hl] at hnext
      exact hnext
    | some thread =>
      rw [hl] at hnext
      exact ⟨hnext.1, hpushes e List.mem_cons_self thread p hl hnext.2⟩

/-- The node exchanged by a thread comes last. -/
lemma Chain.concat (h : Chain memory pushes head p backlog)
    (hnode : MpscQueue.deref memory cur = .ok node) (hnext : node.next = none)
    (hlinking : (pushes thread).Linking cur head) :
    Chain memory pushes cur p (backlog ++ [⟨cur, node.data, some thread⟩]) := by
  induction backlog generalizing p with
  | nil =>
    obtain ⟨rfl, last, hlast, hnone⟩ := h
    exact ⟨⟨last, hlast, hnone, hlinking⟩, ⟨node, hnode, rfl⟩, rfl, node, hnode, hnext⟩
  | cons e backlog ih => exact ⟨h.1, h.2.1, ih h.2.2⟩

/-- A node that is still to be linked comes after a live node whose `next` is null. -/
lemma Chain.exists_prev (h : Chain memory pushes head p backlog) (he : e ∈ backlog)
    (hl : e.linker = some thread) :
    ∃ prev node, MpscQueue.deref memory prev = .ok node ∧ node.next = none ∧
      (pushes thread).Linking e.ptr prev ∧ prev.node ∈ p.node :: nodes backlog := by
  induction backlog generalizing p with
  | nil => exact absurd he List.not_mem_nil
  | cons e' backlog ih =>
    rcases List.mem_cons.mp he with rfl | he
    · obtain ⟨⟨node, hnode, hnext⟩, -⟩ := h
      rw [hl] at hnext
      exact ⟨p, node, hnode, hnext.1, hnext.2, List.mem_cons_self⟩
    · obtain ⟨prev, node, hnode, hnext, hlinking, hmem⟩ := ih h.2.2 he
      exact ⟨prev, node, hnode, hnext, hlinking, List.mem_cons_of_mem _ hmem⟩

@[simp] lemma nodes_publish : nodes (backlog.map (Entry.publish thread)) = nodes backlog := by
  unfold nodes
  rw [List.map_map]
  refine List.map_congr_left fun e _ => ?_
  unfold Function.comp Entry.publish
  split_ifs <;> rfl

/-- The node of the entry is linked by the thread that had to do it. -/
lemma Chain.publish (h : Chain memory pushes head p backlog)
    (hnodup : (p.node :: nodes backlog).Nodup) (he : ∃ e ∈ backlog, e.linker = some thread)
    (hlinking : ∀ cur' prev', (pushes thread).Linking cur' prev' → cur' = cur ∧ prev' = prev)
    (hnode : MpscQueue.deref memory prev = .ok node)
    (hother : ∀ other, other ≠ thread → pushes' other = pushes other) :
    Chain (memory.store prev.node { node with next := some cur }) pushes' head p
      (backlog.map (Entry.publish thread)) := by
  induction backlog generalizing p with
  | nil =>
    obtain ⟨e, he, -⟩ := he
    exact absurd he List.not_mem_nil
  | cons e backlog ih =>
    have htail : (e.ptr.node :: nodes backlog).Nodup := (List.nodup_cons.mp hnodup).2
    have hfront : p.node ∉ e.ptr.node :: nodes backlog := (List.nodup_cons.mp hnodup).1
    obtain ⟨hfollows, ⟨data, hdata, hitem⟩, hrest⟩ := h
    have hdata' := deref_store_data hdata hnode (some cur)
    rw [List.map_cons]
    by_cases hl : e.linker = some thread
    · obtain ⟨first, hfirst, hnext⟩ := hfollows
      rw [hl] at hnext
      obtain ⟨rfl, rfl⟩ := hlinking _ _ hnext.2
      obtain rfl := Except.ok.inj (hfirst.symm.trans hnode)
      -- the thread has no other node to link
      have hnone : ∀ e' ∈ backlog, e'.linker ≠ some thread := by
        intro e' he' hl'
        obtain ⟨q, -, -, -, hq, -⟩ := hrest.exists_prev he' hl'
        have hsame := (hlinking _ _ hq).1
        exact (List.nodup_cons.mp htail).1 (hsame ▸ List.mem_map_of_mem he')
      have hsame : backlog.map (Entry.publish thread) = backlog := by
        conv_rhs => rw [← List.map_id backlog]
        exact List.map_congr_left fun e' he' => if_neg (hnone e' he')
      rw [hsame, Entry.publish, if_pos hl]
      refine ⟨⟨_, deref_store_self hnode (some e.ptr), rfl⟩, ?_, ?_⟩
      · obtain ⟨d, hd, hdd⟩ := hdata'
        exact ⟨d, hd, hdd.trans hitem⟩
      · refine hrest.frame (fun q node hq hok => ?_) (fun e' he' other q hl' hq => ?_)
        · have hne : p.node ≠ q.node := fun heq => hfront (by rwa [heq])
          rwa [deref_store_of_ne hne]
        · rwa [hother other fun heq => hnone e' he' (heq ▸ hl')]
    · obtain ⟨e', he', hl'⟩ := he
      have he' : e' ∈ backlog := (List.mem_cons.mp he').resolve_left fun heq => hl (heq ▸ hl')
      obtain ⟨q, -, -, -, hq, hmem⟩ := hrest.exists_prev he' hl'
      obtain ⟨-, rfl⟩ := hlinking _ _ hq
      rw [Entry.publish, if_neg hl]
      refine ⟨?_, ?_, ih hrest htail ⟨e', he', hl'⟩⟩
      · obtain ⟨first, hfirst, hnext⟩ := hfollows
        have hne : q.node ≠ p.node := fun heq => hfront (by rwa [← heq])
        refine ⟨first, by rwa [deref_store_of_ne hne], ?_⟩
        cases hle : e.linker with
        | none =>
          rw [hle] at hnext
          exact hnext
        | some other =>
          rw [hle] at hnext
          refine ⟨hnext.1, ?_⟩
          rw [hother other fun heq => hl (heq ▸ hle)]
          exact hnext.2
      · obtain ⟨d, hd, hdd⟩ := hdata'
        exact ⟨d, hd, hdd.trans hitem⟩

end MpscQueue

end WhatTheEvent
