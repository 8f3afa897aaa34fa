import WhatTheEvent.Buffer.Bounds
import WhatTheEvent.Buffer.Linked

/-!
# The extents of a memory and their owners

A memory holds the sentinels of the buffers and their extents, each in one ring. Extents that were
just allocated or just taken out are in no ring. What the pointers are is described apart from what
the extents hold, and every operation on the lists by the nodes that it connects.
-/

namespace WhatTheEvent

variable {β : Type}

lemma InternalExtent.size_of_new {n : Nat} {e : InternalExtent β}
    (h : InternalExtent.new n = .ok e) : e.size = n := by
  unfold InternalExtent.new at h
  split_ifs at h
  obtain rfl := Except.ok.inj h
  exact List.length_replicate

namespace ExtentMemory

open InternalExtent

variable {m m' m'' : ExtentMemory β} {p q head x w : Nat} {e e' : InternalExtent β}
  {k k' : Links Nat}

/-- The pointers of all extents. -/
def links (m : ExtentMemory β) : Links Nat :=
  ⟨fun p => (m.heap.load p).bind LinkedExtent.next, fun p => (m.heap.load p).bind LinkedExtent.prev⟩

/-- The extent at an address, without its pointers. -/
def extentAt (m : ExtentMemory β) (p : Nat) : Option (InternalExtent β) :=
  (m.heap.load p).map LinkedExtent.extent

/-- There is an extent at the address. -/
def Live (m : ExtentMemory β) (p : Nat) : Prop := ∃ e, m.extentAt p = some e

lemma load_eq (h : m.extentAt p = some e) :
    m.heap.load p = some ⟨e, m.links.prev p, m.links.next p⟩ := by
  obtain ⟨node, hload, rfl⟩ := Option.map_eq_some_iff.mp h
  simp [links, hload]

lemma deref_eq (h : m.extentAt p = some e) :
    m.deref (some p) = .ok ⟨e, m.links.prev p, m.links.next p⟩ := by
  simp only [deref, load_eq h]

/-! ### Pointers -/

/-- `m'` is `m` with the pointers `k`. -/
structure Relinked (m : ExtentMemory β) (k : Links Nat) (m' : ExtentMemory β) : Prop where
  links : m'.links = k
  extentAt : m'.extentAt = m.extentAt
  history : m'.history = m.history
  fresh : m'.heap.fresh = m.heap.fresh
  allocated : m'.allocated = m.allocated

lemma Relinked.trans (h : m.Relinked k m') (h' : m'.Relinked k' m'') : m.Relinked k' m'' :=
  ⟨h'.links, h'.extentAt.trans h.extentAt, h'.history.trans h.history,
    h'.fresh.trans h.fresh, h'.allocated.trans h.allocated⟩

lemma Relinked.live (h : m.Relinked k m') (hp : m.Live p) : m'.Live p := by
  unfold Live
  rw [h.extentAt]
  exact hp

/-- A change of one cell of the memory. -/
def Differs (m : ExtentMemory β) (p : Nat) (cell : Option (LinkedExtent β))
    (m' : ExtentMemory β) : Prop :=
  ∀ q, m'.heap.load q = if q = p then cell else m.heap.load q

section Differs

variable {cell : Option (LinkedExtent β)}

lemma differs_store (node : LinkedExtent β) (h : m.extentAt p = some e) :
    m.Differs p (some node) (m.store (some p) node) := by
  intro q
  change (m.heap.store p node).load q = _
  split_ifs with hq
  · rw [hq, Heap.load_store_self (load_eq h)]
  · rw [Heap.load_store_of_ne (Ne.symm hq)]

lemma Differs.links (h : m.Differs p cell m') : m'.links =
    (m.links.setNext p (cell.bind LinkedExtent.next)).setPrev p (cell.bind LinkedExtent.prev) := by
  refine congrArg₂ Links.mk (funext fun q => ?_) (funext fun q => ?_)
  · simp only [h q, Links.setNext, Function.update_apply]
    split_ifs <;> rfl
  · simp only [h q, Links.setNext, Function.update_apply]
    split_ifs <;> rfl

lemma Differs.extentAt (h : m.Differs p cell m') :
    m'.extentAt = Function.update m.extentAt p (cell.map LinkedExtent.extent) := by
  funext q
  rw [ExtentMemory.extentAt, h q, Function.update_apply]
  split_ifs <;> rfl

lemma getElem?_cells (h : m.extentAt p = some e) :
    m.heap.cells[p]? = some (some ⟨e, m.links.prev p, m.links.next p⟩) :=
  Option.join_eq_some_iff.mp (load_eq h)

lemma allocated_store (node : LinkedExtent β) (h : m.extentAt p = some e) :
    (m.store (some p) node).allocated + e.size = m.allocated + node.extent.size :=
  Pointwise.sum_map_set (f := cellSize) (getElem?_cells h)

/-- A change of the pointers alone. -/
lemma store_relinked (node : LinkedExtent β) (h : m.extentAt p = some e)
    (hnode : node.extent = e) : m.Relinked
      ((m.links.setNext p node.next).setPrev p node.prev) (m.store (some p) node) := by
  refine ⟨(differs_store node h).links, ?_, rfl, Heap.fresh_store, ?_⟩
  · rw [(differs_store node h).extentAt, Option.map_some, hnode, ← h, Function.update_eq_self]
  · have hsum := allocated_store node h
    rw [hnode] at hsum
    exact Nat.add_right_cancel hsum

end Differs

lemma setNext_relinked (hp : m.Live p) (q : Option Nat) :
    ∃ m', m.setNext (some p) q = .ok m' ∧ m.Relinked (m.links.setNext p q) m' := by
  obtain ⟨e, he⟩ := hp
  refine ⟨m.store (some p) ⟨e, m.links.prev p, q⟩, by rw [setNext, deref_eq he]; rfl, ?_⟩
  have hrelinked := store_relinked ⟨e, m.links.prev p, q⟩ he rfl
  rwa [Links.setPrev_self] at hrelinked
  rfl

lemma setPrev_relinked (hp : m.Live p) (q : Option Nat) :
    ∃ m', m.setPrev (some p) q = .ok m' ∧ m.Relinked (m.links.setPrev p q) m' := by
  obtain ⟨e, he⟩ := hp
  refine ⟨m.store (some p) ⟨e, q, m.links.next p⟩, by rw [setPrev, deref_eq he]; rfl, ?_⟩
  have hrelinked := store_relinked ⟨e, q, m.links.next p⟩ he rfl
  rwa [Links.setNext_self] at hrelinked
  rfl

/-- `head2` to `tail` behind the last node of a list. -/
lemma listAppend_relinked {head2 tail : Nat} (hhead : m.Live head) (hhead2 : m.Live head2)
    (htail : m.Live tail) (hx : m.Live x) (hlast : m.links.prev head = some x) :
    ∃ m', m.listAppend (some head) (some head2) (some tail) = .ok m' ∧
      m.Relinked ((m.links.connect x head2).connect tail head) m' := by
  obtain ⟨e, he⟩ := hhead
  obtain ⟨m₁, hm₁, h₁⟩ := setPrev_relinked hhead2 (some x)
  obtain ⟨e₁, he₁⟩ := h₁.live hhead2
  have hprev : m₁.links.prev head2 = some x := by
    rw [h₁.links]
    exact Function.update_self _ _ _
  obtain ⟨m₂, hm₂, h₂⟩ := setNext_relinked (h₁.live hx) (some head2)
  obtain ⟨m₃, hm₃, h₃⟩ := setNext_relinked (h₂.live (h₁.live htail)) (some head)
  obtain ⟨e₃, he₃⟩ := h₃.live (h₂.live (h₁.live htail))
  have hnext : m₃.links.next tail = some head := by
    rw [h₃.links]
    exact Function.update_self _ _ _
  obtain ⟨m₄, hm₄, h₄⟩ := setPrev_relinked (h₃.live (h₂.live (h₁.live ⟨e, he⟩))) (some tail)
  refine ⟨m₄, ?_, ?_⟩
  · rw [listAppend, deref_eq he, ok_bind, hlast, hm₁, ok_bind, deref_eq he₁, ok_bind, hprev, hm₂,
      ok_bind, hm₃, ok_bind, deref_eq he₃, ok_bind, hnext, hm₄]
  · have hrelinked := ((h₁.trans h₂).trans h₃).trans h₄
    rwa [h₃.links, h₂.links, h₁.links] at hrelinked

/-- `head2` to `tail` before the first node of a list. -/
lemma listPrepend_relinked {head2 tail : Nat} (hhead : m.Live head) (hhead2 : m.Live head2)
    (htail : m.Live tail) (hw : m.Live w) (hfirst : m.links.next head = some w) :
    ∃ m', m.listPrepend (some head) (some head2) (some tail) = .ok m' ∧
      m.Relinked ((m.links.connect tail w).connect head head2) m' := by
  obtain ⟨e, he⟩ := hhead
  obtain ⟨m₁, hm₁, h₁⟩ := setNext_relinked htail (some w)
  obtain ⟨e₁, he₁⟩ := h₁.live htail
  have hnext : m₁.links.next tail = some w := by
    rw [h₁.links]
    exact Function.update_self _ _ _
  obtain ⟨m₂, hm₂, h₂⟩ := setPrev_relinked (h₁.live hw) (some tail)
  obtain ⟨m₃, hm₃, h₃⟩ := setPrev_relinked (h₂.live (h₁.live hhead2)) (some head)
  obtain ⟨e₃, he₃⟩ := h₃.live (h₂.live (h₁.live hhead2))
  have hprev : m₃.links.prev head2 = some head := by
    rw [h₃.links]
    exact Function.update_self _ _ _
  obtain ⟨m₄, hm₄, h₄⟩ := setNext_relinked (h₃.live (h₂.live (h₁.live ⟨e, he⟩))) (some head2)
  refine ⟨m₄, ?_, ?_⟩
  · rw [listPrepend, deref_eq he, ok_bind, hfirst, hm₁, ok_bind, deref_eq he₁, ok_bind, hnext, hm₂,
      ok_bind, hm₃, ok_bind, deref_eq he₃, ok_bind, hprev, hm₄]
  · have hrelinked := ((h₁.trans h₂).trans h₃).trans h₄
    rwa [h₃.links, h₂.links, h₁.links] at hrelinked

/-- The neighbours of a node become neighbours. -/
lemma unlink_relinked (hp : m.Live p) (hx : m.Live x) (hw : m.Live w)
    (hprev : m.links.prev p = some x) (hnext : m.links.next p = some w) (hne : x ≠ p) :
    ∃ m', m.unlink (some p) = .ok m' ∧ m.Relinked (m.links.connect x w) m' := by
  obtain ⟨e, he⟩ := hp
  obtain ⟨m₁, hm₁, h₁⟩ := setNext_relinked hx (some w)
  obtain ⟨e₁, he₁⟩ := h₁.live ⟨e, he⟩
  have hprev₁ : m₁.links.prev p = some x := by
    rw [h₁.links]
    exact hprev
  have hnext₁ : m₁.links.next p = some w := by
    rw [h₁.links]
    exact (Function.update_of_ne hne.symm _ _).trans hnext
  obtain ⟨m₂, hm₂, h₂⟩ := setPrev_relinked (h₁.live hw) (some x)
  refine ⟨m₂, ?_, ?_⟩
  · rw [unlink, deref_eq he, ok_bind, hprev, hnext, hm₁, ok_bind, deref_eq he₁, ok_bind, hprev₁,
      hnext₁, hm₂]
  · have hrelinked := h₁.trans h₂
    rwa [h₁.links] at hrelinked

/-! ### Ownership -/

/-- The memory holds these sentinels and extents and nothing else, and of the extents allocated the
others have been deleted. -/
structure Holding (m : ExtentMemory β) (heads : List Nat) (nodes : List (Nat × InternalExtent β)) :
    Prop where
  nodup : (heads ++ nodes.map Prod.fst).Nodup
  live : ∀ p, m.Live p ↔ p ∈ heads ++ nodes.map Prod.fst
  sentinel : ∀ head ∈ heads, m.extentAt head = some ⟨[], 0, 0⟩
  extent : ∀ node ∈ nodes, m.extentAt node.1 = some node.2
  bounded : ∀ node ∈ nodes, node.2.Bounded
  history : Ledger.Holds m.history (nodes.map Prod.fst)
  numbered : Ledger.Numbered m.history m.heap.fresh
  allocated : m.allocated = (nodes.map fun node => node.2.size).sum
  room : m.allocated < SizeT.objectLimit

variable {heads heads' : List Nat} {nodes nodes' : List (Nat × InternalExtent β)}

lemma Holding.perm (h : m.Holding heads nodes) (hheads : heads.Perm heads')
    (hnodes : nodes.Perm nodes') : m.Holding heads' nodes' := by
  have haddresses := hnodes.map Prod.fst
  have hall := hheads.append haddresses
  refine ⟨hall.nodup_iff.mp h.nodup, fun p => (h.live p).trans hall.mem_iff, ?_, ?_, ?_,
    h.history.of_perm haddresses, h.numbered,
    h.allocated.trans (hnodes.map _).sum_nat, h.room⟩
  · exact fun head hhead => h.sentinel head (hheads.mem_iff.mpr hhead)
  · exact fun node hnode => h.extent node (hnodes.mem_iff.mpr hnode)
  · exact fun node hnode => h.bounded node (hnodes.mem_iff.mpr hnode)

lemma Holding.relinked (h : m.Holding heads nodes) (hm : m.Relinked k m') :
    m'.Holding heads nodes := by
  refine ⟨h.nodup, fun p => ?_, ?_, ?_, h.bounded, ?_, ?_, hm.allocated.trans h.allocated,
    hm.allocated ▸ h.room⟩
  · rw [← h.live p]
    unfold Live
    rw [hm.extentAt]
  · rw [hm.extentAt]
    exact h.sentinel
  · rw [hm.extentAt]
    exact h.extent
  · rw [hm.history]
    exact h.history
  · rw [hm.history, hm.fresh]
    exact h.numbered

lemma not_live_fresh : ¬ m.Live m.heap.fresh := by
  rintro ⟨e, he⟩
  exact Nat.lt_irrefl _ (Heap.lt_fresh (load_eq he))

lemma Differs.live_some {node : LinkedExtent β} (h : m.Differs p (some node) m') :
    m'.Live q ↔ q = p ∨ m.Live q := by
  unfold Live
  rw [h.extentAt, Function.update_apply]
  split_ifs with hq <;> simp [hq]

lemma Differs.live_none (h : m.Differs p none m') : m'.Live q ↔ q ≠ p ∧ m.Live q := by
  unfold Live
  rw [h.extentAt, Function.update_apply]
  split_ifs with hq <;> simp [hq]

lemma allocated_free (history : List (Ledger.Entry Nat)) (h : m.extentAt p = some e) :
    allocated { m with heap := m.heap.free p, history } + e.size = m.allocated :=
  Pointwise.sum_map_set (f := cellSize) (getElem?_cells h)

/-- What was allocated at an address that is new. -/
lemma differs_alloc (node : LinkedExtent β) (history : List (Ledger.Entry Nat)) :
    m.Differs m.heap.fresh (some node) { m with heap := m.heap.alloc node, history } := by
  intro q
  split_ifs with hq
  · rw [hq, Heap.load_alloc_fresh]
  · rw [Heap.load_alloc_of_ne hq]

lemma allocated_alloc {node : LinkedExtent β} {history : List (Ledger.Entry Nat)} :
    allocated { m with heap := m.heap.alloc node, history } = m.allocated + node.extent.size := by
  simp [allocated, Heap.alloc, cellSize]

lemma differs_free (p : Nat) (history : List (Ledger.Entry Nat)) :
    m.Differs p none { m with heap := m.heap.free p, history } := by
  intro q
  split_ifs with hq
  · rw [hq, Heap.load_free_self]
  · rw [Heap.load_free_of_ne (Ne.symm hq)]

lemma Differs.extentAt_of_ne {cell : Option (LinkedExtent β)} (h : m.Differs p cell m')
    (hq : q ≠ p) : m'.extentAt q = m.extentAt q := by
  rw [h.extentAt, Function.update_of_ne hq]

lemma Differs.extentAt_self {node : LinkedExtent β} (h : m.Differs p (some node) m') :
    m'.extentAt p = some node.extent := by
  rw [h.extentAt, Function.update_self, Option.map_some]

lemma Holding.not_mem_fresh (h : m.Holding heads nodes) :
    m.heap.fresh ∉ heads ++ nodes.map Prod.fst :=
  fun hmem => not_live_fresh ((h.live _).mpr hmem)

/-- The address of an extent is not that of a sentinel or of another extent. -/
lemma Holding.not_mem (h : m.Holding heads ((p, e) :: nodes)) :
    p ∉ heads ++ nodes.map Prod.fst :=
  (List.nodup_cons.mp (List.perm_middle.nodup_iff.mp h.nodup)).1

section Frame

variable {cell : Option (LinkedExtent β)}

/-- The sentinels, when a cell changes that is none of theirs. -/
lemma Holding.sentinel_of_differs (h : m.Holding heads nodes) (hdiffers : m.Differs p cell m')
    (hp : p ∉ heads' ++ nodes'.map Prod.fst) (hheads : heads' ⊆ heads) :
    ∀ head ∈ heads', m'.extentAt head = some ⟨[], 0, 0⟩ := by
  intro head hhead
  rw [hdiffers.extentAt_of_ne, h.sentinel head (hheads hhead)]
  rintro rfl
  exact hp (List.mem_append_left _ hhead)

/-- The extents, when a cell changes that is none of theirs. -/
lemma Holding.extent_of_differs (h : m.Holding heads nodes) (hdiffers : m.Differs p cell m')
    (hp : p ∉ heads' ++ nodes'.map Prod.fst) (hnodes : nodes' ⊆ nodes) :
    ∀ node ∈ nodes', m'.extentAt node.1 = some node.2 := by
  intro node hnode
  rw [hdiffers.extentAt_of_ne, h.extent node (hnodes hnode)]
  rintro rfl
  exact hp (List.mem_append_right _ (List.mem_map_of_mem hnode))

/-- What is left when a cell is freed. -/
lemma Differs.live_free {addresses : List Nat} (h : m.Differs p none m')
    (hlive : m.Live q ↔ q ∈ p :: addresses) (hp : p ∉ addresses) :
    m'.Live q ↔ q ∈ addresses := by
  rw [h.live_none, hlive, List.mem_cons]
  constructor
  · exact fun hq => hq.2.resolve_left hq.1
  · refine fun hq => ⟨?_, .inr hq⟩
    rintro rfl
    exact hp hq

end Frame

/-- `new InternalExtent` adds an extent that is not linked to any. -/
lemma Holding.new {size : Nat} {granted : Bool} (h : m.Holding heads nodes)
    (hnew : m.new size granted = some (m', p)) : ∃ e, InternalExtent.new size = .ok e ∧
      m'.Holding heads ((p, e) :: nodes) ∧ m'.links = m.links := by
  unfold ExtentMemory.new at hnew
  cases he : (InternalExtent.new size : Except Fault (InternalExtent β)) with
  | error fault =>
    rw [he] at hnew
    cases hnew
  | ok e =>
    simp only [he] at hnew
    split_ifs at hnew with hroom
    obtain ⟨rfl, rfl⟩ := Prod.mk.inj (Option.some.inj hnew)
    have hdiffers := m.differs_alloc ⟨e, none, none⟩ (m.history ++ [.acquire m.heap.fresh])
    have hfresh := h.not_mem_fresh
    have hnone : m.heap.load m.heap.fresh = none :=
      Option.eq_none_iff_forall_ne_some.mpr fun node hnode =>
        Nat.lt_irrefl _ (Heap.lt_fresh hnode)
    refine ⟨e, rfl, ⟨?_, fun q => ?_, ?_, ?_, ?_, ?_, ?_, ?_, ?_⟩, ?_⟩
    · exact List.perm_middle.nodup_iff.mpr (List.nodup_cons.mpr ⟨hfresh, h.nodup⟩)
    · rw [hdiffers.live_some, h.live q]
      exact List.mem_cons.symm.trans List.perm_middle.mem_iff.symm
    · exact h.sentinel_of_differs hdiffers hfresh (List.Subset.refl _)
    · exact List.forall_mem_cons.mpr ⟨hdiffers.extentAt_self,
        h.extent_of_differs hdiffers hfresh (List.Subset.refl _)⟩
    · exact List.forall_mem_cons.mpr ⟨new_bounded he, h.bounded⟩
    · exact h.history.acquire fun hmem => hfresh (List.mem_append_right _ hmem)
    · rw [Heap.fresh_alloc]
      exact h.numbered.acquire
    · rw [allocated_alloc, h.allocated, List.map_cons, List.sum_cons, Nat.add_comm]
    · rw [allocated_alloc, size_of_new he]
      exact hroom.2
    · have hnext : m.links.next m.heap.fresh = none := congrArg (Option.bind · _) hnone
      have hprev : m.links.prev m.heap.fresh = none := congrArg (Option.bind · _) hnone
      rw [hdiffers.links]
      change (m.links.setNext m.heap.fresh none).setPrev m.heap.fresh none = m.links
      rw [Links.setNext_self hnext, Links.setPrev_self hprev]

/-- What an extent holds may change. -/
lemma Holding.setExtent (h : m.Holding heads ((p, e) :: nodes)) (he' : e'.Bounded)
    (hsize : e'.size = e.size) :
    ∃ m', m.setExtent (some p) e' = .ok m' ∧ m'.Holding heads ((p, e') :: nodes) ∧
      m'.links = m.links := by
  have he : m.extentAt p = some e := h.extent (p, e) List.mem_cons_self
  have hdiffers := differs_store ⟨e', m.links.prev p, m.links.next p⟩ he
  have hallocated : (m.store (some p) ⟨e', m.links.prev p, m.links.next p⟩).allocated =
      m.allocated := by
    have hsum := allocated_store ⟨e', m.links.prev p, m.links.next p⟩ he
    rw [hsize] at hsum
    exact Nat.add_right_cancel hsum
  refine ⟨m.store (some p) ⟨e', m.links.prev p, m.links.next p⟩, ?_,
    ⟨h.nodup, fun q => ?_, ?_, ?_, ?_, h.history, ?_, ?_, ?_⟩, ?_⟩
  · rw [ExtentMemory.setExtent, deref_eq he]
    rfl
  · rw [hdiffers.live_some]
    refine Iff.trans (or_iff_right_of_imp ?_) (h.live q)
    rintro rfl
    exact ⟨e, he⟩
  · exact h.sentinel_of_differs hdiffers h.not_mem (List.Subset.refl _)
  · exact List.forall_mem_cons.mpr ⟨hdiffers.extentAt_self,
      h.extent_of_differs hdiffers h.not_mem (List.subset_cons_self _ _)⟩
  · exact List.forall_mem_cons.mpr ⟨he', (List.forall_mem_cons.mp h.bounded).2⟩
  · exact Heap.fresh_store.symm ▸ h.numbered
  · rw [hallocated, h.allocated, List.map_cons, List.map_cons, List.sum_cons, List.sum_cons, hsize]
  · rw [hallocated]
    exact h.room
  · rw [hdiffers.links]
    exact (Links.setPrev_self rfl).trans (Links.setNext_self rfl)

/-- `delete` of an extent, which nothing may be linked to. -/
lemma Holding.delete (h : m.Holding heads ((p, e) :: nodes)) :
    ∃ m', m.delete (some p) = .ok m' ∧ m'.Holding heads nodes ∧
      m'.links = (m.links.setNext p none).setPrev p none := by
  have he : m.extentAt p = some e := h.extent (p, e) List.mem_cons_self
  have hdiffers := m.differs_free p (m.history ++ [.release p])
  have hfree := allocated_free (m.history ++ [.release p]) he
  have hnodup := (List.nodup_cons.mp (List.perm_middle.nodup_iff.mp h.nodup)).2
  refine ⟨_, by rw [ExtentMemory.delete, deref_eq he]; rfl, ⟨hnodup, fun q => ?_, ?_, ?_, ?_,
    h.history.release, ?_, ?_, ?_⟩, hdiffers.links⟩
  · exact hdiffers.live_free ((h.live q).trans List.perm_middle.mem_iff) h.not_mem
  · exact h.sentinel_of_differs hdiffers h.not_mem (List.Subset.refl _)
  · exact h.extent_of_differs hdiffers h.not_mem (List.subset_cons_self _ _)
  · exact (List.forall_mem_cons.mp h.bounded).2
  · rw [Heap.fresh_free]
    exact h.numbered.release
  · have hall := h.allocated
    rw [List.map_cons, List.sum_cons] at hall
    change m.allocated = e.size + _ at hall
    omega
  · have hroom := h.room
    omega

/-- The sentinel of a new buffer. -/
lemma Holding.create (h : m.Holding heads nodes) :
    let m' : ExtentMemory β := { m with
      heap := m.heap.alloc ⟨⟨[], 0, 0⟩, some m.heap.fresh, some m.heap.fresh⟩ }
    m'.Holding (m.heap.fresh :: heads) nodes ∧ m'.links =
      m.links.connect m.heap.fresh m.heap.fresh := by
  have hdiffers :=
    m.differs_alloc ⟨⟨[], 0, 0⟩, some m.heap.fresh, some m.heap.fresh⟩ m.history
  refine ⟨⟨List.nodup_cons.mpr ⟨h.not_mem_fresh, h.nodup⟩, fun q => ?_, ?_, ?_, h.bounded,
    h.history, ?_, ?_, ?_⟩, hdiffers.links⟩
  · rw [hdiffers.live_some, h.live q]
    exact List.mem_cons.symm
  · exact List.forall_mem_cons.mpr ⟨hdiffers.extentAt_self,
      h.sentinel_of_differs hdiffers h.not_mem_fresh (List.Subset.refl _)⟩
  · exact h.extent_of_differs hdiffers h.not_mem_fresh (List.Subset.refl _)
  · rw [Heap.fresh_alloc]
    exact h.numbered.mono (Nat.le_succ _)
  · exact allocated_alloc.trans h.allocated
  · exact allocated_alloc.trans_lt h.room

/-- The sentinel of a buffer that is gone. -/
lemma Holding.destroy (h : m.Holding (head :: heads) nodes) :
    let m' : ExtentMemory β := { m with heap := m.heap.free head }
    m'.Holding heads nodes ∧ m'.links = (m.links.setNext head none).setPrev head none := by
  have hdiffers := m.differs_free head m.history
  have hall := List.nodup_cons.mp h.nodup
  have hfree := allocated_free m.history (h.sentinel head List.mem_cons_self)
  refine ⟨⟨hall.2, fun q => ?_, ?_, ?_, h.bounded, h.history, ?_, hfree.trans h.allocated,
    hfree.trans_lt h.room⟩, hdiffers.links⟩
  · exact hdiffers.live_free (h.live q) hall.1
  · exact h.sentinel_of_differs hdiffers hall.1 (List.subset_cons_self _ _)
  · exact h.extent_of_differs hdiffers hall.1 (List.Subset.refl _)
  · rw [Heap.fresh_free]
    exact h.numbered

end ExtentMemory

/-! ### Rings of extents -/

/-- The list of a buffer: its sentinel, and its extents by address. -/
structure ExtentRing (β : Type) where
  head : Nat
  nodes : List (Nat × InternalExtent β)

/-- The addresses of the extents. -/
def ExtentRing.addresses (r : ExtentRing β) : List Nat := r.nodes.map Prod.fst

def ExtentRing.all (r : ExtentRing β) : List Nat := r.head :: r.addresses

namespace ExtentMemory

variable {m m' : ExtentMemory β} {p head head' : Nat} {e e' : InternalExtent β}
  {loose loose' l l' : List (Nat × InternalExtent β)} {rest rings rings' : List (ExtentRing β)}

/-- The extents of the memory are those of the rings and those of `loose`, which no pointer of the
rings leads to. -/
structure Owned (m : ExtentMemory β) (loose : List (Nat × InternalExtent β))
    (rings : List (ExtentRing β)) : Prop where
  ring : ∀ r ∈ rings, m.links.Ring r.head r.addresses
  holding : m.Holding (rings.map ExtentRing.head) (loose ++ rings.flatMap ExtentRing.nodes)

lemma Owned.perm (h : m.Owned loose rings) (hperm : rings.Perm rings') : m.Owned loose rings' :=
  ⟨fun r hr => h.ring r (hperm.mem_iff.mpr hr),
    h.holding.perm (hperm.map _) ((hperm.flatMap_right _).append_left loose)⟩

/-- The addresses in use, ring by ring. -/
lemma perm_all : (rings.map ExtentRing.head ++
    (loose ++ rings.flatMap ExtentRing.nodes).map Prod.fst).Perm
      (loose.map Prod.fst ++ rings.flatMap ExtentRing.all) := by
  induction rings with
  | nil => simp
  | cons r rings ih =>
    rw [List.perm_iff_count] at ih ⊢
    intro a
    have ha := ih a
    simp only [List.map_cons, List.flatMap_cons, List.map_append, List.count_append,
      List.cons_append, List.count_cons, ExtentRing.all, ExtentRing.addresses] at ha ⊢
    omega

lemma Owned.nodup (h : m.Owned loose rings) :
    (loose.map Prod.fst ++ rings.flatMap ExtentRing.all).Nodup :=
  perm_all.nodup_iff.mp h.holding.nodup

lemma Owned.live_iff (h : m.Owned loose rings) :
    m.Live p ↔ p ∈ loose.map Prod.fst ++ rings.flatMap ExtentRing.all :=
  (h.holding.live p).trans perm_all.mem_iff

section Cons

variable {r : ExtentRing β}

lemma Owned.nodup_cons (h : m.Owned loose (r :: rest)) :
    (loose.map Prod.fst ++ r.all).Nodup := by
  have hnodup := h.nodup
  rw [List.flatMap_cons, ← List.append_assoc] at hnodup
  exact (List.nodup_append.mp hnodup).1

/-- No other ring leads to the extents of `loose` and of the first ring. -/
lemma Owned.not_mem_rest (h : m.Owned loose (r :: rest)) (hp : p ∈ loose.map Prod.fst ++ r.all) :
    ∀ r' ∈ rest, p ∉ r'.all := by
  intro r' hr' hmem
  have hnodup := h.nodup
  rw [List.flatMap_cons, ← List.append_assoc] at hnodup
  exact (List.nodup_append.mp hnodup).2.2 p hp p (List.mem_flatMap.mpr ⟨r', hr', hmem⟩) rfl

lemma Owned.live (h : m.Owned loose (r :: rest)) (hp : p ∈ loose.map Prod.fst ++ r.all) :
    m.Live p := by
  rw [h.live_iff, List.flatMap_cons, ← List.append_assoc]
  exact List.mem_append_left _ hp

end Cons

/-- Other pointers, and another division of the extents. -/
lemma Owned.relinked {k : Links Nat} (h : m.Owned loose rings) (hm : m.Relinked k m')
    (hring : ∀ r ∈ rings', k.Ring r.head r.addresses)
    (hheads : rings.map ExtentRing.head = rings'.map ExtentRing.head)
    (hperm : (loose ++ rings.flatMap ExtentRing.nodes).Perm
      (loose' ++ rings'.flatMap ExtentRing.nodes)) :
    m'.Owned loose' rings' := by
  refine ⟨?_, ?_⟩
  · rw [hm.links]
    exact hring
  · rw [← hheads]
    exact (h.holding.relinked hm).perm (.refl _) hperm

lemma Owned.relinked_cons {k : Links Nat} (h : m.Owned loose (⟨head, l⟩ :: rest))
    (hm : m.Relinked k m') (hring : k.Ring head (l'.map Prod.fst))
    (hrest : ∀ r ∈ rest, k.Ring r.head r.addresses) (hperm : (loose ++ l).Perm (loose' ++ l')) :
    m'.Owned loose' (⟨head, l'⟩ :: rest) := by
  refine h.relinked hm (List.forall_mem_cons.mpr ⟨hring, hrest⟩) rfl ?_
  rw [List.flatMap_cons, List.flatMap_cons, ← List.append_assoc, ← List.append_assoc]
  exact hperm.append_right _

/-- The pointers of the other rings when two extents are connected that are in none of them. -/
lemma Owned.connect_rest {k : Links Nat} {r : ExtentRing β} {x y : Nat}
    (h : m.Owned loose (r :: rest)) (hk : ∀ r ∈ rest, k.Ring r.head r.addresses)
    (hx : x ∈ loose.map Prod.fst ++ r.all) (hy : y ∈ loose.map Prod.fst ++ r.all) :
    ∀ r ∈ rest, (k.connect x y).Ring r.head r.addresses :=
  fun r' hr' => (hk r' hr').connect (h.not_mem_rest hx r' hr') (h.not_mem_rest hy r' hr')

lemma Owned.nodup_loose (h : m.Owned ((p, e) :: loose) (⟨head, l⟩ :: rest)) :
    (p :: head :: l.map Prod.fst).Nodup := by
  refine h.nodup_cons.sublist ?_
  rw [List.map_cons, List.cons_append]
  exact (List.sublist_append_right _ _).cons_cons p

lemma mem_loose : p ∈ ((p, e) :: loose).map Prod.fst ++ ExtentRing.all ⟨head, l⟩ :=
  List.mem_cons_self

lemma mem_ring (hp : p ∈ head :: l.map Prod.fst) :
    p ∈ loose.map Prod.fst ++ ExtentRing.all ⟨head, l⟩ := List.mem_append_right _ hp

lemma mem_head : head ∈ loose.map Prod.fst ++ ExtentRing.all ⟨head, l⟩ :=
  mem_ring List.mem_cons_self

/-- `listAppend` of a single extent. -/
lemma Owned.append (h : m.Owned ((p, e) :: loose) (⟨head, l⟩ :: rest)) :
    ∃ m', m.listAppend (some head) (some p) (some p) = .ok m' ∧
      m'.Owned loose (⟨head, l ++ [(p, e)]⟩ :: rest) := by
  obtain ⟨hring, hrest⟩ := List.forall_mem_cons.mp h.ring
  obtain ⟨x, hx, hlast⟩ := hring.exists_last
  have hxring := List.mem_of_mem_getLast? hx
  obtain ⟨m', hm', hrelinked⟩ := listAppend_relinked (h.live mem_head) (h.live mem_loose)
    (h.live mem_loose) (h.live (mem_ring hxring)) hlast
  refine ⟨m', hm', h.relinked_cons hrelinked ?_ ?_ ?_⟩
  · have hnodup : (head :: (l.map Prod.fst ++ [p])).Nodup :=
      (List.perm_append_singleton p (head :: l.map Prod.fst)).nodup_iff.mpr h.nodup_loose
    rw [List.map_append]
    exact hring.append (List.isChain_singleton p) hnodup hlast rfl rfl
  · exact h.connect_rest (h.connect_rest hrest (mem_ring hxring) mem_loose) mem_loose mem_head
  · rw [← List.append_assoc]
    exact (List.perm_append_singleton (p, e) (loose ++ l)).symm

/-- `listPrepend` of a single extent. -/
lemma Owned.prepend (h : m.Owned ((p, e) :: loose) (⟨head, l⟩ :: rest)) :
    ∃ m', m.listPrepend (some head) (some p) (some p) = .ok m' ∧
      m'.Owned loose (⟨head, (p, e) :: l⟩ :: rest) := by
  obtain ⟨hring, hrest⟩ := List.forall_mem_cons.mp h.ring
  obtain ⟨w, hw, hfirst⟩ := hring.exists_first
  have hwring : w ∈ head :: l.map Prod.fst :=
    (List.perm_append_singleton _ _).mem_iff.mp (List.mem_of_mem_head? hw)
  obtain ⟨m', hm', hrelinked⟩ := listPrepend_relinked (h.live mem_head) (h.live mem_loose)
    (h.live mem_loose) (h.live (mem_ring hwring)) hfirst
  refine ⟨m', hm', h.relinked_cons hrelinked ?_ ?_ List.perm_middle.symm⟩
  · have hnodup : (head :: ([p] ++ l.map Prod.fst)).Nodup :=
      (List.Perm.swap p head _).nodup_iff.mpr h.nodup_loose
    exact hring.prepend (List.isChain_singleton p) hnodup hfirst rfl rfl
  · exact h.connect_rest (h.connect_rest hrest mem_loose (mem_ring hwring)) mem_head mem_loose

/-- The first extent of a ring is taken out; it still points to the one behind it. -/
lemma Owned.unlink (h : m.Owned loose (⟨head, (p, e) :: l⟩ :: rest)) :
    ∃ m', m.unlink (some p) = .ok m' ∧ m'.Owned ((p, e) :: loose) (⟨head, l⟩ :: rest) ∧
      m'.links.next p = m'.links.next head := by
  obtain ⟨hring, hrest⟩ := List.forall_mem_cons.mp h.ring
  have hnodup : (head :: p :: l.map Prod.fst).Nodup := (List.nodup_append.mp h.nodup_cons).2.1
  have hne : head ≠ p := fun heq => (List.nodup_cons.mp hnodup).1 (heq ▸ List.mem_cons_self)
  have hlinked : m.links.Linked head p := (List.isChain_cons_cons.mp hring).1
  obtain ⟨w, hw, hnext⟩ := Links.Ring.exists_second hring
  have hmem : w ∈ head :: l.map Prod.fst :=
    (List.perm_append_singleton _ _).mem_iff.mp (List.mem_of_mem_head? hw)
  have hpall : p ∈ loose.map Prod.fst ++ ExtentRing.all ⟨head, (p, e) :: l⟩ :=
    mem_ring (List.mem_cons_of_mem _ List.mem_cons_self)
  have hwall : w ∈ loose.map Prod.fst ++ ExtentRing.all ⟨head, (p, e) :: l⟩ :=
    mem_ring (((List.sublist_cons_self p _).cons_cons head).subset hmem)
  obtain ⟨m', hm', hrelinked⟩ :=
    unlink_relinked (h.live hpall) (h.live mem_head) (h.live hwall) hlinked.2 hnext hne
  refine ⟨m', hm', h.relinked_cons hrelinked ?_ ?_ List.perm_middle, ?_⟩
  · exact hring.unlink hnodup hnext
  · exact h.connect_rest hrest mem_head hwall
  · rw [hrelinked.links]
    exact ((Function.update_of_ne hne.symm _ _).trans hnext).trans Links.linked_connect.1.symm

/-- A single extent that no pointer of the rings leads to. -/
lemma Owned.new {size : Nat} {granted : Bool} (h : m.Owned loose rings)
    (hnew : m.new size granted = some (m', p)) : ∃ e, InternalExtent.new size = .ok e ∧
      m'.Owned ((p, e) :: loose) rings := by
  obtain ⟨e, he, hholding, hlinks⟩ := h.holding.new hnew
  exact ⟨e, he, hlinks ▸ h.ring, hholding⟩

/-- A change of an extent in a ring. -/
lemma Owned.setExtent {front back : List (Nat × InternalExtent β)}
    (h : m.Owned loose (⟨head, front ++ (p, e) :: back⟩ :: rest)) (he' : e'.Bounded)
    (hsize : e'.size = e.size) :
    ∃ m', m.setExtent (some p) e' = .ok m' ∧
      m'.Owned loose (⟨head, front ++ (p, e') :: back⟩ :: rest) ∧ m'.links = m.links := by
  have hperm : ∀ e : InternalExtent β,
      (loose ++ (⟨head, front ++ (p, e) :: back⟩ :: rest).flatMap ExtentRing.nodes).Perm
        ((p, e) :: (loose ++ (⟨head, front ++ back⟩ :: rest).flatMap ExtentRing.nodes)) := by
    intro e
    simp only [List.flatMap_cons, List.append_assoc, List.cons_append]
    rw [← List.append_assoc loose, ← List.append_assoc loose]
    exact List.perm_middle
  obtain ⟨m', hm', hholding, hlinks⟩ := (h.holding.perm (.refl _) (hperm e)).setExtent he' hsize
  refine ⟨m', hm', ⟨?_, hholding.perm (.refl _) (hperm e').symm⟩, hlinks⟩
  have haddresses : ExtentRing.addresses ⟨head, front ++ (p, e') :: back⟩ =
      ExtentRing.addresses ⟨head, front ++ (p, e) :: back⟩ := by
    simp [ExtentRing.addresses]
  rw [hlinks, List.forall_mem_cons, haddresses]
  exact List.forall_mem_cons.mp h.ring

/-- A change of an extent that no pointer of the rings leads to. -/
lemma Owned.setExtent_loose (h : m.Owned ((p, e) :: loose) rings) (he' : e'.Bounded)
    (hsize : e'.size = e.size) :
    ∃ m', m.setExtent (some p) e' = .ok m' ∧ m'.Owned ((p, e') :: loose) rings := by
  obtain ⟨m', hm', hholding, hlinks⟩ := Holding.setExtent h.holding he' hsize
  exact ⟨m', hm', hlinks ▸ h.ring, hholding⟩

/-- `delete` of an extent that no pointer of the rings leads to. -/
lemma Owned.delete (h : m.Owned ((p, e) :: loose) rings) :
    ∃ m', m.delete (some p) = .ok m' ∧ m'.Owned loose rings ∧
      ∀ a ≠ p, m'.links.next a = m.links.next a := by
  obtain ⟨m', hm', hholding, hlinks⟩ := Holding.delete h.holding
  refine ⟨m', hm', ⟨fun r hr => ?_, hholding⟩, fun a ha => ?_⟩
  · have hne : ∀ a ∈ r.head :: r.addresses, a ≠ p := by
      rintro a ha rfl
      exact (List.nodup_append.mp h.nodup).2.2 a List.mem_cons_self a
        (List.mem_flatMap.mpr ⟨r, hr, ha⟩) rfl
    rw [hlinks]
    exact (h.ring r hr).congr (fun a ha => Function.update_of_ne (hne a ha) _ _)
      fun a ha => Function.update_of_ne (hne a ha) _ _
  · rw [hlinks]
    exact Function.update_of_ne ha _ _

lemma Owned.deref {front back : List (Nat × InternalExtent β)}
    (h : m.Owned loose (⟨head, front ++ (p, e) :: back⟩ :: rest)) :
    m.deref (some p) = .ok ⟨e, m.links.prev p, m.links.next p⟩ :=
  deref_eq (h.holding.extent (p, e) (by simp))

/-! ### Splices -/

/-- The pointers of the other rings when extents of one ring are connected with those of another
one, and then the head of that one with itself. -/
lemma Owned.splice_rest {a b c d : Nat} {r r' : ExtentRing β} (h : m.Owned loose (r :: r' :: rest))
    (ha : a ∈ r.all ++ r'.all) (hb : b ∈ r.all ++ r'.all) (hc : c ∈ r.all ++ r'.all)
    (hd : d ∈ r.all ++ r'.all) : ∀ s ∈ rest,
      (((m.links.connect a b).connect c d).connect r'.head r'.head).Ring s.head s.addresses := by
  intro s hs
  have hother : ∀ p ∈ r.all ++ r'.all, p ∉ s.all := by
    intro p hp
    rcases List.mem_append.mp hp with hp | hp
    · exact h.not_mem_rest (List.mem_append_right _ hp) s (List.mem_cons_of_mem _ hs)
    · exact (h.perm (.swap r' r rest)).not_mem_rest (List.mem_append_right _ hp) s
        (List.mem_cons_of_mem _ hs)
  have hhead : r'.head ∈ r.all ++ r'.all := List.mem_append_right _ List.mem_cons_self
  have hring := h.ring s (List.mem_cons_of_mem _ (List.mem_cons_of_mem _ hs))
  exact ((hring.connect (hother a ha) (hother b hb)).connect (hother c hc) (hother d hd)).connect
    (hother _ hhead) (hother _ hhead)

lemma reset_relinked (hp : m.Live p) : ∃ m₁ m₂, m.setPrev (some p) (some p) = .ok m₁ ∧
    m₁.setNext (some p) (some p) = .ok m₂ ∧ m.Relinked (m.links.connect p p) m₂ := by
  obtain ⟨m₁, hm₁, h₁⟩ := setPrev_relinked hp (some p)
  obtain ⟨m₂, hm₂, h₂⟩ := setNext_relinked (h₁.live hp) (some p)
  refine ⟨m₁, m₂, hm₁, hm₂, ?_⟩
  have hrelinked := h₁.trans h₂
  rwa [h₁.links] at hrelinked

lemma Owned.nodup_two (h : m.Owned loose (⟨head, l⟩ :: ⟨head', l'⟩ :: rest)) :
    (head' :: head :: (l.map Prod.fst ++ l'.map Prod.fst)).Nodup := by
  have hnodup := (List.nodup_append.mp h.nodup).2.1
  rw [List.flatMap_cons, List.flatMap_cons, ← List.append_assoc] at hnodup
  have hperm : (head :: l.map Prod.fst ++ head' :: l'.map Prod.fst).Perm
      (head' :: head :: (l.map Prod.fst ++ l'.map Prod.fst)) := List.perm_middle
  exact hperm.nodup_iff.mp (List.nodup_append.mp hnodup).1

/-- The end of a splice: the head of the ring that has given up its extents is reset. -/
lemma Owned.splice {a b c d : Nat} {both : List (Nat × InternalExtent β)}
    (h : m.Owned loose (⟨head, l⟩ :: ⟨head', l'⟩ :: rest))
    (hm : m.Relinked ((m.links.connect a b).connect c d) m')
    (ha : a ∈ head :: l.map Prod.fst ++ l'.map Prod.fst)
    (hb : b ∈ head :: l.map Prod.fst ++ l'.map Prod.fst)
    (hc : c ∈ head :: l.map Prod.fst ++ l'.map Prod.fst)
    (hd : d ∈ head :: l.map Prod.fst ++ l'.map Prod.fst)
    (hring : ((m.links.connect a b).connect c d).Ring head (both.map Prod.fst))
    (hperm : (l ++ l').Perm both) :
    ∃ m₁ m₂, m'.setPrev (some head') (some head') = .ok m₁ ∧
      m₁.setNext (some head') (some head') = .ok m₂ ∧
      m₂.Owned loose (⟨head, both⟩ :: ⟨head', []⟩ :: rest) := by
  have hlive : m.Live head' := (h.perm (.swap _ _ rest)).live
    (List.mem_append_right _ List.mem_cons_self)
  have hsubset : ∀ p ∈ head :: l.map Prod.fst ++ l'.map Prod.fst,
      p ∈ ExtentRing.all ⟨head, l⟩ ++ ExtentRing.all ⟨head', l'⟩ :=
    (List.Sublist.append_left (List.sublist_cons_self head' _) _).subset
  have hhead' : head' ∉ head :: both.map Prod.fst := by
    have haddresses := (hperm.map Prod.fst).cons head
    rw [← haddresses.mem_iff, List.map_append]
    exact (List.nodup_cons.mp h.nodup_two).1
  obtain ⟨m₁, m₂, hm₁, hm₂, hreset⟩ := reset_relinked (hm.live hlive)
  refine ⟨m₁, m₂, hm₁, hm₂, ?_⟩
  rw [hm.links] at hreset
  refine h.relinked (hm.trans hreset) ?_ rfl ?_
  · refine List.forall_mem_cons.mpr ⟨hring.connect hhead' hhead',
      List.forall_mem_cons.mpr ⟨Links.ring_nil, ?_⟩⟩
    exact h.splice_rest (hsubset a ha) (hsubset b hb) (hsubset c hc) (hsubset d hd)
  · simp only [List.flatMap_cons, List.nil_append]
    rw [← List.append_assoc l]
    exact (hperm.append_right _).append_left loose

lemma Owned.live_two (h : m.Owned loose (⟨head, l⟩ :: ⟨head', l'⟩ :: rest))
    (hp : p ∈ head :: l.map Prod.fst ++ l'.map Prod.fst) : m.Live p := by
  rcases List.mem_append.mp hp with hp | hp
  · exact h.live (List.mem_append_right _ hp)
  · exact (h.perm (.swap _ _ rest)).live (List.mem_append_right _ (List.mem_cons_of_mem _ hp))

/-- `listAppend` of all extents of another ring. -/
lemma Owned.splice_append (h : m.Owned loose (⟨head, l⟩ :: ⟨head', l'⟩ :: rest)) (hne : l' ≠ []) :
    ∃ m₁ m₂ m₃, m.listAppend (some head) (m.links.next head') (m.links.prev head') = .ok m₁ ∧
      m₁.setPrev (some head') (some head') = .ok m₂ ∧
      m₂.setNext (some head') (some head') = .ok m₃ ∧
      m₃.Owned loose (⟨head, l ++ l'⟩ :: ⟨head', []⟩ :: rest) := by
  have hring : m.links.Ring head (l.map Prod.fst) := h.ring _ List.mem_cons_self
  have hring' : m.links.Ring head' (l'.map Prod.fst) :=
    h.ring _ (List.mem_cons_of_mem _ List.mem_cons_self)
  obtain ⟨x, hx, hlast⟩ := hring.exists_last
  obtain ⟨y, hy, z, hz, hnext, hprev⟩ := hring'.exists_ends (by simpa using hne)
  have hxmem : x ∈ head :: l.map Prod.fst ++ l'.map Prod.fst :=
    List.mem_append_left _ (List.mem_of_mem_getLast? hx)
  have hymem : y ∈ head :: l.map Prod.fst ++ l'.map Prod.fst :=
    List.mem_append_right _ (List.mem_of_mem_head? hy)
  have hzmem : z ∈ head :: l.map Prod.fst ++ l'.map Prod.fst :=
    List.mem_append_right _ (List.mem_of_mem_getLast? hz)
  have hhead : head ∈ head :: l.map Prod.fst ++ l'.map Prod.fst := List.mem_cons_self
  obtain ⟨m₁, hm₁, hrelinked⟩ := listAppend_relinked (h.live_two hhead) (h.live_two hymem)
    (h.live_two hzmem) (h.live_two hxmem) hlast
  have hjoined := hring.append hring'.chain.tail (List.nodup_cons.mp h.nodup_two).2 hlast hy hz
  rw [List.tail_cons, ← List.map_append] at hjoined
  obtain ⟨m₂, m₃, hm₂, hm₃, howned⟩ :=
    h.splice hrelinked hxmem hymem hzmem hhead hjoined (.refl _)
  exact ⟨m₁, m₂, m₃, by rw [hnext, hprev, hm₁], hm₂, hm₃, howned⟩

/-- `listPrepend` of all extents of another ring. -/
lemma Owned.splice_prepend (h : m.Owned loose (⟨head, l⟩ :: ⟨head', l'⟩ :: rest)) (hne : l' ≠ []) :
    ∃ m₁ m₂ m₃, m.listPrepend (some head) (m.links.next head') (m.links.prev head') = .ok m₁ ∧
      m₁.setPrev (some head') (some head') = .ok m₂ ∧
      m₂.setNext (some head') (some head') = .ok m₃ ∧
      m₃.Owned loose (⟨head, l' ++ l⟩ :: ⟨head', []⟩ :: rest) := by
  have hring : m.links.Ring head (l.map Prod.fst) := h.ring _ List.mem_cons_self
  have hring' : m.links.Ring head' (l'.map Prod.fst) :=
    h.ring _ (List.mem_cons_of_mem _ List.mem_cons_self)
  obtain ⟨w, hw, hfirst⟩ := hring.exists_first
  obtain ⟨y, hy, z, hz, hnext, hprev⟩ := hring'.exists_ends (by simpa using hne)
  have hwmem : w ∈ head :: l.map Prod.fst ++ l'.map Prod.fst :=
    List.mem_append_left _ ((List.perm_append_singleton _ _).mem_iff.mp
      (List.mem_of_mem_head? hw))
  have hymem : y ∈ head :: l.map Prod.fst ++ l'.map Prod.fst :=
    List.mem_append_right _ (List.mem_of_mem_head? hy)
  have hzmem : z ∈ head :: l.map Prod.fst ++ l'.map Prod.fst :=
    List.mem_append_right _ (List.mem_of_mem_getLast? hz)
  have hhead : head ∈ head :: l.map Prod.fst ++ l'.map Prod.fst := List.mem_cons_self
  obtain ⟨m₁, hm₁, hrelinked⟩ := listPrepend_relinked (h.live_two hhead) (h.live_two hymem)
    (h.live_two hzmem) (h.live_two hwmem) hfirst
  have hnodup : (head :: (l'.map Prod.fst ++ l.map Prod.fst)).Nodup :=
    (List.perm_append_comm.cons head).nodup_iff.mpr (List.nodup_cons.mp h.nodup_two).2
  have hjoined := hring.prepend hring'.chain.tail hnodup hfirst hy hz
  rw [List.tail_cons, ← List.map_append] at hjoined
  obtain ⟨m₂, m₃, hm₂, hm₃, howned⟩ :=
    h.splice hrelinked hzmem hwmem hhead hymem hjoined List.perm_append_comm
  exact ⟨m₁, m₂, m₃, by rw [hnext, hprev, hm₁], hm₂, hm₃, howned⟩

/-! ### Buffers that come and go -/

lemma owned_empty : (empty : ExtentMemory β).Owned [] [] := by
  refine ⟨by simp, List.nodup_nil, fun p => ?_, by simp, by simp, by simp, Ledger.holds_nil,
    Ledger.numbered_nil, rfl, Nat.two_pow_pos 63⟩
  simp [Live, extentAt, empty, Heap.load, Heap.empty]

lemma Owned.create (h : m.Owned loose rings) :
    Owned { m with heap := m.heap.alloc ⟨⟨[], 0, 0⟩, some m.heap.fresh, some m.heap.fresh⟩ }
      loose (⟨m.heap.fresh, []⟩ :: rings) := by
  obtain ⟨hholding, hlinks⟩ := h.holding.create
  have hfresh : ∀ r ∈ rings, m.heap.fresh ∉ r.all := fun r hr hmem =>
    not_live_fresh (h.live_iff.mpr (List.mem_append_right _ (List.mem_flatMap.mpr ⟨r, hr, hmem⟩)))
  refine ⟨?_, hholding⟩
  rw [hlinks]
  exact List.forall_mem_cons.mpr ⟨Links.ring_nil, fun r hr =>
    (h.ring r hr).connect (hfresh r hr) (hfresh r hr)⟩

lemma Owned.destroy (h : m.Owned loose (⟨head, []⟩ :: rest)) :
    Owned { m with heap := m.heap.free head } loose rest := by
  obtain ⟨hholding, hlinks⟩ := h.holding.destroy
  have hhead := h.not_mem_rest (List.mem_append_right _ List.mem_cons_self)
  refine ⟨fun r hr => ?_, hholding⟩
  have hne : ∀ a ∈ r.head :: r.addresses, a ≠ head := by
    rintro a ha rfl
    exact hhead r hr ha
  rw [hlinks]
  exact (h.ring r (List.mem_cons_of_mem _ hr)).congr
    (fun a ha => Function.update_of_ne (hne a ha) _ _)
    fun a ha => Function.update_of_ne (hne a ha) _ _

end ExtentMemory

end WhatTheEvent
