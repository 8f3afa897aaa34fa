import WhatTheEvent.Library.Exec
import WhatTheEvent.Buffer.OwnedCalls

/-!
# Runs over buffers in memory

As long as no `append` overruns the spare space of the last extent, the extents of each live buffer
form one ring with its sentinel, every extent that was not deleted is in the ring of exactly one
buffer, and none is deleted twice. Unless memory runs out, the run is one of a `Pool` as well.
-/

namespace WhatTheEvent

variable {β : Type}

namespace BufferImpl

variable {extents : List (InternalExtent β)} {n : Nat}

lemma length_unreadCells_le :
    (unreadCells extents).length ≤ (extents.map InternalExtent.size).sum := by
  induction extents with
  | nil => exact Nat.le_refl 0
  | cons cur rest ih =>
    have hcur : cur.unread.length ≤ cur.size := by simp [InternalExtent.unread, InternalExtent.size]
    rw [unreadCells_cons, List.length_append, List.map_cons, List.sum_cons]
    exact Nat.add_le_add hcur ih

/-- No extent is left when more is to be consumed than there is. -/
lemma dropExtents_eq_nil (h : (unreadCells extents).length < n) : dropExtents extents n = [] := by
  induction extents generalizing n with
  | nil => rfl
  | cons cur rest ih =>
    rw [unreadCells_cons, List.length_append] at h
    unfold dropExtents
    rw [if_neg (by omega), if_pos (by omega)]
    exact ih (by omega)

end BufferImpl

namespace ExtentMemory

variable {m : ExtentMemory β} {b o : LinkedBuffer} {l l' : List (Nat × InternalExtent β)}
  {rest : List (ExtentRing β)}

/-! ### Splices and destructors -/

/-- The splice goes well, only the rings of its two buffers change, and it agrees with the one on
lists of extents. -/
def Splices (splice : LinkedBuffer → LinkedBuffer → ExtentMemory β →
      Except Fault (LinkedBuffer × LinkedBuffer × ExtentMemory β))
    (listSplice : BufferImpl β → BufferImpl β → BufferImpl β × BufferImpl β)
    (b o : LinkedBuffer) (m : ExtentMemory β) (l l' : List (Nat × InternalExtent β))
    (rest : List (ExtentRing β)) : Prop :=
  ∃ size size' m' l₁ l₂, splice b o m = .ok (⟨b.head, size⟩, ⟨o.head, size'⟩, m') ∧
    m'.Owned [] (⟨b.head, l₁⟩ :: ⟨o.head, l₂⟩ :: rest) ∧
    listSplice (listed l b.size) (listed l' o.size) = (listed l₁ size, listed l₂ size')

lemma Owned.isEmpty_other (h : m.Owned [] (⟨b.head, l⟩ :: ⟨o.head, l'⟩ :: rest)) :
    m.listEmpty o.head = l'.isEmpty := (h.perm (.swap _ _ rest)).listEmpty_eq

lemma Owned.deref_other (h : m.Owned [] (⟨b.head, l⟩ :: ⟨o.head, l'⟩ :: rest)) :
    m.deref (some o.head) = .ok ⟨⟨[], 0, 0⟩, m.links.prev o.head, m.links.next o.head⟩ :=
  (h.perm (.swap _ _ rest)).deref_head

lemma Owned.appendBuffer (h : m.Owned [] (⟨b.head, l⟩ :: ⟨o.head, l'⟩ :: rest)) :
    Splices LinkedBuffer.appendBuffer BufferImpl.appendBuffer b o m l l' rest := by
  by_cases hl' : l' = []
  · subst hl'
    refine ⟨b.size, o.size, m, l, [], ?_, h, rfl⟩
    unfold LinkedBuffer.appendBuffer
    rw [h.isEmpty_other]
    rfl
  · obtain ⟨m₁, m₂, m₃, hm₁, hm₂, hm₃, howned⟩ := h.splice_append hl'
    refine ⟨SizeT.add b.size o.size, 0, m₃, l ++ l', [], ?_, howned, ?_⟩
    · unfold LinkedBuffer.appendBuffer LinkedBuffer.reset
      rw [h.isEmpty_other, if_neg (by simpa using hl'), h.deref_other, ok_bind, hm₁, ok_bind, hm₂,
        ok_bind, hm₃]
      rfl
    · unfold BufferImpl.appendBuffer
      rw [if_neg (by simpa [listed] using hl')]
      simp [listed, BufferImpl.empty]

lemma Owned.prependBuffer (h : m.Owned [] (⟨b.head, l⟩ :: ⟨o.head, l'⟩ :: rest)) :
    Splices LinkedBuffer.prependBuffer BufferImpl.prependBuffer b o m l l' rest := by
  by_cases hl' : l' = []
  · subst hl'
    refine ⟨b.size, o.size, m, l, [], ?_, h, rfl⟩
    unfold LinkedBuffer.prependBuffer
    rw [h.isEmpty_other]
    rfl
  · obtain ⟨m₁, m₂, m₃, hm₁, hm₂, hm₃, howned⟩ := h.splice_prepend hl'
    refine ⟨SizeT.add b.size o.size, 0, m₃, l' ++ l, [], ?_, howned, ?_⟩
    · unfold LinkedBuffer.prependBuffer LinkedBuffer.reset
      rw [h.isEmpty_other, if_neg (by simpa using hl'), h.deref_other, ok_bind, hm₁, ok_bind, hm₂,
        ok_bind, hm₃]
      rfl
    · unfold BufferImpl.prependBuffer
      rw [if_neg (by simpa [listed] using hl')]
      simp [listed, BufferImpl.empty]

/-- The destructor takes out every extent. -/
lemma Owned.drain_max (h : m.Owned [] (⟨b.head, l⟩ :: rest)) :
    ∃ m' size, b.drain m SizeT.max = .ok ⟨m', size, []⟩ ∧ m'.Owned [] (⟨b.head, []⟩ :: rest) := by
  obtain ⟨m', l', hdrain, howned, hl'⟩ := h.drain_eq SizeT.max
  have hlt : (BufferImpl.unreadCells (l.map Prod.snd)).length < SizeT.max := by
    calc (BufferImpl.unreadCells (l.map Prod.snd)).length
      _ ≤ ((l.map Prod.snd).map InternalExtent.size).sum := BufferImpl.length_unreadCells_le
      _ < SizeT.objectLimit := h.sum_size_lt
      _ ≤ SizeT.max := by decide
  rw [BufferImpl.dropExtents_eq_nil hlt] at hl'
  rw [List.map_eq_nil_iff.mp hl'] at howned
  exact ⟨m', _, hdrain, howned⟩

/-! ### What `drain` records -/

section History

variable {m' : ExtentMemory β} {q q' : Option Nat} {r : LinkedReturn β}

lemma history_store {node : LinkedExtent β} : (m.store q node).history = m.history := by
  cases q <;> rfl

lemma history_setNext (h : m.setNext q q' = .ok m') : m'.history = m.history := by
  obtain ⟨node, -, h⟩ := bind_eq_ok.mp h
  obtain rfl := Except.ok.inj h
  exact history_store

lemma history_setPrev (h : m.setPrev q q' = .ok m') : m'.history = m.history := by
  obtain ⟨node, -, h⟩ := bind_eq_ok.mp h
  obtain rfl := Except.ok.inj h
  exact history_store

lemma history_setExtent {e : InternalExtent β} (h : m.setExtent q e = .ok m') :
    m'.history = m.history := by
  obtain ⟨node, -, h⟩ := bind_eq_ok.mp h
  obtain rfl := Except.ok.inj h
  exact history_store

lemma history_unlink (h : m.unlink q = .ok m') : m'.history = m.history := by
  obtain ⟨node, -, h⟩ := bind_eq_ok.mp h
  obtain ⟨m₁, h₁, h⟩ := bind_eq_ok.mp h
  obtain ⟨node', -, h⟩ := bind_eq_ok.mp h
  exact (history_setPrev h).trans (history_setNext h₁)

lemma history_delete (h : m.delete q = .ok m') : m.history <+: m'.history := by
  cases q with
  | none =>
    obtain rfl := Except.ok.inj h
    exact List.prefix_rfl
  | some p =>
    obtain ⟨node, -, h⟩ := bind_eq_ok.mp h
    obtain rfl := Except.ok.inj h
    exact List.prefix_append _ _

lemma history_drainRound {head : Nat} {st st' : ExtentMemory β × Nat}
    (h : LinkedBuffer.drainRound head st = .ok st') : st.1.history <+: st'.1.history := by
  obtain ⟨m, n⟩ := st
  obtain ⟨sentinel, -, h⟩ := bind_eq_ok.mp h
  obtain ⟨node, -, h⟩ := bind_eq_ok.mp h
  obtain ⟨m₁, h₁, h⟩ := bind_eq_ok.mp h
  split_ifs at h
  · obtain ⟨m₂, h₂, h⟩ := bind_eq_ok.mp h
    obtain ⟨m₃, h₃, h⟩ := bind_eq_ok.mp h
    obtain rfl := Except.ok.inj h
    rw [← history_setExtent h₁, ← history_unlink h₂]
    exact history_delete h₃
  · obtain rfl := Except.ok.inj h
    exact (history_setExtent h₁).symm ▸ List.prefix_rfl

/-- `drain` forgets no allocation. -/
lemma history_drain {n : Nat} (h : b.drain m n = .ok r) : m.history <+: r.memory.history := by
  obtain ⟨st, hloop, h⟩ := bind_eq_ok.mp h
  obtain rfl := Except.ok.inj h
  exact Loop.whileDo_invariant (fun st => m.history <+: st.1.history)
    (fun _ _ hst hround => hst.trans (history_drainRound hround)) List.prefix_rfl hloop

end History

end ExtentMemory

/-! ### The buffers of a run -/

/-- A buffer with the extents of its ring, by address. -/
structure BufferView (β : Type) where
  buffer : LinkedBuffer
  nodes : List (Nat × InternalExtent β)

namespace BufferView

def ring (v : BufferView β) : ExtentRing β := ⟨v.buffer.head, v.nodes⟩

def listed (v : BufferView β) : BufferImpl β := WhatTheEvent.listed v.nodes v.buffer.size

end BufferView

namespace LinkedPool

variable {s s' : LinkedPool β} {views views' : List (Option (BufferView β))} {v w : BufferView β}
  {b : LinkedBuffer} {m : ExtentMemory β} {results : List (LinkedResult β)} {i j o p : Nat}

/-- The rings of the buffers that are left. -/
def rings (views : List (Option (BufferView β))) : List (ExtentRing β) :=
  views.reduceOption.map BufferView.ring

/-- The buffers own everything in memory, each the extents of its ring. -/
structure Shape (s : LinkedPool β) (views : List (Option (BufferView β))) : Prop where
  buffers : s.buffers = views.map (Option.map BufferView.buffer)
  owned : s.memory.Owned [] (rings views)

lemma rings_perm (hv : views[i]? = some (some v)) :
    (rings views).Perm (v.ring :: rings (views.set i none)) :=
  (Pointwise.perm_reduceOption hv).map BufferView.ring

lemma rings_set_perm (hi : i < views.length) :
    (rings (views.set i (some v))).Perm (v.ring :: rings (views.set i none)) :=
  (Pointwise.perm_reduceOption_set hi).map BufferView.ring

lemma rings_concat : rings (views ++ [some v]) = rings views ++ [v.ring] := by
  simp [rings, List.reduceOption_append]

lemma mem_rings (hv : views[i]? = some (some v)) : v.ring ∈ rings views :=
  (rings_perm hv).mem_iff.mpr List.mem_cons_self

lemma exists_of_mem_rings {r : ExtentRing β} (hr : r ∈ rings views) :
    ∃ (i : Nat) (v : BufferView β), views[i]? = some (some v) ∧ v.ring = r := by
  obtain ⟨v, hv, rfl⟩ := List.mem_map.mp hr
  obtain ⟨i, hi⟩ := List.mem_iff_getElem?.mp (List.reduceOption_mem_iff.mp hv)
  exact ⟨i, v, hi, rfl⟩

lemma Shape.view (h : s.Shape views) (hb : s.buffers[i]? = some (some b)) :
    ∃ v, views[i]? = some (some v) ∧ v.buffer = b := by
  rw [h.buffers, List.getElem?_map, Option.map_eq_some_iff] at hb
  obtain ⟨slot, hslot, hb⟩ := hb
  obtain ⟨v, rfl, hv⟩ := Option.map_eq_some_iff.mp hb
  exact ⟨v, hslot, hv⟩

lemma Shape.buffer (h : s.Shape views) (hv : views[i]? = some (some v)) :
    s.buffers[i]? = some (some v.buffer) := by
  rw [h.buffers, List.getElem?_map, hv]
  rfl

lemma Shape.get (h : s.Shape views) (hv : views[i]? = some (some v)) :
    s.get i = .ok v.buffer := by
  unfold LinkedPool.get
  rw [h.buffer hv]

/-- The memory, seen from one of the buffers. -/
lemma Shape.focus (h : s.Shape views) (hv : views[i]? = some (some v)) :
    s.memory.Owned [] (v.ring :: rings (views.set i none)) := h.owned.perm (rings_perm hv)

/-- The memory, seen from two of the buffers. -/
lemma Shape.focus_two (h : s.Shape views) (hv : views[i]? = some (some v))
    (hw : views[o]? = some (some w)) (hio : i ≠ o) :
    s.memory.Owned [] (v.ring :: w.ring :: rings ((views.set i none).set o none)) :=
  (h.focus hv).perm ((rings_perm (by rw [List.getElem?_set_ne hio, hw])).cons _)

/-- The buffer has another ring. -/
lemma Shape.set (h : s.Shape views) (hi : i < views.length)
    (hm : m.Owned [] (v.ring :: rings (views.set i none))) :
    Shape ⟨m, s.buffers.set i (some v.buffer), results⟩ (views.set i (some v)) := by
  refine ⟨?_, hm.perm (rings_set_perm hi).symm⟩
  rw [h.buffers, List.map_set]
  rfl

/-- Two buffers have other rings. -/
lemma Shape.set_two (h : s.Shape views) (hi : i < views.length) (ho : o < views.length)
    (hio : i ≠ o)
    (hm : m.Owned [] (v.ring :: w.ring :: rings ((views.set i none).set o none))) :
    Shape ⟨m, (s.buffers.set i (some v.buffer)).set o (some w.buffer), results⟩
      ((views.set i (some v)).set o (some w)) := by
  refine ⟨?_, hm.perm ?_⟩
  · rw [h.buffers, List.map_set, List.map_set]
    rfl
  · have hv : (rings ((views.set o none).set i (some v))).Perm
        (v.ring :: rings ((views.set o none).set i none)) := rings_set_perm (by simpa using hi)
    have hw : (rings ((views.set i (some v)).set o (some w))).Perm
        (w.ring :: rings ((views.set i (some v)).set o none)) :=
      rings_set_perm (by simpa using ho)
    rw [List.set_comm (some v) none hio] at hw
    rw [List.set_comm none none hio.symm] at hv
    exact (List.Perm.swap _ _ _).trans ((hv.symm.cons w.ring).trans hw.symm)

/-! ### Steps -/

/-- The addresses of the extents of a buffer. -/
def addresses (views : List (Option (BufferView β))) (i : Nat) : List Nat :=
  match views[i]? with
  | some (some v) => v.ring.addresses
  | _ => []

/-- The buffers as lists of extents. -/
def listed (views : List (Option (BufferView β))) : List (Option (BufferImpl β)) :=
  views.map (Option.map BufferView.listed)

/-- What a step does to the buffers and adds to the results: the same as on lists of extents, unless
it throws, in which case it leaves every list. -/
structure Stepped (views views' : List (Option (BufferView β))) (op : Op β)
    (results : List (LinkedResult β)) : Prop where
  untouched : results = [.badAlloc] → addresses views' = addresses views
  payload : .badAlloc ∉ results → op.payload.length < SizeT.objectLimit
  refines : .badAlloc ∉ results → ∀ p : Pool β, p.buffers = listed views →
    ∃ p' gained places, p.apply op = .ok p' ∧ p'.buffers = listed views' ∧
      p'.results = p.results ++ gained ∧ results = gained.map (Result.linked places)

/-- The step goes well, and a destructor deletes the extents of its buffer. -/
def Steps (s : LinkedPool β) (views : List (Option (BufferView β))) (act : Op β × Bool) : Prop :=
  ∃ s' views' results, s.step act = .ok s' ∧ s'.Shape views' ∧
    s'.results = s.results ++ results ∧ Stepped views views' act.1 results ∧
    ∀ i, act.1 = .destroy i → ∀ p ∈ addresses views i, s'.memory.history.count (.release p) = 1

/-- A step that takes no bytes and has no result. -/
lemma stepped_nil {op : Op β} (hop : op.payload = []) (h : ∀ p : Pool β, p.buffers = listed views →
    ∃ p', p.apply op = .ok p' ∧ p'.buffers = listed views' ∧ p'.results = p.results) :
    Stepped views views' op [] := by
  refine ⟨by simp, fun _ => ?_, fun _ p hp => ?_⟩
  · rw [hop]
    exact Nat.two_pow_pos 63
  · obtain ⟨p', happly, hbuffers, hresults⟩ := h p hp
    exact ⟨p', [], [], happly, hbuffers, by rw [hresults, List.append_nil], rfl⟩

lemma addresses_eq (hv : views[i]? = some (some v)) : addresses views i = v.ring.addresses := by
  unfold addresses
  rw [hv]

lemma addresses_set (hv : views[i]? = some (some v)) (hw : w.ring.addresses = v.ring.addresses) :
    addresses (views.set i (some w)) = addresses views := by
  funext j
  by_cases hij : i = j
  · subst hij
    have hlt : i < views.length := (List.getElem?_eq_some_iff.mp hv).1
    rw [addresses_eq hv, addresses_eq (v := w) (by simp [hlt]), hw]
  · unfold addresses
    rw [List.getElem?_set_ne hij]

lemma get_listed {p : Pool β} (hp : p.buffers = listed views)
    (hv : views[i]? = some (some v)) : p.get i = .ok v.listed := by
  unfold Pool.get
  rw [hp, listed, List.getElem?_map, hv]
  rfl

lemma Shape.create (h : s.Shape views) (granted : Bool) : s.Steps views (.create, granted) := by
  refine ⟨_, views ++ [some ⟨⟨s.memory.heap.fresh, 0⟩, []⟩], [], rfl, ⟨?_, ?_⟩,
    (List.append_nil _).symm, stepped_nil rfl fun p hp => ⟨_, rfl, ?_, rfl⟩, by simp⟩
  · rw [List.map_append, ← h.buffers]
    rfl
  · rw [rings_concat]
    exact h.owned.create.perm (List.perm_append_singleton _ _).symm
  · rw [listed, List.map_append, ← listed, ← hp]
    rfl

lemma badAlloc_not_mem {results : List (Result β)} {places : List Nat} :
    .badAlloc ∉ results.map (Result.linked places) := by
  intro hmem
  obtain ⟨r, -, hr⟩ := List.mem_map.mp hmem
  cases r <;> cases hr

lemma Shape.call {c : Call β} (h : s.Shape views) (hv : views[i]? = some (some v))
    (hfits : v.listed.AppendFits c.appended) (granted : Bool) :
    s.Steps views (.call i c, granted) := by
  have hi : i < views.length := (List.getElem?_eq_some_iff.mp hv).1
  obtain ⟨r, l', hcall, howned, hagrees⟩ := (h.focus hv).answers (b := v.buffer) hfits granted
  have hstep : s.step (.call i c, granted) = .ok ⟨r.memory,
      s.buffers.set i (some { v.buffer with size := r.size }), s.results ++ r.results⟩ := by
    change s.call i c granted = _
    unfold LinkedPool.call
    rw [h.get hv, ok_bind, hcall]
    rfl
  refine ⟨_, views.set i (some ⟨⟨v.buffer.head, r.size⟩, l'⟩), r.results, hstep,
    h.set (v := ⟨⟨v.buffer.head, r.size⟩, l'⟩) hi howned, rfl, ?_, by simp⟩
  rcases hagrees with ⟨hbad, haddresses⟩ | ⟨hpayload, gained, hlist, hresults⟩
  · have hmem : .badAlloc ∈ r.results := hbad ▸ List.mem_singleton_self _
    exact ⟨fun _ => addresses_set hv haddresses, fun hgood => absurd hmem hgood,
      fun hgood => absurd hmem hgood⟩
  · refine ⟨fun hbad => ?_, fun _ => hpayload, fun _ p hp => ?_⟩
    · exact absurd (hresults ▸ hbad ▸ List.mem_singleton_self _) badAlloc_not_mem
    · refine ⟨{ p.set i (WhatTheEvent.listed l' r.size) with results := p.results ++ gained },
        gained, l'.map Prod.fst, ?_, ?_, rfl, hresults⟩
      · change (p.get i >>= fun a => a.call c >>= fun answer =>
          pure { p.set i answer.1 with results := p.results ++ answer.2 }) = _
        rw [get_listed hp hv, ok_bind, BufferView.listed, hlist]
        rfl
      · rw [listed, List.map_set, ← listed, ← hp]
        rfl

/-- A splice that keeps the ownership goes well. -/
lemma Shape.spliceWith
    {splice : LinkedBuffer → LinkedBuffer → ExtentMemory β →
      Except Fault (LinkedBuffer × LinkedBuffer × ExtentMemory β)}
    {listSplice : BufferImpl β → BufferImpl β → BufferImpl β × BufferImpl β}
    {op : Op β} {granted : Bool} (h : s.Shape views) (hv : views[i]? = some (some v))
    (hw : views[o]? = some (some w)) (hio : i ≠ o)
    (hsplice : ExtentMemory.Splices splice listSplice v.buffer w.buffer s.memory v.nodes w.nodes
      (rings ((views.set i none).set o none)))
    (hstep : s.step (op, granted) = spliceWith splice s i o)
    (hlist : ∀ p : Pool β, p.apply op = p.getTwo i o >>= fun (b, other) =>
      pure ((p.set i (listSplice b other).1).set o (listSplice b other).2))
    (hpayload : op.payload = []) (hop : ∀ i, op ≠ .destroy i) : s.Steps views (op, granted) := by
  have hi : i < views.length := (List.getElem?_eq_some_iff.mp hv).1
  have ho : o < views.length := (List.getElem?_eq_some_iff.mp hw).1
  obtain ⟨size, size', m, l₁, l₂, hok, howned, hsame⟩ := hsplice
  have hget : s.getTwo i o = .ok (v.buffer, w.buffer) := by
    unfold LinkedPool.getTwo
    rw [if_neg hio, h.get hv, ok_bind, h.get hw]
    rfl
  have h' : Shape ⟨m, (s.buffers.set i (some ⟨v.buffer.head, size⟩)).set o
      (some ⟨w.buffer.head, size'⟩), s.results⟩
      ((views.set i (some ⟨⟨v.buffer.head, size⟩, l₁⟩)).set o
        (some ⟨⟨w.buffer.head, size'⟩, l₂⟩)) :=
    h.set_two (v := ⟨⟨v.buffer.head, size⟩, l₁⟩) (w := ⟨⟨w.buffer.head, size'⟩, l₂⟩) hi ho hio
      howned
  refine ⟨_, _, [], hstep.trans ?_, h', (List.append_nil _).symm,
    stepped_nil hpayload fun p hp => ?_, fun j hj => absurd hj (hop j)⟩
  · unfold LinkedPool.spliceWith
    rw [hget, ok_bind]
    simp only [hok]
    rfl
  · have hgot : p.getTwo i o = .ok (v.listed, w.listed) := by
      unfold Pool.getTwo
      rw [if_neg hio, get_listed hp hv, ok_bind, get_listed hp hw]
      rfl
    have hboth : listSplice v.listed w.listed =
        (WhatTheEvent.listed l₁ size, WhatTheEvent.listed l₂ size') := hsame
    refine ⟨(p.set i (listSplice v.listed w.listed).1).set o (listSplice v.listed w.listed).2,
      ?_, ?_, rfl⟩
    · rw [hlist, hgot]
      rfl
    · change (p.buffers.set i _).set o _ = _
      rw [hboth, hp, listed, listed, List.map_set, List.map_set]
      rfl

lemma Shape.appendBuffer (h : s.Shape views) (hv : views[i]? = some (some v))
    (hw : views[o]? = some (some w)) (hio : i ≠ o) (granted : Bool) :
    s.Steps views (.appendBuffer i o, granted) :=
  h.spliceWith hv hw hio (h.focus_two hv hw hio).appendBuffer rfl (fun _ => rfl) rfl (by simp)

lemma Shape.prependBuffer (h : s.Shape views) (hv : views[i]? = some (some v))
    (hw : views[o]? = some (some w)) (hio : i ≠ o) (granted : Bool) :
    s.Steps views (.prependBuffer i o, granted) :=
  h.spliceWith hv hw hio (h.focus_two hv hw hio).prependBuffer rfl (fun _ => rfl) rfl (by simp)

/-- Buffer `i` was created and has not been destroyed. -/
def Has (s : LinkedPool β) (i : Nat) : Prop := s.buffers[i]?.join.isSome

instance : Decidable (s.Has i) := inferInstanceAs (Decidable (_ = true))

/-- The buffers of the step are there, and the two of a splice are different ones. -/
def Legal (s : LinkedPool β) : Op β × Bool → Prop
  | (.create, _) => True
  | (.call i _, _) => s.Has i
  | (.appendBuffer i o, _) => i ≠ o ∧ s.Has i ∧ s.Has o
  | (.prependBuffer i o, _) => i ≠ o ∧ s.Has i ∧ s.Has o
  | (.destroy i, _) => s.Has i

instance : ∀ (s : LinkedPool β) (act : Op β × Bool), Decidable (s.Legal act)
  | _, (.create, _) => inferInstanceAs (Decidable True)
  | s, (.call i _, _) => inferInstanceAs (Decidable (s.Has i))
  | s, (.appendBuffer i o, _) => inferInstanceAs (Decidable (i ≠ o ∧ s.Has i ∧ s.Has o))
  | s, (.prependBuffer i o, _) => inferInstanceAs (Decidable (i ≠ o ∧ s.Has i ∧ s.Has o))
  | s, (.destroy i, _) => inferInstanceAs (Decidable (s.Has i))

/-- The space of the last extent of buffer `i`, `0` if there is none: a sentinel has no space. -/
def spare (s : LinkedPool β) (i : Nat) : Nat :=
  let last : Except Fault (LinkedExtent β) := do
    let b ← s.get i
    let head ← s.memory.deref (some b.head)
    s.memory.deref head.prev
  match last with
  | .ok node => node.extent.appendable
  | .error _ => 0

/-- An `append` has no more bytes than there is space in the last extent, if there is any. -/
def Fits (s : LinkedPool β) : Op β × Bool → Prop
  | (.call i c, _) => s.spare i = 0 ∨ c.appended.length ≤ s.spare i
  | _ => True

instance : ∀ (s : LinkedPool β) (act : Op β × Bool), Decidable (s.Fits act)
  | s, (.call i c, _) =>
    inferInstanceAs (Decidable (s.spare i = 0 ∨ c.appended.length ≤ s.spare i))
  | _, (.create, _) => inferInstanceAs (Decidable True)
  | _, (.appendBuffer _ _, _) => inferInstanceAs (Decidable True)
  | _, (.prependBuffer _ _, _) => inferInstanceAs (Decidable True)
  | _, (.destroy _, _) => inferInstanceAs (Decidable True)

lemma Shape.spare_eq (h : s.Shape views) (hv : views[i]? = some (some v)) :
    s.spare i = v.listed.spare := by
  obtain ⟨buffer, l⟩ := v
  have howned : s.memory.Owned [] (⟨buffer.head, l⟩ :: rings (views.set i none)) := h.focus hv
  unfold LinkedPool.spare
  simp only [h.get hv, howned.deref_head, ok_bind]
  rcases List.eq_nil_or_concat' l with rfl | ⟨front, ⟨p, e⟩, rfl⟩
  · have hprev : s.memory.links.prev buffer.head = some buffer.head :=
      (howned.ring_head.prev_eq_head howned.nodup_ring).mpr rfl
    rw [hprev, howned.deref_head]
    rfl
  · rw [howned.prev_head, howned.deref]
    exact ExtentMemory.spare_last.symm

lemma has_iff : s.Has i ↔ ∃ b, s.buffers[i]? = some (some b) := by
  unfold Has
  rw [Option.isSome_iff_exists]
  simp only [Option.join_eq_some_iff]

lemma Shape.view_of_has (h : s.Shape views) (hi : s.Has i) : ∃ v, views[i]? = some (some v) := by
  obtain ⟨b, hb⟩ := has_iff.mp hi
  obtain ⟨v, hv, -⟩ := h.view hb
  exact ⟨v, hv⟩

/-! ### The lists of a run -/

/-- `lists` are the extents of the live buffers, each along the pointers of its buffer and none in
two of them, and what was allocated and is in none of them was deleted once. -/
structure WellLinked (s : LinkedPool β) (lists : Nat → List Nat) : Prop where
  circular : ∀ (i : Nat) (b : LinkedBuffer), s.buffers[i]? = some (some b) →
    s.memory.links.Circular b.head (lists i)
  /-- The memory holds the sentinels and the extents of the lists and nothing else. -/
  live : ∀ p, s.memory.Live p ↔
    ∃ (i : Nat) (b : LinkedBuffer), s.buffers[i]? = some (some b) ∧ p ∈ b.head :: lists i
  /-- What was allocated and not deleted has one owner. -/
  owner : ∀ p, s.memory.history.count (.release p) < s.memory.history.count (.acquire p) ↔
    ∃! i, s.Has i ∧ p ∈ lists i
  disjoint : ∀ p i j, s.Has i → s.Has j → p ∈ lists i → p ∈ lists j → i = j
  /-- Nothing is deleted that was not allocated, and nothing twice. -/
  deleted : ∀ p, s.memory.history.count (.release p) ≤ s.memory.history.count (.acquire p)
  allocated : ∀ p, s.memory.history.count (.acquire p) ≤ 1

lemma Shape.disjoint (h : s.Shape views) (hv : views[i]? = some (some v))
    (hw : views[j]? = some (some w)) (hp : p ∈ v.ring.all) (hp' : p ∈ w.ring.all) : i = j := by
  by_contra hij
  have hw' : w.ring ∈ rings (views.set i none) := mem_rings (by rw [List.getElem?_set_ne hij, hw])
  exact (h.focus hv).not_mem_rest (List.mem_append_right _ hp) w.ring hw' hp'

/-- What the ledger holds are the extents in the rings. -/
lemma Shape.exists_held (h : s.Shape views) :
    ∃ held : List Nat, (∀ p, s.memory.history.count (.release p) + held.count p =
      s.memory.history.count (.acquire p)) ∧
      ∀ p, p ∈ held ↔ ∃ r ∈ rings views, p ∈ r.addresses := by
  obtain ⟨held, hbalance, hperm⟩ := h.owned.holding.history
  refine ⟨held, Ledger.count_of_balance hbalance, fun p => hperm.mem_iff.trans ?_⟩
  rw [List.nil_append, List.map_flatMap, List.mem_flatMap]
  rfl

lemma Shape.mem_addresses (h : s.Shape views) :
    (∃ r ∈ rings views, p ∈ r.addresses) ↔ ∃ i, s.Has i ∧ p ∈ addresses views i := by
  constructor
  · rintro ⟨r, hr, hp⟩
    obtain ⟨i, v, hv, rfl⟩ := exists_of_mem_rings hr
    exact ⟨i, has_iff.mpr ⟨v.buffer, h.buffer hv⟩, (addresses_eq hv).symm ▸ hp⟩
  · rintro ⟨i, hi, hp⟩
    obtain ⟨v, hv⟩ := h.view_of_has hi
    exact ⟨v.ring, mem_rings hv, addresses_eq hv ▸ hp⟩

lemma Shape.unique (h : s.Shape views) (hi : s.Has i) (hj : s.Has j)
    (hp : p ∈ addresses views i) (hp' : p ∈ addresses views j) : i = j := by
  obtain ⟨v, hv⟩ := h.view_of_has hi
  obtain ⟨w, hw⟩ := h.view_of_has hj
  rw [addresses_eq hv] at hp
  rw [addresses_eq hw] at hp'
  exact h.disjoint hv hw (List.mem_cons_of_mem _ hp) (List.mem_cons_of_mem _ hp')

theorem Shape.wellLinked (h : s.Shape views) : s.WellLinked (addresses views) := by
  obtain ⟨held, hcount, hmem⟩ := h.exists_held
  refine ⟨fun i b hb => ?_, fun p => ?_, fun p => ?_, fun p i j => h.unique, fun p => ?_,
    fun p => ?_⟩
  · obtain ⟨v, hv, rfl⟩ := h.view hb
    rw [addresses_eq hv]
    exact (h.owned.ring v.ring (mem_rings hv)).circular (h.focus hv).nodup_ring
  · rw [h.owned.live_iff, List.map_nil, List.nil_append, List.mem_flatMap]
    constructor
    · rintro ⟨r, hr, hp⟩
      obtain ⟨i, v, hv, rfl⟩ := exists_of_mem_rings hr
      exact ⟨i, v.buffer, h.buffer hv, (addresses_eq hv).symm ▸ hp⟩
    · rintro ⟨i, b, hb, hp⟩
      obtain ⟨v, hv, rfl⟩ := h.view hb
      rw [addresses_eq hv] at hp
      exact ⟨v.ring, mem_rings hv, hp⟩
  · have hheld : s.memory.history.count (.release p) < s.memory.history.count (.acquire p) ↔
        p ∈ held := by
      rw [← hcount p, ← List.count_pos_iff]
      omega
    rw [hheld, hmem, h.mem_addresses]
    constructor
    · rintro ⟨i, hi, hp⟩
      exact ⟨i, ⟨hi, hp⟩, fun j hj => h.unique hj.1 hi hj.2 hp⟩
    · exact ExistsUnique.exists
  · exact Nat.le.intro (hcount p)
  · refine Nat.le_trans (h.owned.holding.numbered p) ?_
    split_ifs
    · exact Nat.le_refl 1
    · exact Nat.zero_le 1

/-- The extents of a buffer that is gone have been deleted. -/
lemma Shape.released (h : s.Shape views) (hv : views[i]? = some (some v))
    (h' : s'.Shape (views.set i none)) (hhistory : s.memory.history <+: s'.memory.history)
    (hp : p ∈ addresses views i) : s'.memory.history.count (.release p) = 1 := by
  have hi : s.Has i := has_iff.mpr ⟨v.buffer, h.buffer hv⟩
  have hheld : s.memory.history.count (.release p) < s.memory.history.count (.acquire p) :=
    (h.wellLinked.owner p).mpr ⟨i, ⟨hi, hp⟩, fun j hj => h.unique hj.1 hi hj.2 hp⟩
  have hacquired := hhistory.sublist.count_le (.acquire p)
  have hfree : ¬ s'.memory.history.count (.release p) < s'.memory.history.count (.acquire p) := by
    intro hlt
    obtain ⟨j, hj, hpj⟩ := ((h'.wellLinked.owner p).mp hlt).exists
    obtain ⟨w, hw⟩ := h'.view_of_has hj
    rw [addresses_eq hw] at hpj
    rw [addresses_eq hv] at hp
    have hij : i ≠ j := by
      rintro rfl
      simp [List.getElem?_set] at hw
    rw [List.getElem?_set_ne hij] at hw
    exact hij (h.disjoint hv hw (List.mem_cons_of_mem _ hp) (List.mem_cons_of_mem _ hpj))
  have hle := h'.wellLinked.allocated p
  have hge := h'.wellLinked.deleted p
  omega

/-- With its destructor a buffer gives back all its extents. -/
lemma Shape.destroy (h : s.Shape views) (hv : views[i]? = some (some v)) (granted : Bool) :
    s.Steps views (.destroy i, granted) := by
  obtain ⟨m, size, hdrain, howned⟩ := (h.focus hv).drain_max (b := v.buffer)
  have hstep : s.step (.destroy i, granted) = .ok
      ⟨{ m with heap := m.heap.free v.buffer.head }, s.buffers.set i none, s.results⟩ := by
    change s.destroy i = _
    unfold LinkedPool.destroy
    rw [h.get hv, ok_bind, hdrain]
    rfl
  have h' : Shape ⟨{ m with heap := m.heap.free v.buffer.head }, s.buffers.set i none, s.results⟩
      (views.set i none) := by
    refine ⟨?_, howned.destroy⟩
    rw [h.buffers, List.map_set]
    rfl
  refine ⟨_, views.set i none, [], hstep, h', (List.append_nil _).symm,
    stepped_nil rfl fun p hp => ⟨{ p with buffers := p.buffers.set i none }, ?_, ?_, rfl⟩,
    fun j hj p hp => ?_⟩
  · change (p.get i >>= fun a => a.drain SizeT.max >>= fun _ =>
      pure { p with buffers := p.buffers.set i none }) = _
    rw [get_listed hp hv, ok_bind, BufferImpl.drain_eq (b := v.listed) (h.focus hv).sound]
    rfl
  · rw [listed, List.map_set, ← listed, ← hp]
    rfl
  · obtain rfl := Op.destroy.inj hj
    exact h.released hv h' (ExtentMemory.history_drain hdrain) hp

/-- Every legal step goes well that overruns no spare space. -/
theorem Shape.step {act : Op β × Bool} (h : s.Shape views) (hlegal : s.Legal act)
    (hfits : s.Fits act) : s.Steps views act := by
  obtain ⟨op, granted⟩ := act
  cases op with
  | create => exact h.create granted
  | call i c =>
    obtain ⟨v, hv⟩ := h.view_of_has hlegal
    have hfits : s.spare i = 0 ∨ c.appended.length ≤ s.spare i := hfits
    rw [h.spare_eq hv] at hfits
    exact h.call hv hfits granted
  | appendBuffer i o =>
    obtain ⟨hio, hi, ho⟩ := hlegal
    obtain ⟨v, hv⟩ := h.view_of_has hi
    obtain ⟨w, hw⟩ := h.view_of_has ho
    exact h.appendBuffer hv hw hio granted
  | prependBuffer i o =>
    obtain ⟨hio, hi, ho⟩ := hlegal
    obtain ⟨v, hv⟩ := h.view_of_has hi
    obtain ⟨w, hw⟩ := h.view_of_has ho
    exact h.prependBuffer hv hw hio granted
  | destroy i =>
    obtain ⟨v, hv⟩ := h.view_of_has hlegal
    exact h.destroy hv granted

/-- A legal step that does not fit overwrites the heap. -/
lemma Shape.overruns {act : Op β × Bool} (h : s.Shape views) (hlegal : s.Legal act)
    (hfits : ¬ s.Fits act) : s.step act = .error .heapOverflow := by
  obtain ⟨op, granted⟩ := act
  cases op with
  | call i c =>
    obtain ⟨v, hv⟩ := h.view_of_has hlegal
    have hfits : ¬ (s.spare i = 0 ∨ c.appended.length ≤ s.spare i) := hfits
    rw [h.spare_eq hv] at hfits
    change s.call i c granted = _
    unfold LinkedPool.call
    rw [h.get hv, ok_bind, (h.focus hv).overruns (b := v.buffer) hfits, error_bind]
  | _ => exact absurd trivial hfits

/-- A step goes well from a well linked memory to another one. If it throws, it leaves every list,
and if it destroys a buffer, the extents of its list have been deleted. -/
def Lawful (s : LinkedPool β) (act : Op β × Bool) : Prop :=
  ∃ s' lists lists', s.step act = .ok s' ∧ s.WellLinked lists ∧ s'.WellLinked lists' ∧
    (s'.results = s.results ++ [.badAlloc] → lists' = lists) ∧
    ∀ i, act.1 = .destroy i → ∀ p ∈ lists i, s'.memory.history.count (.release p) = 1

lemma shape_empty : (empty : LinkedPool β).Shape [] := ⟨rfl, ExtentMemory.owned_empty⟩

lemma Shape.lawful {act : Op β × Bool} (h : s.Shape views) (hlegal : s.Legal act)
    (hfits : s.Fits act) :
    ∃ s', s.step act = .ok s' ∧ (∃ views', s'.Shape views') ∧ s.Lawful act := by
  obtain ⟨s', views', results, hstep, h', hresults, hstepped, hreleased⟩ := h.step hlegal hfits
  refine ⟨s', hstep, ⟨views', h'⟩, s', addresses views, addresses views', hstep, h.wellLinked,
    h'.wellLinked, fun hbad => ?_, hreleased⟩
  rw [hresults, List.append_cancel_left_eq] at hbad
  exact hstepped.untouched hbad

lemma Shape.lawful_iff_fits {act : Op β × Bool} (h : s.Shape views) (hlegal : s.Legal act) :
    s.Lawful act ↔ s.Fits act := by
  constructor
  · rintro ⟨s', lists, lists', hstep, -⟩
    by_contra hfits
    rw [h.overruns hlegal hfits] at hstep
    cases hstep
  · intro hfits
    obtain ⟨s', -, -, hlawful⟩ := h.lawful hlegal hfits
    exact hlawful

/-- In a run over live buffers, a splice being one of two different buffers and whether or not there
is memory, no step fails and the extents are well linked before and after each of them, and in the
end as well, if and only if no `append` overruns the spare space of the last extent. -/
theorem wellLinked_iff_fits {acts : List (Op β × Bool)}
    (h : Exec.Along step Legal (empty : LinkedPool β) acts) :
    (∃ s : LinkedPool β, Exec.exec step empty acts = .ok s ∧ (∃ lists, s.WellLinked lists) ∧
      Exec.Along step Lawful (empty : LinkedPool β) acts) ↔
      Exec.Along step Fits (empty : LinkedPool β) acts := by
  have hempty : ∃ views, (empty : LinkedPool β).Shape views := ⟨[], shape_empty⟩
  constructor
  · rintro ⟨s, hrun, -, hlawful⟩
    refine (Exec.along_iff (fun s : LinkedPool β => ∃ views, s.Shape views) ?_ ?_ hempty h).mp
      hlawful
    · rintro s act ⟨views, hviews⟩ hlegal
      exact hviews.lawful_iff_fits hlegal
    · rintro s act s' ⟨views, hviews⟩ hlegal hfits hstep
      obtain ⟨s₁, hstep₁, hviews', -⟩ := hviews.lawful hlegal hfits
      obtain rfl := Except.ok.inj (hstep₁.symm.trans hstep)
      exact hviews'
  · intro hfits
    obtain ⟨s, hrun, ⟨views, hshape⟩, hlawful⟩ :=
      Exec.exec_total (fun s : LinkedPool β => ∃ views, s.Shape views)
        (fun s act hs hboth => hs.elim fun views hviews => hviews.lawful hboth.1 hboth.2)
        hempty (h.and hfits)
    exact ⟨s, hrun, ⟨_, hshape.wellLinked⟩, hlawful⟩

/-- Memory runs out in a `reserve`, and two splices move the extents of both buffers. -/
theorem wellLinked_splices :
    let acts : List (Op Char × Bool) :=
      [(.create, true), (.create, true), (.call 0 (.append ['a', 'b']), true),
        (.call 1 (.append ['c']), true), (.call 0 (.reserve 3), false), (.appendBuffer 0 1, true),
        (.call 0 (.read 1), true), (.prependBuffer 1 0, true), (.destroy 1, true)]
    ∃ s, Exec.exec step empty acts = .ok s ∧ (∃ lists, s.WellLinked lists) ∧
      Exec.Along step Lawful empty acts :=
  (wellLinked_iff_fits (by decide)).mpr (by decide)

/-- Two bytes are spare and three are appended. -/
theorem not_wellLinked : ¬ ∀ acts : List (Op Char × Bool), Exec.Along step Legal empty acts →
    ∃ s, Exec.exec step empty acts = .ok s ∧ (∃ lists, s.WellLinked lists) ∧
      Exec.Along step Lawful empty acts := by
  intro h
  obtain ⟨s, hs, -⟩ := h [(.create, true), (.call 0 (.reserve 3), true),
    (.call 0 (.append ['a']), true), (.call 0 (.append ['b', 'c', 'd']), true)] (by decide)
  cases hs

/-! ### Reachable states -/

lemma has_of_get (h : s.get i = .ok b) : s.Has i := by
  unfold LinkedPool.get at h
  split at h
  · rename_i b' hi
    exact has_iff.mpr ⟨b', hi⟩
  · cases h
  · cases h

lemma has_of_getTwo {bs : LinkedBuffer × LinkedBuffer} (h : s.getTwo i o = .ok bs) :
    i ≠ o ∧ s.Has i ∧ s.Has o := by
  unfold LinkedPool.getTwo at h
  by_cases hio : i = o
  · rw [if_pos hio] at h
    cases h
  · rw [if_neg hio] at h
    obtain ⟨b, hb, h⟩ := bind_eq_ok.mp h
    obtain ⟨other, hother, -⟩ := bind_eq_ok.mp h
    exact ⟨hio, has_of_get hb, has_of_get hother⟩

/-- A step that goes well is one over live buffers. -/
lemma legal_of_step {act : Op β × Bool} (h : s.step act = .ok s') : s.Legal act := by
  obtain ⟨op, granted⟩ := act
  cases op with
  | create => trivial
  | call i c =>
    obtain ⟨b, hb, -⟩ := bind_eq_ok.mp h
    exact has_of_get hb
  | appendBuffer i o =>
    obtain ⟨bs, hbs, -⟩ := bind_eq_ok.mp h
    exact has_of_getTwo hbs
  | prependBuffer i o =>
    obtain ⟨bs, hbs, -⟩ := bind_eq_ok.mp h
    exact has_of_getTwo hbs
  | destroy i =>
    obtain ⟨b, hb, -⟩ := bind_eq_ok.mp h
    exact has_of_get hb

lemma Shape.steps_of_step {act : Op β × Bool} (h : s.Shape views) (hok : s.step act = .ok s') :
    ∃ views' results, s'.Shape views' ∧ s'.results = s.results ++ results ∧
      Stepped views views' act.1 results := by
  have hlegal := legal_of_step hok
  have hfits : s.Fits act := by
    by_contra hfits
    rw [h.overruns hlegal hfits] at hok
    cases hok
  obtain ⟨s₁, views', results, hstep, h', hresults, hstepped, -⟩ := h.step hlegal hfits
  obtain rfl := Except.ok.inj (hstep.symm.trans hok)
  exact ⟨views', results, h', hresults, hstepped⟩

lemma exists_shape_of_reachable (h : Exec.Reachable step empty s) : ∃ views, s.Shape views := by
  refine h.invariant (fun s : LinkedPool β => ∃ views, s.Shape views) ?_ ⟨[], shape_empty⟩
  rintro s act s' ⟨views, hshape⟩ hok
  obtain ⟨views', -, hshape', -⟩ := hshape.steps_of_step hok
  exact ⟨views', hshape'⟩

/-- When all buffers have been destroyed, every extent that was allocated has been deleted. -/
theorem settled_of_reachable (h : Exec.Reachable step (empty : LinkedPool β) s)
    (hnone : ∀ i, ¬ s.Has i) : Ledger.Settled s.memory.history := by
  obtain ⟨views, hshape⟩ := exists_shape_of_reachable h
  have hrings : rings views = [] := by
    refine List.eq_nil_iff_forall_not_mem.mpr fun r hr => ?_
    obtain ⟨i, v, hv, -⟩ := exists_of_mem_rings hr
    exact hnone i (has_iff.mpr ⟨v.buffer, hshape.buffer hv⟩)
  refine hshape.owned.holding.history.settled_iff.mpr ?_
  rw [hrings]
  rfl

/-! ### Refinement -/

/-- The results of a pool as they look in memory. -/
def Shows (results : List (Result β)) (linked : List (LinkedResult β)) : Prop :=
  List.Forall₂ (fun r r' => ∃ places, r' = r.linked places) results linked

/-- The lists of extents together hold no more than the memory. -/
lemma load_listed_le : ((listed views).map Pool.slotLoad).sum ≤
    (((rings views).flatMap ExtentRing.nodes).map fun node => node.2.size).sum := by
  induction views with
  | nil => exact Nat.le_refl 0
  | cons slot views ih =>
    cases slot with
    | none => simpa [listed, rings, Pool.slotLoad] using ih
    | some v =>
      have hv : v.listed.contents.length ≤ (v.nodes.map fun node => node.2.size).sum := by
        have hle : v.listed.contents.length ≤
            ((v.nodes.map Prod.snd).map InternalExtent.size).sum := BufferImpl.length_unreadCells_le
        rwa [List.map_map] at hle
      rw [rings, List.reduceOption_cons_of_some, List.map_cons, List.flatMap_cons, List.map_append,
        List.sum_append]
      exact Nat.add_le_add hv ih

lemma Shape.load_lt (h : s.Shape views) :
    ((listed views).map Pool.slotLoad).sum < SizeT.objectLimit :=
  Nat.lt_of_le_of_lt (Nat.le_trans load_listed_le (Nat.le_of_eq h.owned.holding.allocated.symm))
    h.owned.holding.room

end LinkedPool

end WhatTheEvent
