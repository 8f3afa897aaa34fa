import WhatTheEvent.Buffer.Owned

/-!
# What a call does to the ring of its buffer

A call on one buffer changes the ring of that buffer alone. Unless memory runs out, what it makes of
the extents along the ring is what the call makes of the list of extents of a `BufferImpl`. Only an
`append` can fail, of more bytes than the spare space of the last extent holds.
-/

namespace WhatTheEvent

variable {β : Type}

namespace InternalExtent

variable {e e' : InternalExtent β} {buf : List β} {n k : Nat}

lemma size_of_append (h : e.append buf n = .ok (e', k)) : e'.size = e.size := by
  rcases append_cases h with ⟨-, rfl, -⟩ | ⟨-, -, data, hcopy, rfl⟩
  · rfl
  · exact (memcpy_eq_ok hcopy).2

/-- A new extent takes all the bytes that it was made for. -/
lemma append_of_new (h : new n = .ok e) (hn : n ≤ buf.length) :
    n < SizeT.objectLimit ∧ e.append buf n = .ok (of [] (buf.take n) [], n) := by
  have hlimit : n < SizeT.objectLimit := by
    by_contra hge
    rw [new_of_le (Nat.le_of_not_lt hge)] at h
    cases h
  rw [new_of_lt hlimit] at h
  obtain rfl := Except.ok.inj h
  exact ⟨hlimit, append_new hlimit hn⟩

/-- An extent gives back consumed space. -/
lemma Bounded.prepend_eq (h : e.Bounded) (hs : e.prependable ≠ 0) (buf : List β) (n : Nat) : ∃ e',
    e.prepend buf n = .ok (e', min e.readOffset n) ∧ e'.Bounded ∧ e'.size = e.size ∧
      e'.prependable = e.readOffset - n := by
  have hoffset : e.readOffset ≤ e.data.length := h.sound
  have hfit : 0 + (buf.take (min e.readOffset n)).length ≤ e.data.length := by
    rw [List.length_take]
    omega
  obtain ⟨data, hcopy⟩ : ∃ data, memcpy e.data 0 (buf.take (min e.readOffset n)) = .ok data :=
    ⟨_, if_pos hfit⟩
  have hprepend : e.prepend buf n =
      .ok (⟨data, e.readOffset - min e.readOffset n, e.writeOffset⟩, min e.readOffset n) := by
    unfold InternalExtent.prepend
    simp only [hcopy]
    exact if_neg hs
  refine ⟨_, hprepend, (h.prepend hprepend).1, (memcpy_eq_ok hcopy).2, ?_⟩
  change e.readOffset - min e.readOffset n = _
  omega

end InternalExtent

namespace ExtentMemory

open InternalExtent

variable {m m' : ExtentMemory β} {p head n k : Nat} {e e' : InternalExtent β} {buf : List β}
  {granted : Bool} {loose front back l : List (Nat × InternalExtent β)}
  {rings rest : List (ExtentRing β)}

/-! ### Looking at a ring -/

lemma Owned.deref_head (h : m.Owned loose (⟨head, l⟩ :: rest)) :
    m.deref (some head) = .ok ⟨⟨[], 0, 0⟩, m.links.prev head, m.links.next head⟩ :=
  deref_eq (h.holding.sentinel head List.mem_cons_self)

lemma Owned.ring_head (h : m.Owned loose (⟨head, l⟩ :: rest)) :
    m.links.Ring head (l.map Prod.fst) := h.ring _ List.mem_cons_self

lemma Owned.nodup_ring (h : m.Owned loose (⟨head, l⟩ :: rest)) :
    (head :: l.map Prod.fst).Nodup := (List.nodup_append.mp h.nodup_cons).2.1

/-- `list_empty` tells whether there is an extent. -/
lemma Owned.listEmpty_eq (h : m.Owned loose (⟨head, l⟩ :: rest)) :
    m.listEmpty head = l.isEmpty := by
  unfold listEmpty
  rw [h.deref_head]
  simp only
  rw [Bool.eq_iff_iff, beq_iff_eq, h.ring_head.prev_eq_head h.nodup_ring, List.isEmpty_iff,
    List.map_eq_nil_iff]

lemma Owned.next_head (h : m.Owned loose (⟨head, (p, e) :: l⟩ :: rest)) :
    m.links.next head = some p :=
  (List.isChain_cons_cons.mp h.ring_head).1.1

lemma Owned.next_head_nil (h : m.Owned loose (⟨head, []⟩ :: rest)) :
    m.links.next head = some head :=
  (h.ring_head.next_eq_head h.nodup_ring).mpr rfl

lemma Owned.prev_head (h : m.Owned loose (⟨head, front ++ [(p, e)]⟩ :: rest)) :
    m.links.prev head = some p := by
  obtain ⟨x, hx, hprev⟩ := h.ring_head.exists_last
  have hlast : (head :: (front ++ [(p, e)]).map Prod.fst).getLast? = some p := by
    rw [List.map_append, ← List.cons_append]
    exact List.getLast?_concat
  rw [hprev, Option.mem_unique hx hlast]

/-! ### `append` and `prepend` -/

lemma appendTo_eq (he : m.extentAt p = some e) (happend : e.append buf n = .ok (e', k))
    (hm' : m.setExtent (some p) e' = .ok m') :
    LinkedBuffer.appendTo m (some p) buf n = .ok (m', k) := by
  rw [LinkedBuffer.appendTo, deref_eq he, ok_bind, happend, ok_bind]
  simp only [hm', ok_bind]
  rfl

lemma appendTo_error {f : Fault} (he : m.extentAt p = some e)
    (happend : e.append buf n = .error f) : LinkedBuffer.appendTo m (some p) buf n = .error f := by
  rw [LinkedBuffer.appendTo, deref_eq he, ok_bind, happend, error_bind]

/-- `cur->append` on an extent in no ring. -/
lemma Owned.appendTo_loose (h : m.Owned ((p, e) :: loose) rings) (hn : n ≤ buf.length)
    (happend : e.append buf n = .ok (e', k)) : ∃ m',
      LinkedBuffer.appendTo m (some p) buf n = .ok (m', k) ∧ m'.Owned ((p, e') :: loose) rings := by
  have hbounded : e.Bounded := h.holding.bounded (p, e) List.mem_cons_self
  obtain ⟨m', hm', howned⟩ :=
    h.setExtent_loose (hbounded.append hn happend).1 (size_of_append happend)
  exact ⟨m', appendTo_eq (h.holding.extent (p, e) List.mem_cons_self) happend hm', howned⟩

/-- `cur->append` on an extent of a ring. -/
lemma Owned.appendTo (h : m.Owned loose (⟨head, front ++ (p, e) :: back⟩ :: rest))
    (hn : n ≤ buf.length) (happend : e.append buf n = .ok (e', k)) : ∃ m',
      LinkedBuffer.appendTo m (some p) buf n = .ok (m', k) ∧
        m'.Owned loose (⟨head, front ++ (p, e') :: back⟩ :: rest) := by
  have hbounded : e.Bounded := h.holding.bounded (p, e) (by simp)
  obtain ⟨m', hm', howned, -⟩ :=
    h.setExtent (hbounded.append hn happend).1 (size_of_append happend)
  exact ⟨m', appendTo_eq (h.holding.extent (p, e) (by simp)) happend hm', howned⟩

end ExtentMemory

open ExtentMemory

/-! ### How a call ends -/

/-- Where a reserved extent lies in a buffer whose extents lie at the addresses. -/
def ReservedExtent.linked (addresses : List Nat) (r : ReservedExtent) : ReservedAt :=
  ⟨addresses.getD r.index 0, r.offset, r.size⟩

/-- The result as it looks in a buffer whose extents lie at the addresses. -/
def Result.linked (addresses : List Nat) : Result β → LinkedResult β
  | .copied cells => .copied cells
  | .extents memory => .extents memory
  | .size n => .size n
  | .empty isEmpty => .empty isEmpty
  | .reserved granted => .reserved (granted.map (ReservedExtent.linked addresses))

/-- The list of extents that is spread over memory. -/
def listed (nodes : List (Nat × InternalExtent β)) (size : Nat) : BufferImpl β :=
  ⟨nodes.map Prod.snd, size⟩

/-- The bytes that the call appends. -/
def Call.appended : Call β → List β
  | .append buf => buf
  | _ => []

/-- A call ends in an exception that leaves the list of extents as it was, or it does what the call
on the list of extents does, and was given no more bytes than an object holds. -/
def Agrees (b : LinkedBuffer) (l : List (Nat × InternalExtent β)) (c : Call β)
    (r : LinkedReturn β) (l' : List (Nat × InternalExtent β)) : Prop :=
  (r.results = [.badAlloc] ∧ l'.map Prod.fst = l.map Prod.fst) ∨
    (c.payload.length < SizeT.objectLimit ∧ ∃ results,
      (listed l b.size).call c = .ok (listed l' r.size, results) ∧
        r.results = results.map (Result.linked (l'.map Prod.fst)))

/-- The call goes well, and only the ring of its buffer changes. -/
def Answers (b : LinkedBuffer) (m : ExtentMemory β) (l : List (Nat × InternalExtent β))
    (rest : List (ExtentRing β)) (granted : Bool) (c : Call β) : Prop :=
  ∃ r l', b.call m granted c = .ok r ∧ r.memory.Owned [] (⟨b.head, l'⟩ :: rest) ∧ Agrees b l c r l'

namespace BufferImpl

variable {b : BufferImpl β}

lemma reserveExtents_eq {n : Nat} : b.reserveExtents n =
    if SizeT.sub n b.spare > 0 then do
      let cur ← InternalExtent.new (SizeT.sub n b.spare)
      pure ({ b with extents := b.extents ++ [cur] },
        b.spareExtents ++ [⟨b.extents.length, 0, SizeT.sub n b.spare⟩])
    else pure (b, b.spareExtents) := rfl

end BufferImpl

namespace ExtentMemory

open LinkedBuffer InternalExtent

variable {m m' : ExtentMemory β} {b : LinkedBuffer} {p head n : Nat} {e : InternalExtent β}
  {buf : List β} {granted : Bool} {cur : Option Nat} {front l : List (Nat × InternalExtent β)}
  {rest : List (ExtentRing β)}

lemma Owned.bounded (h : m.Owned [] (⟨head, l⟩ :: rest)) : ∀ e ∈ l.map Prod.snd, e.Bounded := by
  intro e he
  obtain ⟨node, hnode, rfl⟩ := List.mem_map.mp he
  exact h.holding.bounded node (List.mem_append_left (rest.flatMap ExtentRing.nodes) hnode)

lemma Owned.sound (h : m.Owned [] (⟨head, l⟩ :: rest)) : ∀ e ∈ l.map Prod.snd, e.Sound :=
  fun e he => (h.bounded e he).sound

/-- The extents of a buffer take no more than there is room for. -/
lemma Owned.sum_size_lt (h : m.Owned [] (⟨head, l⟩ :: rest)) :
    ((l.map Prod.snd).map InternalExtent.size).sum < SizeT.objectLimit := by
  refine Nat.lt_of_le_of_lt ?_ h.holding.room
  rw [h.holding.allocated, List.nil_append, List.flatMap_cons, List.map_append, List.sum_append,
    List.map_map]
  exact Nat.le_add_right _ _

lemma spare_last {size : Nat} : (listed (front ++ [(p, e)]) size).spare = e.appendable := by
  simp [listed, BufferImpl.spare]

/-! ### `append` -/

/-- The extent that `append` starts with. -/
lemma Owned.cur_last (h : m.Owned [] (⟨head, front ++ [(p, e)]⟩ :: rest)) :
    (if m.listEmpty head then none else m.links.prev head) = some p := by
  rw [h.listEmpty_eq, List.isEmpty_eq_false_iff.mpr (by simp), h.prev_head]
  rfl

/-- A round that needs a new extent. -/
lemma Owned.appendRound_new (h : m.Owned [] (⟨head, l⟩ :: rest))
    (hlacks : lacks appendable m cur = .ok true) (buf : List β) (granted : Bool) :
    ∃ st, appendRound head buf granted ⟨m, cur, buf.length, false⟩ = .ok st ∧
      (st = ⟨m, cur, buf.length, true⟩ ∨ st.threw = false ∧ st.remain = 0 ∧
        buf.length < SizeT.objectLimit ∧
        ∃ p, st.memory.Owned [] (⟨head, l ++ [(p, of [] buf [])]⟩ :: rest)) := by
  unfold LinkedBuffer.appendRound
  simp only [hlacks, ok_bind, if_true]
  cases hnew : m.new buf.length granted with
  | none => exact ⟨_, rfl, .inl rfl⟩
  | some made =>
    obtain ⟨m₁, p⟩ := made
    obtain ⟨e, he, h₁⟩ := h.new hnew
    obtain ⟨hlimit, happend⟩ := append_of_new he (Nat.le_refl buf.length)
    rw [List.take_length] at happend
    obtain ⟨m₂, hm₂, h₂⟩ := h₁.append
    obtain ⟨m₃, hm₃, h₃⟩ := h₂.appendTo (Nat.le_refl buf.length) happend
    simp only [hm₂, hm₃, ok_bind]
    exact ⟨_, rfl, .inr ⟨rfl, SizeT.sub_self _, hlimit, p, h₃⟩⟩

/-- A round that writes to the last extent. -/
lemma Owned.appendRound_last (h : m.Owned [] (⟨head, front ++ [(p, e)]⟩ :: rest))
    (hspace : e.appendable ≠ 0) (buf : List β) (granted : Bool) :
    appendRound head buf granted ⟨m, some p, n, false⟩ =
      LinkedBuffer.appendTo m (some p) buf n >>= fun (m', k) =>
        pure ⟨m', some p, SizeT.sub n k, false⟩ := by
  have hlacks : lacks appendable m (some p) = .ok false := by
    unfold lacks
    simp only [h.deref, ok_bind]
    simpa using hspace
  unfold LinkedBuffer.appendRound
  simp only [hlacks, ok_bind]
  rfl

/-- `append` ends after its first round. -/
lemma append_of_round {head' : LinkedExtent β} {st : Filling β}
    (hhead : m.deref (some b.head) = .ok head')
    (hcur : (if m.listEmpty b.head then none else head'.prev) = cur)
    (hround : appendRound b.head buf granted ⟨m, cur, buf.length, false⟩ = .ok st)
    (hst : st.threw = true ∨ st.remain ≤ buf.length) :
    b.append m buf granted = .ok (if st.threw then ⟨st.memory, b.size, [.badAlloc]⟩
      else ⟨st.memory, SizeT.add b.size buf.length, []⟩) := by
  have hguard : (!st.threw && decide (st.remain > buf.length)) = false := by
    rcases hst with hst | hst
    · simp [hst]
    · simp [Nat.not_lt.mpr hst]
  unfold LinkedBuffer.append
  simp only [hhead, hcur, ok_bind]
  rw [Loop.doWhile_of_not_guard (Nat.succ_pos _) hround hguard, ok_bind]
  split_ifs <;> rfl

lemma append_of_round_error {head' : LinkedExtent β} {f : Fault}
    (hhead : m.deref (some b.head) = .ok head')
    (hcur : (if m.listEmpty b.head then none else head'.prev) = cur)
    (hround : appendRound b.head buf granted ⟨m, cur, buf.length, false⟩ = .error f) :
    b.append m buf granted = .error f := by
  unfold LinkedBuffer.append
  simp only [hhead, hcur, ok_bind]
  rw [Loop.doWhile_error hround, error_bind]

/-- `append` when the last extent has no space. -/
lemma Owned.append_answers_new {head' : LinkedExtent β} (h : m.Owned [] (⟨b.head, l⟩ :: rest))
    (hhead : m.deref (some b.head) = .ok head')
    (hcur : (if m.listEmpty b.head then none else head'.prev) = cur)
    (hlacks : lacks appendable m cur = .ok true) (hspare : (listed l b.size).spare = 0) :
    Answers b m l rest granted (.append buf) := by
  obtain ⟨st, hround, hst⟩ := h.appendRound_new hlacks buf granted
  rcases hst with rfl | ⟨hthrew, hremain, hlimit, p, howned⟩
  · exact ⟨⟨m, b.size, [.badAlloc]⟩, l, append_of_round hhead hcur hround (.inl rfl), h,
      .inl ⟨rfl, rfl⟩⟩
  · refine ⟨⟨st.memory, SizeT.add b.size buf.length, []⟩, _, ?_, howned,
      .inr ⟨hlimit, [], ?_, rfl⟩⟩
    · rw [call, append_of_round hhead hcur hround (.inr (hremain ▸ Nat.zero_le _)), hthrew]
      rfl
    · rw [BufferImpl.call, BufferImpl.append_of_spare_eq_zero hspare hlimit]
      simp [listed]

/-- `append` when the last extent has space for all the bytes. -/
lemma Owned.append_answers_last (h : m.Owned [] (⟨b.head, front ++ [(p, e)]⟩ :: rest))
    (hspace : e.appendable ≠ 0) (hfit : buf.length ≤ e.appendable) :
    Answers b m (front ++ [(p, e)]) rest granted (.append buf) := by
  have hbounded : e.Bounded := h.holding.bounded (p, e) (by simp)
  have hlist : (listed (front ++ [(p, e)]) b.size).append buf = _ :=
    BufferImpl.Bounded.append_eq h.bounded (spare_last.trans_ne hspace)
      (hfit.trans_eq spare_last.symm)
  obtain ⟨m', hm', howned⟩ := h.appendTo (Nat.le_refl buf.length) (hbounded.append_eq hspace hfit)
  have hround : appendRound b.head buf granted ⟨m, some p, buf.length, false⟩ =
      .ok ⟨m', some p, 0, false⟩ := by
    rw [h.appendRound_last hspace, hm', ok_bind]
    simp
  refine ⟨⟨m', SizeT.add b.size buf.length, []⟩, _,
    append_of_round h.deref_head h.cur_last hround (.inr (Nat.zero_le _)), howned,
    .inr ⟨?_, [], ?_, rfl⟩⟩
  · calc buf.length
      _ ≤ e.size - e.writeOffset := hbounded.appendable_eq ▸ hfit
      _ ≤ e.size := Nat.sub_le _ _
      _ < SizeT.objectLimit := hbounded.size
  · rw [BufferImpl.call, hlist]
    simp [listed, BufferImpl.fillLast]

/-- `append` goes well if there is no spare space or the bytes fit in it. -/
theorem Owned.append_answers (h : m.Owned [] (⟨b.head, l⟩ :: rest))
    (hfits : (listed l b.size).AppendFits buf) : Answers b m l rest granted (.append buf) := by
  rcases List.eq_nil_or_concat' l with rfl | ⟨front, ⟨p, e⟩, rfl⟩
  · exact h.append_answers_new h.deref_head (if_pos h.listEmpty_eq) rfl rfl
  · by_cases hspace : e.appendable = 0
    · refine h.append_answers_new h.deref_head h.cur_last ?_ (spare_last.trans hspace)
      unfold lacks
      simp only [h.deref, ok_bind, hspace]
      rfl
    · unfold BufferImpl.AppendFits at hfits
      rw [spare_last] at hfits
      exact h.append_answers_last hspace (hfits.resolve_left hspace)

/-- Bytes that do not fit in the spare space of the last extent are copied past its end. -/
theorem Owned.append_overruns (h : m.Owned [] (⟨b.head, l⟩ :: rest))
    (hfits : ¬ (listed l b.size).AppendFits buf) :
    b.call m granted (.append buf) = .error .heapOverflow := by
  rcases List.eq_nil_or_concat' l with rfl | ⟨front, ⟨p, e⟩, rfl⟩
  · exact absurd (.inl rfl) hfits
  · obtain ⟨hspace, hlt⟩ := not_or.mp hfits
    rw [spare_last] at hspace hlt
    have hbounded : e.Bounded := h.holding.bounded (p, e) (by simp)
    have hround : appendRound b.head buf granted ⟨m, some p, buf.length, false⟩ =
        .error .heapOverflow := by
      rw [h.appendRound_last hspace, appendTo_error (h.holding.extent (p, e) (by simp))
        (hbounded.append_overflow hspace (Nat.lt_of_not_le hlt)), error_bind]
    exact append_of_round_error h.deref_head h.cur_last hround

/-! ### `prepend` -/

/-- A round that needs a new extent is the last one. -/
lemma Owned.prependRound_new (h : m.Owned [] (⟨head, l⟩ :: rest))
    (hlacks : lacks prependable m cur = .ok true) (hn : n ≤ buf.length) (granted : Bool) :
    ∃ st, prependRound head buf granted ⟨m, cur, n, false⟩ = .ok st ∧
      (st = ⟨m, cur, n, true⟩ ∨ st.threw = false ∧ st.remain = 0 ∧ ∃ p,
        BufferImpl.prependNew buf (l.map Prod.snd) n =
          .ok (of [] (buf.take n) [] :: l.map Prod.snd, 0) ∧
        st.memory.Owned [] (⟨head, (p, of [] (buf.take n) []) :: l⟩ :: rest)) := by
  unfold LinkedBuffer.prependRound
  simp only [hlacks, ok_bind, if_true]
  cases hnew : m.new n granted with
  | none => exact ⟨_, rfl, .inl rfl⟩
  | some made =>
    obtain ⟨m₁, p⟩ := made
    obtain ⟨e, he, h₁⟩ := h.new hnew
    obtain ⟨hlimit, happend⟩ := append_of_new he hn
    obtain ⟨m₂, hm₂, h₂⟩ := h₁.appendTo_loose hn happend
    obtain ⟨m₃, hm₃, h₃⟩ := h₂.prepend
    simp only [hm₂, hm₃, ok_bind]
    exact ⟨_, rfl, .inr ⟨rfl, SizeT.sub_self n, p, BufferImpl.prependNew_eq hlimit hn, h₃⟩⟩

/-- A round that gives back space of the first extent. -/
lemma Owned.prependRound_first (h : m.Owned [] (⟨head, (p, e) :: l⟩ :: rest))
    (hspace : e.prependable ≠ 0) (buf : List β) (n : Nat) (granted : Bool) :
    ∃ m' e', prependRound head buf granted ⟨m, some p, n, false⟩ =
        .ok ⟨m', some p, n - e.readOffset, false⟩ ∧
      BufferImpl.prependRound buf (e :: l.map Prod.snd, n) =
        .ok (e' :: l.map Prod.snd, n - e.readOffset) ∧
      e'.prependable = e.readOffset - n ∧ e.readOffset ≤ e'.size ∧
      m'.Owned [] (⟨head, (p, e') :: l⟩ :: rest) := by
  have hfirst : m.Owned [] (⟨head, [] ++ (p, e) :: l⟩ :: rest) := h
  have hbounded : e.Bounded := h.holding.bounded (p, e) (by simp)
  obtain ⟨e', he', hbounded', hsize, hprependable⟩ := hbounded.prepend_eq hspace buf n
  have hlacks : lacks prependable m (some p) = .ok false := by
    unfold lacks
    simp only [hfirst.deref, ok_bind]
    simpa using hspace
  have hremain : SizeT.sub n (min e.readOffset n) = n - e.readOffset := by
    rw [SizeT.sub_of_le (Nat.min_le_right _ _)]
    omega
  obtain ⟨m', hm', howned, -⟩ := hfirst.setExtent hbounded' hsize
  refine ⟨m', e', ?_, ?_, hprependable, hsize ▸ hbounded.sound, howned⟩
  · unfold LinkedBuffer.prependRound prependTo
    simp only [hlacks, hfirst.deref, he', hm', ok_bind, pure_eq_ok, Bool.false_eq_true, if_false,
      hremain]
  · simp only [BufferImpl.prependRound, if_neg hspace, he', ok_bind, hremain]
    rfl

/-- The end of `prepend`, after its loop. -/
lemma prepend_of_loop {head' : LinkedExtent β} {st : Filling β}
    (hhead : m.deref (some b.head) = .ok head')
    (hcur : (if m.listEmpty b.head then none else head'.next) = cur)
    (hloop : Loop.doWhile .diverges (fun st : Filling β => !st.threw && decide (st.remain > 0))
      (LinkedBuffer.prependRound b.head buf granted) (buf.length + 1)
      ⟨m, cur, buf.length, false⟩ = .ok st) :
    b.prepend m buf granted = .ok (if st.threw then ⟨st.memory, b.size, [.badAlloc]⟩
      else ⟨st.memory, SizeT.add b.size buf.length, []⟩) := by
  unfold LinkedBuffer.prepend
  simp only [hhead, hcur, ok_bind, hloop]
  split_ifs <;> rfl

/-- The last round of `prepend` needs a new extent, after the rounds that led to `m₁`. -/
lemma Owned.prepend_answers_new {m₁ : ExtentMemory β} {l₁ : List (Nat × InternalExtent β)}
    {head' : LinkedExtent β} {cur₁ : Option Nat} (h : m₁.Owned [] (⟨b.head, l₁⟩ :: rest))
    (haddresses : l₁.map Prod.fst = l.map Prod.fst) (hn : n ≤ buf.length)
    (htaken : buf.length ≤ n + ((l₁.map Prod.snd).map InternalExtent.size).sum)
    (hlacks : lacks prependable m₁ cur₁ = .ok true) (hhead : m.deref (some b.head) = .ok head')
    (hcur : (if m.listEmpty b.head then none else head'.next) = cur)
    (hloop : ∀ st, LinkedBuffer.prependRound b.head buf granted ⟨m₁, cur₁, n, false⟩ = .ok st →
      (!st.threw && decide (st.remain > 0)) = false →
      Loop.doWhile .diverges (fun st : Filling β => !st.threw && decide (st.remain > 0))
        (LinkedBuffer.prependRound b.head buf granted) (buf.length + 1)
        ⟨m, cur, buf.length, false⟩ = .ok st)
    (hlist : ∀ extents, BufferImpl.prependNew buf (l₁.map Prod.snd) n = .ok (extents, 0) →
      (listed l b.size).prepend buf = .ok ⟨extents, SizeT.add b.size buf.length⟩) :
    Answers b m l rest granted (.prepend buf) := by
  obtain ⟨st, hst, hcases⟩ := h.prependRound_new hlacks hn granted
  have hguard : (!st.threw && decide (st.remain > 0)) = false := by
    rcases hcases with rfl | ⟨-, hremain, -⟩
    · rfl
    · simp [hremain]
  have hcall := prepend_of_loop hhead hcur (hloop st hst hguard)
  rcases hcases with rfl | ⟨hthrew, -, p, hnew, howned⟩
  · exact ⟨⟨m₁, b.size, [.badAlloc]⟩, l₁, hcall, h, .inl ⟨rfl, haddresses⟩⟩
  · rw [hthrew] at hcall
    have hsum := howned.sum_size_lt
    simp only [List.map_cons, List.sum_cons, of_size, List.length_nil, Nat.zero_add, Nat.add_zero,
      List.length_take_of_le hn] at hsum
    exact ⟨_, _, hcall, howned,
      .inr ⟨Nat.lt_of_le_of_lt htaken hsum, [], map_eq_ok.mpr ⟨_, hlist _ hnew, rfl⟩, rfl⟩⟩

/-- `prepend` when the first extent has no space to give back. -/
lemma Owned.prepend_answers_full {head' : LinkedExtent β} (h : m.Owned [] (⟨b.head, l⟩ :: rest))
    (hhead : m.deref (some b.head) = .ok head')
    (hcur : (if m.listEmpty b.head then none else head'.next) = cur)
    (hlacks : lacks prependable m cur = .ok true)
    (hround : BufferImpl.prependRound buf (l.map Prod.snd, buf.length) =
      BufferImpl.prependNew buf (l.map Prod.snd) buf.length) :
    Answers b m l rest granted (.prepend buf) := by
  refine h.prepend_answers_new rfl (Nat.le_refl _) (Nat.le_add_right _ _) hlacks hhead hcur ?_ ?_
  · intro st hst hguard
    exact Loop.doWhile_of_not_guard (Nat.succ_pos _) hst hguard
  · intro extents hnew
    unfold BufferImpl.prepend
    rw [listed, Loop.doWhile_of_not_guard (Nat.succ_pos _) (hround.trans hnew) (by simp)]
    rfl

/-- `prepend` when the first extent has space to give back, which need not be enough. -/
lemma Owned.prepend_answers_first (h : m.Owned [] (⟨b.head, (p, e) :: l⟩ :: rest))
    (hcur : (if m.listEmpty b.head then none else m.links.next b.head) = some p)
    (hspace : e.prependable ≠ 0) : Answers b m ((p, e) :: l) rest granted (.prepend buf) := by
  obtain ⟨m₁, e₁, hround, hround', hprependable, hoffset, h₁⟩ :=
    h.prependRound_first hspace buf buf.length granted
  by_cases hremain : buf.length - e.readOffset = 0
  · -- all bytes found space in the first extent
    rw [hremain] at hround hround'
    have hcall := prepend_of_loop h.deref_head hcur
      (Loop.doWhile_of_not_guard (Nat.succ_pos _) hround (by simp))
    have hlist : (listed ((p, e) :: l) b.size).prepend buf =
        .ok (listed ((p, e₁) :: l) (SizeT.add b.size buf.length)) := by
      unfold BufferImpl.prepend
      rw [listed, List.map_cons, Loop.doWhile_of_not_guard (Nat.succ_pos _) hround' (by simp)]
      rfl
    have hsize : e₁.size < SizeT.objectLimit := (h₁.bounded e₁ (by simp)).size
    have hpayload : buf.length ≤ e₁.size :=
      Nat.le_trans (Nat.le_of_sub_eq_zero hremain) hoffset
    exact ⟨_, _, hcall, h₁, .inr ⟨Nat.lt_of_le_of_lt hpayload hsize, [],
      map_eq_ok.mpr ⟨_, hlist, rfl⟩, rfl⟩⟩
  · -- the first extent has no space left in the second round
    have hfull : e₁.prependable = 0 := by omega
    have hlacks : lacks prependable m₁ (some p) = .ok true := by
      have hfirst : m₁.Owned [] (⟨b.head, [] ++ (p, e₁) :: l⟩ :: rest) := h₁
      unfold lacks
      simp only [hfirst.deref, ok_bind, hfull]
      rfl
    refine h₁.prepend_answers_new rfl (Nat.sub_le buf.length e.readOffset) ?_ hlacks h.deref_head
      hcur ?_ ?_
    · simp only [List.map_cons, List.sum_cons]
      omega
    · intro st hst hguard
      rw [Loop.doWhile_of_guard hround (by simp; omega)]
      exact Loop.doWhile_of_not_guard (by omega) hst hguard
    · intro extents hnew
      have hlast : BufferImpl.prependRound buf (e₁ :: l.map Prod.snd,
          buf.length - e.readOffset) = .ok (extents, 0) := (if_pos hfull).trans hnew
      unfold BufferImpl.prepend
      rw [listed, List.map_cons, Loop.doWhile_of_guard hround' (by simp; omega),
        Loop.doWhile_of_not_guard (by omega) hlast (by simp)]
      rfl

theorem Owned.prepend_answers (h : m.Owned [] (⟨b.head, l⟩ :: rest)) :
    Answers b m l rest granted (.prepend buf) := by
  have hempty := h.listEmpty_eq
  cases l with
  | nil => exact h.prepend_answers_full h.deref_head (if_pos hempty) rfl rfl
  | cons node l =>
    obtain ⟨p, e⟩ := node
    have hfirst : m.Owned [] (⟨b.head, [] ++ (p, e) :: l⟩ :: rest) := h
    have hcur : (if m.listEmpty b.head then none else m.links.next b.head) = some p := by
      rw [hempty, h.next_head]
      rfl
    by_cases hspace : e.prependable = 0
    · refine h.prepend_answers_full h.deref_head hcur ?_ (if_pos hspace)
      unfold lacks
      simp only [hfirst.deref, ok_bind, hspace]
      rfl
    · exact h.prepend_answers_first hcur hspace

/-! ### `reserve` -/

/-- The new extent, if one is required. -/
lemma Owned.reserveRest (h : m.Owned [] (⟨b.head, l⟩ :: rest)) (required : Nat) (granted : Bool) :
    ∃ made, b.reserveRest m required granted = .ok made ∧
      (made = none ∨ ∃ m' later added, made = some (m', later) ∧
        m'.Owned [] (⟨b.head, l ++ added⟩ :: rest) ∧
        (required = 0 ∧ later = [] ∧ added = [] ∨
          0 < required ∧ ∃ p e, InternalExtent.new required = .ok e ∧
            later = [⟨p, 0, required⟩] ∧ added = [(p, e)])) := by
  unfold LinkedBuffer.reserveRest
  split_ifs with hrequired
  · cases hnew : m.new required granted with
    | none => exact ⟨_, rfl, .inl rfl⟩
    | some made =>
      obtain ⟨m₁, p⟩ := made
      obtain ⟨e, he, h₁⟩ := h.new hnew
      obtain ⟨m₂, hm₂, h₂⟩ := h₁.append
      simp only [hm₂, ok_bind]
      exact ⟨_, rfl, .inr ⟨m₂, _, _, rfl, h₂, .inr ⟨hrequired, p, e, he, rfl, rfl⟩⟩⟩
  · refine ⟨_, rfl, .inr ⟨m, [], [], rfl, ?_, .inl ⟨by omega, rfl, rfl⟩⟩⟩
    rw [List.append_nil]
    exact h

theorem Owned.reserve_answers (h : m.Owned [] (⟨b.head, l⟩ :: rest)) :
    Answers b m l rest granted (.reserve n) := by
  have hrequired : b.required m n = .ok (SizeT.sub n (listed l b.size).spare) := by
    unfold required
    rw [h.listEmpty_eq]
    rcases List.eq_nil_or_concat' l with rfl | ⟨front, ⟨p, e⟩, rfl⟩
    · simp [listed, BufferImpl.spare]
    · rw [List.isEmpty_eq_false_iff.mpr (by simp), spare_last, h.deref_head, ok_bind, h.prev_head,
        h.deref]
      rfl
  obtain ⟨made, hmade, hcases⟩ := h.reserveRest (SizeT.sub n (listed l b.size).spare) granted
  rcases hcases with rfl | ⟨m', later, added, rfl, howned, hadded⟩
  · refine ⟨⟨m, b.size, [.badAlloc]⟩, l, ?_, h, .inl ⟨rfl, rfl⟩⟩
    unfold call LinkedBuffer.reserve
    simp only [hrequired, hmade, ok_bind, pure_eq_ok]
  · have hlist : (listed l b.size).reserve n = .ok (listed (l ++ added) b.size) := by
      unfold BufferImpl.reserve
      rcases hadded with ⟨hzero, -, rfl⟩ | ⟨hpos, p, e, he, -, rfl⟩
      · rw [hzero, List.append_nil]
        rfl
      · simp only [gt_iff_lt, if_pos hpos, he, ok_bind]
        simp [listed]
    refine ⟨⟨m', b.size, []⟩, _, ?_, howned,
      .inr ⟨Nat.two_pow_pos 63, [], map_eq_ok.mpr ⟨_, hlist, rfl⟩, rfl⟩⟩
    unfold call LinkedBuffer.reserve
    simp only [hrequired, hmade, ok_bind, pure_eq_ok]

/-- The space of the last extent that is handed out. -/
lemma Owned.available_eq (h : m.Owned [] (⟨b.head, l⟩ :: rest)) (n : Nat)
    (later : List (Nat × InternalExtent β)) :
    b.available m n = .ok
      ((listed l b.size).spareExtents.map (ReservedExtent.linked ((l ++ later).map Prod.fst)),
        SizeT.sub n (listed l b.size).spare) := by
  unfold available
  rw [h.listEmpty_eq]
  rcases List.eq_nil_or_concat' l with rfl | ⟨front, ⟨p, e⟩, rfl⟩
  · simp [listed, BufferImpl.spare, BufferImpl.spareExtents]
  · have hspare : (listed (front ++ [(p, e)]) b.size).spareExtents =
        if e.appendable > 0 then [⟨front.length, e.writeOffset, e.appendable⟩] else [] := by
      simp [listed, BufferImpl.spareExtents]
    rw [List.isEmpty_eq_false_iff.mpr (by simp), spare_last, h.deref_head, ok_bind, h.prev_head,
      h.deref, hspare]
    simp only [ok_bind, pure_eq_ok, Bool.false_eq_true, if_false]
    split_ifs with havail
    · simp [ReservedExtent.linked]
    · rw [Nat.eq_zero_of_not_pos havail]
      simp

theorem Owned.reserveExtents_answers (h : m.Owned [] (⟨b.head, l⟩ :: rest)) :
    Answers b m l rest granted (.reserveExtents n) := by
  obtain ⟨made, hmade, hcases⟩ := h.reserveRest (SizeT.sub n (listed l b.size).spare) granted
  rcases hcases with rfl | ⟨m', later, added, rfl, howned, hadded⟩
  · refine ⟨⟨m, b.size, [.badAlloc]⟩, l, ?_, h, .inl ⟨rfl, rfl⟩⟩
    unfold call LinkedBuffer.reserveExtents
    simp only [h.available_eq n [], hmade, ok_bind, pure_eq_ok]
  · have hlist : ∃ extents, (listed l b.size).reserveExtents n =
        .ok (listed (l ++ added) b.size, extents) ∧
        (listed l b.size).spareExtents.map (ReservedExtent.linked ((l ++ added).map Prod.fst)) ++
          later = extents.map (ReservedExtent.linked ((l ++ added).map Prod.fst)) := by
      rw [BufferImpl.reserveExtents_eq]
      rcases hadded with ⟨hzero, rfl, rfl⟩ | ⟨hpos, p, e, he, rfl, rfl⟩
      · refine ⟨(listed l b.size).spareExtents, ?_, List.append_nil _⟩
        rw [hzero, List.append_nil]
        rfl
      · refine ⟨(listed l b.size).spareExtents ++
          [⟨l.length, 0, SizeT.sub n (listed l b.size).spare⟩], ?_, ?_⟩
        · rw [if_pos hpos, he]
          simp [listed]
        · simp [ReservedExtent.linked, List.getD]
    obtain ⟨extents, hextents, hlinked⟩ := hlist
    refine ⟨⟨m', b.size, [.reserved ((listed l b.size).spareExtents.map
      (ReservedExtent.linked ((l ++ added).map Prod.fst)) ++ later)]⟩, _, ?_, howned,
      .inr ⟨Nat.two_pow_pos 63, [.reserved extents], map_eq_ok.mpr ⟨_, hextents, rfl⟩, ?_⟩⟩
    · unfold call LinkedBuffer.reserveExtents
      simp only [h.available_eq n added, hmade, ok_bind, pure_eq_ok]
    · exact congrArg (fun places => [LinkedResult.reserved places]) hlinked

/-! ### `drain` -/

/-- There are no more extents than addresses. -/
lemma Owned.length_le (h : m.Owned [] (⟨head, l⟩ :: rest)) : l.length ≤ m.heap.fresh := by
  have hsubset : l.map Prod.fst ⊆ List.range m.heap.fresh := by
    intro p hp
    obtain ⟨e, he⟩ := h.live (List.mem_append_right _ (List.mem_cons_of_mem _ hp))
    exact List.mem_range.mpr (Heap.lt_fresh (load_eq he))
  have hle := (List.subperm_of_subset (List.nodup_cons.mp h.nodup_ring).2 hsubset).length_le
  rwa [List.length_map, List.length_range] at hle

/-- The first extent of a ring is taken out and deleted. -/
lemma Owned.unlink_delete (h : m.Owned loose (⟨head, (p, e) :: l⟩ :: rest)) :
    ∃ m₁ m₂, m.unlink (some p) = .ok m₁ ∧ m₁.delete (some p) = .ok m₂ ∧
      m₂.Owned loose (⟨head, l⟩ :: rest) ∧
      ∃ node, m₁.deref (some p) = .ok node ∧ node.next = m₂.links.next head := by
  obtain ⟨m₁, hm₁, h₁, hnext⟩ := h.unlink
  obtain ⟨m₂, hm₂, h₂, hframe⟩ := h₁.delete
  have hne : head ≠ p := by
    rintro rfl
    exact (List.nodup_cons.mp h.nodup_ring).1 List.mem_cons_self
  refine ⟨m₁, m₂, hm₁, hm₂, h₂, _, deref_eq (h₁.holding.extent (p, e) List.mem_cons_self), ?_⟩
  rw [hframe head hne]
  exact hnext

/-- A round of `drain` deletes the first extent or is the last one. -/
lemma Owned.drainRound (h : m.Owned [] (⟨head, (p, e) :: l⟩ :: rest)) (n : Nat) :
    if e.unread.length ≤ n then
      ∃ m', LinkedBuffer.drainRound head (m, n) = .ok (m', n - e.unread.length) ∧
        m'.Owned [] (⟨head, l⟩ :: rest)
    else
      ∃ m', LinkedBuffer.drainRound head (m, n) = .ok (m', 0) ∧
        m'.Owned [] (⟨head, (p, (e.consume n).1) :: l⟩ :: rest) := by
  have hfirst : m.Owned [] (⟨head, [] ++ (p, e) :: l⟩ :: rest) := h
  have hbounded : e.Bounded := h.holding.bounded (p, e) (by simp)
  have hsound : e.Sound := hbounded.sound
  have hle : min n e.unread.length ≤ e.unread.length := Nat.min_le_right _ _
  obtain ⟨m₁, hm₁, h₁, -⟩ := hfirst.setExtent (hbounded.consume hle) rfl
  have hremain := hsound.consume_snd hle
  unfold LinkedBuffer.drainRound
  simp only [h.deref_head, h.next_head, hfirst.deref, hsound.readable_eq, ok_bind, hm₁, hremain]
  split_ifs with hn hzero hzero
  · obtain ⟨m₂, m₃, hm₂, hm₃, h₃, -⟩ := Owned.unlink_delete h₁
    simp only [hm₂, hm₃, ok_bind, pure_eq_ok, Nat.min_eq_right hn]
    exact ⟨m₃, rfl, h₃⟩
  · omega
  · omega
  · rw [Nat.min_eq_left (by omega)] at h₁ ⊢
    rw [Nat.sub_self]
    exact ⟨m₁, rfl, h₁⟩

/-- The loop of `drain`, whose rounds the extents bound. -/
lemma Owned.drainLoop {rounds : Nat} (h : m.Owned [] (⟨head, l⟩ :: rest))
    (hrounds : l.length < rounds) (n : Nat) :
    ∃ m' l', Loop.whileDo .diverges (draining head) (LinkedBuffer.drainRound head) rounds (m, n) =
        .ok (m', n - (BufferImpl.unreadCells (l.map Prod.snd)).length) ∧
      m'.Owned [] (⟨head, l'⟩ :: rest) ∧
      l'.map Prod.snd = BufferImpl.dropExtents (l.map Prod.snd) n := by
  induction l generalizing m n rounds with
  | nil =>
    have hguard : draining head (m, n) = false := by
      unfold draining
      rw [h.listEmpty_eq]
      simp
    exact ⟨m, [], Loop.whileDo_of_not_guard (by omega) hguard, h, rfl⟩
  | cons node l ih =>
    obtain ⟨p, e⟩ := node
    by_cases hn : n = 0
    · subst hn
      refine ⟨m, (p, e) :: l, ?_, h, rfl⟩
      rw [Nat.zero_sub]
      exact Loop.whileDo_of_not_guard (by omega) rfl
    · have hguard : draining head (m, n) = true := by
        unfold draining
        rw [h.listEmpty_eq]
        simpa using Nat.pos_of_ne_zero hn
      obtain ⟨rounds, rfl⟩ := Nat.exists_eq_succ_of_ne_zero (Nat.ne_zero_of_lt hrounds)
      have hround := h.drainRound n
      simp only [List.map_cons, BufferImpl.unreadCells_cons, List.length_append,
        BufferImpl.dropExtents, if_neg hn]
      split_ifs at hround ⊢ with hle
      · obtain ⟨m', hm', h'⟩ := hround
        obtain ⟨m₂, l', hloop, h₂, hl'⟩ := ih h' (by simpa using hrounds) (n - e.unread.length)
        rw [← Nat.sub_sub]
        exact ⟨m₂, l', (Loop.whileDo_of_guard hguard hm').trans hloop, h₂, hl'⟩
      · -- the consumed extent stays, with nothing left to consume
        obtain ⟨m', hm', h'⟩ := hround
        have hpos : 0 < rounds := by
          simp only [List.length_cons] at hrounds
          omega
        rw [Nat.sub_eq_zero_of_le (by omega)]
        exact ⟨m', _, (Loop.whileDo_of_guard hguard hm').trans
          (Loop.whileDo_of_not_guard hpos rfl), h', rfl⟩

theorem Owned.drain_eq (h : m.Owned [] (⟨b.head, l⟩ :: rest)) (n : Nat) :
    ∃ m' l', b.drain m n =
        .ok ⟨m', SizeT.sub b.size (min n (BufferImpl.unreadCells (l.map Prod.snd)).length), []⟩ ∧
      m'.Owned [] (⟨b.head, l'⟩ :: rest) ∧
      l'.map Prod.snd = BufferImpl.dropExtents (l.map Prod.snd) n := by
  obtain ⟨m', l', hloop, howned, hl'⟩ := h.drainLoop (Nat.lt_succ_of_le h.length_le) n
  refine ⟨m', l', ?_, howned, hl'⟩
  unfold LinkedBuffer.drain
  have hmin : n - (n - (BufferImpl.unreadCells (l.map Prod.snd)).length) =
      min n (BufferImpl.unreadCells (l.map Prod.snd)).length := by omega
  rw [hloop, ok_bind, ← hmin]
  rfl

theorem Owned.drain_answers (h : m.Owned [] (⟨b.head, l⟩ :: rest)) :
    Answers b m l rest granted (.drain n) := by
  obtain ⟨m', l', hdrain, howned, hl'⟩ := h.drain_eq n
  have hlisted := BufferImpl.drain_eq (b := listed l b.size) (n := n) h.sound
  refine ⟨_, l', hdrain, howned, .inr ⟨Nat.two_pow_pos 63, [], ?_, rfl⟩⟩
  rw [BufferImpl.call, hlisted, listed, listed, hl']
  rfl

/-! ### `read` -/

/-- A round of `read` takes out the first extent, or leaves the loop. -/
lemma Owned.readRound (h : m.Owned [] (⟨head, (p, e) :: l⟩ :: rest)) (n : Nat)
    (out : List (Cell β)) (s : Nat) :
    let cells := e.copyout n
    if (e.consume cells.length).2 = 0 then
      ∃ m', LinkedBuffer.readRound n true ⟨m, some p, out, s, false⟩ =
          .ok ⟨m', m'.links.next head, out ++ cells, SizeT.sub s cells.length, false⟩ ∧
        m'.Owned [] (⟨head, l⟩ :: rest)
    else
      ∃ m', LinkedBuffer.readRound n true ⟨m, some p, out, s, false⟩ =
          .ok ⟨m', some p, out ++ cells, SizeT.sub s cells.length, true⟩ ∧
        m'.Owned [] (⟨head, (p, (e.consume cells.length).1) :: l⟩ :: rest) := by
  have hfirst : m.Owned [] (⟨head, [] ++ (p, e) :: l⟩ :: rest) := h
  have hbounded : e.Bounded := h.holding.bounded (p, e) (by simp)
  have hsound : e.Sound := hbounded.sound
  have hle : (e.copyout n).length ≤ e.unread.length := by
    rw [hsound.copyout_eq, List.length_take]
    exact Nat.min_le_right _ _
  obtain ⟨m₁, hm₁, h₁, -⟩ := hfirst.setExtent (hbounded.consume hle) rfl
  unfold LinkedBuffer.readRound
  simp only [hfirst.deref, hm₁, ok_bind, Bool.not_true, Bool.false_eq_true, if_false]
  split_ifs
  · obtain ⟨m₂, m₃, hm₂, hm₃, h₃, node, hnode, hnext⟩ := Owned.unlink_delete h₁
    simp only [hm₂, hm₃, hnode, hnext, ok_bind, pure_eq_ok]
    exact ⟨m₃, rfl, h₃⟩
  · exact ⟨m₁, rfl, h₁⟩

/-- The loop of `read`, whose rounds the extents bound. -/
lemma Owned.readLoop {rounds : Nat} (h : m.Owned [] (⟨head, l⟩ :: rest))
    (hrounds : l.length < rounds) (n : Nat) (out : List (Cell β)) (s : Nat) :
    let r := BufferImpl.readLoop n true (l.map Prod.snd) out.length s
    ∃ m' l' cur stopped, Loop.whileDo .diverges (reading head n) (LinkedBuffer.readRound n true)
        rounds ⟨m, m.links.next head, out, s, false⟩ =
          .ok ⟨m', cur, out ++ r.out, r.size, stopped⟩ ∧
      m'.Owned [] (⟨head, l'⟩ :: rest) ∧ l'.map Prod.snd = r.extents := by
  induction l generalizing m rounds out s with
  | nil =>
    have hguard : reading head n ⟨m, some head, out, s, false⟩ = false := by
      simp [reading]
    refine ⟨m, [], some head, false, ?_, h, rfl⟩
    rw [h.next_head_nil, Loop.whileDo_of_not_guard (by omega) hguard]
    simp [BufferImpl.readLoop]
  | cons node l ih =>
    obtain ⟨p, e⟩ := node
    have hne : p ≠ head := by
      rintro rfl
      exact (List.nodup_cons.mp h.nodup_ring).1 List.mem_cons_self
    rw [h.next_head]
    by_cases hout : out.length < n
    · have hguard : reading head n ⟨m, some p, out, s, false⟩ = true := by
        simp [reading, hne, hout]
      obtain ⟨rounds, rfl⟩ := Nat.exists_eq_succ_of_ne_zero (Nat.ne_zero_of_lt hrounds)
      have hround := h.readRound n out s
      simp only at hround
      simp only [List.map_cons, BufferImpl.readLoop, if_pos hout, Bool.not_true,
        Bool.false_eq_true, if_false]
      split_ifs at hround ⊢ with hzero
      · obtain ⟨m₁, hm₁, h₁⟩ := hround
        obtain ⟨m₂, l', cur, stopped, hloop, h₂, hl'⟩ := ih h₁ (by simpa using hrounds)
          (out ++ e.copyout n) (SizeT.sub s (e.copyout n).length)
        rw [List.length_append] at hloop hl'
        refine ⟨m₂, l', cur, stopped, (Loop.whileDo_of_guard hguard hm₁).trans ?_, h₂, hl'⟩
        rw [hloop, List.append_assoc]
      · obtain ⟨m₁, hm₁, h₁⟩ := hround
        have hpos : 0 < rounds := by
          simp only [List.length_cons] at hrounds
          omega
        exact ⟨m₁, _, _, _, (Loop.whileDo_of_guard hguard hm₁).trans
          (Loop.whileDo_of_not_guard hpos rfl), h₁, rfl⟩
    · have hguard : reading head n ⟨m, some p, out, s, false⟩ = false := by
        simp [reading, hout]
      simp only [List.map_cons, BufferImpl.readLoop, if_neg hout]
      refine ⟨m, (p, e) :: l, some p, false, ?_, h, rfl⟩
      rw [Loop.whileDo_of_not_guard (by omega) hguard, List.append_nil]

theorem Owned.read_answers (h : m.Owned [] (⟨b.head, l⟩ :: rest)) :
    Answers b m l rest granted (.read n) := by
  obtain ⟨m', l', cur, stopped, hloop, howned, hl'⟩ :=
    h.readLoop (Nat.lt_succ_of_le h.length_le) n [] b.size
  have hread : b.call m granted (.read n) =
      .ok ⟨m', (BufferImpl.readLoop n true (l.map Prod.snd) 0 b.size).size,
        [.copied (BufferImpl.readLoop n true (l.map Prod.snd) 0 b.size).out]⟩ := by
    change b.readOut m n true = _
    unfold readOut
    rw [h.deref_head, ok_bind, hloop]
    rfl
  refine ⟨_, l', hread, howned, .inr ⟨Nat.two_pow_pos 63, [.copied _], ?_, rfl⟩⟩
  rw [listed, listed, hl']
  rfl

/-! ### `peek` -/

/-- The address of the first extent, or of the sentinel if there is none. -/
def first (head : Nat) (l : List (Nat × InternalExtent β)) : Nat := (l.map Prod.fst).headD head

lemma Owned.ne_head (h : m.Owned [] (⟨head, front ++ (p, e) :: l⟩ :: rest)) : p ≠ head := by
  rintro rfl
  exact (List.nodup_cons.mp h.nodup_ring).1 (by simp)

/-- Behind an extent of a ring comes the next one. -/
lemma Owned.next_eq (h : m.Owned [] (⟨head, front ++ (p, e) :: l⟩ :: rest)) :
    m.links.next p = some (first head l) := by
  have hring := h.ring_head
  unfold Links.Ring at hring
  rw [List.map_append, List.append_assoc, ← List.cons_append] at hring
  have hback : (p :: (l.map Prod.fst ++ [head])).IsChain m.links.Linked := hring.right_of_append
  refine ((List.isChain_cons.mp hback).1 _ ?_).1
  cases l <;> rfl

lemma Owned.next_head_eq (h : m.Owned [] (⟨head, l⟩ :: rest)) :
    m.links.next head = some (first head l) := by
  cases l with
  | nil => exact h.next_head_nil
  | cons node l => exact h.next_head

/-- The loop of `read` without consuming. -/
lemma Owned.readLoop_peek {rounds : Nat} (h : m.Owned [] (⟨head, front ++ l⟩ :: rest))
    (hrounds : l.length < rounds) (n : Nat) (out : List (Cell β)) (s : Nat) :
    ∃ cur, Loop.whileDo .diverges (reading head n) (LinkedBuffer.readRound n false) rounds
      ⟨m, some (first head l), out, s, false⟩ =
        .ok ⟨m, cur, out ++ (BufferImpl.readLoop n false (l.map Prod.snd) out.length s).out, s,
          false⟩ := by
  induction l generalizing front rounds out with
  | nil =>
    have hguard : reading head n ⟨m, some head, out, s, false⟩ = false := by
      simp [reading]
    refine ⟨some head, (Loop.whileDo_of_not_guard (by omega) hguard).trans ?_⟩
    simp [BufferImpl.readLoop]
  | cons node l ih =>
    obtain ⟨p, e⟩ := node
    have hrest : m.Owned [] (⟨head, (front ++ [(p, e)]) ++ l⟩ :: rest) := by
      rw [List.append_assoc]
      exact h
    by_cases hout : out.length < n
    · have hguard : reading head n ⟨m, some p, out, s, false⟩ = true := by
        simp [reading, h.ne_head, hout]
      obtain ⟨rounds, rfl⟩ := Nat.exists_eq_succ_of_ne_zero (Nat.ne_zero_of_lt hrounds)
      have hround : LinkedBuffer.readRound n false ⟨m, some p, out, s, false⟩ =
          .ok ⟨m, some (first head l), out ++ e.copyout n, s, false⟩ := by
        unfold LinkedBuffer.readRound
        rw [h.deref, ok_bind, h.next_eq]
        rfl
      obtain ⟨cur, hloop⟩ := ih hrest (by simpa using hrounds) (out ++ e.copyout n)
      refine ⟨cur, (Loop.whileDo_of_guard hguard hround).trans (hloop.trans ?_)⟩
      simp only [List.map_cons, BufferImpl.readLoop, if_pos hout, Bool.not_false, if_true,
        List.length_append, List.append_assoc]
    · have hguard : reading head n ⟨m, some p, out, s, false⟩ = false := by
        simp [reading, hout]
      refine ⟨some p, (Loop.whileDo_of_not_guard (by omega) hguard).trans ?_⟩
      simp only [List.map_cons, BufferImpl.readLoop, if_neg hout, List.append_nil]

theorem Owned.peek_answers (h : m.Owned [] (⟨b.head, l⟩ :: rest)) :
    Answers b m l rest granted (.peek n) := by
  have hring : m.Owned [] (⟨b.head, [] ++ l⟩ :: rest) := h
  obtain ⟨cur, hloop⟩ := hring.readLoop_peek (Nat.lt_succ_of_le h.length_le) n [] b.size
  have hpeek : b.call m granted (.peek n) =
      .ok ⟨m, b.size, [.copied (BufferImpl.readLoop n false (l.map Prod.snd) 0 b.size).out]⟩ := by
    change b.readOut m n false = _
    unfold readOut
    rw [h.deref_head, ok_bind, h.next_head_eq, hloop]
    rfl
  have hlisted := BufferImpl.peek_eq (b := listed l b.size) (n := n) h.sound
  refine ⟨_, l, hpeek, h, .inr ⟨Nat.two_pow_pos 63, [.copied _], ?_, rfl⟩⟩
  rw [BufferImpl.call, congrArg Prod.fst hlisted]
  rfl

/-- The loop of `peek` with extents. -/
lemma Owned.peekLoop {rounds : Nat} (h : m.Owned [] (⟨head, front ++ l⟩ :: rest))
    (hrounds : l.length < rounds) (n total : Nat) (extents : List (List (Cell β))) :
    ∃ cur total', Loop.whileDo .diverges (peeking head n) (peekRound m n) rounds
      (some (first head l), total, extents) =
        .ok (cur, total', extents ++ BufferImpl.peekLoop n (l.map Prod.snd) total) := by
  induction l generalizing front rounds total extents with
  | nil =>
    have hguard : peeking head n (some head, total, extents) = false := by simp [peeking]
    refine ⟨some head, total, (Loop.whileDo_of_not_guard (by omega) hguard).trans ?_⟩
    simp [BufferImpl.peekLoop]
  | cons node l ih =>
    obtain ⟨p, e⟩ := node
    have hrest : m.Owned [] (⟨head, (front ++ [(p, e)]) ++ l⟩ :: rest) := by
      rw [List.append_assoc]
      exact h
    by_cases htotal : total < n
    · have hguard : peeking head n (some p, total, extents) = true := by
        simp [peeking, h.ne_head, htotal]
      obtain ⟨rounds, rfl⟩ := Nat.exists_eq_succ_of_ne_zero (Nat.ne_zero_of_lt hrounds)
      have hround : peekRound m n (some p, total, extents) =
          .ok (some (first head l), total + e.readable, extents ++ if e.readable > 0 then
            [(e.data.drop e.readOffset).take (min e.readable (n - total))] else []) := by
        simp only [peekRound, h.deref, h.next_eq, ok_bind]
        rfl
      obtain ⟨cur, total', hloop⟩ := ih hrest (by simpa using hrounds) (total + e.readable)
        (extents ++ if e.readable > 0 then
          [(e.data.drop e.readOffset).take (min e.readable (n - total))] else [])
      refine ⟨cur, total', (Loop.whileDo_of_guard hguard hround).trans (hloop.trans ?_)⟩
      simp only [List.map_cons, BufferImpl.peekLoop, if_pos htotal, List.append_assoc]
      split_ifs <;> rfl
    · have hguard : peeking head n (some p, total, extents) = false := by
        simp [peeking, htotal]
      refine ⟨some p, total, (Loop.whileDo_of_not_guard (by omega) hguard).trans ?_⟩
      simp only [List.map_cons, BufferImpl.peekLoop, if_neg htotal, List.append_nil]

theorem Owned.peekExtents_answers (h : m.Owned [] (⟨b.head, l⟩ :: rest)) :
    Answers b m l rest granted (.peekExtents n) := by
  have hring : m.Owned [] (⟨b.head, [] ++ l⟩ :: rest) := h
  obtain ⟨cur, total, hloop⟩ := hring.peekLoop (Nat.lt_succ_of_le h.length_le) n 0 []
  have hpeek : b.call m granted (.peekExtents n) =
      .ok ⟨m, b.size, [.extents (BufferImpl.peekLoop n (l.map Prod.snd) 0)]⟩ := by
    change LinkedBuffer.peekExtents b m n = _
    unfold LinkedBuffer.peekExtents
    rw [h.deref_head, ok_bind, h.next_head_eq, hloop]
    rfl
  exact ⟨_, l, hpeek, h, .inr ⟨Nat.two_pow_pos 63, [.extents _], rfl, rfl⟩⟩

/-- Every call on a buffer that overruns no spare space goes well and changes the ring of this
buffer alone. -/
theorem Owned.answers {c : Call β} (h : m.Owned [] (⟨b.head, l⟩ :: rest))
    (hfits : (listed l b.size).AppendFits c.appended) (granted : Bool) :
    Answers b m l rest granted c := by
  cases c with
  | append buf => exact h.append_answers hfits
  | prepend buf => exact h.prepend_answers
  | read size => exact h.read_answers
  | peek size => exact h.peek_answers
  | peekExtents size => exact h.peekExtents_answers
  | drain count => exact h.drain_answers
  | size => exact ⟨_, l, rfl, h, .inr ⟨Nat.two_pow_pos 63, [.size b.size], rfl, rfl⟩⟩
  | empty => exact ⟨_, l, rfl, h, .inr ⟨Nat.two_pow_pos 63, [.empty (b.size == 0)], rfl, rfl⟩⟩
  | reserve size => exact h.reserve_answers
  | reserveExtents size => exact h.reserveExtents_answers

theorem Owned.overruns {c : Call β} (h : m.Owned [] (⟨b.head, l⟩ :: rest))
    (hfits : ¬ (listed l b.size).AppendFits c.appended) (granted : Bool) :
    b.call m granted c = .error .heapOverflow := by
  cases c with
  | append buf => exact h.append_overruns hfits
  | _ => exact absurd (.inr (Nat.zero_le _)) hfits

end ExtentMemory

end WhatTheEvent
