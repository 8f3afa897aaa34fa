import WhatTheEvent.Buffer.CopyLaw

/-!
# Spare space

In every pool that a program reaches the offsets of an extent lie inside its allocation, whether or
not reserved space was drained or read. From that follows for which bytes `append`, and for which
sizes `reserve`, do with the spare space of the last extent what they should.
-/

namespace WhatTheEvent

variable {β : Type}

lemma memcpy_eq_ok {dst data : List (Cell β)} {offset : Nat} {src : List β}
    (h : memcpy dst offset src = .ok data) :
    offset + src.length ≤ dst.length ∧ data.length = dst.length := by
  unfold memcpy at h
  split_ifs at h with hle
  obtain rfl := Except.ok.inj h
  refine ⟨hle, ?_⟩
  simp only [List.length_append, List.length_take, List.length_map, List.length_drop]
  omega

namespace InternalExtent

variable {e e' : InternalExtent β} {buf : List β} {n k : Nat}

/-- Both offsets lie inside the allocation. -/
structure Bounded (e : InternalExtent β) : Prop where
  sound : e.Sound
  write : e.writeOffset ≤ e.size
  size : e.size < SizeT.objectLimit

/-- The cells below the write offset. -/
def written (e : InternalExtent β) : List (Cell β) := e.data.take e.writeOffset

/-- The bytes are written behind those that were written before. -/
def filled (e : InternalExtent β) (buf : List β) : InternalExtent β :=
  { e with
    data := e.data.take e.writeOffset ++ buf.map some ++ e.data.drop (e.writeOffset + buf.length)
    writeOffset := e.writeOffset + buf.length }

lemma Bounded.appendable_eq (h : e.Bounded) : e.appendable = e.size - e.writeOffset :=
  SizeT.sub_of_le h.write

@[simp] lemma filled_nil : e.filled [] = e := by simp [filled]

lemma Bounded.length_written (h : e.Bounded) : e.written.length = e.writeOffset :=
  List.length_take_of_le h.write

lemma Bounded.written_filled (h : e.Bounded) :
    (e.filled buf).written = e.written ++ buf.map some := by
  have hlen : (e.written ++ buf.map some).length = e.writeOffset + buf.length := by
    rw [List.length_append, List.length_map, h.length_written]
  exact List.take_left' hlen

lemma Bounded.filled (h : e.Bounded) (hfit : buf.length ≤ e.appendable) :
    (e.filled buf).Bounded := by
  have hwrite := h.write
  rw [h.appendable_eq] at hfit
  have hsize : (e.filled buf).size = e.size := by
    simp only [InternalExtent.size, InternalExtent.filled, List.length_append, List.length_take,
      List.length_map, List.length_drop] at hwrite hfit ⊢
    omega
  refine ⟨?_, ?_, ?_⟩
  · exact (hsize ▸ h.sound : e.readOffset ≤ (e.filled buf).size)
  · rw [hsize]
    change e.writeOffset + buf.length ≤ e.size
    omega
  · rw [hsize]
    exact h.size

@[simp] lemma written_of {stale bs : List β} {hole : List (Cell β)} :
    (of stale bs hole).written = (stale ++ bs).map some :=
  List.take_left' (by simp [of])

/-- The space of an extent that is not full wraps. -/
lemma Bounded.space_eq (h : e.Bounded) (hs : e.appendable ≠ 0) :
    SizeT.sub e.writeOffset e.size = 2 ^ 64 - e.appendable := by
  rw [h.appendable_eq] at hs ⊢
  rw [SizeT.sub_of_lt (by omega)]
  have hsize : e.size < 2 ^ 63 := h.size
  omega

/-- Bytes that fit are written. -/
lemma Bounded.append_eq (h : e.Bounded) (hs : e.appendable ≠ 0) (hfit : buf.length ≤ e.appendable) :
    e.append buf buf.length = .ok (e.filled buf, buf.length) := by
  have hsize : e.size < 2 ^ 63 := h.size
  have hspace := h.space_eq hs
  have happendable := h.appendable_eq
  have hmin : min (2 ^ 64 - e.appendable) buf.length = buf.length := by omega
  have hcopy := memcpy_append e.written (e.data.drop e.writeOffset) buf (by
    rw [List.length_drop]
    exact happendable ▸ hfit)
  rw [h.length_written, written, List.take_append_drop, List.drop_drop] at hcopy
  simp only [append, hspace, hmin, List.take_length, hcopy]
  rw [if_neg (by omega)]
  rfl

/-- Bytes that do not fit are written past the end. -/
lemma Bounded.append_overflow (h : e.Bounded) (hs : e.appendable ≠ 0)
    (hlt : e.appendable < buf.length) : e.append buf buf.length = .error .heapOverflow := by
  have hsize : e.size < 2 ^ 63 := h.size
  have happendable := h.appendable_eq
  simp only [append, h.space_eq hs]
  rw [if_neg (by omega), memcpy_overflow]
  rw [List.length_take]
  change e.size < _
  omega

/-! ### Bounds are kept -/

lemma new_bounded (h : new n = .ok e) : e.Bounded := by
  unfold new at h
  split_ifs at h with hn
  obtain rfl := Except.ok.inj h
  refine ⟨Nat.zero_le _, Nat.zero_le _, ?_⟩
  simpa [size] using hn

/-- What `append` has done when it did not fail. -/
lemma append_cases (h : e.append buf n = .ok (e', k)) :
    (SizeT.sub e.writeOffset e.size = 0 ∧ e' = e ∧ k = 0) ∨
      (SizeT.sub e.writeOffset e.size ≠ 0 ∧ k = min (SizeT.sub e.writeOffset e.size) n ∧
        ∃ data, memcpy e.data e.writeOffset (buf.take k) = .ok data ∧
          e' = ⟨data, e.readOffset, e.writeOffset + k⟩) := by
  unfold InternalExtent.append at h
  by_cases hs : SizeT.sub e.writeOffset e.size = 0
  · rw [if_pos hs] at h
    obtain ⟨rfl, rfl⟩ := Prod.mk.inj (Except.ok.inj h)
    exact .inl ⟨hs, rfl, rfl⟩
  · simp only [if_neg hs] at h
    cases hcopy : memcpy e.data e.writeOffset
      (buf.take (min (SizeT.sub e.writeOffset e.size) n)) with
    | error f => simp [hcopy] at h
    | ok data =>
      simp only [hcopy] at h
      obtain ⟨rfl, rfl⟩ := Prod.mk.inj (Except.ok.inj h)
      exact .inr ⟨hs, rfl, data, hcopy, rfl⟩

/-- What `prepend` has done when it did not fail. -/
lemma prepend_cases (h : e.prepend buf n = .ok (e', k)) :
    (e' = e ∧ k = 0) ∨ (k = min e.readOffset n ∧
      ∃ data, memcpy e.data 0 (buf.take k) = .ok data ∧
        e' = ⟨data, e.readOffset - k, e.writeOffset⟩) := by
  unfold InternalExtent.prepend at h
  by_cases hs : e.readOffset = 0
  · rw [if_pos hs] at h
    obtain ⟨rfl, rfl⟩ := Prod.mk.inj (Except.ok.inj h)
    exact .inl ⟨rfl, rfl⟩
  · simp only [if_neg hs] at h
    cases hcopy : memcpy e.data 0 (buf.take (min e.readOffset n)) with
    | error f => simp [hcopy] at h
    | ok data =>
      simp only [hcopy] at h
      obtain ⟨rfl, rfl⟩ := Prod.mk.inj (Except.ok.inj h)
      exact .inr ⟨rfl, data, hcopy, rfl⟩

lemma append_le (h : e.append buf n = .ok (e', k)) : k ≤ n := by
  rcases append_cases h with ⟨-, -, rfl⟩ | ⟨-, rfl, -⟩
  · exact Nat.zero_le n
  · exact Nat.min_le_right _ _

lemma Bounded.append (h : e.Bounded) (hn : n ≤ buf.length) (hok : e.append buf n = .ok (e', k)) :
    e'.Bounded ∧ k ≤ n := by
  have hk := append_le hok
  rcases append_cases hok with ⟨-, rfl, -⟩ | ⟨-, -, data, hcopy, rfl⟩
  · exact ⟨h, hk⟩
  · obtain ⟨hle, hlen⟩ := memcpy_eq_ok hcopy
    rw [List.length_take_of_le (Nat.le_trans hk hn)] at hle
    refine ⟨⟨?_, ?_, ?_⟩, hk⟩
    · exact le_of_le_of_eq h.sound hlen.symm
    · exact le_of_le_of_eq hle hlen.symm
    · exact lt_of_eq_of_lt hlen h.size

lemma Bounded.prepend (h : e.Bounded) (hok : e.prepend buf n = .ok (e', k)) :
    e'.Bounded ∧ k ≤ n := by
  rcases prepend_cases hok with ⟨rfl, rfl⟩ | ⟨rfl, data, hcopy, rfl⟩
  · exact ⟨h, Nat.zero_le n⟩
  · obtain ⟨-, hlen⟩ := memcpy_eq_ok hcopy
    refine ⟨⟨?_, ?_, ?_⟩, Nat.min_le_right _ _⟩
    · exact Nat.le_trans (Nat.sub_le _ _) (le_of_le_of_eq h.sound hlen.symm)
    · exact le_of_le_of_eq h.write hlen.symm
    · exact lt_of_eq_of_lt hlen h.size

lemma Bounded.consume (h : e.Bounded) (hn : n ≤ e.unread.length) : (e.consume n).1.Bounded :=
  ⟨h.sound.consume hn, h.write, h.size⟩

end InternalExtent

open InternalExtent

namespace BufferImpl

variable {b b' o : BufferImpl β} {c : Call β} {results : List (Result β)}
  {extents front : List (InternalExtent β)} {cur : InternalExtent β} {buf : List β} {n : Nat}

/-- The offsets of every extent lie inside its allocation. -/
def Bounded (b : BufferImpl β) : Prop := ∀ e ∈ b.extents, e.Bounded

lemma Bounded.sound (h : b.Bounded) : b.Sound := fun e he => (h e he).sound

lemma bounded_empty : (empty : BufferImpl β).Bounded := by simp [Bounded, empty]

/-- What a loop that adds bytes keeps: bounded extents, and no more to add than there is. -/
def Adding (buf : List β) (st : List (InternalExtent β) × Nat) : Prop :=
  (∀ e ∈ st.1, e.Bounded) ∧ st.2 ≤ buf.length

lemma appendTarget_bounded (h : ∀ e ∈ extents, e.Bounded)
    (hok : appendTarget extents n = .ok (front, cur)) :
    (∀ e ∈ front, e.Bounded) ∧ cur.Bounded := by
  have hnew : (InternalExtent.new n).map (extents, ·) = .ok (front, cur) →
      (∀ e ∈ front, e.Bounded) ∧ cur.Bounded := by
    intro hok
    obtain ⟨e, he, heq⟩ := map_eq_ok.mp hok
    obtain ⟨rfl, rfl⟩ := Prod.mk.inj heq
    exact ⟨h, new_bounded he⟩
  unfold appendTarget at hok
  cases hlast : extents.getLast? with
  | none =>
    rw [hlast] at hok
    exact hnew hok
  | some last =>
    simp only [hlast] at hok
    split_ifs at hok
    · exact hnew hok
    · obtain ⟨rfl, rfl⟩ := Prod.mk.inj (Except.ok.inj hok)
      exact ⟨fun e he => h e (List.dropLast_subset _ he), h _ (List.mem_of_getLast? hlast)⟩

lemma Bounded.adding (h : b.Bounded) : Adding buf (b.extents, buf.length) := ⟨h, Nat.le_refl _⟩

lemma appendRound_adding (st st' : List (InternalExtent β) × Nat) (h : Adding buf st)
    (hok : appendRound buf st = .ok st') : Adding buf st' := by
  obtain ⟨extents, remain⟩ := st
  obtain ⟨hext, hremain⟩ := h
  obtain ⟨⟨front, cur⟩, htarget, hok⟩ := bind_eq_ok.mp hok
  obtain ⟨⟨cur', k⟩, happend, hok⟩ := bind_eq_ok.mp hok
  obtain rfl := Except.ok.inj hok
  obtain ⟨hfront, hcur⟩ := appendTarget_bounded hext htarget
  obtain ⟨hcur', hk⟩ := hcur.append hremain happend
  refine ⟨List.forall_mem_append.mpr ⟨hfront, List.forall_mem_singleton.mpr hcur'⟩, ?_⟩
  change SizeT.sub remain k ≤ buf.length
  rw [SizeT.sub_of_le hk]
  exact Nat.le_trans (Nat.sub_le _ _) hremain

lemma prependNew_adding {st' : List (InternalExtent β) × Nat} (h : ∀ e ∈ extents, e.Bounded)
    (hn : n ≤ buf.length) (hok : prependNew buf extents n = .ok st') : Adding buf st' := by
  obtain ⟨cur, hnew, hok⟩ := bind_eq_ok.mp hok
  obtain ⟨⟨cur', k⟩, happend, hok⟩ := bind_eq_ok.mp hok
  obtain rfl := Except.ok.inj hok
  obtain ⟨hcur', hk⟩ := (new_bounded hnew).append hn happend
  refine ⟨List.forall_mem_cons.mpr ⟨hcur', h⟩, ?_⟩
  change SizeT.sub n k ≤ buf.length
  rw [SizeT.sub_of_le hk]
  exact Nat.le_trans (Nat.sub_le _ _) hn

lemma prependRound_adding (st st' : List (InternalExtent β) × Nat) (h : Adding buf st)
    (hok : prependRound buf st = .ok st') : Adding buf st' := by
  obtain ⟨extents, remain⟩ := st
  obtain ⟨hext, hremain⟩ := h
  cases extents with
  | nil => exact prependNew_adding hext hremain hok
  | cons cur rest =>
    simp only [prependRound] at hok
    split_ifs at hok
    · exact prependNew_adding hext hremain hok
    · obtain ⟨⟨cur', k⟩, hprepend, hok⟩ := bind_eq_ok.mp hok
      obtain rfl := Except.ok.inj hok
      obtain ⟨hcur, hrest⟩ := List.forall_mem_cons.mp hext
      obtain ⟨hcur', hk⟩ := hcur.prepend hprepend
      refine ⟨List.forall_mem_cons.mpr ⟨hcur', hrest⟩, ?_⟩
      change SizeT.sub remain k ≤ buf.length
      rw [SizeT.sub_of_le hk]
      exact Nat.le_trans (Nat.sub_le _ _) hremain

lemma Bounded.reserve (h : b.Bounded) (hok : b.reserve n = .ok b') : b'.Bounded := by
  unfold BufferImpl.reserve at hok
  simp only at hok
  split_ifs at hok
  · obtain ⟨cur, hnew, hok⟩ := bind_eq_ok.mp hok
    obtain rfl := Except.ok.inj hok
    exact List.forall_mem_append.mpr ⟨h, List.forall_mem_singleton.mpr (new_bounded hnew)⟩
  · obtain rfl := Except.ok.inj hok
    exact h

/-- Every call that returns keeps the bounds. -/
lemma Bounded.call (h : b.Bounded) (hok : b.call c = .ok (b', results)) : b'.Bounded := by
  have hsame : ∀ {results' : List (Result β)}, Except.ok (b, results') = b.call c → b'.Bounded := by
    intro results' heq
    obtain rfl := eq_of_call heq hok
    exact h
  have hmap : ∀ {x : Except Fault (BufferImpl β)}, b.call c = x.map (·, []) → x = .ok b' := by
    intro x heq
    obtain ⟨b₁, hx, heq⟩ := map_eq_ok.mp (heq.symm.trans hok)
    rw [hx, ← (Prod.mk.inj heq).1]
  cases c with
  | append buf =>
    obtain ⟨st, hloop, hok⟩ := bind_eq_ok.mp (hmap rfl)
    obtain rfl := Except.ok.inj hok
    exact (Loop.doWhile_invariant (Adding buf) appendRound_adding h.adding hloop).1
  | prepend buf =>
    obtain ⟨st, hloop, hok⟩ := bind_eq_ok.mp (hmap rfl)
    obtain rfl := Except.ok.inj hok
    exact (Loop.doWhile_invariant (Adding buf) prependRound_adding h.adding hloop).1
  | read size =>
    obtain rfl := eq_of_call rfl hok
    exact forall_readLoop (fun _ _ he hn => he.consume hn) h
  | drain count =>
    have hdrain := hmap rfl
    rw [drain_eq h.sound] at hdrain
    obtain rfl := Except.ok.inj hdrain
    exact forall_dropExtents (fun _ _ he hn => he.consume hn) h
  | peek size =>
    obtain rfl := eq_of_call rfl hok
    rwa [peek_eq h.sound]
  | peekExtents size => exact hsame rfl
  | size => exact hsame rfl
  | empty => exact hsame rfl
  | reserve size => exact h.reserve (hmap rfl)
  | reserveExtents size =>
    obtain ⟨⟨b₁, extents⟩, hreserve, heq⟩ := map_eq_ok.mp hok
    obtain ⟨rfl, -⟩ := Prod.mk.inj heq
    exact h.reserve (by rw [← reserveExtents_fst, hreserve, map_ok])

lemma Bounded.appendBuffer (h : b.Bounded) (ho : o.Bounded) :
    (b.appendBuffer o).1.Bounded ∧ (b.appendBuffer o).2.Bounded := by
  unfold BufferImpl.appendBuffer
  split_ifs
  · exact ⟨h, ho⟩
  · exact ⟨List.forall_mem_append.mpr ⟨h, ho⟩, bounded_empty⟩

lemma Bounded.prependBuffer (h : b.Bounded) (ho : o.Bounded) :
    (b.prependBuffer o).1.Bounded ∧ (b.prependBuffer o).2.Bounded := by
  unfold BufferImpl.prependBuffer
  split_ifs
  · exact ⟨h, ho⟩
  · exact ⟨List.forall_mem_append.mpr ⟨ho, h⟩, bounded_empty⟩

/-! ### The law of `append` -/

/-- The cells below the write offsets. -/
def written (b : BufferImpl β) : List (Cell β) := b.extents.flatMap InternalExtent.written

/-- The extents once bytes were written behind those of the last one. -/
def fillLast (extents : List (InternalExtent β)) (buf : List β) : List (InternalExtent β) :=
  match extents.getLast? with
  | some cur => extents.dropLast ++ [cur.filled buf]
  | none => []

/-- What `append(buf)` should do: store as many bytes as fit in the spare space of the last extent
and the others in a new one. -/
structure AppendLaw (b : BufferImpl β) (buf : List β) (b' : BufferImpl β) : Prop where
  inBounds : ∀ e ∈ b'.extents, e.writeOffset ≤ e.size
  spareFirst : ∃ fresh, b'.extents = fillLast b.extents (buf.take b.spare) ++ fresh ∧
    fresh.length ≤ 1 ∧ fresh.flatMap InternalExtent.written = (buf.drop b.spare).map some
  written : b'.written = b.written ++ buf.map some
  size : b'.size = SizeT.add b.size buf.length

@[simp] lemma fillLast_nil : fillLast extents [] = extents := by
  unfold fillLast
  cases hlast : extents.getLast? with
  | none => exact (List.getLast?_eq_none_iff.mp hlast).symm
  | some cur =>
    obtain ⟨rest, rfl⟩ := List.getLast?_eq_some_iff.mp hlast
    simp

/-- A buffer with spare space ends with the extent that has it. -/
lemma exists_last (hs : b.spare ≠ 0) :
    ∃ rest cur, b.extents = rest ++ [cur] ∧ b.spare = cur.appendable := by
  unfold spare at hs ⊢
  cases hlast : b.extents.getLast? with
  | none => simp [hlast] at hs
  | some cur =>
    obtain ⟨rest, hrest⟩ := List.getLast?_eq_some_iff.mp hlast
    exact ⟨rest, cur, hrest, rfl⟩

lemma Bounded.append_eq (h : b.Bounded) (hs : b.spare ≠ 0) (hfit : buf.length ≤ b.spare) :
    b.append buf = .ok ⟨fillLast b.extents buf, SizeT.add b.size buf.length⟩ := by
  obtain ⟨rest, cur, hext, hspare⟩ := exists_last hs
  rw [hspare] at hs hfit
  have hcur : cur.Bounded := h cur (by simp [hext])
  have hround : appendRound buf (b.extents, buf.length) = .ok (rest ++ [cur.filled buf], 0) := by
    simp [appendRound, appendTarget, hext, hs, hcur.append_eq hs hfit]
  rw [append, Loop.doWhile_of_not_guard (Nat.succ_pos _) hround (by simp)]
  simp [fillLast, hext]

lemma Bounded.append_overflow (h : b.Bounded) (hs : b.spare ≠ 0) (hlt : b.spare < buf.length) :
    b.append buf = .error .heapOverflow := by
  obtain ⟨rest, cur, hext, hspare⟩ := exists_last hs
  rw [hspare] at hs hlt
  have hcur : cur.Bounded := h cur (by simp [hext])
  have hround : appendRound buf (b.extents, buf.length) = .error .heapOverflow := by
    simp [appendRound, appendTarget, hext, hs, hcur.append_overflow hs hlt]
  rw [append, Loop.doWhile_error hround]
  rfl

/-- What fits is stored as it should be. -/
lemma Bounded.appendLaw (h : b.Bounded) (hfit : b.AppendFits buf)
    (hbuf : buf.length < SizeT.objectLimit) : ∃ b', b.append buf = .ok b' ∧ b.AppendLaw buf b' := by
  by_cases hs : b.spare = 0
  · refine ⟨_, append_of_spare_eq_zero hs hbuf, ?_, ?_, ?_, rfl⟩
    · refine List.forall_mem_append.mpr ⟨fun e he => (h e he).write, ?_⟩
      exact List.forall_mem_singleton.mpr (by simp)
    · refine ⟨[of [] buf []], ?_, Nat.le_refl 1, ?_⟩
      · simp [hs]
      · simp [hs]
    · simp [BufferImpl.written]
  · have hle : buf.length ≤ b.spare := hfit.resolve_left hs
    obtain ⟨rest, cur, hext, hspare⟩ := exists_last hs
    have hfill : fillLast b.extents buf = rest ++ [cur.filled buf] := by simp [fillLast, hext]
    have hrest : ∀ e ∈ rest, e.Bounded := fun e he => h e (by simp [hext, he])
    have hcur : cur.Bounded := h cur (by simp [hext])
    refine ⟨_, h.append_eq hs hle, ?_, ?_, ?_, rfl⟩
    · rw [hfill]
      refine List.forall_mem_append.mpr ⟨fun e he => (hrest e he).write, ?_⟩
      exact List.forall_mem_singleton.mpr (hcur.filled (hspare ▸ hle)).write
    · refine ⟨[], ?_, Nat.zero_le 1, ?_⟩
      · rw [List.append_nil, List.take_of_length_le hle]
      · rw [List.drop_of_length_le hle, List.flatMap_nil, List.map_nil]
    · simp [BufferImpl.written, fillLast, hext, hcur.written_filled]

/-- The law holds of a bounded buffer for exactly the bytes that fit. -/
lemma Bounded.appendLaw_iff_fits (h : b.Bounded) (hbuf : buf.length < SizeT.objectLimit) :
    (∃ b', b.append buf = .ok b' ∧ b.AppendLaw buf b') ↔ b.AppendFits buf := by
  constructor
  · rintro ⟨b', hb', -⟩
    by_contra hfit
    obtain ⟨hs, hlt⟩ := not_or.mp hfit
    rw [h.append_overflow hs (Nat.lt_of_not_le hlt)] at hb'
    cases hb'
  · exact fun hfit => h.appendLaw hfit hbuf

/-! ### The law of `reserve` -/

/-- What both forms of `reserve` of `n` bytes should do: allocate what the spare space lacks, change
nothing else, and return all of the spare space in the order in which `append` would fill it. -/
structure ReserveLaw (b : BufferImpl β) (n : Nat) (b' : BufferImpl β)
    (granted : List ReservedExtent) : Prop where
  allocated : ∃ fresh, b'.extents = b.extents ++ fresh ∧
    (fresh.map InternalExtent.size).sum = n - b.spare ∧ (n ≤ b.spare → fresh = [])
  bytes : b'.bytes = b.bytes
  size : b'.size = b.size
  inOrder : granted.Pairwise (·.index < ·.index)
  unwritten : ∀ r ∈ granted, ∃ e, b'.extents[r.index]? = some e ∧ r.offset = e.writeOffset ∧
    r.offset + r.size = e.size
  enough : n ≤ (granted.map ReservedExtent.size).sum

/-- The spare space is not more than what is to be reserved, and what it lacks can be allocated. -/
def ReserveFits (b : BufferImpl β) (n : Nat) : Prop :=
  b.spare ≤ n ∧ n - b.spare < SizeT.objectLimit

instance : Decidable (b.AppendFits buf) := inferInstanceAs (Decidable (_ ∨ _))

instance : Decidable (b.ReserveFits n) := inferInstanceAs (Decidable (_ ∧ _))

/-- The extent with the spare space, if there is any, as `reserve` returns it. -/
def spareExtents (b : BufferImpl β) : List ReservedExtent :=
  match b.extents.getLast? with
  | some p =>
    if p.appendable > 0 then [⟨b.extents.length - 1, p.writeOffset, p.appendable⟩] else []
  | none => []

lemma Bounded.spare_lt (h : b.Bounded) : b.spare < SizeT.objectLimit := by
  by_cases hs : b.spare = 0
  · rw [hs]
    exact Nat.two_pow_pos 63
  · obtain ⟨rest, cur, hext, hspare⟩ := exists_last hs
    have hcur : cur.Bounded := h cur (by simp [hext])
    rw [hspare, hcur.appendable_eq]
    exact Nat.lt_of_le_of_lt (Nat.sub_le _ _) hcur.size

/-- Where more space is left than is to be reserved, the subtraction wraps. -/
lemma Bounded.reserve_error (h : b.Bounded) (hfit : ¬ b.ReserveFits n) :
    b.reserve n = .error .badAlloc := by
  have hlt : b.spare < 2 ^ 63 := h.spare_lt
  have hrequired : SizeT.objectLimit ≤ SizeT.sub n b.spare := by
    change 2 ^ 63 ≤ _
    by_cases hle : b.spare ≤ n
    · rw [SizeT.sub_of_le hle]
      exact Nat.le_of_not_lt fun hlimit => hfit ⟨hle, hlimit⟩
    · rw [SizeT.sub_of_lt (Nat.lt_of_not_le hle)]
      omega
  have hpos : SizeT.sub n b.spare > 0 := Nat.lt_of_lt_of_le (Nat.two_pow_pos 63) hrequired
  rw [BufferImpl.reserve, if_pos hpos, new_of_le hrequired]
  rfl

/-- It is at most one, it lies in unwritten space, and it is all of the spare space. -/
lemma Bounded.spareExtents_spec (h : b.Bounded) :
    (∀ r ∈ b.spareExtents, r.index < b.extents.length ∧
      ∃ e, b.extents[r.index]? = some e ∧ r.offset = e.writeOffset ∧
        r.offset + r.size = e.size) ∧
      b.spareExtents.Pairwise (·.index < ·.index) ∧
      (b.spareExtents.map ReservedExtent.size).sum = b.spare := by
  by_cases hs : b.spare = 0
  · have hnil : b.spareExtents = [] := by
      unfold spare at hs
      unfold spareExtents
      cases hlast : b.extents.getLast? with
      | none => rfl
      | some cur =>
        simp only [hlast] at hs
        exact if_neg (by omega)
    simp [hnil, hs]
  · obtain ⟨rest, cur, hext, hspare⟩ := exists_last hs
    have hcur : cur.Bounded := h cur (by simp [hext])
    have hone : b.spareExtents = [⟨rest.length, cur.writeOffset, cur.appendable⟩] := by
      simp [spareExtents, hext, Nat.pos_of_ne_zero (hspare ▸ hs)]
    have hwrite := hcur.write
    rw [hone]
    refine ⟨List.forall_mem_singleton.mpr ⟨?_, cur, ?_, rfl, ?_⟩, List.pairwise_singleton .., ?_⟩
    · simp [hext]
    · simp [hext]
    · change cur.writeOffset + cur.appendable = cur.size
      rw [hcur.appendable_eq]
      omega
    · simp [hspare]

/-- What fits is reserved as it should be. -/
lemma Bounded.reserveLaw (h : b.Bounded) (hfit : b.ReserveFits n) :
    ∃ b' granted, b.reserve n = .ok b' ∧ b.reserveExtents n = .ok (b', granted) ∧
      b.ReserveLaw n b' granted := by
  obtain ⟨hle, hlimit⟩ := hfit
  obtain ⟨hunwritten, hinOrder, hsum⟩ := h.spareExtents_spec
  have hrequired := SizeT.sub_of_le hle
  by_cases hr : n - b.spare > 0
  · refine ⟨{ b with extents := b.extents ++ [of [] [] (List.replicate (n - b.spare) none)] },
      b.spareExtents ++ [⟨b.extents.length, 0, n - b.spare⟩], ?_, ?_, ?_⟩
    · rw [BufferImpl.reserve, hrequired, if_pos hr, new_of_lt hlimit]
      rfl
    · rw [reserveExtents, hrequired, if_pos hr, new_of_lt hlimit]
      rfl
    · refine ⟨⟨_, rfl, ?_, fun hn => by omega⟩, ?_, rfl, ?_, ?_, ?_⟩
      · simp
      · simp [bytes_eq]
      · refine List.pairwise_append.mpr ⟨hinOrder, List.pairwise_singleton .., ?_⟩
        exact fun r hr r' hr' => List.mem_singleton.mp hr' ▸ (hunwritten r hr).1
      · refine List.forall_mem_append.mpr ⟨fun r hr => ?_, List.forall_mem_singleton.mpr ?_⟩
        · obtain ⟨hlt, e, he, hoffset, hend⟩ := hunwritten r hr
          exact ⟨e, (List.getElem?_append_left hlt).trans he, hoffset, hend⟩
        · exact ⟨_, List.getElem?_concat_length, rfl, by simp⟩
      · rw [List.map_append, List.sum_append, hsum]
        simp only [List.map_cons, List.map_nil, List.sum_cons, List.sum_nil]
        omega
  · have hnone : n - b.spare = 0 := by omega
    refine ⟨b, b.spareExtents, ?_, ?_, ?_⟩
    · rw [BufferImpl.reserve, hrequired, if_neg hr]
      rfl
    · rw [reserveExtents, hrequired, if_neg hr]
      rfl
    · refine ⟨⟨[], (List.append_nil _).symm, ?_, fun _ => rfl⟩, rfl, rfl, hinOrder, ?_, ?_⟩
      · exact hnone.symm
      · exact fun r hr => (hunwritten r hr).2
      · rw [hsum]
        omega

/-- The law holds of a bounded buffer for exactly the sizes that fit. -/
lemma Bounded.reserveLaw_iff_fits (h : b.Bounded) :
    (∃ b' granted, b.reserve n = .ok b' ∧ b.reserveExtents n = .ok (b', granted) ∧
      b.ReserveLaw n b' granted) ↔ b.ReserveFits n := by
  constructor
  · rintro ⟨b', granted, hb', -, -⟩
    by_contra hfit
    rw [h.reserve_error hfit] at hb'
    cases hb'
  · exact h.reserveLaw

end BufferImpl

/-! ### Reachable pools -/

namespace Pool

open BufferImpl

variable {p p' : Pool β} {op : Op β}

/-- Every buffer of the pool is bounded. -/
def AllBounded (p : Pool β) : Prop := ∀ b, some b ∈ p.buffers → b.Bounded

lemma AllBounded.get {i : Nat} {b : BufferImpl β} (h : p.AllBounded) (hb : p.get i = .ok b) :
    b.Bounded := h b (List.mem_of_getElem? (mem_of_get hb))

lemma AllBounded.set {i : Nat} {slot : Option (BufferImpl β)} {results : List (Result β)}
    (h : p.AllBounded) (hb : ∀ b, slot = some b → b.Bounded) :
    (⟨p.buffers.set i slot, results⟩ : Pool β).AllBounded :=
  forall_set h hb

lemma AllBounded.set_some {i : Nat} {b : BufferImpl β} {results : List (Result β)}
    (h : p.AllBounded) (hb : b.Bounded) :
    (⟨p.buffers.set i (some b), results⟩ : Pool β).AllBounded :=
  h.set fun _ heq => Option.some.inj heq ▸ hb

/-- Every step keeps the bounds. -/
lemma AllBounded.step (h : p.AllBounded) (hok : p.step op = .ok p') : p'.AllBounded := by
  obtain ⟨-, happly, -⟩ := step_eq_ok.mp hok
  cases op with
  | create =>
    obtain rfl := Except.ok.inj happly
    intro b hmem
    rcases List.mem_append.mp hmem with hmem | hmem
    · exact h b hmem
    · obtain rfl := Option.some.inj (List.mem_singleton.mp hmem)
      exact bounded_empty
  | call i c =>
    obtain ⟨b, hb, happly⟩ := bind_eq_ok.mp happly
    obtain ⟨⟨b', results⟩, hcall, happly⟩ := bind_eq_ok.mp happly
    obtain rfl := Except.ok.inj happly
    exact h.set_some ((h.get hb).call hcall)
  | appendBuffer i o =>
    obtain ⟨⟨b, b'⟩, hget, happly⟩ := bind_eq_ok.mp happly
    obtain rfl := Except.ok.inj happly
    obtain ⟨-, hi, ho⟩ := getTwo_eq_ok hget
    obtain ⟨hb, hb'⟩ := (h.get hi).appendBuffer (h.get ho)
    exact AllBounded.set_some (h.set_some hb) hb'
  | prependBuffer i o =>
    obtain ⟨⟨b, b'⟩, hget, happly⟩ := bind_eq_ok.mp happly
    obtain rfl := Except.ok.inj happly
    obtain ⟨-, hi, ho⟩ := getTwo_eq_ok hget
    obtain ⟨hb, hb'⟩ := (h.get hi).prependBuffer (h.get ho)
    exact AllBounded.set_some (h.set_some hb) hb'
  | destroy i =>
    obtain ⟨b, -, happly⟩ := bind_eq_ok.mp happly
    obtain ⟨b', -, happly⟩ := bind_eq_ok.mp happly
    obtain rfl := Except.ok.inj happly
    exact h.set fun _ heq => by cases heq

lemma allBounded_of_reachable (h : Exec.Reachable step empty p) : p.AllBounded :=
  h.invariant AllBounded (fun _ _ _ hp hok => hp.step hok) fun _ hb => absurd hb List.not_mem_nil

/-- On every reachable buffer, `append` stores its bytes within bounds, first in the spare space of
the last extent and the rest in a new one, if and only if there is no spare space or they fit in
it. -/
theorem appendLaw_iff (p : Pool β) (hp : Exec.Reachable step empty p) (b : BufferImpl β)
    (hb : some b ∈ p.buffers) (buf : List β) (hbuf : buf.length < SizeT.objectLimit) :
    (∃ b', b.append buf = .ok b' ∧ b.AppendLaw buf b') ↔ b.AppendFits buf :=
  (allBounded_of_reachable hp b hb).appendLaw_iff_fits hbuf

/-- On every reachable buffer, both forms of `reserve` allocate what the spare space of the last
extent lacks and return at least as much as was asked for, if and only if the spare space is not
more than that and what it lacks can be allocated. -/
theorem reserveLaw_iff (p : Pool β) (hp : Exec.Reachable step empty p) (b : BufferImpl β)
    (hb : some b ∈ p.buffers) (n : Nat) :
    (∃ b' granted, b.reserve n = .ok b' ∧ b.reserveExtents n = .ok (b', granted) ∧
      b.ReserveLaw n b' granted) ↔ b.ReserveFits n :=
  (allBounded_of_reachable hp b hb).reserveLaw_iff_fits

/-- The buffer after three bytes were reserved and "a" was appended. -/
def partlyFilled : BufferImpl Char := ⟨[⟨[some 'a', none, none], 0, 1⟩], 1⟩

lemma reachable_partlyFilled :
    Exec.Reachable step empty (⟨[some partlyFilled], []⟩ : Pool Char) :=
  ⟨[.create, .call 0 (.reserve 3), .call 0 (.append ['a'])], by decide⟩

/-- Two bytes more fit. -/
theorem appendLaw_partlyFilled :
    ∃ b', partlyFilled.append ['b', 'c'] = .ok b' ∧ partlyFilled.AppendLaw ['b', 'c'] b' :=
  (appendLaw_iff _ reachable_partlyFilled _ (List.mem_singleton.mpr rfl) _ (by decide)).mpr
    (by decide)

/-- Three bytes more do not. -/
theorem not_appendLaw : ¬ ∀ p : Pool Char, Exec.Reachable step empty p →
    ∀ b, some b ∈ p.buffers → ∀ buf : List Char, buf.length < SizeT.objectLimit →
      ∃ b', b.append buf = .ok b' ∧ b.AppendLaw buf b' := by
  intro h
  obtain ⟨b', hb', -⟩ :=
    h _ reachable_partlyFilled partlyFilled (List.mem_singleton.mpr rfl) ['b', 'c', 'd'] (by decide)
  cases hb'

/-- Of three bytes two are spare and one is allocated. -/
theorem reserveLaw_partlyFilled : ∃ b' granted, partlyFilled.reserve 3 = .ok b' ∧
    partlyFilled.reserveExtents 3 = .ok (b', granted) ∧
      partlyFilled.ReserveLaw 3 b' granted :=
  (reserveLaw_iff _ reachable_partlyFilled _ (List.mem_singleton.mpr rfl) 3).mpr (by decide)

/-- A reservation of one byte where two are spare fails. -/
theorem not_reserveLaw : ¬ ∀ p : Pool Char, Exec.Reachable step empty p →
    ∀ b, some b ∈ p.buffers → ∀ n, ∃ b' granted, b.reserve n = .ok b' ∧
      b.reserveExtents n = .ok (b', granted) ∧ b.ReserveLaw n b' granted := by
  intro h
  obtain ⟨b', granted, hb', -⟩ :=
    h _ reachable_partlyFilled partlyFilled (List.mem_singleton.mpr rfl) 1
  cases hb'

end Pool

end WhatTheEvent
