import WhatTheEvent.Buffer.Basic

/-!
# The reading operations on the contents

`drain`, `read` and the two forms of `peek` walk the list of extents. Here they are described by
what they do to `contents`, the cells from the read offset of each extent to the end of its
allocation. Only `Sound` is needed for this: no extent is read past its end.
-/

namespace WhatTheEvent

variable {β : Type}

namespace InternalExtent

variable {e : InternalExtent β} {n : Nat}

/-- The read offset lies inside the allocation. -/
def Sound (e : InternalExtent β) : Prop := e.readOffset ≤ e.size

lemma sound_of {stale bs : List β} {hole : List (Cell β)} : (of stale bs hole).Sound := by
  simp [Sound, Nat.add_assoc]

lemma Sound.length_unread (h : e.Sound) : e.unread.length = SizeT.sub e.size e.readOffset := by
  rw [SizeT.sub_of_le h, unread, List.length_drop, size]

lemma Sound.readable_eq (h : e.Sound) : e.readable = e.unread.length := h.length_unread.symm

lemma Sound.copyout_eq (h : e.Sound) : e.copyout n = e.unread.take n := by
  rw [copyout, ← h.length_unread, ← List.take_take, ← unread, List.take_length]

@[simp] lemma unread_consume : (e.consume n).1.unread = e.unread.drop n := by
  simp [consume, unread, List.drop_drop]

lemma Sound.consume (h : e.Sound) (hn : n ≤ e.unread.length) : (e.consume n).1.Sound := by
  rw [h.length_unread, SizeT.sub_of_le h] at hn
  unfold Sound at h ⊢
  change e.readOffset + n ≤ e.size
  omega

lemma Sound.consume_snd (h : e.Sound) (hn : n ≤ e.unread.length) :
    (e.consume n).2 = e.unread.length - n := by
  have hs := (h.consume hn).length_unread
  rw [unread_consume, List.length_drop] at hs
  exact hs.symm

end InternalExtent

namespace BufferImpl

/-- Every read offset lies inside its allocation. -/
def Sound (b : BufferImpl β) : Prop := ∀ e ∈ b.extents, e.Sound

variable {b o : BufferImpl β} {extents rest : List (InternalExtent β)} {cur : InternalExtent β}
  {n total s : Nat}

/-- The cells that a list of extents offers. -/
def unreadCells (extents : List (InternalExtent β)) : List (Cell β) :=
  extents.flatMap InternalExtent.unread

@[simp] lemma unreadCells_nil : unreadCells ([] : List (InternalExtent β)) = [] := rfl

@[simp] lemma unreadCells_cons :
    unreadCells (cur :: rest) = cur.unread ++ unreadCells rest := rfl

@[simp] lemma unreadCells_append :
    unreadCells (extents ++ rest) = unreadCells extents ++ unreadCells rest :=
  List.flatMap_append

lemma contents_eq : b.contents = unreadCells b.extents := rfl

/-! ### Splices -/

lemma contents_appendBuffer : (b.appendBuffer o).1.contents = b.contents ++ o.contents := by
  unfold appendBuffer
  split_ifs with he
  · rw [contents_eq (b := o), List.isEmpty_iff.mp he, unreadCells_nil, List.append_nil]
  · exact unreadCells_append

lemma contents_prependBuffer : (b.prependBuffer o).1.contents = o.contents ++ b.contents := by
  unfold prependBuffer
  split_ifs with he
  · rw [contents_eq (b := o), List.isEmpty_iff.mp he, unreadCells_nil, List.nil_append]
  · exact unreadCells_append

lemma Sound.appendBuffer (h : b.Sound) (ho : o.Sound) : (b.appendBuffer o).1.Sound := by
  unfold BufferImpl.appendBuffer
  split_ifs
  · exact h
  · exact List.forall_mem_append.mpr ⟨h, ho⟩

/-! ### `drain` -/

/-- The extents left after `n` cells were consumed from the front. -/
def dropExtents : List (InternalExtent β) → Nat → List (InternalExtent β)
  | [], _ => []
  | cur :: rest, n =>
    if n = 0 then cur :: rest
    else if cur.unread.length ≤ n then dropExtents rest (n - cur.unread.length)
    else (cur.consume n).1 :: rest

lemma unreadCells_dropExtents :
    unreadCells (dropExtents extents n) = (unreadCells extents).drop n := by
  induction extents generalizing n with
  | nil => simp [dropExtents]
  | cons cur rest ih =>
    unfold dropExtents
    by_cases hn : n = 0
    · simp [hn]
    · rw [if_neg hn]
      by_cases hc : cur.unread.length ≤ n
      · rw [if_pos hc, ih, unreadCells_cons, List.drop_append, List.drop_of_length_le hc,
          List.nil_append]
      · rw [if_neg hc, unreadCells_cons, unreadCells_cons, InternalExtent.unread_consume,
          List.drop_append_of_le_length (by omega)]

/-- A property of extents that consuming keeps is kept by `dropExtents`. -/
lemma forall_dropExtents {P : InternalExtent β → Prop}
    (hP : ∀ e n, P e → n ≤ e.unread.length → P (e.consume n).1)
    (h : ∀ e ∈ extents, P e) : ∀ e ∈ dropExtents extents n, P e := by
  induction extents generalizing n with
  | nil => simp [dropExtents]
  | cons cur rest ih =>
    rw [List.forall_mem_cons] at h
    unfold dropExtents
    split_ifs with hn hc
    · exact List.forall_mem_cons.mpr h
    · exact ih h.2
    · exact List.forall_mem_cons.mpr ⟨hP cur n h.1 (by omega), h.2⟩

lemma drainRound_cons (h : cur.Sound) :
    drainRound (cur :: rest, n)
      = .ok (if cur.unread.length ≤ n then (rest, n - cur.unread.length)
        else ((cur.consume n).1 :: rest, 0)) := by
  simp only [drainRound, h.readable_eq, h.consume_snd (Nat.min_le_right _ _)]
  by_cases hc : cur.unread.length ≤ n
  · simp [hc]
  · rw [if_neg hc, Nat.min_eq_left (by omega), if_neg (by omega), Nat.sub_self]

lemma drainLoop_eq (h : ∀ e ∈ extents, e.Sound) :
    Loop.whileDo Fault.diverges (fun st => decide (st.2 > 0) && !st.1.isEmpty) drainRound
      (extents.length + 1) (extents, n)
      = .ok (dropExtents extents n, n - (unreadCells extents).length) := by
  induction extents generalizing n with
  | nil => exact Loop.whileDo_of_not_guard (Nat.succ_pos _) (by simp)
  | cons cur rest ih =>
    rw [List.forall_mem_cons] at h
    unfold dropExtents
    by_cases hn : n = 0
    · subst hn
      rw [Loop.whileDo_of_not_guard (Nat.succ_pos _) (by simp)]
      simp
    · rw [if_neg hn, Loop.whileDo_of_guard (by simp; omega) (drainRound_cons h.1)]
      by_cases hc : cur.unread.length ≤ n
      · simp only [if_pos hc]
        rw [List.length_cons, ih h.2, unreadCells_cons, List.length_append, Nat.sub_sub]
      · -- the consumed extent stays, with nothing left to consume
        simp only [if_neg hc]
        rw [List.length_cons, Loop.whileDo_of_not_guard (Nat.succ_pos _) (by simp),
          unreadCells_cons, List.length_append, Nat.sub_eq_zero_of_le (by omega)]

/-- `drain` always ends; it consumes `n` cells or all there are. -/
theorem drain_eq (h : b.Sound) :
    b.drain n = .ok ⟨dropExtents b.extents n, SizeT.sub b.size (min n b.contents.length)⟩ := by
  have hmin : n - (n - b.contents.length) = min n b.contents.length := by omega
  rw [drain, drainLoop_eq h, ← hmin]
  rfl

/-- `drain` takes cells off the front. -/
lemma drain_contents (h : b.Sound) :
    ∃ b', b.drain n = .ok b' ∧ b'.Sound ∧ b'.contents = b.contents.drop n :=
  ⟨_, drain_eq h, forall_dropExtents (fun _ _ he hn => he.consume hn) h, unreadCells_dropExtents⟩

/-! ### `peek` with extents -/

/-- The extents returned are not empty, and together they hold the first `n` cells. -/
lemma peekLoop_spec (total : Nat) (h : ∀ e ∈ extents, e.Sound) :
    (∀ m ∈ peekLoop n extents total, m ≠ []) ∧
      (peekLoop n extents total).flatten = (unreadCells extents).take (n - total) := by
  induction extents generalizing total with
  | nil => simp [peekLoop]
  | cons cur rest ih =>
    rw [List.forall_mem_cons] at h
    obtain ⟨ihne, ihflat⟩ := ih (total + cur.unread.length) h.2
    rw [Nat.sub_add_eq] at ihflat
    unfold peekLoop
    by_cases ht : total < n
    · simp only [if_pos ht, h.1.readable_eq, unreadCells_cons, List.take_append]
      by_cases ha : cur.unread.length > 0
      · rw [if_pos ha]
        have hgrant : (cur.data.drop cur.readOffset).take (min cur.unread.length (n - total))
            = cur.unread.take (n - total) := by
          rw [Nat.min_comm, ← InternalExtent.unread, ← List.take_take, List.take_length]
        refine ⟨List.forall_mem_cons.mpr ⟨?_, ihne⟩, ?_⟩
        · rw [hgrant]
          apply List.ne_nil_of_length_pos
          rw [List.length_take]
          omega
        · rw [hgrant, List.flatten_cons, ihflat]
      · -- an extent with nothing to read is passed over
        have hnil : cur.unread = [] := List.length_eq_zero_iff.mp (by omega)
        rw [if_neg ha, ihflat]
        exact ⟨ihne, by simp [hnil]⟩
    · have hzero : n - total = 0 := by omega
      simp [if_neg ht, hzero]

theorem peekExtents_spec (h : b.Sound) :
    (∀ m ∈ b.peekExtents n, m ≠ []) ∧ (b.peekExtents n).flatten = b.contents.take n :=
  peekLoop_spec 0 h

/-! ### `read` and the copying `peek` -/

/-- The cells that the copying loop stores: every extent it visits gives up to `n`. -/
def copiedCells (n : Nat) : List (InternalExtent β) → (total : Nat) → List (Cell β)
  | [], _ => []
  | cur :: rest, total =>
    if total < n then
      cur.unread.take n ++ copiedCells n rest (total + (cur.unread.take n).length)
    else []

lemma copiedCells_of_le (h : n ≤ total) : copiedCells n extents total = [] := by
  cases extents with
  | nil => rfl
  | cons cur rest => exact if_neg (by omega)

/-- Without consuming, the loop leaves the list and the size alone. -/
lemma readLoop_peek (h : ∀ e ∈ extents, e.Sound) :
    readLoop n false extents total s = ⟨extents, copiedCells n extents total, s⟩ := by
  induction extents generalizing total with
  | nil => rfl
  | cons cur rest ih =>
    rw [List.forall_mem_cons] at h
    unfold readLoop copiedCells
    by_cases ht : total < n
    · simp only [if_pos ht, h.1.copyout_eq, Bool.not_false, if_true, ih h.2]
    · simp only [if_neg ht]

theorem peek_eq (h : b.Sound) : b.peek n = (b, copiedCells n b.extents 0) := by
  rw [peek, readLoop_peek h]

/-- Consuming, the loop stores the same cells and takes exactly these off the contents. -/
lemma readLoop_read (total s : Nat) (h : ∀ e ∈ extents, e.Sound) :
    let r := readLoop n true extents total s
    r.out = copiedCells n extents total ∧
      unreadCells r.extents = (unreadCells extents).drop r.out.length := by
  induction extents generalizing total s with
  | nil => simp [readLoop, copiedCells]
  | cons cur rest ih =>
    rw [List.forall_mem_cons] at h
    unfold readLoop copiedCells
    by_cases ht : total < n
    · have hle : (cur.unread.take n).length ≤ cur.unread.length := List.length_take_le' ..
      simp only [if_pos ht, h.1.copyout_eq, Bool.not_true, Bool.false_eq_true, if_false,
        h.1.consume_snd hle]
      by_cases hr : cur.unread.length - (cur.unread.take n).length = 0
      · obtain ⟨ihout, ihrest⟩ := ih (total + (cur.unread.take n).length)
          (SizeT.sub s (cur.unread.take n).length) h.2
        have hall : cur.unread.take n = cur.unread := by
          apply List.take_of_length_le
          rw [List.length_take] at hr
          omega
        simp only [if_pos hr, ihout, true_and]
        rw [← ihout, ihrest, hall, unreadCells_cons, List.length_append, ← List.drop_drop,
          List.drop_left]
      · -- the loop breaks off inside an extent longer than `n`
        simp only [if_neg hr]
        have hn : (cur.unread.take n).length = n := by
          rw [List.length_take] at hr ⊢
          omega
        rw [copiedCells_of_le (by omega), List.append_nil]
        refine ⟨rfl, ?_⟩
        rw [unreadCells_cons, unreadCells_cons, InternalExtent.unread_consume,
          List.drop_append_of_le_length hle]
    · simp [if_neg ht]

/-- `read` stores what `peek` stores, and takes exactly these cells off the contents. -/
theorem read_spec (h : b.Sound) :
    (b.read n).2 = copiedCells n b.extents 0 ∧
      (b.read n).1.contents = b.contents.drop (b.read n).2.length :=
  readLoop_read 0 b.size h

/-- The loop stores cells off the front. -/
lemma copiedCells_first (total : Nat) : copiedCells n extents total <+: unreadCells extents := by
  induction extents generalizing total with
  | nil => exact List.nil_prefix
  | cons cur rest ih =>
    unfold copiedCells
    split_ifs with ht
    · by_cases hlen : cur.unread.length ≤ n
      · rw [List.take_of_length_le hlen, unreadCells_cons]
        exact (List.prefix_append_right_inj _).mpr (ih _)
      · -- an extent longer than `n` is the last one
        have hn : (cur.unread.take n).length = n := by
          rw [List.length_take]
          omega
        rw [copiedCells_of_le (by omega), List.append_nil]
        exact (List.take_prefix _ _).trans (List.prefix_append _ _)
    · exact List.nil_prefix

/-- `read` moves cells from the contents to what it stores. -/
lemma read_append_contents (h : b.Sound) : (b.read n).2 ++ (b.read n).1.contents = b.contents := by
  obtain ⟨hout, hrest⟩ := read_spec (n := n) h
  have hfirst : (b.read n).2 <+: b.contents := hout ▸ copiedCells_first 0
  obtain ⟨rest, hsplit⟩ := hfirst
  rw [hrest, ← hsplit, List.drop_left]

/-- A property of extents that consuming keeps is kept by the loop. -/
lemma forall_readLoop {P : InternalExtent β → Prop} {consume : Bool}
    (hP : ∀ e n, P e → n ≤ e.unread.length → P (e.consume n).1)
    (h : ∀ e ∈ extents, P e) : ∀ e ∈ (readLoop n consume extents total s).extents, P e := by
  induction extents generalizing total s with
  | nil => simp [readLoop]
  | cons cur rest ih =>
    rw [List.forall_mem_cons] at h
    unfold readLoop
    split_ifs with ht hc
    · exact List.forall_mem_cons.mpr ⟨h.1, ih h.2⟩
    · have hout : (cur.copyout n).length ≤ cur.unread.length := by
        rw [InternalExtent.copyout, ← InternalExtent.unread]
        exact List.length_take_le' ..
      simp only
      split_ifs
      · exact ih h.2
      · exact List.forall_mem_cons.mpr ⟨hP cur _ h.1 hout, h.2⟩
    · exact List.forall_mem_cons.mpr h

/-- The size goes down by what was stored, as long as it does not wrap. -/
lemma readLoop_size (hs : (readLoop n true extents total s).out.length ≤ s) :
    (readLoop n true extents total s).size
      = s - (readLoop n true extents total s).out.length := by
  induction extents generalizing total s with
  | nil => simp [readLoop]
  | cons cur rest ih =>
    unfold readLoop at hs ⊢
    split_ifs at hs ⊢ with ht hc
    · simp at hc
    · simp only at hs ⊢
      split_ifs at hs ⊢ with hr
      · simp only [List.length_append] at hs ⊢
        have hsub := SizeT.sub_of_le (show (cur.copyout n).length ≤ s by omega)
        rw [ih (by rw [hsub]; rw [hsub] at hs; omega), hsub]
        omega
      · rw [SizeT.sub_of_le hs]
    · simp

end BufferImpl

end WhatTheEvent
