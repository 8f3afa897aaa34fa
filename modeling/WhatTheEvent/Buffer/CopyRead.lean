import WhatTheEvent.Buffer.Bytes

/-!
# Copying reads

The loop shared by `read` and the copying `peek` offers every extent the whole size again, so that
it stores too much when the size ends inside an extent that it reaches with something already
stored. `Aligned` excludes exactly this.
-/

namespace WhatTheEvent

variable {β : Type}

open InternalExtent

namespace BufferImpl

variable {b : BufferImpl β} {extents rest : List (InternalExtent β)} {cur : InternalExtent β}
  {n total s : Nat}

/-- With `total` cells stored before the first extent, `n` ends inside none of the extents that
are reached with something stored. -/
def AlignedFrom (n total : Nat) (extents : List (InternalExtent β)) : Prop :=
  ∀ front cur back, extents = front ++ cur :: back →
    0 < total + (unreadCells front).length → total + (unreadCells front).length < n →
      total + (unreadCells front).length + cur.unread.length ≤ n

/-- `n` does not end inside an extent other than the first that has anything to read. -/
def Aligned (b : BufferImpl β) (n : Nat) : Prop := AlignedFrom n 0 b.extents

lemma alignedFrom_of_le (h : n ≤ total) : AlignedFrom n total extents := by
  intro front cur back _ _ hlt
  omega

lemma alignedFrom_cons : AlignedFrom n total (cur :: rest) ↔
    (0 < total → total < n → total + cur.unread.length ≤ n) ∧
      AlignedFrom n (total + cur.unread.length) rest := by
  constructor
  · intro h
    refine ⟨h [] cur rest rfl, ?_⟩
    intro front e back heq
    have := h (cur :: front) e back (by rw [heq]; rfl)
    rw [unreadCells_cons, List.length_append, ← Nat.add_assoc] at this
    exact this
  · rintro ⟨hcur, hrest⟩ front e back heq
    cases front with
    | nil =>
      obtain ⟨rfl, rfl⟩ := List.cons.inj heq
      exact hcur
    | cons f front =>
      obtain ⟨rfl, hr⟩ := List.cons.inj heq
      rw [unreadCells_cons, List.length_append, ← Nat.add_assoc]
      exact hrest front e back hr

/-- What an aligned read gets from the extents it visits is what is still wanted. -/
lemma take_eq_of_aligned (h : 0 < total → total < n → total + cur.unread.length ≤ n)
    (ht : total < n) : cur.unread.take n = cur.unread.take (n - total) := by
  rcases Nat.eq_zero_or_pos total with rfl | hpos
  · rfl
  · have hle := h hpos ht
    rw [List.take_of_length_le (by omega), List.take_of_length_le (by omega)]

instance AlignedFrom.decidable (n : Nat) : ∀ (total : Nat) (extents : List (InternalExtent β)),
    Decidable (AlignedFrom n total extents)
  | _, [] => isTrue fun _ _ _ h => absurd h (by simp)
  | total, cur :: rest =>
    have := AlignedFrom.decidable n (total + cur.unread.length) rest
    decidable_of_iff' _ alignedFrom_cons

instance : Decidable (b.Aligned n) := inferInstanceAs (Decidable (AlignedFrom n 0 b.extents))

/-- The loop stores what is wanted if and only if the read is aligned. -/
theorem copiedCells_eq_iff :
    copiedCells n extents total = (unreadCells extents).take (n - total) ↔
      AlignedFrom n total extents := by
  induction extents generalizing total with
  | nil =>
    refine ⟨fun _ front cur back h => ?_, fun _ => by simp [copiedCells]⟩
    simp at h
  | cons cur rest ih =>
    by_cases ht : total < n
    · rw [alignedFrom_cons, copiedCells, if_pos ht, unreadCells_cons, List.take_append]
      by_cases hcur : 0 < total → total < n → total + cur.unread.length ≤ n
      · rw [take_eq_of_aligned hcur ht, List.append_cancel_left_eq]
        by_cases hle : cur.unread.length ≤ n - total
        · rw [List.take_of_length_le hle, ← ih, Nat.sub_add_eq]
          exact ⟨fun h => ⟨hcur, h⟩, fun h => h.2⟩
        · have hfull : (cur.unread.take (n - total)).length = n - total :=
            List.length_take_of_le (by omega)
          rw [copiedCells_of_le (by omega), Nat.sub_eq_zero_of_le (by omega), List.take_zero]
          exact ⟨fun _ => ⟨hcur, alignedFrom_of_le (by omega)⟩, fun _ => rfl⟩
      · -- more than the rest is stored from this extent alone
        refine ⟨fun heq => ?_, fun h => absurd h.1 hcur⟩
        have hlen := congrArg List.length heq
        simp only [List.length_append, List.length_take] at hlen
        omega
    · rw [copiedCells_of_le (by omega), Nat.sub_eq_zero_of_le (by omega), List.take_zero]
      exact ⟨fun _ => alignedFrom_of_le (by omega), fun _ => rfl⟩

/-- A misaligned read stores more than it was asked for. -/
lemma copiedCells_length_of_not_aligned (ht : total ≤ n) (h : ¬ AlignedFrom n total extents) :
    n < total + (copiedCells n extents total).length := by
  induction extents generalizing total with
  | nil => exact absurd (copiedCells_eq_iff.mp (by simp [copiedCells])) h
  | cons cur rest ih =>
    have hlt : total < n := by
      by_contra hge
      exact h (alignedFrom_of_le (by omega))
    rw [copiedCells, if_pos hlt, List.length_append]
    by_cases hcur : 0 < total → total < n → total + cur.unread.length ≤ n
    · have hrest : ¬ AlignedFrom n (total + cur.unread.length) rest := fun hr =>
        h (alignedFrom_cons.mpr ⟨hcur, hr⟩)
      have hle : total + cur.unread.length ≤ n := by
        by_contra hgt
        exact hrest (alignedFrom_of_le (by omega))
      rw [take_eq_of_aligned hcur hlt, List.take_of_length_le (by omega)]
      have := ih hle hrest
      omega
    · rw [List.length_take]
      omega

/-! ### Aligned reads on the bytes -/

/-- Consuming bytes in front of the first reserved space. -/
lemma dropExtents_of_le_leadOf (h : ∀ e ∈ extents, e.WellFormed) (hn : n ≤ leadOf extents) :
    (∀ e ∈ dropExtents extents n, e.WellFormed) ∧
      writtenBytes (dropExtents extents n) = (writtenBytes extents).drop n := by
  induction extents generalizing n with
  | nil => simp [dropExtents]
  | cons cur rest ih =>
    rw [List.forall_mem_cons] at h
    unfold leadOf at hn
    unfold dropExtents
    by_cases hzero : n = 0
    · rw [if_pos hzero, hzero]
      exact ⟨List.forall_mem_cons.mpr h, rfl⟩
    · rw [if_neg hzero]
      obtain ⟨stale, bs, hole, hlimit, rfl⟩ := h.1
      simp only [bytes_of, appendable_of, List.length_eq_zero_iff] at hn
      simp only [unread_of, List.length_append, List.length_map, writtenBytes_cons, bytes_of]
      by_cases hc : bs.length + hole.length ≤ n
      · rw [if_pos hc]
        have hhole : hole = [] := by
          by_contra hne
          rw [if_neg hne] at hn
          exact hne (List.length_eq_zero_iff.mp (by omega))
        subst hhole
        rw [if_pos rfl] at hn
        simp only [List.length_nil, Nat.add_zero] at hc ⊢
        obtain ⟨ihwf, ihbytes⟩ := ih h.2 (n := n - bs.length) (by omega)
        refine ⟨ihwf, ?_⟩
        rw [ihbytes, List.drop_append, List.drop_of_length_le hc, List.nil_append]
      · have hle : n ≤ bs.length := by
          by_cases hhole : hole = []
          · subst hhole
            simp only [List.length_nil, Nat.add_zero] at hc
            omega
          · rw [if_neg hhole] at hn
            omega
        rw [if_neg hc, consume_of hle]
        refine ⟨List.forall_mem_cons.mpr ⟨⟨_, _, _, hlimit, rfl⟩, h.2⟩, ?_⟩
        rw [writtenBytes_cons, bytes_of, List.drop_append_of_le_length hle]

lemma forall_full_dropExtents (h : ∀ e ∈ extents, e.Full) :
    ∀ e ∈ dropExtents extents n, e.Full :=
  forall_dropExtents (fun _ _ he hn => he.consume hn) h

lemma writtenBytes_eq_of_unreadCells {extents' : List (InternalExtent β)} {bs : List β}
    (h : ∀ e ∈ extents', e.Full) (hcells : unreadCells extents' = bs.map some) :
    writtenBytes extents' = bs := by
  rw [unreadCells_of_full h] at hcells
  exact List.map_injective_iff.mpr (Option.some_injective β) hcells

lemma WellFormed.min_length (h : b.WellFormed) (hc : b.Clear n) :
    min n b.contents.length = min n b.bytes.length := by
  have htake := congrArg List.length (h.contents_take hc)
  rwa [List.length_map, List.length_take, List.length_take] at htake

/-- `drain` takes off the first bytes as long as it touches no reserved space. -/
theorem drain_spec (h : b.WellFormed) (hc : b.Clear n) :
    ∃ b', b.drain n = .ok b' ∧ b'.WellFormed ∧ (b.Tight → b'.Tight) ∧
      b'.bytes = b.bytes.drop n ∧ b'.size = SizeT.sub b.size (min n b.bytes.length) := by
  have htight : b.Tight → ∀ e ∈ dropExtents b.extents n, e.Full := forall_full_dropExtents
  rw [drain_eq h.sound, h.min_length hc]
  rcases h.clear_iff.mp hc with hn | ht
  · obtain ⟨hwf, hbytes⟩ := dropExtents_of_le_leadOf h hn
    exact ⟨_, rfl, hwf, htight, hbytes, rfl⟩
  · refine ⟨_, rfl, fun e he => (htight ht e he).wellFormed, htight, ?_, rfl⟩
    apply writtenBytes_eq_of_unreadCells (htight ht)
    rw [unreadCells_dropExtents, unreadCells_of_full ht, ← List.map_drop]
    rfl

/-- The consuming loop on an aligned read that touches no reserved space. -/
lemma readLoop_of_le_leadOf (total s : Nat) (h : ∀ e ∈ extents, e.WellFormed)
    (hn : n - total ≤ leadOf extents) (ha : AlignedFrom n total extents) :
    (∀ e ∈ (readLoop n true extents total s).extents, e.WellFormed) ∧
      writtenBytes (readLoop n true extents total s).extents
        = (writtenBytes extents).drop (n - total) := by
  induction extents generalizing total s with
  | nil => simp [readLoop]
  | cons cur rest ih =>
    have hwf := h
    rw [List.forall_mem_cons] at h
    obtain ⟨hcur, hrest⟩ := alignedFrom_cons.mp ha
    unfold readLoop
    by_cases ht : total < n
    · simp only [if_pos ht, h.1.sound.copyout_eq, take_eq_of_aligned hcur ht, Bool.not_true,
        Bool.false_eq_true, if_false, h.1.sound.consume_snd (List.length_take_le' ..)]
      unfold leadOf at hn
      obtain ⟨stale, bs, hole, hlimit, rfl⟩ := h.1
      simp only [bytes_of, appendable_of, List.length_eq_zero_iff] at hn
      simp only [unread_of, List.length_append, List.length_map, writtenBytes_cons, bytes_of,
        List.length_take]
      by_cases hc : bs.length + hole.length ≤ n - total
      · have hhole : hole = [] := by
          by_contra hne
          rw [if_neg hne] at hn
          exact hne (List.length_eq_zero_iff.mp (by omega))
        subst hhole
        rw [if_pos rfl] at hn
        simp only [List.length_nil, Nat.add_zero, unread_of, List.append_nil,
          List.length_map] at hc hrest ⊢
        rw [if_pos (by omega), Nat.min_eq_right hc]
        obtain ⟨ihwf, ihbytes⟩ :=
          ih (total + bs.length) (SizeT.sub s bs.length) h.2 (by omega) hrest
        refine ⟨ihwf, ?_⟩
        rw [ihbytes, List.drop_append, List.drop_of_length_le hc, List.nil_append, Nat.sub_add_eq]
      · have hle : n - total ≤ bs.length := by
          by_cases hhole : hole = []
          · subst hhole
            simp only [List.length_nil, Nat.add_zero] at hc
            omega
          · rw [if_neg hhole] at hn
            omega
        rw [if_neg (by omega), Nat.min_eq_left (by omega), consume_of hle]
        refine ⟨List.forall_mem_cons.mpr ⟨⟨_, _, _, hlimit, rfl⟩, h.2⟩, ?_⟩
        rw [writtenBytes_cons, bytes_of, List.drop_append_of_le_length hle]
    · rw [if_neg ht, Nat.sub_eq_zero_of_le (by omega)]
      exact ⟨hwf, rfl⟩

lemma Tight.read (h : b.Tight) : (b.read n).1.Tight :=
  forall_readLoop (fun _ _ he hn => he.consume hn) h

/-- What an aligned read stores, for the consuming and the peeking form. -/
lemma WellFormed.copied_eq (h : b.WellFormed) (hc : b.Clear n) (ha : b.Aligned n) :
    copiedCells n b.extents 0 = (b.bytes.take n).map some := by
  rw [copiedCells_eq_iff.mpr ha, Nat.sub_zero, ← contents_eq, h.contents_take hc]

/-- An aligned `read` that touches no reserved space stores the first bytes and takes them off. -/
theorem read_bytes_spec (h : b.WellFormed) (hc : b.Clear n) (ha : b.Aligned n) :
    (b.read n).2 = (b.bytes.take n).map some ∧ (b.read n).1.WellFormed ∧
      (b.read n).1.bytes = b.bytes.drop n ∧
      (min n b.bytes.length ≤ b.size → (b.read n).1.size = b.size - min n b.bytes.length) := by
  obtain ⟨hout, hrest⟩ := read_spec (n := n) h.sound
  rw [h.copied_eq hc ha] at hout
  have hlen : (b.read n).2.length = min n b.bytes.length := by
    rw [hout, List.length_map, List.length_take]
  have hsize : min n b.bytes.length ≤ b.size →
      (b.read n).1.size = b.size - min n b.bytes.length := by
    intro hle
    rw [← hlen] at hle ⊢
    exact readLoop_size hle
  rcases h.clear_iff.mp hc with hn | ht
  · obtain ⟨hwf, hbytes⟩ := readLoop_of_le_leadOf 0 b.size h hn ha
    exact ⟨hout, hwf, hbytes, hsize⟩
  · refine ⟨hout, ht.read.wellFormed, ?_, hsize⟩
    apply writtenBytes_eq_of_unreadCells ht.read
    rw [← contents_eq, hrest, hlen, ht.contents_eq, ← List.map_drop]
    congr 1
    rcases Nat.le_total n b.bytes.length with hle | hle
    · rw [Nat.min_eq_left hle]
    · rw [Nat.min_eq_right hle, List.drop_length, List.drop_of_length_le hle]

/-- An aligned copying `peek` that touches no reserved space stores the first bytes. -/
theorem peek_bytes_spec (h : b.WellFormed) (hc : b.Clear n) (ha : b.Aligned n) :
    b.peek n = (b, (b.bytes.take n).map some) := by
  rw [peek_eq h.sound, h.copied_eq hc ha]

/-- The extents that `peek` returns hold the first bytes, if no reserved space is touched. -/
theorem peekExtents_bytes_spec (h : b.WellFormed) (hc : b.Clear n) :
    (∀ m ∈ b.peekExtents n, m ≠ []) ∧ (b.peekExtents n).flatten = (b.bytes.take n).map some := by
  rw [← h.contents_take hc]
  exact peekExtents_spec h.sound

end BufferImpl

end WhatTheEvent
