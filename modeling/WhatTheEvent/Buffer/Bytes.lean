import WhatTheEvent.Buffer.Contents

/-!
# The operations on the bytes

`append`, `prepend` and `reserve` are described by what they do to the list of extents, and from
that to `bytes`. A buffer is `Tight` when none of its extents has reserved space: then what the
reading operations offer is exactly what was written.
-/

namespace WhatTheEvent

variable {β : Type}

namespace InternalExtent

variable {e : InternalExtent β} {buf : List β} {n : Nat}

lemma WellFormed.sound (h : e.WellFormed) : e.Sound := by
  obtain ⟨stale, bs, hole, -, rfl⟩ := h
  exact sound_of

lemma Full.consume (h : e.Full) (hn : n ≤ e.unread.length) : (e.consume n).1.Full := by
  obtain ⟨stale, bs, rfl⟩ := h
  rw [unread_of, List.append_nil, List.length_map] at hn
  rw [consume_of hn]
  exact full_of

/-- Only the first `size` bytes of the source matter. -/
lemma append_take : e.append (buf.take n) n = e.append buf n := by
  have htake : ∀ k, (buf.take n).take (min k n) = buf.take (min k n) := by
    intro k
    rw [List.take_take, Nat.min_assoc, Nat.min_self]
  simp only [append, htake]

/-- A new extent of `n` bytes, filled from the start of `buf`. -/
lemma append_new (hn : n < SizeT.objectLimit) (hbuf : n ≤ buf.length) :
    append (of [] [] (List.replicate n none)) buf n = .ok (of [] (buf.take n) [], n) := by
  have hlen : (buf.take n).length = n := List.length_take_of_le hbuf
  rw [← append_take]
  cases n with
  | zero => simp [append_of_full]
  | succ n =>
    have hlimit : n + 1 < 2 ^ 63 := hn
    have happend : append (of [] [] (List.replicate (n + 1) none)) (buf.take (n + 1))
        (buf.take (n + 1)).length = _ :=
      append_of (by simp) (by simp [hlen]; omega) (by simp [hlen])
    rw [hlen] at happend
    rw [happend]
    simp

end InternalExtent

open InternalExtent

namespace BufferImpl

variable {b o : BufferImpl β} {extents rest : List (InternalExtent β)} {cur : InternalExtent β}
  {buf stale bs : List β} {hole : List (Cell β)} {n : Nat}

/-- Every extent is well formed. -/
def WellFormed (b : BufferImpl β) : Prop := ∀ e ∈ b.extents, e.WellFormed

/-- No extent has reserved space. -/
def Tight (b : BufferImpl β) : Prop := ∀ e ∈ b.extents, e.Full

lemma Tight.wellFormed (h : b.Tight) : b.WellFormed := fun e he => (h e he).wellFormed

lemma WellFormed.sound (h : b.WellFormed) : b.Sound := fun e he => (h e he).sound

lemma Tight.sound (h : b.Tight) : b.Sound := h.wellFormed.sound

lemma tight_empty : (empty : BufferImpl β).Tight := by simp [Tight, empty]

/-- The bytes written to a list of extents and not consumed. -/
def writtenBytes (extents : List (InternalExtent β)) : List β :=
  extents.flatMap InternalExtent.bytes

@[simp] lemma writtenBytes_nil : writtenBytes ([] : List (InternalExtent β)) = [] := rfl

@[simp] lemma writtenBytes_cons :
    writtenBytes (cur :: rest) = cur.bytes ++ writtenBytes rest := rfl

@[simp] lemma writtenBytes_append :
    writtenBytes (extents ++ rest) = writtenBytes extents ++ writtenBytes rest :=
  List.flatMap_append

lemma bytes_eq : b.bytes = writtenBytes b.extents := rfl

lemma unreadCells_of_full (h : ∀ e ∈ extents, e.Full) :
    unreadCells extents = (writtenBytes extents).map some := by
  induction extents with
  | nil => rfl
  | cons cur rest ih =>
    rw [List.forall_mem_cons] at h
    rw [unreadCells_cons, writtenBytes_cons, List.map_append, h.1.unread_eq, ih h.2]

/-- In a tight buffer everything that is offered was written. -/
theorem Tight.contents_eq (h : b.Tight) : b.contents = b.bytes.map some := unreadCells_of_full h

lemma Tight.length_contents (h : b.Tight) : b.contents.length = b.bytes.length := by
  rw [h.contents_eq, List.length_map]

lemma Tight.spare_eq (h : b.Tight) : b.spare = 0 := by
  unfold spare
  cases hlast : b.extents.getLast? with
  | none => rfl
  | some cur => exact (h cur (List.mem_of_getLast? hlast)).appendable_eq

/-! ### `append` -/

lemma appendTarget_new (h : b.spare = 0) (hn : n < SizeT.objectLimit) :
    appendTarget b.extents n = .ok (b.extents, of [] [] (List.replicate n none)) := by
  unfold spare at h
  unfold appendTarget
  cases hlast : b.extents.getLast? with
  | none => simp only [new_of_lt hn, map_ok]
  | some cur =>
    simp only [hlast] at h
    simp only [h, if_true, new_of_lt hn, map_ok]

/-- A round that starts a new extent. -/
lemma appendRound_new (h : b.spare = 0) (hn : buf.length < SizeT.objectLimit) :
    appendRound buf (b.extents, buf.length) = .ok (b.extents ++ [of [] buf []], 0) := by
  have hnew := append_new hn (Nat.le_refl buf.length)
  rw [List.take_length] at hnew
  simp [appendRound, appendTarget_new h hn, hnew]

/-- Without spare space, all of `buf` goes to one new extent. -/
lemma append_of_spare_eq_zero (h : b.spare = 0) (hn : buf.length < SizeT.objectLimit) :
    b.append buf = .ok ⟨b.extents ++ [of [] buf []], SizeT.add b.size buf.length⟩ := by
  rw [append, Loop.doWhile_of_not_guard (Nat.succ_pos _) (appendRound_new h hn) (by simp)]
  rfl

lemma spare_of_last (h : b.extents = rest ++ [of stale bs hole]) : b.spare = hole.length := by
  simp [spare, h]

/-- Into spare space that suffices, all of `buf` goes behind what the last extent holds. -/
lemma append_of_fits (h : b.extents = rest ++ [of stale bs hole]) (hhole : hole ≠ [])
    (hfit : buf.length ≤ hole.length) (hlimit : hole.length < SizeT.objectLimit) :
    b.append buf = .ok ⟨rest ++ [of stale (bs ++ buf) (hole.drop buf.length)],
      SizeT.add b.size buf.length⟩ := by
  have hlimit : hole.length < 2 ^ 63 := hlimit
  have hround : appendRound buf (b.extents, buf.length)
      = .ok (rest ++ [of stale (bs ++ buf) (hole.drop buf.length)], 0) := by
    simp [appendRound, appendTarget, h, hhole, append_of hhole (by omega) hfit]
  rw [append, Loop.doWhile_of_not_guard (Nat.succ_pos _) hround (by simp)]
  rfl

/-- The bytes appended fit into the spare space, or there is none. -/
def AppendFits (b : BufferImpl β) (buf : List β) : Prop :=
  b.spare = 0 ∨ buf.length ≤ b.spare

lemma WellFormed.last (h : b.WellFormed) (hs : b.spare ≠ 0) :
    ∃ rest stale bs hole, b.extents = rest ++ [of stale bs hole] ∧ hole ≠ [] ∧
      hole.length < SizeT.objectLimit := by
  unfold spare at hs
  cases hlast : b.extents.getLast? with
  | none => simp [hlast] at hs
  | some cur =>
    obtain ⟨stale, bs, hole, hlimit, rfl⟩ := h cur (List.mem_of_getLast? hlast)
    obtain ⟨rest, hrest⟩ := List.getLast?_eq_some_iff.mp hlast
    refine ⟨rest, stale, bs, hole, hrest, ?_, hlimit⟩
    rintro rfl
    simp [hlast] at hs

/-- `append` adds its bytes at the end, if they fit. Tight buffers stay tight. -/
theorem append_spec (h : b.WellFormed) (hfit : b.AppendFits buf)
    (hn : buf.length < SizeT.objectLimit) :
    ∃ b', b.append buf = .ok b' ∧ b'.WellFormed ∧ (b.Tight → b'.Tight) ∧
      b'.bytes = b.bytes ++ buf ∧ b'.size = SizeT.add b.size buf.length := by
  by_cases hs : b.spare = 0
  · refine ⟨_, append_of_spare_eq_zero hs hn, ?_, ?_, by simp [bytes_eq], rfl⟩
    · exact List.forall_mem_append.mpr ⟨h, List.forall_mem_singleton.mpr full_of.wellFormed⟩
    · exact fun ht => List.forall_mem_append.mpr ⟨ht, List.forall_mem_singleton.mpr full_of⟩
  · obtain ⟨rest, stale, bs, hole, hext, hhole, hlimit⟩ := h.last hs
    have hspare := spare_of_last hext
    have hfit : buf.length ≤ hole.length := by
      rw [← hspare]
      exact hfit.resolve_left hs
    refine ⟨_, append_of_fits hext hhole hfit hlimit, ?_, ?_, by simp [bytes_eq, hext], rfl⟩
    · unfold WellFormed at h
      rw [hext, List.forall_mem_append] at h
      refine List.forall_mem_append.mpr ⟨h.1, List.forall_mem_singleton.mpr ?_⟩
      exact ⟨_, _, _, by rw [List.length_drop]; omega, rfl⟩
    · exact fun ht => absurd ht.spare_eq hs

/-! ### `prepend` -/

/-- The consumed space at the front of the first extent, `0` if there is none. -/
def headroom (b : BufferImpl β) : Nat :=
  match b.extents with
  | [] => 0
  | cur :: _ => cur.prependable

lemma prependNew_eq (hn : n < SizeT.objectLimit) (hbuf : n ≤ buf.length) :
    prependNew buf extents n = .ok (of [] (buf.take n) [] :: extents, 0) := by
  simp [prependNew, new_of_lt hn, append_new hn hbuf]

/-- A round that starts a new extent. -/
lemma prependRound_new (h : b.headroom = 0) (hn : n < SizeT.objectLimit) (hbuf : n ≤ buf.length) :
    prependRound buf (b.extents, n) = .ok (of [] (buf.take n) [] :: b.extents, 0) := by
  unfold headroom at h
  cases hext : b.extents with
  | nil => exact prependNew_eq hn hbuf
  | cons cur rest =>
    simp only [hext] at h
    rw [prependRound, if_pos h, prependNew_eq hn hbuf]

/-- Without consumed space at the front, all of `buf` goes to one new extent. -/
lemma prepend_of_headroom_eq_zero (h : b.headroom = 0) (hn : buf.length < SizeT.objectLimit) :
    b.prepend buf = .ok ⟨of [] buf [] :: b.extents, SizeT.add b.size buf.length⟩ := by
  have hround := prependRound_new h hn (Nat.le_refl buf.length)
  rw [List.take_length] at hround
  rw [prepend, Loop.doWhile_of_not_guard (Nat.succ_pos _) hround (by simp)]
  rfl

/-- The first `n` bytes of `buf` over the start of the consumed bytes. -/
def overwritten (buf stale : List β) : List β := buf ++ stale.drop buf.length

lemma prependRound_reuse (buf bs : List β) (hole : List (Cell β))
    (rest : List (InternalExtent β)) (hs : stale ≠ []) :
    prependRound buf (of stale bs hole :: rest, buf.length) =
      let front := overwritten (buf.take stale.length) stale
      .ok (of (front.take (stale.length - buf.length))
        (front.drop (stale.length - buf.length) ++ bs) hole :: rest,
        buf.length - stale.length) := by
  have hmin : (buf.take stale.length).length = min stale.length buf.length := List.length_take
  have hsub : stale.length - min stale.length buf.length = stale.length - buf.length := by omega
  have htake : buf.take (min stale.length buf.length) = buf.take stale.length := by
    rw [← List.take_take, List.take_length]
  rw [prependRound, if_neg (by simpa using hs), prepend_of hs (Nat.le_refl _)]
  simp only [ok_bind, pure_eq_ok, overwritten, hmin, hsub, htake]
  rw [SizeT.sub_of_le (Nat.min_le_right _ _)]
  congr 2
  omega

/-- Consumed space that suffices is reused for all of `buf`. -/
lemma prepend_of_le (h : b.extents = of stale bs hole :: rest) (hs : stale ≠ [])
    (hle : buf.length ≤ stale.length) :
    b.prepend buf = .ok ⟨of ((overwritten buf stale).take (stale.length - buf.length))
      ((overwritten buf stale).drop (stale.length - buf.length) ++ bs) hole :: rest,
      SizeT.add b.size buf.length⟩ := by
  have hround := prependRound_reuse buf bs hole rest hs
  simp only [List.take_of_length_le hle, Nat.sub_eq_zero_of_le hle] at hround
  rw [prepend, h, Loop.doWhile_of_not_guard (Nat.succ_pos _) hround (by simp)]
  rfl

/-- If the consumed space does not suffice, a new extent gets the start of `buf` once more. -/
lemma prepend_of_lt (h : b.extents = of stale bs hole :: rest) (hs : stale ≠ [])
    (hlt : stale.length < buf.length) (hn : buf.length < SizeT.objectLimit) :
    b.prepend buf = .ok ⟨of [] (buf.take (buf.length - stale.length)) [] ::
      of [] (buf.take stale.length ++ bs) hole :: rest, SizeT.add b.size buf.length⟩ := by
  have hle : stale.length ≤ buf.length := Nat.le_of_lt hlt
  have hlen : (buf.take stale.length).length = stale.length := List.length_take_of_le hle
  have hround := prependRound_reuse buf bs hole rest hs
  simp only [overwritten, hlen, List.drop_length, List.append_nil, Nat.sub_eq_zero_of_le hle,
    List.take_zero, List.drop_zero] at hround
  have hnew : prependRound buf (of [] (buf.take stale.length ++ bs) hole :: rest,
      buf.length - stale.length) = _ :=
    prependRound_new (b := ⟨_, 0⟩) rfl (Nat.lt_of_le_of_lt (Nat.sub_le _ _) hn) (Nat.sub_le _ _)
  rw [prepend, h, Loop.doWhile_of_guard hround (decide_eq_true (by omega)),
    Loop.doWhile_of_not_guard (by omega) hnew (by simp)]
  rfl

/-- The bytes prepended fill the consumed space at the front exactly, or there is none. -/
def PrependFits (b : BufferImpl β) (buf : List β) : Prop :=
  buf = [] ∨ b.headroom = 0 ∨ buf.length = b.headroom

/-- The consumed cells at the front of the first extent. -/
def consumedCells (b : BufferImpl β) : List (Cell β) :=
  match b.extents with
  | [] => []
  | cur :: _ => cur.data.take cur.readOffset

/-- What `prepend` of `buf` puts in front when the consumed bytes there are `stale`. -/
def prefixed (buf stale : List β) : List β :=
  if buf.length ≤ stale.length then
    (overwritten buf stale).drop (stale.length - buf.length)
  else buf.take (buf.length - stale.length) ++ buf.take stale.length

@[simp] lemma consumedCells_of (s : Nat) :
    (⟨of stale bs hole :: rest, s⟩ : BufferImpl β).consumedCells = stale.map some := by
  simp [consumedCells, of]

lemma WellFormed.consumedCells_eq (h : b.WellFormed) :
    ∃ stale : List β, b.consumedCells = stale.map some ∧ b.headroom = stale.length := by
  obtain ⟨extents, size⟩ := b
  cases extents with
  | nil => exact ⟨[], rfl, rfl⟩
  | cons cur rest =>
    obtain ⟨stale, bs, hole, -, rfl⟩ := h cur List.mem_cons_self
    exact ⟨stale, consumedCells_of size, rfl⟩

lemma prefixed_nil : prefixed buf [] = buf := by
  unfold prefixed
  split_ifs with h
  · obtain rfl := List.length_eq_zero_iff.mp (Nat.le_zero.mp h)
    rfl
  · simp

/-- What fits is put in front as it is. -/
lemma PrependFits.prefixed_eq (h : b.PrependFits buf) (hs : b.headroom = stale.length) :
    prefixed buf stale = buf := by
  rcases h with rfl | hzero | heq
  · simp [prefixed, overwritten]
  · obtain rfl := List.length_eq_zero_iff.mp (hs.symm.trans hzero)
    exact prefixed_nil
  · rw [hs] at heq
    simp [prefixed, overwritten, heq]

lemma WellFormed.tail (h : b.WellFormed) (hext : b.extents = cur :: rest) :
    ∀ e ∈ rest, e.WellFormed := fun e he => h e (hext ▸ List.mem_cons_of_mem _ he)

/-- `prepend` adds as many bytes as it is given: `prefixed` says which. Tight buffers stay
tight. -/
theorem prepend_spec (h : b.WellFormed) (hs : b.consumedCells = stale.map some)
    (hn : buf.length < SizeT.objectLimit) :
    ∃ b', b.prepend buf = .ok b' ∧ b'.WellFormed ∧ (b.Tight → b'.Tight) ∧
      b'.size = SizeT.add b.size buf.length ∧
      b'.contents.length = b.contents.length + buf.length ∧
      b'.bytes = prefixed buf stale ++ b.bytes := by
  obtain ⟨stale', hs', hroom⟩ := h.consumedCells_eq
  obtain rfl : stale = stale' :=
    List.map_injective_iff.mpr (Option.some_injective β) (hs.symm.trans hs')
  by_cases hzero : stale = []
  · subst hzero
    refine ⟨_, prepend_of_headroom_eq_zero hroom hn, ?_, ?_, rfl, ?_, ?_⟩
    · exact List.forall_mem_cons.mpr ⟨full_of.wellFormed, h⟩
    · exact fun ht => List.forall_mem_cons.mpr ⟨full_of, ht⟩
    · simp [BufferImpl.contents_eq, Nat.add_comm]
    · rw [prefixed_nil]
      simp [bytes_eq]
  · obtain ⟨cur, rest, hext⟩ : ∃ cur rest, b.extents = cur :: rest := by
      cases hext : b.extents with
      | nil => exact absurd (by simpa [consumedCells, hext] using hs.symm) hzero
      | cons cur rest => exact ⟨cur, rest, rfl⟩
    obtain ⟨stale', bs, hole, hlimit, rfl⟩ := h cur (hext ▸ List.mem_cons_self)
    obtain rfl : stale = stale' := by
      apply List.map_injective_iff.mpr (Option.some_injective β)
      rw [← hs, consumedCells, hext]
      simp [of]
    have htight : b.Tight → hole = [] ∧ ∀ e ∈ rest, e.Full := by
      intro ht
      unfold Tight at ht
      rw [hext, List.forall_mem_cons] at ht
      exact ⟨List.length_eq_zero_iff.mp (by simpa using ht.1.appendable_eq), ht.2⟩
    by_cases hle : buf.length ≤ stale.length
    · have hfront : (overwritten buf stale).length = stale.length := by
        rw [overwritten, List.length_append, List.length_drop]
        omega
      refine ⟨_, prepend_of_le hext hzero hle, ?_, ?_, rfl, ?_, ?_⟩
      · exact List.forall_mem_cons.mpr ⟨⟨_, _, _, hlimit, rfl⟩, h.tail hext⟩
      · intro ht
        obtain ⟨rfl, hrest⟩ := htight ht
        exact List.forall_mem_cons.mpr ⟨full_of, hrest⟩
      · simp [BufferImpl.contents_eq, hext, hfront]
        omega
      · simp only [prefixed, if_pos hle, bytes_eq, hext, writtenBytes_cons, bytes_of,
          List.append_assoc]
    · have hlt : stale.length < buf.length := Nat.lt_of_not_le hle
      refine ⟨_, prepend_of_lt hext hzero hlt hn, ?_, ?_, rfl, ?_, ?_⟩
      · exact List.forall_mem_cons.mpr
          ⟨full_of.wellFormed, List.forall_mem_cons.mpr ⟨⟨_, _, _, hlimit, rfl⟩, h.tail hext⟩⟩
      · intro ht
        obtain ⟨rfl, hrest⟩ := htight ht
        exact List.forall_mem_cons.mpr ⟨full_of, List.forall_mem_cons.mpr ⟨full_of, hrest⟩⟩
      · simp [BufferImpl.contents_eq, hext]
        omega
      · simp only [prefixed, if_neg hle, bytes_eq, hext, writtenBytes_cons, bytes_of,
          List.append_assoc]

/-! ### `reserve` -/

/-- The new extent holds what the spare space of the last one, subtracted as a `size_t`, leaves
to reserve. -/
theorem reserve_spec (h : b.WellFormed) (hn : SizeT.sub n b.spare < SizeT.objectLimit) :
    ∃ b', b.reserve n = .ok b' ∧ b'.WellFormed ∧ b'.bytes = b.bytes ∧ b'.size = b.size := by
  unfold reserve
  by_cases hr : SizeT.sub n b.spare > 0
  · rw [if_pos hr, new_of_lt hn]
    refine ⟨_, rfl, ?_, by simp [bytes_eq], rfl⟩
    intro e he
    rcases List.mem_append.mp he with he | he
    · exact h e he
    · rw [List.mem_singleton.mp he]
      exact ⟨[], [], _, by rwa [List.length_replicate], rfl⟩
  · exact ⟨b, if_neg hr, h, rfl, rfl⟩

/-- Both forms of `reserve` leave the same buffer. -/
lemma reserveExtents_fst :
    (b.reserveExtents n).map Prod.fst = b.reserve n := by
  unfold reserveExtents reserve
  by_cases hr : SizeT.sub n b.spare > 0
  · rw [if_pos hr, if_pos hr]
    cases (new (SizeT.sub n b.spare) : Except Fault (InternalExtent β)) <;> rfl
  · rw [if_neg hr, if_neg hr]
    rfl

/-! ### Bytes in front of the first reserved space -/

/-- How many bytes can be read from the front before reserved space is reached. -/
def leadOf : List (InternalExtent β) → Nat
  | [] => 0
  | cur :: rest => cur.bytes.length + if cur.appendable = 0 then leadOf rest else 0

/-- How many bytes can be read from the front of the buffer before reserved space is reached. -/
def lead (b : BufferImpl β) : Nat := leadOf b.extents

/-- Reading `n` bytes touches no reserved space. -/
def Clear (b : BufferImpl β) (n : Nat) : Prop := n ≤ b.lead ∨ ∀ e ∈ b.extents, e.appendable = 0

lemma full_of_appendable (h : cur.WellFormed) (ha : cur.appendable = 0) : cur.Full := by
  obtain ⟨stale, bs, hole, -, rfl⟩ := h
  obtain rfl : hole = [] := List.length_eq_zero_iff.mp (by simpa using ha)
  exact full_of

lemma WellFormed.clear_iff (h : b.WellFormed) : b.Clear n ↔ n ≤ b.lead ∨ b.Tight :=
  or_congr_right ⟨fun ha e he => full_of_appendable (h e he) (ha e he),
    fun ht e he => (ht e he).appendable_eq⟩

lemma unreadCells_take_of_le_leadOf (h : ∀ e ∈ extents, e.WellFormed) (hn : n ≤ leadOf extents) :
    (unreadCells extents).take n = ((writtenBytes extents).take n).map some := by
  induction extents generalizing n with
  | nil => simp
  | cons cur rest ih =>
    rw [List.forall_mem_cons] at h
    unfold leadOf at hn
    rw [unreadCells_cons, writtenBytes_cons]
    obtain ⟨stale, bs, hole, -, rfl⟩ := h.1
    by_cases ha : hole = []
    · subst ha
      simp only [appendable_of, List.length_nil, if_true, bytes_of] at hn
      simp only [unread_of, List.append_nil, bytes_of, List.take_append, List.length_map,
        List.map_append, List.map_take]
      rw [ih h.2 (by omega), List.map_take]
    · simp only [appendable_of, List.length_eq_zero_iff, ha, if_false, bytes_of] at hn
      have hn' : n ≤ (bs.map (some : β → Cell β)).length := by simpa using hn
      rw [unread_of, bytes_of, List.append_assoc, List.take_append_of_le_length hn',
        List.take_append_of_le_length (by omega), List.map_take]

/-- What is read without touching reserved space are the first bytes. -/
theorem WellFormed.contents_take (h : b.WellFormed) (hc : b.Clear n) :
    b.contents.take n = (b.bytes.take n).map some := by
  rcases h.clear_iff.mp hc with hn | ht
  · exact unreadCells_take_of_le_leadOf h hn
  · rw [ht.contents_eq, List.map_take]

end BufferImpl

end WhatTheEvent
