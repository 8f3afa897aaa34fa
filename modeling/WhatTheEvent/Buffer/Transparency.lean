import WhatTheEvent.Buffer.CopyLaw

/-!
# Histories with and without `reserve`

The run of a program is compared with the run of the same program without its `reserve` calls.
As long as every call is `Transparent` the buffers of the two runs hold the same bytes, and the
results show the same.
-/

namespace WhatTheEvent

variable {β : Type}

open InternalExtent

/-- No cell that was never written is shown. -/
def Observation.Initialised : Observation β → Prop
  | .cells shown => none ∉ shown
  | _ => True

namespace BufferImpl

variable {b b' o o' : BufferImpl β} {c : Call β} {n : Nat}
  {front back extents extents' : List (InternalExtent β)}

/-- The buffer `b` of a history with `reserve` calls holds what the buffer `b'` of the history
without them holds, and the sizes say so. -/
structure Beside (b b' : BufferImpl β) : Prop where
  wellFormed : b.WellFormed
  counted : b'.Counted
  bytes : b.bytes = b'.bytes
  size : b.size = b'.size

lemma Counted.beside (h : b.Counted) : b.Beside b := ⟨h.tight.wellFormed, h, rfl, rfl⟩

lemma Counted.size_eq (h : b.Counted) : b.size = b.bytes.length :=
  h.size.trans h.tight.length_contents

/-- The first `n` cells are divided alike in both buffers, and lie in extents without reserved
space. -/
def AlikeUpTo (b b' : BufferImpl β) (n : Nat) : Prop :=
  ∃ k ≤ b.extents.length, (b.extents.take k).map unread = (b'.extents.take k).map unread ∧
    (∀ e ∈ b.extents.take k, e.appendable = 0) ∧ n ≤ (unreadCells (b.extents.take k)).length

/-- The call runs into no reserved space, and finds nothing else that an earlier `reserve` moved:
what it reads is divided into extents well enough or alike, and so is the consumed space that it
prepends to. -/
def Transparent (b b' : BufferImpl β) : Call β → Prop
  | .append buf => b.AppendFits buf
  | .prepend buf => (b.PrependFits buf ∧ b'.PrependFits buf) ∨ b.consumedCells = b'.consumedCells
  | .read size => b.Clear size ∧ ((b.Aligned size ∧ b'.Aligned size) ∨ b.AlikeUpTo b' size)
  | .peek size => b.Clear size ∧ ((b.Aligned size ∧ b'.Aligned size) ∨ b.AlikeUpTo b' size)
  | .peekExtents size => b.Clear size
  | .drain count => b.Clear count
  | _ => True

instance [DecidableEq β] : Decidable (b.AlikeUpTo b' n) :=
  inferInstanceAs (Decidable (∃ k ≤ _, _))

instance [DecidableEq β] : Decidable (b.Transparent b' c) :=
  match c with
  | .append _ => inferInstanceAs (Decidable (_ ∨ _))
  | .prepend _ => inferInstanceAs (Decidable ((_ ∨ _ ∨ _) ∧ (_ ∨ _ ∨ _) ∨ _))
  | .read _ => inferInstanceAs (Decidable ((_ ∨ _) ∧ (_ ∧ _ ∨ _)))
  | .peek _ => inferInstanceAs (Decidable ((_ ∨ _) ∧ (_ ∧ _ ∨ _)))
  | .peekExtents _ => inferInstanceAs (Decidable (_ ∨ _))
  | .drain _ => inferInstanceAs (Decidable (_ ∨ _))
  | .size | .empty | .reserve _ | .reserveExtents _ => inferInstanceAs (Decidable True)

/-! ### Reading from extents that are alike -/

/-- The loop does not reach beyond the first extents that hold enough. -/
lemma readLoop_append {consume : Bool} (total s : Nat) (hf : ∀ e ∈ front, e.Sound)
    (hn : n ≤ total + (unreadCells front).length) :
    readLoop n consume (front ++ back) total s =
      let r := readLoop n consume front total s
      ⟨r.extents ++ back, r.out, r.size⟩ := by
  induction front generalizing total s with
  | nil =>
    rw [List.nil_append]
    have hle : ¬ total < n := Nat.not_lt.mpr hn
    cases back with
    | nil => rfl
    | cons cur rest => exact if_neg hle
  | cons cur rest ih =>
    rw [List.forall_mem_cons] at hf
    rw [unreadCells_cons, List.length_append] at hn
    rw [List.cons_append]
    unfold readLoop
    by_cases ht : total < n
    · have hout : (cur.copyout n).length = min n cur.unread.length := by
        rw [hf.1.copyout_eq, List.length_take]
      simp only [if_pos ht]
      cases consume with
      | false =>
        simp only [Bool.not_false, if_true]
        rw [ih _ _ hf.2 (by omega)]
        rfl
      | true =>
        simp only [Bool.not_true, Bool.false_eq_true, if_false]
        by_cases hr : (cur.consume (cur.copyout n).length).2 = 0
        · rw [if_pos hr, if_pos hr, ih _ _ hf.2]
          rw [hf.1.consume_snd (by omega)] at hr
          omega
        · rw [if_neg hr, if_neg hr]
          rfl
    · rw [if_neg ht, if_neg ht]
      rfl

lemma read_append {s : Nat} (hf : ∀ e ∈ front, e.Sound) (hn : n ≤ (unreadCells front).length) :
    (⟨front ++ back, s⟩ : BufferImpl β).read n =
      (⟨((⟨front, s⟩ : BufferImpl β).read n).1.extents ++ back,
        ((⟨front, s⟩ : BufferImpl β).read n).1.size⟩, ((⟨front, s⟩ : BufferImpl β).read n).2) := by
  rw [read, readLoop_append 0 s hf (by omega)]
  rfl

/-- Where each extent offers the same, the loop stores the same. -/
lemma copiedCells_congr (h : extents.map unread = extents'.map unread) (total : Nat) :
    copiedCells n extents total = copiedCells n extents' total := by
  induction extents generalizing extents' total with
  | nil => rw [List.map_eq_nil_iff.mp h.symm]
  | cons cur rest ih =>
    cases extents' with
    | nil => cases h
    | cons cur' rest' =>
      obtain ⟨hcur, hrest⟩ := List.cons.inj h
      unfold copiedCells
      rw [hcur, ih hrest]

lemma unreadCells_congr (h : extents.map unread = extents'.map unread) :
    unreadCells extents = unreadCells extents' := by
  unfold unreadCells
  rw [List.flatMap_def, List.flatMap_def, h]

lemma writtenBytes_congr (hf : ∀ e ∈ extents, e.Full) (hf' : ∀ e ∈ extents', e.Full)
    (h : unreadCells extents = unreadCells extents') :
    writtenBytes extents = writtenBytes extents' :=
  writtenBytes_eq_of_unreadCells hf (h.trans (unreadCells_of_full hf'))

/-- Of full extents that offer the same, `read` takes the same and leaves the same. -/
lemma read_congr {s : Nat} (hf : ∀ e ∈ extents, e.Full) (hf' : ∀ e ∈ extents', e.Full)
    (h : extents.map unread = extents'.map unread) (hs : (writtenBytes extents').length ≤ s) :
    ((⟨extents, s⟩ : BufferImpl β).read n).2 = ((⟨extents', s⟩ : BufferImpl β).read n).2 ∧
      ((⟨extents, s⟩ : BufferImpl β).read n).1.bytes =
        ((⟨extents', s⟩ : BufferImpl β).read n).1.bytes ∧
      ((⟨extents, s⟩ : BufferImpl β).read n).1.size =
        ((⟨extents', s⟩ : BufferImpl β).read n).1.size := by
  have ht : (⟨extents, s⟩ : BufferImpl β).Tight := hf
  have ht' : (⟨extents', s⟩ : BufferImpl β).Tight := hf'
  obtain ⟨hout, hrest⟩ := read_spec (n := n) ht.sound
  obtain ⟨hout', hrest'⟩ := read_spec (n := n) ht'.sound
  have hsame : ((⟨extents, s⟩ : BufferImpl β).read n).2 =
      ((⟨extents', s⟩ : BufferImpl β).read n).2 := by
    rw [hout, hout']
    exact copiedCells_congr h 0
  have hle : ((⟨extents', s⟩ : BufferImpl β).read n).2.length ≤ s := by
    have hfirst : copiedCells n extents' 0 <+: unreadCells extents' := copiedCells_first 0
    rw [hout']
    refine Nat.le_trans hfirst.length_le ?_
    rwa [unreadCells_of_full hf', List.length_map]
  refine ⟨hsame, writtenBytes_congr ht.read ht'.read ?_, ?_⟩
  · rw [contents_eq, contents_eq] at hrest hrest'
    rw [hrest, hrest', hsame]
    exact congrArg (List.drop _) (unreadCells_congr h)
  · have hsize : ((⟨extents, s⟩ : BufferImpl β).read n).1.size = _ :=
      readLoop_size (Nat.le_trans (Nat.le_of_eq (congrArg List.length hsame)) hle)
    exact hsize.trans ((congrArg (s - ·) (congrArg List.length hsame)).trans
      (readLoop_size hle).symm)

/-- The first extents apart from the others. -/
lemma AlikeUpTo.split (h : b.AlikeUpTo b' n) : ∃ front back front' back',
    b.extents = front ++ back ∧ b'.extents = front' ++ back' ∧
      front.map unread = front'.map unread ∧ (∀ e ∈ front, e.appendable = 0) ∧
      n ≤ (unreadCells front).length := by
  obtain ⟨k, -, halike, hspace, hn⟩ := h
  exact ⟨b.extents.take k, b.extents.drop k, b'.extents.take k, b'.extents.drop k,
    (List.take_append_drop k _).symm, (List.take_append_drop k _).symm, halike, hspace, hn⟩

/-- Of extents that are alike as far as it reaches, `read` takes the same and leaves the same. -/
lemma read_alike (h : b.Beside b') (ha : b.AlikeUpTo b' n) :
    (b.read n).2 = (b'.read n).2 ∧ (b.read n).1.WellFormed ∧
      (b.read n).1.bytes = (b'.read n).1.bytes ∧ (b.read n).1.size = (b'.read n).1.size := by
  have hcounted := h.counted.size_eq
  obtain ⟨extents, size⟩ := b
  obtain ⟨extents', size'⟩ := b'
  obtain ⟨hwf, ⟨ht, -⟩, hbytes, rfl : size = size'⟩ := h
  obtain ⟨front, back, front', back', rfl : extents = _, rfl : extents' = _, halike, hspace, hn⟩ :=
    ha.split
  have hfull : ∀ e ∈ front, e.Full := fun e he =>
    full_of_appendable (hwf e (List.mem_append_left _ he)) (hspace e he)
  have hfull' : ∀ e ∈ front', e.Full := fun e he => ht e (List.mem_append_left _ he)
  have hcells := unreadCells_congr halike
  rw [bytes_eq, bytes_eq, writtenBytes_append, writtenBytes_append,
    writtenBytes_congr hfull hfull' hcells] at hbytes
  have hback := List.append_cancel_left hbytes
  have hsize : (writtenBytes front').length ≤ size := by
    rw [show size = _ from hcounted, bytes_eq, writtenBytes_append, List.length_append]
    exact Nat.le_add_right _ _
  obtain ⟨hout, hleft, hsizes⟩ := read_congr (n := n) hfull hfull' halike hsize
  have hkept : ∀ e ∈ ((⟨front, size⟩ : BufferImpl β).read n).1.extents, e.Full :=
    forall_readLoop (fun _ _ he hn => he.consume hn) hfull
  rw [read_append (fun e he => (hfull e he).wellFormed.sound) hn,
    read_append (fun e he => (hfull' e he).wellFormed.sound) (hcells ▸ hn)]
  refine ⟨hout, ?_, ?_, hsizes⟩
  · intro e he
    rcases List.mem_append.mp he with he | he
    · exact (hkept e he).wellFormed
    · exact hwf e (List.mem_append_right _ he)
  · rw [bytes_eq, bytes_eq, writtenBytes_append, writtenBytes_append, hback]
    exact congrArg (· ++ writtenBytes back') hleft

/-- What `peek` copies is what `read` copies. -/
lemma peek_snd (h : b.Sound) : b.peek n = (b, (b.read n).2) := by
  rw [peek_eq h, (read_spec h).1]

/-- A read that is divided well enough in both buffers, or alike. -/
lemma Beside.read (h : b.Beside b') (hc : b.Clear n)
    (ha : (b.Aligned n ∧ b'.Aligned n) ∨ b.AlikeUpTo b' n) :
    (b.read n).2 = (b'.read n).2 ∧ (b.read n).1.WellFormed ∧
      (b.read n).1.bytes = (b'.read n).1.bytes ∧ (b.read n).1.size = (b'.read n).1.size := by
  rcases ha with ⟨ha, ha'⟩ | ha
  · have ht := h.counted.tight
    have hc' : b'.Clear n := ht.wellFormed.clear_iff.mpr (Or.inr ht)
    obtain ⟨hout, hwf, hbytes, hsz⟩ := read_bytes_spec h.wellFormed hc ha
    obtain ⟨hout', -, hbytes', hsz'⟩ := read_bytes_spec ht.wellFormed hc' ha'
    have hle : min n b'.bytes.length ≤ b'.size := by
      rw [h.counted.size_eq]
      exact Nat.min_le_right _ _
    rw [h.bytes] at hout hbytes hsz
    rw [h.size] at hsz
    exact ⟨hout.trans hout'.symm, hwf, hbytes.trans hbytes'.symm, (hsz hle).trans (hsz' hle).symm⟩
  · exact read_alike h ha

/-! ### One call in both histories -/

lemma reserve_lt (h : b.reserve n = .ok b') : SizeT.sub n b.spare < SizeT.objectLimit := by
  by_contra hge
  have hpos : SizeT.sub n b.spare > 0 := by
    apply Nat.pos_of_ne_zero
    intro hzero
    rw [hzero] at hge
    exact hge (by decide)
  rw [reserve, if_pos hpos, new_of_le (Nat.le_of_not_lt hge)] at h
  cases h

/-- Nothing of a reservation that succeeds can be seen. -/
lemma Beside.reserve {results : List (Result β)} (h : b.Beside b') (hres : c.reserves = true)
    (hok : b.call c = .ok (o, results)) :
    o.Beside b' ∧ results.filterMap Result.observe = [] := by
  have hreserve : ∀ n, b.reserve n = .ok o → o.Beside b' := by
    intro n hn
    obtain ⟨b₁, hb₁, hwf, hbytes, hsz⟩ := reserve_spec h.wellFormed (reserve_lt hn)
    obtain rfl := Except.ok.inj (hn.symm.trans hb₁)
    exact ⟨hwf, h.counted, hbytes.trans h.bytes, hsz.trans h.size⟩
  cases c with
  | reserve n =>
    obtain ⟨b₁, hb₁, hpair⟩ := map_eq_ok.mp hok
    obtain ⟨rfl, rfl⟩ := Prod.mk.inj hpair
    exact ⟨hreserve n hb₁, rfl⟩
  | reserveExtents n =>
    obtain ⟨⟨b₁, extents⟩, hb₁, hpair⟩ := map_eq_ok.mp hok
    obtain ⟨rfl, rfl⟩ := Prod.mk.inj hpair
    refine ⟨hreserve n ?_, rfl⟩
    rw [← reserveExtents_fst, hb₁]
    rfl
  | _ => cases hres

/-- A transparent call has the same effect and shows the same in both histories. -/
lemma Beside.call_spec {results : List (Result β)} (h : b.Beside b') (htr : b.Transparent b' c)
    (hres : c.reserves = false) (hpayload : c.payload.length < SizeT.objectLimit)
    (hok : b.call c = .ok (o, results)) :
    ∃ o' results', b'.call c = .ok (o', results') ∧ o.WellFormed ∧ o'.Tight ∧
      o.bytes = o'.bytes ∧ o.size = o'.size ∧
      results.filterMap Result.observe = results'.filterMap Result.observe := by
  have ht := h.counted.tight
  have hclear : ∀ n, b'.Clear n := fun n => ht.wellFormed.clear_iff.mpr (Or.inr ht)
  cases c with
  | append buf =>
    change buf.length < SizeT.objectLimit at hpayload
    obtain ⟨b₁, hb₁, hwf, -, hbytes, hsz⟩ := append_spec h.wellFormed htr hpayload
    obtain ⟨b₁', hb₁', -, ht', hbytes', hsz'⟩ :=
      append_spec ht.wellFormed (Or.inl ht.spare_eq) hpayload
    rw [BufferImpl.call, hb₁] at hok
    obtain ⟨rfl, rfl⟩ := Prod.mk.inj (Except.ok.inj hok)
    refine ⟨b₁', [], by rw [BufferImpl.call, hb₁', map_ok], hwf, ht' ht, ?_, ?_, rfl⟩
    · rw [hbytes, hbytes', h.bytes]
    · rw [hsz, hsz', h.size]
  | prepend buf =>
    change buf.length < SizeT.objectLimit at hpayload
    obtain ⟨stale, hstale, hroom⟩ := h.wellFormed.consumedCells_eq
    obtain ⟨stale', hstale', hroom'⟩ := ht.wellFormed.consumedCells_eq
    obtain ⟨b₁, hb₁, hwf, -, hsz, -, hbytes⟩ := prepend_spec h.wellFormed hstale hpayload
    obtain ⟨b₁', hb₁', -, ht', hsz', -, hbytes'⟩ := prepend_spec ht.wellFormed hstale' hpayload
    have hsame : prefixed buf stale = prefixed buf stale' := by
      rcases htr with ⟨hf, hf'⟩ | heq
      · rw [hf.prefixed_eq hroom, hf'.prefixed_eq hroom']
      · rw [hstale, hstale'] at heq
        rw [List.map_injective_iff.mpr (Option.some_injective β) heq]
    rw [BufferImpl.call, hb₁] at hok
    obtain ⟨rfl, rfl⟩ := Prod.mk.inj (Except.ok.inj hok)
    refine ⟨b₁', [], by rw [BufferImpl.call, hb₁', map_ok], hwf, ht' ht, ?_, ?_, rfl⟩
    · rw [hbytes, hbytes', h.bytes, hsame]
    · rw [hsz, hsz', h.size]
  | read n =>
    obtain ⟨hout, hwf, hbytes, hsz⟩ := h.read htr.1 htr.2
    obtain ⟨rfl, rfl⟩ := Prod.mk.inj (Except.ok.inj hok)
    refine ⟨_, _, rfl, hwf, ht.read, hbytes, hsz, ?_⟩
    rw [hout]
  | peek n =>
    obtain ⟨hout, -⟩ := h.read htr.1 htr.2
    obtain ⟨rfl, rfl⟩ := Prod.mk.inj (Except.ok.inj hok)
    rw [peek_snd h.wellFormed.sound]
    refine ⟨b', _, by rw [BufferImpl.call, peek_snd ht.sound], h.wellFormed, ht, h.bytes, h.size,
      ?_⟩
    rw [hout]
  | peekExtents n =>
    obtain ⟨rfl, rfl⟩ := Prod.mk.inj (Except.ok.inj hok)
    refine ⟨b', _, rfl, h.wellFormed, ht, h.bytes, h.size, ?_⟩
    simp only [List.filterMap_cons, List.filterMap_nil, Result.observe]
    rw [(peekExtents_bytes_spec h.wellFormed htr).2,
      (peekExtents_bytes_spec ht.wellFormed (hclear n)).2, h.bytes]
  | drain n =>
    obtain ⟨b₁, hb₁, hwf, -, hbytes, hsz⟩ := drain_spec h.wellFormed htr
    obtain ⟨b₁', hb₁', -, ht', hbytes', hsz'⟩ := drain_spec ht.wellFormed (hclear n)
    rw [BufferImpl.call, hb₁] at hok
    obtain ⟨rfl, rfl⟩ := Prod.mk.inj (Except.ok.inj hok)
    refine ⟨b₁', [], by rw [BufferImpl.call, hb₁', map_ok], hwf, ht' ht, ?_, ?_, rfl⟩
    · rw [hbytes, hbytes', h.bytes]
    · rw [hsz, hsz', h.size, h.bytes]
  | size =>
    obtain ⟨rfl, rfl⟩ := Prod.mk.inj (Except.ok.inj hok)
    refine ⟨b', _, rfl, h.wellFormed, ht, h.bytes, h.size, ?_⟩
    rw [h.size]
  | empty =>
    obtain ⟨rfl, rfl⟩ := Prod.mk.inj (Except.ok.inj hok)
    refine ⟨b', _, rfl, h.wellFormed, ht, h.bytes, h.size, ?_⟩
    rw [isEmpty, isEmpty, h.size]
  | reserve n => cases hres
  | reserveExtents n => cases hres

lemma WellFormed.length_bytes_le (h : b.WellFormed) : b.bytes.length ≤ b.contents.length := by
  obtain ⟨extents, size⟩ := b
  rw [bytes_eq, contents_eq]
  induction extents with
  | nil => exact Nat.le_refl 0
  | cons cur rest ih =>
    obtain ⟨⟨stale, bs, hole, -, rfl⟩, hrest⟩ := List.forall_mem_cons.mp h
    have hle := ih hrest
    simp only [writtenBytes_cons, unreadCells_cons, bytes_of, unread_of, List.length_append,
      List.length_map] at hle ⊢
    omega

/-- The contents of a tight buffer are no longer than those of one that holds the same bytes. -/
lemma length_contents_le (hwf : b.WellFormed) (ht : b'.Tight) (hbytes : b.bytes = b'.bytes) :
    b'.contents.length ≤ b.contents.length := by
  rw [ht.length_contents, ← hbytes]
  exact hwf.length_bytes_le

/-- A transparent call keeps the buffers of the two histories beside each other. -/
theorem Beside.call {results : List (Result β)} (h : b.Beside b') (htr : b.Transparent b' c)
    (hres : c.reserves = false) (hpayload : c.payload.length < SizeT.objectLimit)
    (hok : b.call c = .ok (o, results)) (hlimit : o.contents.length < SizeT.objectLimit) :
    ∃ o' results', b'.call c = .ok (o', results') ∧ o.Beside o' ∧
      results.filterMap Result.observe = results'.filterMap Result.observe := by
  obtain ⟨o', results', hok', hwf, ht, hbytes, hsize, hobs⟩ := h.call_spec htr hres hpayload hok
  have hlimit' := Nat.lt_of_le_of_lt (length_contents_le hwf ht hbytes) hlimit
  exact ⟨o', results', hok', ⟨hwf, h.counted.call hok' hres hpayload hlimit', hbytes, hsize⟩, hobs⟩

/-! ### Splices in both histories -/

/-- A buffer without extents holds nothing. -/
lemma Beside.of_isEmpty (h : o.Beside o') (he : o.extents.isEmpty = true) :
    o.bytes = [] ∧ o.size = 0 := by
  have hnil : o.bytes = [] := by
    rw [bytes_eq, List.isEmpty_iff.mp he, writtenBytes_nil]
  refine ⟨hnil, ?_⟩
  rw [h.size, h.counted.size_eq, ← h.bytes, hnil]
  rfl

lemma Beside.appendBuffer_spec (h : b.Beside b') (ho : o.Beside o')
    (hlimit : b.size < SizeT.objectLimit) :
    (b.appendBuffer o).1.WellFormed ∧ (b.appendBuffer o).2.WellFormed ∧
      (b.appendBuffer o).1.bytes = b.bytes ++ o.bytes ∧
      (b.appendBuffer o).1.size = SizeT.add b.size o.size ∧
      (b.appendBuffer o).2.bytes = [] ∧ (b.appendBuffer o).2.size = 0 := by
  change b.size < 2 ^ 63 at hlimit
  unfold appendBuffer
  by_cases he : o.extents.isEmpty = true
  · obtain ⟨hnil, hzero⟩ := ho.of_isEmpty he
    rw [if_pos he, hzero, SizeT.add_of_lt (by omega), hnil, List.append_nil]
    exact ⟨h.wellFormed, ho.wellFormed, rfl, rfl, rfl, rfl⟩
  · rw [if_neg he]
    exact ⟨List.forall_mem_append.mpr ⟨h.wellFormed, ho.wellFormed⟩, tight_empty.wellFormed,
      writtenBytes_append, rfl, rfl, rfl⟩

lemma Beside.prependBuffer_spec (h : b.Beside b') (ho : o.Beside o')
    (hlimit : b.size < SizeT.objectLimit) :
    (b.prependBuffer o).1.WellFormed ∧ (b.prependBuffer o).2.WellFormed ∧
      (b.prependBuffer o).1.bytes = o.bytes ++ b.bytes ∧
      (b.prependBuffer o).1.size = SizeT.add b.size o.size ∧
      (b.prependBuffer o).2.bytes = [] ∧ (b.prependBuffer o).2.size = 0 := by
  change b.size < 2 ^ 63 at hlimit
  unfold prependBuffer
  by_cases he : o.extents.isEmpty = true
  · obtain ⟨hnil, hzero⟩ := ho.of_isEmpty he
    rw [if_pos he, hzero, SizeT.add_of_lt (by omega), hnil, List.nil_append]
    exact ⟨h.wellFormed, ho.wellFormed, rfl, rfl, rfl, rfl⟩
  · rw [if_neg he]
    exact ⟨List.forall_mem_append.mpr ⟨ho.wellFormed, h.wellFormed⟩, tight_empty.wellFormed,
      writtenBytes_append, rfl, rfl, rfl⟩

/-- The size of a buffer, which is that of its bytes, is bounded by what it contains. -/
lemma Beside.size_le (h : b.Beside b') : b.size ≤ b.contents.length := by
  rw [h.size, h.counted.size]
  exact length_contents_le h.wellFormed h.counted.tight h.bytes

/-- Where two buffers fit together, their partners do. -/
lemma Beside.fits (h : b.Beside b') (ho : o.Beside o')
    (hlimit : b.contents.length + o.contents.length < SizeT.objectLimit) :
    b.size < SizeT.objectLimit ∧
      b'.contents.length + o'.contents.length < SizeT.objectLimit := by
  have hle := length_contents_le h.wellFormed h.counted.tight h.bytes
  have hle' := length_contents_le ho.wellFormed ho.counted.tight ho.bytes
  refine ⟨Nat.lt_of_le_of_lt (Nat.le_trans h.size_le (Nat.le_add_right _ _)) hlimit, ?_⟩
  exact Nat.lt_of_le_of_lt (Nat.add_le_add hle hle') hlimit

theorem Beside.appendBuffer (h : b.Beside b') (ho : o.Beside o')
    (hlimit : (b.appendBuffer o).1.contents.length < SizeT.objectLimit) :
    (b.appendBuffer o).1.Beside (b'.appendBuffer o').1 ∧
      (b.appendBuffer o).2.Beside (b'.appendBuffer o').2 := by
  rw [contents_appendBuffer, List.length_append] at hlimit
  obtain ⟨hb, hlimit'⟩ := h.fits ho hlimit
  rw [← List.length_append, ← contents_appendBuffer] at hlimit'
  obtain ⟨hwf, hwfo, hbytes, hsize, hnil, hzero⟩ := h.appendBuffer_spec ho hb
  obtain ⟨-, -, hbytes', hsize', hnil', hzero'⟩ :=
    h.counted.beside.appendBuffer_spec ho.counted.beside (h.size ▸ hb)
  obtain ⟨hc, hco⟩ := h.counted.appendBuffer ho.counted hlimit'
  refine ⟨⟨hwf, hc, ?_, ?_⟩, ⟨hwfo, hco, hnil.trans hnil'.symm, hzero.trans hzero'.symm⟩⟩
  · rw [hbytes, hbytes', h.bytes, ho.bytes]
  · rw [hsize, hsize', h.size, ho.size]

theorem Beside.prependBuffer (h : b.Beside b') (ho : o.Beside o')
    (hlimit : (b.prependBuffer o).1.contents.length < SizeT.objectLimit) :
    (b.prependBuffer o).1.Beside (b'.prependBuffer o').1 ∧
      (b.prependBuffer o).2.Beside (b'.prependBuffer o').2 := by
  rw [contents_prependBuffer, List.length_append, Nat.add_comm] at hlimit
  obtain ⟨hb, hlimit'⟩ := h.fits ho hlimit
  rw [Nat.add_comm, ← List.length_append, ← contents_prependBuffer] at hlimit'
  obtain ⟨hwf, hwfo, hbytes, hsize, hnil, hzero⟩ := h.prependBuffer_spec ho hb
  obtain ⟨-, -, hbytes', hsize', hnil', hzero'⟩ :=
    h.counted.beside.prependBuffer_spec ho.counted.beside (h.size ▸ hb)
  obtain ⟨hc, hco⟩ := h.counted.prependBuffer ho.counted hlimit'
  refine ⟨⟨hwf, hc, ?_, ?_⟩, ⟨hwfo, hco, hnil.trans hnil'.symm, hzero.trans hzero'.symm⟩⟩
  · rw [hbytes, hbytes', h.bytes, ho.bytes]
  · rw [hsize, hsize', h.size, ho.size]

/-! ### Initialised results -/

lemma mem_of_mem_copiedCells {x : Cell β} {total : Nat} (h : x ∈ copiedCells n extents total) :
    x ∈ unreadCells extents := by
  induction extents generalizing total with
  | nil => exact h
  | cons cur rest ih =>
    unfold copiedCells at h
    rw [unreadCells_cons]
    split_ifs at h
    · rcases List.mem_append.mp h with h | h
      · exact List.mem_append_left _ (List.mem_of_mem_take h)
      · exact List.mem_append_right _ (ih h)
    · exact absurd h List.not_mem_nil

/-- A tight buffer shows no cell that was never written. -/
lemma Tight.initialised {results : List (Result β)} (h : b.Tight)
    (hok : b.call c = .ok (o, results)) :
    ∀ obs ∈ results.filterMap Result.observe, obs.Initialised := by
  have hcells : none ∉ unreadCells b.extents := by
    rw [unreadCells_of_full h]
    simp
  have hcopied : ∀ n, none ∉ copiedCells n b.extents 0 := fun n hn =>
    hcells (mem_of_mem_copiedCells hn)
  have hnone : ∀ {results' : List (Result β)}, ([] : List (Result β)) = results' →
      ∀ obs ∈ results'.filterMap Result.observe, obs.Initialised := by
    rintro _ rfl obs hobs
    exact absurd hobs List.not_mem_nil
  cases c with
  | read n =>
    obtain ⟨rfl, rfl⟩ := Prod.mk.inj (Except.ok.inj hok)
    simp only [List.filterMap_cons, List.filterMap_nil, Result.observe, List.forall_mem_singleton]
    rw [(read_spec h.sound).1]
    exact hcopied n
  | peek n =>
    obtain ⟨rfl, rfl⟩ := Prod.mk.inj (Except.ok.inj hok)
    simp only [List.filterMap_cons, List.filterMap_nil, Result.observe, List.forall_mem_singleton]
    rw [peek_eq h.sound]
    exact hcopied n
  | peekExtents n =>
    obtain ⟨rfl, rfl⟩ := Prod.mk.inj (Except.ok.inj hok)
    simp only [List.filterMap_cons, List.filterMap_nil, Result.observe, List.forall_mem_singleton]
    rw [(peekExtents_spec h.sound).2]
    exact fun hn => hcells (List.mem_of_mem_take hn)
  | size =>
    obtain ⟨rfl, rfl⟩ := Prod.mk.inj (Except.ok.inj hok)
    exact List.forall_mem_singleton.mpr trivial
  | empty =>
    obtain ⟨rfl, rfl⟩ := Prod.mk.inj (Except.ok.inj hok)
    exact List.forall_mem_singleton.mpr trivial
  | append buf =>
    obtain ⟨b₁, -, hpair⟩ := map_eq_ok.mp hok
    exact hnone (Prod.mk.inj hpair).2
  | prepend buf =>
    obtain ⟨b₁, -, hpair⟩ := map_eq_ok.mp hok
    exact hnone (Prod.mk.inj hpair).2
  | drain n =>
    obtain ⟨b₁, -, hpair⟩ := map_eq_ok.mp hok
    exact hnone (Prod.mk.inj hpair).2
  | reserve n =>
    obtain ⟨b₁, -, hpair⟩ := map_eq_ok.mp hok
    exact hnone (Prod.mk.inj hpair).2
  | reserveExtents n =>
    obtain ⟨b₁, -, hpair⟩ := map_eq_ok.mp hok
    obtain ⟨-, rfl⟩ := Prod.mk.inj hpair
    exact fun obs hobs => absurd hobs List.not_mem_nil

end BufferImpl

/-! ### Whole histories -/

namespace Pool

open BufferImpl

variable {p p' q : Pool β} {op : Op β}

/-- Buffers beside each other, or one destroyed in both histories. -/
def SlotBeside : Option (BufferImpl β) → Option (BufferImpl β) → Prop
  | some b, some b' => b.Beside b'
  | none, none => True
  | _, _ => False

/-- The pool of a history with `reserve` calls and that of the history without them. -/
structure Beside (p p' : Pool β) : Prop where
  slots : List.Forall₂ SlotBeside p.buffers p'.buffers
  results : p.results.filterMap Result.observe = p'.results.filterMap Result.observe
  initialised : ∀ obs ∈ p'.results.filterMap Result.observe, obs.Initialised

/-- A step of the two histories: a `reserve` is made only in the first. -/
def stepBoth (q : Pool β × Pool β) (op : Op β) : Except Fault (Pool β × Pool β) := do
  let p ← q.1.step op
  let p' ← if op.reserves then .ok q.2 else q.2.step op
  pure (p, p')

/-- The call of the step is transparent for the buffers that it is made on. -/
def Transparent (q : Pool β × Pool β) : Op β → Prop
  | .call i c =>
    match q.1.get i, q.2.get i with
    | .ok b, .ok b' => b.Transparent b' c
    | _, _ => True
  | _ => True

instance [DecidableEq β] (q : Pool β × Pool β) : Decidable (Transparent q op) :=
  match op with
  | .call i c =>
    match h : q.1.get i, h' : q.2.get i with
    | .ok b, .ok b' => decidable_of_iff (b.Transparent b' c) (by simp only [Transparent, h, h'])
    | .error _, _ => isTrue (by simp only [Transparent, h])
    | .ok _, .error _ => isTrue (by simp only [Transparent, h, h'])
  | .create | .appendBuffer _ _ | .prependBuffer _ _ | .destroy _ => isTrue trivial

lemma Transparent.call {i : Nat} {c : Call β} {b b' : BufferImpl β}
    (h : Transparent (p, p') (.call i c)) (hb : p.get i = .ok b) (hb' : p'.get i = .ok b') :
    b.Transparent b' c := by
  simpa only [Transparent, hb, hb'] using h

lemma beside_empty : (empty : Pool β).Beside empty :=
  ⟨List.Forall₂.nil, rfl, fun _ h => absurd h List.not_mem_nil⟩

lemma Beside.get {i : Nat} {b : BufferImpl β} (h : p.Beside p') (hb : p.get i = .ok b) :
    ∃ b', p'.get i = .ok b' ∧ b.Beside b' := by
  obtain ⟨slot, hslot, hrel⟩ := Pointwise.exists_of_getElem? h.slots (mem_of_get hb)
  cases slot with
  | none => exact absurd hrel id
  | some b' => exact ⟨b', by rw [Pool.get, hslot], hrel⟩

lemma Beside.set {i : Nat} {b b' : BufferImpl β} (h : p.Beside p') (hb : b.Beside b') :
    (p.set i b).Beside (p'.set i b') :=
  ⟨Pointwise.forall₂_set h.slots hb, h.results, h.initialised⟩

lemma Beside.getTwo {i o : Nat} {b other : BufferImpl β} (h : p.Beside p')
    (hb : p.getTwo i o = .ok (b, other)) :
    ∃ b' other', p'.getTwo i o = .ok (b', other') ∧ b.Beside b' ∧ other.Beside other' := by
  obtain ⟨hio, hi, ho⟩ := getTwo_eq_ok hb
  obtain ⟨b', hb', hrel⟩ := h.get hi
  obtain ⟨other', hother', hrel'⟩ := h.get ho
  exact ⟨b', other', by simp [Pool.getTwo, hio, hb', hother'], hrel, hrel'⟩

lemma SlotBeside.load_le {b b' : Option (BufferImpl β)} (h : SlotBeside b b') :
    slotLoad b' ≤ slotLoad b := by
  cases b with
  | none =>
    cases b' with
    | none => exact Nat.le_refl _
    | some b' => exact absurd h id
  | some b =>
    cases b' with
    | none => exact absurd h id
    | some b' => exact BufferImpl.length_contents_le h.wellFormed h.counted.tight h.bytes

/-- The history without `reserve` needs no more memory. -/
lemma Beside.load_le (h : p.Beside p') : p'.load ≤ p.load := by
  refine List.Forall₂.sum_le_sum ?_
  rw [List.forall₂_map_left_iff, List.forall₂_map_right_iff]
  exact (h.slots.imp fun _ _ => SlotBeside.load_le).flip

/-- A reservation is seen in neither history. -/
lemma Beside.apply_reserve (h : p.Beside p') (hres : op.reserves = true)
    (hok : p.apply op = .ok q) : q.Beside p' := by
  cases op with
  | call i c =>
    simp only [Pool.apply, bind_eq_ok, pure_eq_ok, Except.ok.injEq] at hok
    obtain ⟨b, hb, ⟨o, results⟩, hcall, rfl⟩ := hok
    obtain ⟨b', hb', hrel⟩ := h.get hb
    obtain ⟨hbeside, hnil⟩ := hrel.reserve hres hcall
    refine ⟨?_, ?_, h.initialised⟩
    · have hset : List.Forall₂ SlotBeside (p.buffers.set i (some o)) (p'.buffers.set i (some b')) :=
        Pointwise.forall₂_set h.slots hbeside
      rwa [Pointwise.set_eq_self (mem_of_get hb')] at hset
    · rw [List.filterMap_append, hnil, List.append_nil]
      exact h.results
  | _ => cases hres

/-- Any other transparent step has the same effect in both histories. -/
lemma Beside.apply (h : p.Beside p') (hres : op.reserves = false) (htr : Transparent (p, p') op)
    (hpayload : op.payload.length < SizeT.objectLimit) (hok : p.apply op = .ok q)
    (hload : q.load < SizeT.objectLimit) : ∃ q', p'.apply op = .ok q' ∧ q.Beside q' := by
  have hlimit : ∀ {b}, some b ∈ q.buffers → b.contents.length < SizeT.objectLimit :=
    fun hmem => Nat.lt_of_le_of_lt (Pool.length_contents_le hmem) hload
  cases op with
  | create =>
    obtain rfl := Except.ok.inj hok
    exact ⟨_, rfl, Pointwise.forall₂_concat h.slots counted_empty.beside, h.results, h.initialised⟩
  | call i c =>
    simp only [Pool.apply, bind_eq_ok, pure_eq_ok, Except.ok.injEq] at hok
    obtain ⟨b, hb, ⟨o, results⟩, hcall, rfl⟩ := hok
    obtain ⟨b', hb', hrel⟩ := h.get hb
    have hlt := (List.getElem?_eq_some_iff.mp (mem_of_get hb)).1
    have hmem : some o ∈ (p.buffers.set i (some o)) :=
      List.mem_of_getElem? (List.getElem?_set_self hlt)
    obtain ⟨o', results', hcall', hbeside, hobs⟩ :=
      hrel.call (htr.call hb hb') hres hpayload hcall (hlimit hmem)
    refine ⟨{ p'.set i o' with results := p'.results ++ results' },
      by simp [Pool.apply, hb', hcall'], (h.set hbeside).slots, ?_, ?_⟩
    · rw [List.filterMap_append, List.filterMap_append, hobs]
      exact congrArg (· ++ _) h.results
    · rw [List.filterMap_append]
      intro obs hmem
      rcases List.mem_append.mp hmem with hmem | hmem
      · exact h.initialised obs hmem
      · exact hrel.counted.tight.initialised hcall' obs hmem
  | appendBuffer i o =>
    simp only [Pool.apply, bind_eq_ok, pure_eq_ok, Except.ok.injEq] at hok
    obtain ⟨⟨b, other⟩, hget, rfl⟩ := hok
    obtain ⟨b', other', hget', hb, hother⟩ := h.getTwo hget
    obtain ⟨hjoined, hrest⟩ := hb.appendBuffer hother (hlimit (mem_set_set _ _ hget))
    exact ⟨_, by simp only [Pool.apply, hget', ok_bind, pure_eq_ok], (h.set hjoined).set hrest⟩
  | prependBuffer i o =>
    simp only [Pool.apply, bind_eq_ok, pure_eq_ok, Except.ok.injEq] at hok
    obtain ⟨⟨b, other⟩, hget, rfl⟩ := hok
    obtain ⟨b', other', hget', hb, hother⟩ := h.getTwo hget
    obtain ⟨hjoined, hrest⟩ := hb.prependBuffer hother (hlimit (mem_set_set _ _ hget))
    exact ⟨_, by simp only [Pool.apply, hget', ok_bind, pure_eq_ok], (h.set hjoined).set hrest⟩
  | destroy i =>
    simp only [Pool.apply, bind_eq_ok, pure_eq_ok, Except.ok.injEq] at hok
    obtain ⟨b, hb, _, -, rfl⟩ := hok
    obtain ⟨b', hb', hrel⟩ := h.get hb
    refine ⟨{ p' with buffers := p'.buffers.set i none }, ?_, ?_⟩
    · simp only [Pool.apply, hb', ok_bind, drain_eq hrel.counted.tight.sound, pure_eq_ok]
    · exact ⟨Pointwise.forall₂_set h.slots trivial, h.results, h.initialised⟩

/-- A transparent step keeps the two histories beside each other. -/
theorem Beside.step (h : p.Beside p') (htr : Transparent (p, p') op) (hok : p.step op = .ok q) :
    ∃ q', stepBoth (p, p') op = .ok (q, q') ∧ q.Beside q' ∧
      (op.reserves = false → p'.step op = .ok q') ∧ (op.reserves = true → q' = p') := by
  obtain ⟨hpayload, happly, hload⟩ := step_eq_ok.mp hok
  cases hres : op.reserves with
  | true =>
    refine ⟨p', ?_, h.apply_reserve hres happly, ?_, fun _ => rfl⟩
    · simp only [stepBoth, hok, hres, ok_bind, if_true, pure_eq_ok]
    · exact fun hf => absurd hf.symm Bool.false_ne_true
  | false =>
    obtain ⟨q', happly', hbeside⟩ := h.apply hres htr hpayload happly hload
    have hok' : p'.step op = .ok q' :=
      step_eq_ok.mpr ⟨hpayload, happly', Nat.lt_of_le_of_lt hbeside.load_le hload⟩
    refine ⟨q', ?_, hbeside, fun _ => hok', fun hf => absurd hf Bool.false_ne_true⟩
    simp only [stepBoth, hok, hres, ok_bind, Bool.false_eq_true, if_false, hok', pure_eq_ok]

/-- The history without the `reserve` calls. -/
def withoutReserve (ops : List (Op β)) : List (Op β) := ops.filter fun op => !op.reserves

lemma Beside.exec {ops : List (Op β)} (h : p.Beside p')
    (htr : Exec.Along stepBoth Transparent (p, p') ops) (hok : Exec.exec Pool.step p ops = .ok q) :
    ∃ q', Exec.exec Pool.step p' (withoutReserve ops) = .ok q' ∧ q.Beside q' := by
  induction ops generalizing p p' with
  | nil =>
    obtain rfl := Except.ok.inj hok
    exact ⟨p', rfl, h⟩
  | cons op ops ih =>
    obtain ⟨p₁, hstep, hrest⟩ := Exec.exec_cons_eq_ok.mp hok
    obtain ⟨p₁', hboth, hbeside, hpaired, hsame⟩ := h.step htr.head hstep
    obtain ⟨q', hexec, hq⟩ := ih hbeside ((Exec.along_cons hboth).mp htr).2 hrest
    refine ⟨q', ?_, hq⟩
    cases hres : op.reserves with
    | true =>
      obtain rfl := hsame hres
      rwa [withoutReserve, List.filter_cons_of_neg (by simp [hres])]
    | false =>
      rw [withoutReserve, List.filter_cons_of_pos (by simp [hres])]
      exact Exec.exec_cons_eq_ok.mpr ⟨p₁', hpaired hres, hexec⟩

/-- If every step of a history is transparent, then the history without its `reserve` calls does
not fail either, what the two show is the same and was written before, and in the end the buffers
hold the same bytes, as many as their sizes say. -/
theorem reserve_transparent (ops : List (Op β))
    (htr : Exec.Along stepBoth Transparent (empty, empty) ops)
    (hok : Exec.exec Pool.step empty ops = .ok p) :
    ∃ p', Exec.exec Pool.step empty (withoutReserve ops) = .ok p' ∧
      p.results.filterMap Result.observe = p'.results.filterMap Result.observe ∧
      (∀ obs ∈ p.results.filterMap Result.observe, obs.Initialised) ∧
      p.buffers.map (Option.map fun b => (b.bytes, b.size)) =
        p'.buffers.map (Option.map fun b => (b.bytes, b.size)) ∧
      ∀ b, some b ∈ p.buffers → b.size = b.bytes.length := by
  obtain ⟨p', hexec, hbeside⟩ := beside_empty.exec htr hok
  refine ⟨p', hexec, hbeside.results, hbeside.results ▸ hbeside.initialised, ?_, ?_⟩
  · rw [← List.forall₂_eq_eq_eq, List.forall₂_map_left_iff, List.forall₂_map_right_iff]
    refine hbeside.slots.imp fun slot slot' hrel => ?_
    cases slot with
    | none =>
      cases slot' with
      | none => rfl
      | some b' => exact absurd hrel id
    | some b =>
      cases slot' with
      | none => exact absurd hrel id
      | some b' =>
        have hrel : b.Beside b' := hrel
        rw [Option.map_some, Option.map_some, hrel.bytes, hrel.size]
  · intro b hb
    obtain ⟨i, hi⟩ := List.mem_iff_getElem?.mp hb
    obtain ⟨slot, -, hrel⟩ := Pointwise.exists_of_getElem? hbeside.slots hi
    cases slot with
    | none => exact absurd hrel id
    | some b' =>
      have hrel : b.Beside b' := hrel
      rw [hrel.size, hrel.bytes]
      exact hrel.counted.size_eq

/-- Reserved space that is filled completely before it is read. -/
theorem reserve_transparent_filled : ∃ p' : Pool Char,
    Exec.exec Pool.step empty [.create, .call 0 (.append ['a']), .call 0 (.append ['b', 'c']),
      .call 0 (.read 3)] = .ok p' ∧
    [Observation.cells [some 'a', some 'b', some 'c']] = p'.results.filterMap Result.observe ∧
    (∀ obs ∈ [Observation.cells [some 'a', some 'b', some 'c']], obs.Initialised) ∧
    [some (([] : List Char), 0)] = p'.buffers.map (Option.map fun b => (b.bytes, b.size)) ∧
    ∀ b, some b ∈ [some (BufferImpl.empty : BufferImpl Char)] → b.size = b.bytes.length :=
  reserve_transparent
    (p := ⟨[some BufferImpl.empty], [.copied [some 'a', some 'b', some 'c']]⟩)
    [.create, .call 0 (.append ['a']), .call 0 (.reserve 2), .call 0 (.append ['b', 'c']),
      .call 0 (.read 3)] (by decide) (by decide)

/-- A `peek` after a `reserve` shows memory that was never written. -/
theorem not_reserve_transparent : ¬ ∀ (ops : List (Op Char)) (p : Pool Char),
    Exec.exec Pool.step empty ops = .ok p →
    ∃ p', Exec.exec Pool.step empty (withoutReserve ops) = .ok p' ∧
      p.results.filterMap Result.observe = p'.results.filterMap Result.observe := by
  intro h
  obtain ⟨p', hok, hobs⟩ := h [.create, .call 0 (.reserve 2), .call 0 (.peek 2)]
    ⟨[some ⟨[⟨[none, none], 0, 0⟩], 0⟩], [.copied [none, none]]⟩ (by decide)
  obtain rfl : (⟨[some BufferImpl.empty], [.copied []]⟩ : Pool Char) = p' :=
    Except.ok.inj ((show _ = Except.ok _ by decide).symm.trans hok)
  exact absurd hobs (by decide)

end Pool

end WhatTheEvent
