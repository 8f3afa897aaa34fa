import WhatTheEvent.Buffer.Pool

/-!
# The law of copying reads

In every pool that a program reaches without `reserve`, the buffers are tight and their sizes
count what they hold. On such a buffer the copying `read` and `peek` obey their law for exactly the
sizes that are aligned with its extents.
-/

namespace WhatTheEvent

variable {β : Type}

open InternalExtent

namespace BufferImpl

variable {b b' o : BufferImpl β} {c : Call β} {n : Nat} {results : List (Result β)}
  {extents : List (InternalExtent β)}

/-- No reserved space, and a size that counts the cells held. -/
structure Counted (b : BufferImpl β) : Prop where
  tight : b.Tight
  size : b.size = b.contents.length

lemma counted_empty : (empty : BufferImpl β).Counted := ⟨tight_empty, rfl⟩

lemma length_copiedCells_le (n total : Nat) :
    (copiedCells n extents total).length ≤ (unreadCells extents).length := by
  induction extents generalizing total with
  | nil => exact Nat.le_refl 0
  | cons cur rest ih =>
    unfold copiedCells
    split_ifs
    · rw [unreadCells_cons, List.length_append, List.length_append]
      exact Nat.add_le_add (List.length_take_le' ..) (ih _)
    · exact Nat.zero_le _

/-- What a call returns that changes nothing. -/
lemma eq_of_call {x : BufferImpl β × List (Result β)} (hok : Except.ok x = b.call c)
    (hx : b.call c = .ok (b', results)) : b' = x.1 :=
  congrArg Prod.fst (Except.ok.inj (hx.symm.trans hok.symm))

/-- Without `reserve` no call leaves reserved space. -/
lemma Tight.call (h : b.Tight) (hok : b.call c = .ok (b', results)) (hres : c.reserves = false)
    (hpayload : c.payload.length < SizeT.objectLimit) : b'.Tight := by
  cases c with
  | append buf =>
    obtain ⟨b₁, hb₁, -, ht, -⟩ := append_spec h.wellFormed (Or.inl h.spare_eq) hpayload
    obtain rfl := eq_of_call (by rw [BufferImpl.call, show b.append buf = _ from hb₁]; rfl) hok
    exact ht h
  | prepend buf =>
    obtain ⟨stale, hstale, -⟩ := h.wellFormed.consumedCells_eq
    obtain ⟨b₁, hb₁, -, ht, -⟩ := prepend_spec h.wellFormed hstale hpayload
    obtain rfl := eq_of_call (by rw [BufferImpl.call, show b.prepend buf = _ from hb₁]; rfl) hok
    exact ht h
  | read size =>
    obtain rfl := eq_of_call rfl hok
    exact h.read
  | drain count =>
    obtain rfl := eq_of_call (by rw [BufferImpl.call, drain_eq h.sound]; rfl) hok
    exact forall_full_dropExtents h
  | peek size =>
    obtain rfl := eq_of_call rfl hok
    rwa [peek_eq h.sound]
  | peekExtents size =>
    obtain rfl := eq_of_call rfl hok
    exact h
  | size =>
    obtain rfl := eq_of_call rfl hok
    exact h
  | empty =>
    obtain rfl := eq_of_call rfl hok
    exact h
  | reserve size => cases hres
  | reserveExtents size => cases hres

/-- Without `reserve`, every call that returns keeps the size right, aligned or not. -/
lemma Counted.call (h : b.Counted) (hok : b.call c = .ok (b', results))
    (hres : c.reserves = false) (hpayload : c.payload.length < SizeT.objectLimit)
    (hlimit : b'.contents.length < SizeT.objectLimit) : b'.Counted := by
  change b'.contents.length < 2 ^ 63 at hlimit
  refine ⟨h.tight.call hok hres hpayload, ?_⟩
  obtain ⟨ht, hsize⟩ := h
  cases c with
  | append buf =>
    have happend : b.append buf = _ := append_of_spare_eq_zero ht.spare_eq hpayload
    obtain rfl := eq_of_call (by rw [BufferImpl.call, happend]; rfl) hok
    have hlen : (b.contents ++ buf.map some).length < 2 ^ 63 := by
      simpa [contents_eq] using hlimit
    rw [List.length_append, List.length_map] at hlen
    rw [hsize, SizeT.add_of_lt (by omega)]
    simp [contents_eq]
  | prepend buf =>
    obtain ⟨stale, hstale, -⟩ := ht.wellFormed.consumedCells_eq
    obtain ⟨b₁, hb₁, -, -, hsz, hlen, -⟩ := prepend_spec ht.wellFormed hstale hpayload
    obtain rfl := eq_of_call (by rw [BufferImpl.call, show b.prepend buf = _ from hb₁]; rfl) hok
    change b'.contents.length = b.contents.length + buf.length at hlen
    change b'.size = SizeT.add b.size buf.length at hsz
    rw [hsz, hsize, SizeT.add_of_lt (by omega), hlen]
  | read size =>
    obtain rfl := eq_of_call rfl hok
    obtain ⟨hout, hrest⟩ := read_spec (n := size) ht.sound
    have hle : (b.read size).2.length ≤ b.size := by
      rw [hout, hsize]
      exact length_copiedCells_le size 0
    rw [hrest, List.length_drop, ← hsize]
    exact readLoop_size hle
  | drain count =>
    obtain rfl := eq_of_call (by rw [BufferImpl.call, drain_eq ht.sound]; rfl) hok
    change SizeT.sub b.size (min count b.contents.length) =
      (unreadCells (dropExtents b.extents count)).length
    rw [unreadCells_dropExtents, List.length_drop, ← contents_eq, hsize,
      SizeT.sub_of_le (Nat.min_le_right _ _)]
    omega
  | peek size =>
    obtain rfl := eq_of_call rfl hok
    rw [peek_eq ht.sound]
    exact hsize
  | peekExtents size =>
    obtain rfl := eq_of_call rfl hok
    exact hsize
  | size =>
    obtain rfl := eq_of_call rfl hok
    exact hsize
  | empty =>
    obtain rfl := eq_of_call rfl hok
    exact hsize
  | reserve size => cases hres
  | reserveExtents size => cases hres

/-- Joining the extents of two buffers, in any order. -/
lemma Counted.join (h : b.Counted) (ho : o.Counted)
    (hmem : ∀ e ∈ extents, e ∈ b.extents ∨ e ∈ o.extents)
    (hlen : (unreadCells extents).length = b.contents.length + o.contents.length)
    (hlimit : (unreadCells extents).length < SizeT.objectLimit) :
    (⟨extents, SizeT.add b.size o.size⟩ : BufferImpl β).Counted := by
  change (unreadCells extents).length < 2 ^ 63 at hlimit
  refine ⟨fun e he => (hmem e he).elim (h.tight e) (ho.tight e), ?_⟩
  rw [h.size, ho.size, SizeT.add_of_lt (by omega), ← hlen]
  rfl

lemma Counted.appendBuffer (h : b.Counted) (ho : o.Counted)
    (hlimit : (b.appendBuffer o).1.contents.length < SizeT.objectLimit) :
    (b.appendBuffer o).1.Counted ∧ (b.appendBuffer o).2.Counted := by
  unfold BufferImpl.appendBuffer at hlimit ⊢
  by_cases he : o.extents.isEmpty = true
  · rw [if_pos he]
    exact ⟨h, ho⟩
  · rw [if_neg he] at hlimit ⊢
    refine ⟨h.join ho (fun e he => List.mem_append.mp he) ?_ hlimit, counted_empty⟩
    rw [unreadCells_append, List.length_append]
    rfl

lemma Counted.prependBuffer (h : b.Counted) (ho : o.Counted)
    (hlimit : (b.prependBuffer o).1.contents.length < SizeT.objectLimit) :
    (b.prependBuffer o).1.Counted ∧ (b.prependBuffer o).2.Counted := by
  unfold BufferImpl.prependBuffer at hlimit ⊢
  by_cases he : o.extents.isEmpty = true
  · rw [if_pos he]
    exact ⟨h, ho⟩
  · rw [if_neg he] at hlimit ⊢
    refine ⟨h.join ho (fun e he => (List.mem_append.mp he).symm) ?_ hlimit, counted_empty⟩
    rw [unreadCells_append, List.length_append, Nat.add_comm]
    rfl

/-! ### The law -/

/-- What `read` and the copying `peek` of `n` bytes should do: both store the first
`min n (size())` bytes and no more, `read` takes them off, `peek` changes nothing, and both agree
with the extents that `peek` returns. -/
structure CopyLaw (b : BufferImpl β) (n : Nat) : Prop where
  nread : (b.read n).2.length = min n b.size
  stored : (b.read n).2 = (b.bytes.take (min n b.size)).map some
  rest : (b.read n).1.bytes = b.bytes.drop (min n b.size)
  restSize : (b.read n).1.size = b.size - min n b.size
  peekStored : (b.peek n).2 = (b.read n).2
  peekRest : (b.peek n).1 = b
  flatten : (b.peekExtents n).flatten = (b.read n).2

/-- The law holds of a counted buffer for exactly the aligned sizes. -/
lemma Counted.copyLaw_iff (h : b.Counted) : b.CopyLaw n ↔ b.Aligned n := by
  have hwf := h.tight.wellFormed
  have hclear : b.Clear n := hwf.clear_iff.mpr (Or.inr h.tight)
  have hsize : b.size = b.bytes.length := h.size.trans h.tight.length_contents
  have htake : b.bytes.take (min n b.size) = b.bytes.take n := by
    rw [hsize, ← List.take_take, List.take_length]
  constructor
  · intro hlaw
    by_contra hna
    have hover := copiedCells_length_of_not_aligned (Nat.zero_le n) hna
    rw [← (read_spec h.tight.sound).1, hlaw.nread] at hover
    omega
  · intro ha
    obtain ⟨hout, -, hrest, hsz⟩ := read_bytes_spec hwf hclear ha
    have hmin : min n b.bytes.length = min n b.size := by rw [hsize]
    refine ⟨?_, ?_, ?_, ?_, ?_, ?_, ?_⟩
    · rw [hout, List.length_map, List.length_take, hmin]
    · rw [hout, htake]
    · rw [hrest]
      rcases Nat.le_total n b.size with hle | hle
      · rw [Nat.min_eq_left hle]
      · rw [Nat.min_eq_right hle, List.drop_of_length_le (hsize ▸ hle), hsize, List.drop_length]
    · rw [hsz (hmin ▸ Nat.min_le_right _ _), hmin]
    · rw [peek_bytes_spec hwf hclear ha, hout]
    · rw [peek_bytes_spec hwf hclear ha]
    · rw [(peekExtents_bytes_spec hwf hclear).2, hout]

end BufferImpl

namespace Pool

open BufferImpl

variable {p p' : Pool β} {op : Op β}

/-- A step of a program that never reserves. -/
def stepWithoutReserve (p : Pool β) (op : Op β) : Except Fault (Pool β) :=
  if op.reserves then .error .disabled else p.step op

/-- A pool that some program reaches without `reserve`. -/
def Unreserved (p : Pool β) : Prop := Exec.Reachable stepWithoutReserve empty p

/-- Every buffer of the pool is counted. -/
def AllCounted (p : Pool β) : Prop := ∀ b, some b ∈ p.buffers → b.Counted

lemma AllCounted.get {i : Nat} {b : BufferImpl β} (h : p.AllCounted) (hb : p.get i = .ok b) :
    b.Counted := h b (List.mem_of_getElem? (mem_of_get hb))

lemma AllCounted.set {i : Nat} {slot : Option (BufferImpl β)}
    {results : List (Result β)} (h : p.AllCounted) (hb : ∀ b, slot = some b → b.Counted) :
    (⟨p.buffers.set i slot, results⟩ : Pool β).AllCounted :=
  forall_set h hb

lemma AllCounted.set_set {i o : Nat} {b b' : BufferImpl β} (h : p.AllCounted) (hb : b.Counted)
    (hb' : b'.Counted) : ((p.set i b).set o b').AllCounted := by
  have hset : (p.set i b).AllCounted := h.set fun c hc => Option.some.inj hc ▸ hb
  exact hset.set fun c hc => Option.some.inj hc ▸ hb'

/-- The first buffer of a splice is in the pool after it. -/
lemma mem_set_set {i o : Nat} {b b' : BufferImpl β} (joined rest : BufferImpl β)
    (h : p.getTwo i o = .ok (b, b')) : some joined ∈ ((p.set i joined).set o rest).buffers := by
  obtain ⟨hio, hi, -⟩ := getTwo_eq_ok h
  have hlt := (List.getElem?_eq_some_iff.mp (mem_of_get hi)).1
  refine List.mem_of_getElem? (i := i) ?_
  exact (List.getElem?_set_ne hio.symm).trans (List.getElem?_set_self hlt)

/-- No step without `reserve` leaves a buffer that is not counted. -/
lemma AllCounted.step (h : p.AllCounted) (hok : p.stepWithoutReserve op = .ok p') :
    p'.AllCounted := by
  unfold stepWithoutReserve at hok
  split_ifs at hok with hres
  obtain ⟨hpayload, happly, hload⟩ := step_eq_ok.mp hok
  have hlimit : ∀ {b}, some b ∈ p'.buffers → b.contents.length < SizeT.objectLimit :=
    fun hmem => Nat.lt_of_le_of_lt (length_contents_le hmem) hload
  cases op with
  | create =>
    simp only [Pool.apply, Except.ok.injEq] at happly
    subst happly
    intro b hmem
    rcases List.mem_append.mp hmem with hmem | hmem
    · exact h b hmem
    · rw [List.mem_singleton, Option.some.injEq] at hmem
      exact hmem ▸ counted_empty
  | call i c =>
    simp only [Pool.apply, bind_eq_ok, pure_eq_ok, Except.ok.injEq] at happly
    obtain ⟨b, hb, ⟨b', results⟩, hcall, rfl⟩ := happly
    have hlt := (List.getElem?_eq_some_iff.mp (mem_of_get hb)).1
    have hmem : some b' ∈ (p.buffers.set i (some b')) :=
      List.mem_of_getElem? (List.getElem?_set_self hlt)
    have hcounted := (h.get hb).call hcall (Bool.eq_false_iff.mpr hres) hpayload (hlimit hmem)
    exact h.set fun c hc => Option.some.inj hc ▸ hcounted
  | appendBuffer i o =>
    simp only [Pool.apply, bind_eq_ok, pure_eq_ok, Except.ok.injEq] at happly
    obtain ⟨⟨b, b'⟩, hget, rfl⟩ := happly
    obtain ⟨-, hi, ho⟩ := getTwo_eq_ok hget
    obtain ⟨hb, hb'⟩ :=
      (h.get hi).appendBuffer (h.get ho) (hlimit (mem_set_set (b.appendBuffer b').1 _ hget))
    exact h.set_set hb hb'
  | prependBuffer i o =>
    simp only [Pool.apply, bind_eq_ok, pure_eq_ok, Except.ok.injEq] at happly
    obtain ⟨⟨b, b'⟩, hget, rfl⟩ := happly
    obtain ⟨-, hi, ho⟩ := getTwo_eq_ok hget
    obtain ⟨hb, hb'⟩ :=
      (h.get hi).prependBuffer (h.get ho) (hlimit (mem_set_set (b.prependBuffer b').1 _ hget))
    exact h.set_set hb hb'
  | destroy i =>
    simp only [Pool.apply, bind_eq_ok, pure_eq_ok, Except.ok.injEq] at happly
    obtain ⟨b, -, b', -, rfl⟩ := happly
    exact h.set fun c hc => nomatch hc

lemma Unreserved.allCounted (h : p.Unreserved) : p.AllCounted :=
  h.invariant AllCounted (fun _ _ _ hp hok => hp.step hok) fun _ hb => absurd hb List.not_mem_nil

/-- On every buffer that a program reaches without `reserve`, `read` and `peek` of `n` bytes obey
the law if and only if `n` is aligned with the extents: it is not more than the first of them
holds, or it ends where an extent ends, or it is not less than the size. -/
theorem copyLaw_iff_aligned (p : Pool β) (hp : p.Unreserved) (b : BufferImpl β)
    (hb : some b ∈ p.buffers) (n : Nat) : b.CopyLaw n ↔ b.Aligned n :=
  (hp.allCounted b hb).copyLaw_iff

/-- The buffer after "abc" and "defg" were appended. -/
def twoExtents : BufferImpl Char :=
  ⟨[⟨[some 'a', some 'b', some 'c'], 0, 3⟩, ⟨[some 'd', some 'e', some 'f', some 'g'], 0, 4⟩], 7⟩

lemma unreserved_twoExtents : (⟨[some twoExtents], []⟩ : Pool Char).Unreserved :=
  ⟨[.create, .call 0 (.append ['a', 'b', 'c']), .call 0 (.append ['d', 'e', 'f', 'g'])], by decide⟩

/-- A read of three bytes ends with the first extent, and one of two bytes ends inside it. -/
theorem copyLaw_twoExtents : twoExtents.CopyLaw 3 ∧ twoExtents.CopyLaw 2 :=
  ⟨(copyLaw_iff_aligned _ unreserved_twoExtents _ (List.mem_singleton.mpr rfl) 3).mpr (by decide),
    (copyLaw_iff_aligned _ unreserved_twoExtents _ (List.mem_singleton.mpr rfl) 2).mpr (by decide)⟩

/-- A read of five bytes ends inside the second extent and stores seven. -/
theorem not_copyLaw : ¬ ∀ p : Pool Char, p.Unreserved → ∀ b, some b ∈ p.buffers →
    ∀ n, b.CopyLaw n := by
  intro h
  have hnread := (h _ unreserved_twoExtents twoExtents (List.mem_singleton.mpr rfl) 5).nread
  exact absurd hnread (by decide)

end Pool

end WhatTheEvent
