import WhatTheEvent.Buffer.CopyLaw

/-!
# The law of `prepend`

The consumed space at the front of the first extent is reused from its start, where the bytes to be
prepended would belong to its end. On buffers that a program reaches without `reserve`, the law
holds for exactly the bytes for which that makes no difference.
-/

namespace WhatTheEvent

variable {β : Type}

open InternalExtent

namespace BufferImpl

variable {b b' : BufferImpl β} {buf stale : List β}

/-- What `prepend(buf)` should do: end, put `buf` in front of all that the buffer offers, and count
it. -/
def PrependLaw (b : BufferImpl β) (buf : List β) : Prop :=
  ∃ b', b.prepend buf = .ok b' ∧ b'.contents = buf.map some ++ b.contents ∧
    b'.size = b.size + buf.length

/-- How many bytes of `buf` are copied to the consumed space. -/
def reused (b : BufferImpl β) (buf : List β) : Nat := min b.headroom buf.length

/-- The consumed space, once as many bytes of `buf` as it takes were copied to its start, ends with
as many of the last bytes of `buf`. -/
def Repeats (b : BufferImpl β) (buf : List β) : Prop :=
  (buf.drop (buf.length - b.reused buf)).map some <:+
    (buf.take (b.reused buf)).map some ++ b.consumedCells.drop (b.reused buf)

instance [DecidableEq β] : Decidable (b.Repeats buf) := inferInstanceAs (Decidable (_ <:+ _))

/-- The same of the bytes. -/
lemma repeats_iff (hs : b.consumedCells = stale.map some) (hroom : b.headroom = stale.length) :
    b.Repeats buf ↔ buf.drop (buf.length - min stale.length buf.length) <:+
      buf.take (min stale.length buf.length) ++ stale.drop (min stale.length buf.length) := by
  unfold Repeats reused
  rw [hs, hroom, ← List.map_drop, ← List.map_append]
  constructor
  · intro h
    rw [List.suffix_iff_eq_drop, List.length_map, List.length_map, ← List.map_drop] at h
    exact List.suffix_iff_eq_drop.mpr (List.map_injective_iff.mpr (Option.some_injective β) h)
  · exact fun h => h.map some

/-- What `prepend` puts in front is `buf` exactly then. -/
lemma prefixed_eq_iff : prefixed buf stale = buf ↔
    buf.drop (buf.length - min stale.length buf.length) <:+
      buf.take (min stale.length buf.length) ++ stale.drop (min stale.length buf.length) := by
  by_cases hle : buf.length ≤ stale.length
  · have hlen : (buf ++ stale.drop buf.length).length = stale.length := by
      rw [List.length_append, List.length_drop]
      omega
    rw [Nat.min_eq_right hle, Nat.sub_self, List.drop_zero, List.take_length, prefixed, if_pos hle,
      overwritten, List.suffix_iff_eq_drop, hlen]
    exact eq_comm
  · have hle' : stale.length ≤ buf.length := Nat.le_of_not_le hle
    have hlen : (buf.take stale.length).length = stale.length := List.length_take_of_le hle'
    have hlast : (buf.drop (buf.length - stale.length)).length = stale.length := by
      rw [List.length_drop]
      omega
    rw [Nat.min_eq_left hle', List.drop_length, List.append_nil, prefixed, if_neg hle,
      List.suffix_iff_eq_drop, hlen, hlast, Nat.sub_self, List.drop_zero]
    constructor
    · intro h
      refine (List.append_right_inj (buf.take (buf.length - stale.length))).mp ?_
      rw [List.take_append_drop, h]
    · intro h
      rw [← h, List.take_append_drop]

/-- Without consumed space, and with just as much as there are bytes, it makes no difference. -/
theorem PrependFits.repeats (hwf : b.WellFormed) (h : b.PrependFits buf) : b.Repeats buf := by
  obtain ⟨stale, hs, hroom⟩ := hwf.consumedCells_eq
  rw [repeats_iff hs hroom, ← prefixed_eq_iff]
  exact h.prefixed_eq hroom

/-- The law holds of a counted buffer for exactly these bytes. -/
lemma Counted.prependLaw_iff_repeats (h : b.Counted) (hbuf : buf.length < SizeT.objectLimit)
    (hlimit : b.contents.length < SizeT.objectLimit) : b.PrependLaw buf ↔ b.Repeats buf := by
  change b.contents.length < 2 ^ 63 at hlimit
  change buf.length < 2 ^ 63 at hbuf
  obtain ⟨stale, hs, hroom⟩ := h.tight.wellFormed.consumedCells_eq
  obtain ⟨b', hb', -, ht, hsize, -, hbytes⟩ := prepend_spec h.tight.wellFormed hs hbuf
  have hcontents : b'.contents = (prefixed buf stale).map some ++ b.contents := by
    rw [(ht h.tight).contents_eq, hbytes, List.map_append, h.tight.contents_eq]
  have hsum : b'.size = b.size + buf.length := by
    rw [hsize, SizeT.add_of_lt]
    rw [h.size]
    omega
  rw [repeats_iff hs hroom, ← prefixed_eq_iff]
  constructor
  · rintro ⟨b₁, hb₁, hlaw, -⟩
    obtain rfl := Except.ok.inj (hb'.symm.trans hb₁)
    rw [hcontents] at hlaw
    exact List.map_injective_iff.mpr (Option.some_injective β) (List.append_cancel_right hlaw)
  · intro heq
    exact ⟨b', hb', by rw [hcontents, heq], hsum⟩

end BufferImpl

namespace Pool

open BufferImpl

variable {p : Pool β}

lemma Unreserved.load_lt (h : p.Unreserved) : p.load < SizeT.objectLimit := by
  refine h.invariant (fun p => p.load < SizeT.objectLimit) (fun p op p' _ hok => ?_) ?_
  · unfold stepWithoutReserve at hok
    split_ifs at hok
    exact (step_eq_ok.mp hok).2.2
  · exact Nat.two_pow_pos 63

/-- On every buffer that a program reaches without `reserve`, `prepend` obeys the law if and only if
the bytes repeat: for as many of them as are copied to the consumed space at the front of the first
extent, that space ends with the last ones. -/
theorem prependLaw_iff (p : Pool β) (hp : p.Unreserved) (b : BufferImpl β)
    (hb : some b ∈ p.buffers) (buf : List β) (hbuf : buf.length < SizeT.objectLimit) :
    b.PrependLaw buf ↔ b.Repeats buf :=
  (hp.allCounted b hb).prependLaw_iff_repeats hbuf
    (Nat.lt_of_le_of_lt (length_contents_le hb) hp.load_lt)

/-- The buffer after "abcd" was appended and "ab" was drained. -/
def drainedOfTwo : BufferImpl Char := ⟨[⟨[some 'a', some 'b', some 'c', some 'd'], 2, 4⟩], 2⟩

lemma unreserved_drainedOfTwo : (⟨[some drainedOfTwo], []⟩ : Pool Char).Unreserved :=
  ⟨[.create, .call 0 (.append ['a', 'b', 'c', 'd']), .call 0 (.drain 2)], by decide⟩

/-- Two bytes fill the consumed space, one that is 'b' is found there, and of three the last two are
the first two. -/
theorem prependLaw_drainedOfTwo : drainedOfTwo.PrependLaw ['x', 'y'] ∧
    drainedOfTwo.PrependLaw ['b'] ∧ drainedOfTwo.PrependLaw ['x', 'x', 'x'] :=
  have hmem := List.mem_singleton.mpr rfl
  ⟨(prependLaw_iff _ unreserved_drainedOfTwo _ hmem _ (by decide)).mpr (by decide),
    (prependLaw_iff _ unreserved_drainedOfTwo _ hmem _ (by decide)).mpr (by decide),
    (prependLaw_iff _ unreserved_drainedOfTwo _ hmem _ (by decide)).mpr (by decide)⟩

/-- One byte goes where the first consumed one was, and the second consumed one is put back. -/
theorem not_prependLaw : ¬ ∀ p : Pool Char, p.Unreserved → ∀ b, some b ∈ p.buffers →
    ∀ buf : List Char, buf.length < SizeT.objectLimit → b.PrependLaw buf := by
  intro h
  obtain ⟨b', hb', hcontents, -⟩ :=
    h _ unreserved_drainedOfTwo drainedOfTwo (List.mem_singleton.mpr rfl) ['x'] (by decide)
  obtain rfl := Except.ok.inj hb'
  exact absurd hcontents (by decide)

end Pool

end WhatTheEvent
