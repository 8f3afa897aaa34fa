import WhatTheEvent.Buffer.CopyLaw

/-!
# Conservation of bytes

Without `reserve`, the bytes that were appended and prepended to the buffers are those that `read`
has reported, those that `drain` has removed, and those that the buffers still count, and no
computation of `size_` wraps.
-/

namespace WhatTheEvent

variable {β : Type}

open InternalExtent

namespace BufferImpl

variable {b b' o : BufferImpl β} {c : Call β} {results : List (Result β)} {n : Nat}

/-- How many cells `drain(count)` removes. -/
def drained (b : BufferImpl β) (count : Nat) : Nat :=
  match b.drain count with
  | .ok b' => b.contents.length - b'.contents.length
  | .error _ => 0

/-- How many cells the call takes off: the `nread` of a `read`, and what a `drain` removes. -/
def taken (b : BufferImpl β) : Call β → Nat
  | .read size => (b.read size).2.length
  | .drain count => b.drained count
  | _ => 0

/-- No sum or difference that the call assigns to `size_` wraps. In the loop of `read` what is
taken off adds up to the `nread`. -/
def Fits (b : BufferImpl β) (c : Call β) : Prop :=
  b.size + c.payload.length < SizeT.modulus ∧ b.taken c ≤ b.size

lemma drained_eq (h : b.Sound) : b.drained n = min n b.contents.length := by
  have hlen : (unreadCells (dropExtents b.extents n)).length = b.contents.length - n := by
    rw [unreadCells_dropExtents, List.length_drop, contents_eq]
  rw [drained, drain_eq h]
  simp only [contents_eq] at hlen ⊢
  rw [hlen]
  omega

lemma length_read_le (h : b.Sound) : (b.read n).2.length ≤ b.contents.length := by
  rw [(read_spec h).1]
  exact length_copiedCells_le n 0

lemma taken_le (h : b.Sound) : b.taken c ≤ b.contents.length := by
  cases c with
  | read size => exact length_read_le h
  | drain count =>
    rw [taken, drained_eq h]
    exact Nat.min_le_right _ _
  | _ => exact Nat.zero_le _

/-- What a call adds and takes off is the difference that it makes. -/
lemma length_call (h : b.Tight) (hok : b.call c = .ok (b', results))
    (hres : c.reserves = false) (hpayload : c.payload.length < SizeT.objectLimit) :
    b'.contents.length + b.taken c = b.contents.length + c.payload.length := by
  cases c with
  | append buf =>
    have happend : b.append buf = _ := append_of_spare_eq_zero h.spare_eq hpayload
    obtain rfl := eq_of_call (by rw [BufferImpl.call, happend]; rfl) hok
    simp [contents_eq, taken, Call.payload]
  | prepend buf =>
    obtain ⟨stale, hstale, -⟩ := h.wellFormed.consumedCells_eq
    obtain ⟨b₁, hb₁, -, -, -, hlen, -⟩ := prepend_spec h.wellFormed hstale hpayload
    obtain rfl := eq_of_call (by rw [BufferImpl.call, show b.prepend buf = _ from hb₁]; rfl) hok
    exact hlen
  | read size =>
    obtain rfl := eq_of_call rfl hok
    have hle : (b.read size).2.length ≤ b.contents.length := length_read_le h.sound
    rw [(read_spec h.sound).2, List.length_drop]
    exact Nat.sub_add_cancel hle
  | drain count =>
    obtain rfl := eq_of_call (by rw [BufferImpl.call, drain_eq h.sound]; rfl) hok
    have hlen : (unreadCells (dropExtents b.extents count)).length = b.contents.length - count := by
      rw [unreadCells_dropExtents, List.length_drop, contents_eq]
    have hpayload : (Call.drain count : Call β).payload.length = 0 := rfl
    rw [taken, drained_eq h.sound, contents_eq, hlen, hpayload]
    omega
  | peek size =>
    obtain rfl := eq_of_call rfl hok
    rw [peek_eq h.sound]
    rfl
  | peekExtents size =>
    obtain rfl := eq_of_call rfl hok
    rfl
  | size =>
    obtain rfl := eq_of_call rfl hok
    rfl
  | empty =>
    obtain rfl := eq_of_call rfl hok
    rfl
  | reserve size => cases hres
  | reserveExtents size => cases hres

/-- No computation of `size_` wraps in a buffer that counts what it holds. -/
lemma Counted.fits (h : b.Counted) (hpayload : c.payload.length < SizeT.objectLimit)
    (hlimit : b.contents.length < SizeT.objectLimit) : b.Fits c := by
  refine ⟨?_, h.size ▸ taken_le h.tight.sound⟩
  rw [h.size]
  calc b.contents.length + c.payload.length
    _ < SizeT.objectLimit + SizeT.objectLimit := Nat.add_lt_add hlimit hpayload
    _ = SizeT.modulus := rfl

lemma contents_appendBuffer_snd : (b.appendBuffer o).2.contents = [] := by
  unfold appendBuffer
  split_ifs with he
  · rw [contents_eq, List.isEmpty_iff.mp he, unreadCells_nil]
  · rfl

lemma contents_prependBuffer_snd : (b.prependBuffer o).2.contents = [] := by
  unfold prependBuffer
  split_ifs with he
  · rw [contents_eq, List.isEmpty_iff.mp he, unreadCells_nil]
  · rfl

/-- Every cell held is counted between the offsets of an extent. -/
lemma length_contents :
    b.contents.length = (b.extents.map fun e => e.size - e.readOffset).sum := by
  rw [contents, List.length_flatMap]
  refine congrArg List.sum (List.map_congr_left fun e he => ?_)
  rw [InternalExtent.unread, List.length_drop, InternalExtent.size]

end BufferImpl

namespace Pool

open BufferImpl

variable {p p' : Pool β} {op : Op β} {i o : Nat} {b b' : BufferImpl β}

/-- The `nread` that a `read` reports. -/
def nread (p : Pool β) : Op β → Nat
  | .call i (.read n) =>
    match p.get i with
    | .ok b => (b.read n).2.length
    | .error _ => 0
  | _ => 0

/-- What a `drain` removes, also that of the destructor. -/
def drained (p : Pool β) : Op β → Nat
  | .call i (.drain n) =>
    match p.get i with
    | .ok b => b.drained n
    | .error _ => 0
  | .destroy i =>
    match p.get i with
    | .ok b => b.drained SizeT.max
    | .error _ => 0
  | _ => 0

/-- No sum or difference that the step assigns to a `size_` wraps. -/
def Fits (p : Pool β) : Op β → Prop
  | .call i c => ∀ b, p.get i = .ok b → b.Fits c
  | .appendBuffer i o => ∀ b b', p.getTwo i o = .ok (b, b') → b.size + b'.size < SizeT.modulus
  | .prependBuffer i o => ∀ b b', p.getTwo i o = .ok (b, b') → b.size + b'.size < SizeT.modulus
  | .destroy i => ∀ b, p.get i = .ok b → b.Fits (.drain SizeT.max)
  | .create => True

def slotSize : Option (BufferImpl β) → Nat
  | some b => b.size
  | none => 0

/-- The sizes of all live buffers. -/
def sizes (p : Pool β) : Nat := (p.buffers.map slotSize).sum

lemma AllCounted.sizes_eq (h : p.AllCounted) : p.sizes = p.load := by
  refine congrArg List.sum (List.map_congr_left fun slot hslot => ?_)
  cases slot with
  | none => rfl
  | some b => exact (h b hslot).size

/-- One buffer changes. -/
lemma load_set {slot : Option (BufferImpl β)} {results : List (Result β)} (hb : p.get i = .ok b) :
    (⟨p.buffers.set i slot, results⟩ : Pool β).load + b.contents.length =
      p.load + slotLoad slot :=
  Pointwise.sum_map_set (f := slotLoad) (mem_of_get hb)

/-- Two buffers are spliced. -/
lemma load_set_set {joined rest : BufferImpl β} (hget : p.getTwo i o = .ok (b, b'))
    (hlen : joined.contents.length + rest.contents.length =
      b.contents.length + b'.contents.length) :
    ((p.set i joined).set o rest).load = p.load := by
  obtain ⟨hio, hi, ho⟩ := getTwo_eq_ok hget
  have ho' : (p.set i joined).buffers[o]? = some (some b') := by
    rw [set, List.getElem?_set_ne hio]
    exact mem_of_get ho
  have hfirst : (p.set i joined).load + b.contents.length = p.load + joined.contents.length :=
    load_set hi
  have hsecond : ((p.set i joined).set o rest).load + b'.contents.length =
      (p.set i joined).load + rest.contents.length :=
    Pointwise.sum_map_set (f := slotLoad) ho'
  omega

/-- What a step adds, reads and drains is the difference that it makes. -/
lemma AllCounted.load_step (h : p.AllCounted) (hload : p.load ≤ SizeT.max)
    (hok : p.stepWithoutReserve op = .ok p') :
    p'.load + (p.nread op + p.drained op) = p.load + op.payload.length := by
  unfold stepWithoutReserve at hok
  split_ifs at hok with hres
  obtain ⟨hpayload, happly, -⟩ := step_eq_ok.mp hok
  cases op with
  | create =>
    obtain rfl := Except.ok.inj happly
    simp [load, slotLoad, nread, drained, Op.payload, BufferImpl.empty, BufferImpl.contents]
  | call i c =>
    obtain ⟨b, hb, happly⟩ := bind_eq_ok.mp happly
    obtain ⟨⟨b', results⟩, hcall, happly⟩ := bind_eq_ok.mp happly
    obtain rfl := Except.ok.inj happly
    have hset : (⟨p.buffers.set i (some b'), p.results ++ results⟩ : Pool β).load +
        b.contents.length = p.load + b'.contents.length := load_set hb
    have hlen := length_call (h.get hb).tight hcall (Bool.eq_false_iff.mpr hres) hpayload
    have htaken : p.nread (.call i c) + p.drained (.call i c) = b.taken c := by
      cases c <;> simp [nread, drained, hb, taken]
    change (⟨p.buffers.set i (some b'), p.results ++ results⟩ : Pool β).load + _ =
      _ + c.payload.length
    omega
  | appendBuffer i o =>
    obtain ⟨⟨b, b'⟩, hget, happly⟩ := bind_eq_ok.mp happly
    obtain rfl := Except.ok.inj happly
    have hlen : (b.appendBuffer b').1.contents.length + (b.appendBuffer b').2.contents.length =
        b.contents.length + b'.contents.length := by
      rw [contents_appendBuffer, contents_appendBuffer_snd, List.length_append]
      rfl
    exact load_set_set hget hlen
  | prependBuffer i o =>
    obtain ⟨⟨b, b'⟩, hget, happly⟩ := bind_eq_ok.mp happly
    obtain rfl := Except.ok.inj happly
    have hlen : (b.prependBuffer b').1.contents.length +
        (b.prependBuffer b').2.contents.length = b.contents.length + b'.contents.length := by
      rw [contents_prependBuffer, contents_prependBuffer_snd, List.length_append,
        Nat.add_comm b'.contents.length]
      rfl
    exact load_set_set hget hlen
  | destroy i =>
    obtain ⟨b, hb, happly⟩ := bind_eq_ok.mp happly
    obtain ⟨b', hdrain, happly⟩ := bind_eq_ok.mp happly
    obtain rfl := Except.ok.inj happly
    have hset : (⟨p.buffers.set i none, p.results⟩ : Pool β).load + b.contents.length = p.load :=
      load_set hb
    have hall : p.drained (.destroy i) = b.contents.length := by
      simp only [drained, hb, drained_eq (h.get hb).tight.sound]
      refine Nat.min_eq_right (Nat.le_trans ?_ hload)
      exact length_contents_le (List.mem_of_getElem? (mem_of_get hb))
    rw [hall]
    exact (congrArg _ (Nat.zero_add _)).trans hset

/-- In a pool of counted buffers no computation of a `size_` wraps. -/
lemma AllCounted.fits (h : p.AllCounted) (hload : p.load < SizeT.objectLimit)
    (hok : p.stepWithoutReserve op = .ok p') : p.Fits op := by
  unfold stepWithoutReserve at hok
  split_ifs at hok with hres
  obtain ⟨hpayload, -, -⟩ := step_eq_ok.mp hok
  have hlimit : ∀ {i b}, p.get i = .ok b → b.contents.length < SizeT.objectLimit := fun hb =>
    Nat.lt_of_le_of_lt (length_contents_le (List.mem_of_getElem? (mem_of_get hb))) hload
  have htwo : ∀ {i o b b'}, p.getTwo i o = .ok (b, b') → b.size + b'.size < SizeT.modulus := by
    intro i o b b' hget
    obtain ⟨-, hi, ho⟩ := getTwo_eq_ok hget
    rw [(h.get hi).size, (h.get ho).size]
    calc b.contents.length + b'.contents.length
      _ < SizeT.objectLimit + SizeT.objectLimit := Nat.add_lt_add (hlimit hi) (hlimit ho)
      _ = SizeT.modulus := rfl
  cases op with
  | create => trivial
  | call i c => exact fun b hb => (h.get hb).fits hpayload (hlimit hb)
  | appendBuffer i o => exact fun b b' => htwo
  | prependBuffer i o => exact fun b b' => htwo
  | destroy i => exact fun b hb => (h.get hb).fits (Nat.two_pow_pos 63) (hlimit hb)

end Pool

/-! ### The tally -/

/-- A pool, and how many bytes were appended or prepended, reported by `read` and removed by
`drain` so far. -/
structure Tally (β : Type) where
  pool : Pool β
  added : Nat
  read : Nat
  drained : Nat

namespace Tally

open Pool

variable {t t' : Tally β} {op : Op β}

def empty : Tally β := ⟨.empty, 0, 0, 0⟩

/-- A step of a program that never reserves. -/
def step (t : Tally β) (op : Op β) : Except Fault (Tally β) :=
  (t.pool.stepWithoutReserve op).map fun pool =>
    ⟨pool, t.added + op.payload.length, t.read + t.pool.nread op, t.drained + t.pool.drained op⟩

/-- Every extent is full, every size counts the extents, and no byte is lost. -/
structure Conserved (t : Tally β) : Prop where
  offsets : ∀ b, some b ∈ t.pool.buffers → ∀ e ∈ b.extents,
    e.readOffset ≤ e.writeOffset ∧ e.writeOffset = e.size
  size : ∀ b, some b ∈ t.pool.buffers →
    b.size = (b.extents.map fun e => e.size - e.readOffset).sum
  total : t.added = t.read + t.drained + t.pool.sizes

/-- What the steps keep. -/
structure Balanced (t : Tally β) : Prop where
  counted : t.pool.AllCounted
  load : t.pool.load < SizeT.objectLimit
  total : t.added = t.read + t.drained + t.pool.load

lemma balanced_empty : (empty : Tally β).Balanced :=
  ⟨fun _ hb => absurd hb List.not_mem_nil, Nat.two_pow_pos 63, rfl⟩

lemma Balanced.step (h : t.Balanced) (hok : t.step op = .ok t') : t'.Balanced := by
  obtain ⟨pool, hstep, rfl⟩ := map_eq_ok.mp hok
  refine ⟨h.counted.step hstep, ?_, ?_⟩
  · unfold stepWithoutReserve at hstep
    split_ifs at hstep
    exact (step_eq_ok.mp hstep).2.2
  · have hload : t.pool.load ≤ SizeT.max := Nat.le_trans (Nat.le_of_lt h.load) (by decide)
    have hdiff := h.counted.load_step hload hstep
    have htotal := h.total
    simp only
    omega

lemma Balanced.conserved (h : t.Balanced) : t.Conserved := by
  refine ⟨fun b hb e he => ?_, fun b hb => ?_, ?_⟩
  · obtain ⟨stale, bs, rfl⟩ := (h.counted b hb).tight e he
    simp
  · rw [(h.counted b hb).size, BufferImpl.length_contents]
  · rw [h.counted.sizes_eq]
    exact h.total

/-- In every run without `reserve` all extents are full and all sizes count them, the bytes added
are those read, those drained and those still there, and no size wraps in the next step. -/
theorem conserved_of_reachable (h : Exec.Reachable step empty t) :
    t.Conserved ∧ ∀ op t', t.step op = .ok t' → t.pool.Fits op := by
  have hbalanced := h.invariant Balanced (fun _ _ _ ht hok => ht.step hok) balanced_empty
  refine ⟨hbalanced.conserved, fun op t' hok => ?_⟩
  obtain ⟨pool, hstep, -⟩ := map_eq_ok.mp hok
  exact hbalanced.counted.fits hbalanced.load hstep

/-- Of five bytes one is drained and two are read. -/
theorem conserved_splice : ∃ t : Tally Char, t.added = 5 ∧ t.read = 2 ∧ t.drained = 1 ∧
    t.pool.sizes = 2 ∧ t.Conserved ∧ ∀ op t', t.step op = .ok t' → t.pool.Fits op :=
  ⟨⟨⟨[some ⟨[⟨[some 'a', some 'b', some 'c', some 'd'], 3, 4⟩, ⟨[some 'e'], 0, 1⟩], 2⟩,
      some .empty], [.copied [some 'b', some 'c']]⟩, 5, 2, 1⟩, rfl, rfl, rfl, rfl,
    conserved_of_reachable ⟨[.create, .create, .call 0 (.append ['a', 'b', 'c', 'd']),
      .call 0 (.drain 1), .call 1 (.append ['e']), .appendBuffer 0 1, .call 0 (.read 2)], rfl⟩⟩

end Tally

end WhatTheEvent
