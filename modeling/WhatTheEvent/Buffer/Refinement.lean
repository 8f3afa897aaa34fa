import WhatTheEvent.Buffer.Pool

/-!
# Buffers as byte lists

A call that is `Safe` on a buffer acts on it as on the list of its bytes. On tight buffers every
call of the stream write path is safe, so programs made of these refine `ByteLists`.
-/

namespace WhatTheEvent

variable {β : Type}

namespace BufferImpl

variable {b : BufferImpl β} {l : List β} {c : Call β}

/-- The conditions under which a call acts as it would on a list of bytes. -/
def Safe (b : BufferImpl β) : Call β → Prop
  | .append buf => b.AppendFits buf
  | .prepend buf => b.PrependFits buf
  | .read size => b.Clear size ∧ b.Aligned size
  | .peek size => b.Clear size ∧ b.Aligned size
  | .peekExtents size => b.Clear size
  | .drain count => b.Clear count
  | .reserve size => SizeT.sub size b.spare < SizeT.objectLimit
  | .reserveExtents size => SizeT.sub size b.spare < SizeT.objectLimit
  | .size => True
  | .empty => True

/-- The buffer holds the bytes of `l`, and its size says so. -/
structure Holds (b : BufferImpl β) (l : List β) : Prop where
  wellFormed : b.WellFormed
  bytes : b.bytes = l
  size : b.size = l.length

lemma holds_empty : (empty : BufferImpl β).Holds [] :=
  ⟨tight_empty.wellFormed, rfl, rfl⟩

lemma Holds.isEmpty (h : b.Holds l) : b.isEmpty = l.isEmpty := by
  rw [BufferImpl.isEmpty, h.size]
  cases l <;> rfl

/-- What a result list shows, and that the extents it contains are not empty. -/
def Shows (results : List (Result β)) (observations : List (Observation β)) : Prop :=
  results.filterMap Result.observe = observations ∧
    ∀ memory, Result.extents memory ∈ results → ∀ m ∈ memory, m ≠ []

lemma shows_nil : Shows ([] : List (Result β)) [] := ⟨rfl, by simp⟩

lemma Shows.append {results results' : List (Result β)} {obs obs' : List (Observation β)}
    (h : Shows results obs) (h' : Shows results' obs') :
    Shows (results ++ results') (obs ++ obs') := by
  refine ⟨by rw [List.filterMap_append, h.1, h'.1], ?_⟩
  intro memory hmem
  rcases List.mem_append.mp hmem with hmem | hmem
  · exact h.2 memory hmem
  · exact h'.2 memory hmem

/-- A safe call returns, acts on the bytes as `ByteLists` says, and shows what `ByteLists` shows.
Without `reserve` it leaves tight buffers tight. -/
theorem call_refines (h : b.Holds l) (hsafe : b.Safe c)
    (hpayload : c.payload.length < SizeT.objectLimit)
    (hafter : (ByteLists.afterCall l c).length < SizeT.objectLimit) :
    ∃ b' results, b.call c = .ok (b', results) ∧ b'.Holds (ByteLists.afterCall l c) ∧
      Shows results (ByteLists.shown l c) ∧ (b.Tight → c.reserves = false → b'.Tight) := by
  obtain ⟨hwf, rfl, hsize⟩ := h
  have hlimit : (ByteLists.afterCall b.bytes c).length < 2 ^ 63 := hafter
  cases c with
  | append buf =>
    simp only [ByteLists.afterCall, List.length_append] at hlimit
    change buf.length < SizeT.objectLimit at hpayload
    obtain ⟨b', hok, hwf', ht', hbytes, hsz⟩ := append_spec hwf hsafe hpayload
    refine ⟨b', [], by simp [call, hok], ⟨hwf', hbytes, ?_⟩, shows_nil, fun ht _ => ht' ht⟩
    rw [hsz, hsize, ByteLists.afterCall, List.length_append, SizeT.add_of_lt (by omega)]
  | prepend buf =>
    simp only [ByteLists.afterCall, List.length_append] at hlimit
    change buf.length < SizeT.objectLimit at hpayload
    obtain ⟨stale, hstale, hroom⟩ := hwf.consumedCells_eq
    obtain ⟨b', hok, hwf', ht', hsz, -, hbytes⟩ := prepend_spec hwf hstale hpayload
    rw [hsafe.prefixed_eq hroom] at hbytes
    refine ⟨b', [], by simp [call, hok], ⟨hwf', hbytes, ?_⟩, shows_nil, fun ht _ => ht' ht⟩
    rw [hsz, hsize, ByteLists.afterCall, List.length_append, SizeT.add_of_lt (by omega),
      Nat.add_comm]
  | read size =>
    obtain ⟨hout, hwf', hbytes, hsz⟩ := read_bytes_spec hwf hsafe.1 hsafe.2
    refine ⟨_, _, rfl, ⟨hwf', hbytes, ?_⟩, ⟨?_, by simp⟩, fun ht _ => ht.read⟩
    · rw [hsz (by omega), hsize, ByteLists.afterCall, List.length_drop]
      omega
    · simp [Result.observe, hout, ByteLists.shown]
  | peek size =>
    have hpeek := peek_bytes_spec hwf hsafe.1 hsafe.2
    refine ⟨_, _, rfl, ?_, ⟨?_, by simp⟩, ?_⟩
    · rw [hpeek]
      exact ⟨hwf, rfl, hsize⟩
    · simp [Result.observe, hpeek, ByteLists.shown]
    · rw [hpeek]
      exact fun ht _ => ht
  | peekExtents size =>
    obtain ⟨hne, hflat⟩ := peekExtents_bytes_spec hwf hsafe
    refine ⟨_, _, rfl, ⟨hwf, rfl, hsize⟩, ⟨?_, ?_⟩, fun ht _ => ht⟩
    · simp [Result.observe, hflat, ByteLists.shown]
    · intro memory hmem
      rw [List.mem_singleton, Result.extents.injEq] at hmem
      exact hmem ▸ hne
  | drain count =>
    obtain ⟨b', hok, hwf', ht', hbytes, hsz⟩ := drain_spec hwf hsafe
    refine ⟨b', [], by simp [call, hok], ⟨hwf', hbytes, ?_⟩, shows_nil, fun ht _ => ht' ht⟩
    rw [hsz, hsize, SizeT.sub_of_le (Nat.min_le_right _ _), ByteLists.afterCall, List.length_drop]
    omega
  | size =>
    refine ⟨_, _, rfl, ⟨hwf, rfl, hsize⟩, ⟨?_, by simp⟩, fun ht _ => ht⟩
    simp [Result.observe, hsize, ByteLists.shown]
  | empty =>
    refine ⟨_, _, rfl, ⟨hwf, rfl, hsize⟩, ⟨?_, by simp⟩, fun ht _ => ht⟩
    simp [Result.observe, Holds.isEmpty ⟨hwf, rfl, hsize⟩, ByteLists.shown]
  | reserve size =>
    obtain ⟨b', hok, hwf', hbytes, hsz⟩ := reserve_spec hwf hsafe
    exact ⟨b', [], by simp [call, hok], ⟨hwf', hbytes, hsz.trans hsize⟩, shows_nil,
      by simp [Call.reserves]⟩
  | reserveExtents size =>
    obtain ⟨b', hok, hwf', hbytes, hsz⟩ := reserve_spec hwf hsafe
    rw [← reserveExtents_fst, map_eq_ok] at hok
    obtain ⟨⟨b'', extents⟩, hok, rfl⟩ := hok
    exact ⟨b'', [.reserved extents], by simp [call, hok], ⟨hwf', hbytes, hsz.trans hsize⟩,
      ⟨rfl, by simp⟩, by simp [Call.reserves]⟩

lemma Holds.of_isEmpty (h : b.Holds l) (he : b.extents.isEmpty = true) : l = [] := by
  rw [List.isEmpty_iff] at he
  rw [← h.bytes, bytes_eq, he]
  rfl

section Splice

variable {o : BufferImpl β} {l' : List β}

/-- Any way of joining two lists of extents that joins the bytes alike serves for a splice. -/
lemma Holds.join (extents : List (InternalExtent β)) {joined : List β} (h : b.Holds l)
    (ho : o.Holds l') (hmem : ∀ e ∈ extents, e ∈ b.extents ∨ e ∈ o.extents)
    (hbytes : writtenBytes extents = joined) (hlen : joined.length = l.length + l'.length)
    (hlimit : joined.length < SizeT.objectLimit) :
    (⟨extents, SizeT.add b.size o.size⟩ : BufferImpl β).Holds joined ∧
      (b.Tight → o.Tight → (⟨extents, SizeT.add b.size o.size⟩ : BufferImpl β).Tight) := by
  change joined.length < 2 ^ 63 at hlimit
  refine ⟨⟨?_, hbytes, ?_⟩, ?_⟩
  · intro e he
    exact (hmem e he).elim (h.wellFormed e) (ho.wellFormed e)
  · rw [h.size, ho.size, SizeT.add_of_lt (by omega), hlen]
  · intro ht hto e he
    exact (hmem e he).elim (ht e) (hto e)

/-- `append(Buffer*)` moves the bytes of the other buffer to the end. -/
theorem appendBuffer_refines (h : b.Holds l) (ho : o.Holds l')
    (hlimit : (l ++ l').length < SizeT.objectLimit) :
    (b.appendBuffer o).1.Holds (l ++ l') ∧ (b.appendBuffer o).2.Holds [] ∧
      (b.Tight → o.Tight → (b.appendBuffer o).1.Tight ∧ (b.appendBuffer o).2.Tight) := by
  unfold appendBuffer
  by_cases he : o.extents.isEmpty = true
  · obtain rfl := ho.of_isEmpty he
    rw [if_pos he, List.append_nil]
    exact ⟨h, ho, fun ht hto => ⟨ht, hto⟩⟩
  · rw [if_neg he]
    obtain ⟨hholds, htight⟩ := h.join (b.extents ++ o.extents) ho
      (fun e he => List.mem_append.mp he) (by rw [writtenBytes_append, ← bytes_eq, ← bytes_eq,
        h.bytes, ho.bytes]) List.length_append hlimit
    exact ⟨hholds, holds_empty, fun ht hto => ⟨htight ht hto, tight_empty⟩⟩

/-- `prepend(Buffer*)` moves the bytes of the other buffer to the front. -/
theorem prependBuffer_refines (h : b.Holds l) (ho : o.Holds l')
    (hlimit : (l' ++ l).length < SizeT.objectLimit) :
    (b.prependBuffer o).1.Holds (l' ++ l) ∧ (b.prependBuffer o).2.Holds [] ∧
      (b.Tight → o.Tight → (b.prependBuffer o).1.Tight ∧ (b.prependBuffer o).2.Tight) := by
  unfold prependBuffer
  by_cases he : o.extents.isEmpty = true
  · obtain rfl := ho.of_isEmpty he
    rw [if_pos he, List.nil_append]
    exact ⟨h, ho, fun ht hto => ⟨ht, hto⟩⟩
  · rw [if_neg he]
    obtain ⟨hholds, htight⟩ := h.join (o.extents ++ b.extents) ho
      (fun e he => (List.mem_append.mp he).symm) (by rw [writtenBytes_append, ← bytes_eq,
        ← bytes_eq, h.bytes, ho.bytes]) (by rw [List.length_append, Nat.add_comm]) hlimit
    exact ⟨hholds, holds_empty, fun ht hto => ⟨htight ht hto, tight_empty⟩⟩

end Splice

end BufferImpl

/-! ### Simulation -/

namespace Pool

open BufferImpl

variable {p : Pool β} {s s' : ByteLists β} {op : Op β}

/-- A buffer without reserved space and the list that it holds; nothing for a destroyed buffer. -/
def SlotRefines : Option (BufferImpl β) → Option (List β) → Prop
  | some b, some l => b.Tight ∧ b.Holds l
  | none, none => True
  | _, _ => False

/-- Every buffer of the pool holds its list, and the results show what the lists show. -/
structure Refines (p : Pool β) (s : ByteLists β) : Prop where
  slots : List.Forall₂ SlotRefines p.buffers s.lists
  results : Shows p.results s.observations

lemma refines_empty : (empty : Pool β).Refines ByteLists.empty :=
  ⟨List.Forall₂.nil, shows_nil⟩

lemma SlotRefines.load {b : Option (BufferImpl β)} {l : Option (List β)} (h : SlotRefines b l) :
    slotLoad b = ByteLists.slotLoad l := by
  cases b <;> cases l <;> simp only [SlotRefines] at h
  · rfl
  · obtain ⟨ht, hholds⟩ := h
    rw [slotLoad, ht.length_contents, hholds.bytes]
    rfl

lemma Refines.load (h : p.Refines s) : p.load = s.load := by
  have hslots : p.buffers.map slotLoad = s.lists.map ByteLists.slotLoad := by
    rw [← List.forall₂_eq_eq_eq, List.forall₂_map_left_iff, List.forall₂_map_right_iff]
    exact h.slots.imp fun _ _ => SlotRefines.load
  exact congrArg List.sum hslots

lemma Refines.get {i : Nat} {l : List β} (h : p.Refines s) (hl : s.get i = .ok l) :
    ∃ b, p.get i = .ok b ∧ b.Tight ∧ b.Holds l := by
  unfold ByteLists.get at hl
  split at hl
  · rename_i l' hi
    rw [Except.ok.injEq] at hl
    subst hl
    obtain ⟨slot, hslot, hrel⟩ := Pointwise.exists_of_getElem?' h.slots hi
    cases slot with
    | none => exact absurd hrel id
    | some b => exact ⟨b, by rw [Pool.get, hslot], hrel.1, hrel.2⟩
  · cases hl
  · cases hl

lemma Refines.set {i : Nat} {b : BufferImpl β} {l : List β} (h : p.Refines s) (ht : b.Tight)
    (hholds : b.Holds l) : (p.set i b).Refines { s with lists := s.lists.set i (some l) } :=
  ⟨Pointwise.forall₂_set h.slots ⟨ht, hholds⟩, h.results⟩

/-- The call of the step is safe on the buffer that it is made on. -/
def Safe (p : Pool β) : Op β → Prop
  | .call i c => ∀ b, p.get i = .ok b → b.Safe c
  | _ => True

/-- No list is longer than all of them together. -/
lemma length_le_load {lists : List (Option (List β))} {i : Nat} {l : List β}
    (h : lists[i]? = some (some l)) : l.length ≤ (lists.map ByteLists.slotLoad).sum := by
  change ByteLists.slotLoad (some l) ≤ _
  exact List.le_sum_of_mem (List.mem_map_of_mem (List.mem_of_getElem? h))

/-- A list written at `i` is still there once another place was written. -/
lemma getElem?_set_set {i o : Nat} {l : List β} (joined : List β) (hio : i ≠ o)
    (hi : s.get i = .ok l) :
    ((s.lists.set i (some joined)).set o (some []))[i]? = some (some joined) :=
  (List.getElem?_set_ne hio.symm).trans (List.getElem?_set_self (ByteLists.lt_length_of_get hi))

lemma Refines.getTwo {i o : Nat} {l l' : List β} (h : p.Refines s)
    (hl : s.getTwo i o = .ok (l, l')) :
    ∃ b b', p.getTwo i o = .ok (b, b') ∧ (b.Tight ∧ b.Holds l) ∧ b'.Tight ∧ b'.Holds l' := by
  obtain ⟨hio, hi, ho⟩ := ByteLists.getTwo_eq_ok hl
  obtain ⟨b, hb, hrel⟩ := h.get hi
  obtain ⟨b', hb', hrel'⟩ := h.get ho
  exact ⟨b, b', by simp [Pool.getTwo, hio, hb, hb'], hrel, hrel'⟩

/-- A safe step without `reserve` is the step of the byte lists. -/
lemma apply_refines (h : p.Refines s) (hres : op.reserves = false) (hsafe : p.Safe op)
    (hpayload : op.payload.length < SizeT.objectLimit) (hs : s.apply op = .ok s')
    (hload : s'.load < SizeT.objectLimit) : ∃ p', p.apply op = .ok p' ∧ p'.Refines s' := by
  cases op with
  | create =>
    simp only [ByteLists.apply, Except.ok.injEq] at hs
    subst hs
    exact ⟨_, rfl, Pointwise.forall₂_concat h.slots ⟨tight_empty, holds_empty⟩, h.results⟩
  | call i c =>
    simp only [ByteLists.apply, bind_eq_ok, pure_eq_ok, Except.ok.injEq] at hs
    obtain ⟨l, hl, rfl⟩ := hs
    obtain ⟨b, hb, ht, hholds⟩ := h.get hl
    have hafter : (ByteLists.afterCall l c).length ≤ _ :=
      length_le_load (List.getElem?_set_self (ByteLists.lt_length_of_get hl))
    obtain ⟨b', results, hok, hholds', hshows, ht'⟩ :=
      call_refines hholds (hsafe b hb) hpayload (Nat.lt_of_le_of_lt hafter hload)
    refine ⟨{ p.set i b' with results := p.results ++ results }, by simp [Pool.apply, hb, hok], ?_⟩
    exact ⟨(h.set (ht' ht hres) hholds').slots, h.results.append hshows⟩
  | appendBuffer i o =>
    simp only [ByteLists.apply, bind_eq_ok, pure_eq_ok, Except.ok.injEq] at hs
    obtain ⟨⟨l, l'⟩, hl, rfl⟩ := hs
    obtain ⟨hio, hi, -⟩ := ByteLists.getTwo_eq_ok hl
    obtain ⟨b, b', hb, ⟨ht, hholds⟩, ht', hholds'⟩ := h.getTwo hl
    have hjoined := length_le_load (getElem?_set_set (l ++ l') hio hi)
    obtain ⟨hjoin, hempty, htight⟩ :=
      appendBuffer_refines hholds hholds' (Nat.lt_of_le_of_lt hjoined hload)
    obtain ⟨htb, hto⟩ := htight ht ht'
    exact ⟨_, by simp only [Pool.apply, hb, ok_bind, pure_eq_ok], (h.set htb hjoin).set hto hempty⟩
  | prependBuffer i o =>
    simp only [ByteLists.apply, bind_eq_ok, pure_eq_ok, Except.ok.injEq] at hs
    obtain ⟨⟨l, l'⟩, hl, rfl⟩ := hs
    obtain ⟨hio, hi, -⟩ := ByteLists.getTwo_eq_ok hl
    obtain ⟨b, b', hb, ⟨ht, hholds⟩, ht', hholds'⟩ := h.getTwo hl
    have hjoined := length_le_load (getElem?_set_set (l' ++ l) hio hi)
    obtain ⟨hjoin, hempty, htight⟩ :=
      prependBuffer_refines hholds hholds' (Nat.lt_of_le_of_lt hjoined hload)
    obtain ⟨htb, hto⟩ := htight ht ht'
    exact ⟨_, by simp only [Pool.apply, hb, ok_bind, pure_eq_ok], (h.set htb hjoin).set hto hempty⟩
  | destroy i =>
    simp only [ByteLists.apply, bind_eq_ok, pure_eq_ok, Except.ok.injEq] at hs
    obtain ⟨l, hl, rfl⟩ := hs
    obtain ⟨b, hb, ht, -⟩ := h.get hl
    refine ⟨{ p with buffers := p.buffers.set i none },
      by simp only [Pool.apply, hb, ok_bind, drain_eq ht.sound, pure_eq_ok], ?_⟩
    exact ⟨Pointwise.forall₂_set h.slots trivial, h.results⟩

theorem step_refines (h : p.Refines s) (hres : op.reserves = false) (hsafe : p.Safe op)
    (hs : s.step op = .ok s') : ∃ p', p.step op = .ok p' ∧ p'.Refines s' := by
  unfold ByteLists.step at hs
  split_ifs at hs with hpayload
  rw [bind_eq_ok] at hs
  obtain ⟨s₁, happly, hload⟩ := hs
  split_ifs at hload with hlt
  obtain rfl := Except.ok.inj hload
  obtain ⟨p', hok, hrefines⟩ := apply_refines h hres hsafe hpayload happly hlt
  refine ⟨p', ?_, hrefines⟩
  rw [Pool.step, if_pos hpayload, hok, ok_bind, if_pos (hrefines.load ▸ hlt)]

/-! ### The write path -/

/-- The operations that the write path of a stream performs on buffers, and the observers. -/
def OnWritePath : Op β → Prop
  | .call _ (.append _) => True
  | .call _ (.peekExtents _) => True
  | .call _ (.drain _) => True
  | .call _ .size => True
  | .call _ .empty => True
  | .call _ _ => False
  | _ => True

lemma OnWritePath.reserves (h : OnWritePath op) : op.reserves = false := by
  cases op with
  | call i c => cases c <;> first | rfl | exact absurd h id
  | _ => rfl

/-- On tight buffers the write path is safe: there is no reserved space to run into. -/
lemma OnWritePath.safe (hr : p.Refines s) (h : OnWritePath op) : p.Safe op := by
  cases op with
  | call i c =>
    intro b hb
    have ht : b.Tight := by
      unfold Pool.get at hb
      split at hb
      · rename_i b' hi
        obtain rfl := Except.ok.inj hb
        obtain ⟨slot, -, hrel⟩ := Pointwise.exists_of_getElem? hr.slots hi
        cases slot with
        | none => exact absurd hrel id
        | some l => exact hrel.1
      · cases hb
      · cases hb
    cases c with
    | append buf => exact Or.inl ht.spare_eq
    | peekExtents size => exact ht.wellFormed.clear_iff.mpr (Or.inr ht)
    | drain count => exact ht.wellFormed.clear_iff.mpr (Or.inr ht)
    | size => trivial
    | empty => trivial
    | _ => exact absurd h id
  | _ => trivial

/-- Programs of creations, appends, splices, drains and extent peeks over any number of buffers do
to the buffers what they do to lists of bytes. They do not fail where the lists do not, so every
call returns. -/
theorem pool_refines_byteLists (ops : List (Op β)) (hops : ∀ op ∈ ops, OnWritePath op)
    (h : Exec.exec ByteLists.step ByteLists.empty ops = .ok s) :
    ∃ p, Exec.exec Pool.step Pool.empty ops = .ok p ∧
      List.Forall₂ SlotRefines p.buffers s.lists ∧
      p.results.filterMap Result.observe = s.observations ∧
      ∀ memory, Result.extents memory ∈ p.results → ∀ m ∈ memory, m ≠ [] := by
  obtain ⟨p, hok, hrefines⟩ := Exec.exec_simulates Refines OnWritePath
    (fun _ _ _ _ hr hop hs => step_refines hr hop.reserves (hop.safe hr) hs) refines_empty hops h
  exact ⟨p, hok, hrefines.slots, hrefines.results⟩

/-- Two buffers are spliced and drained across the boundary between their extents. -/
theorem pool_refines_byteLists_splice : ∃ p : Pool Char,
    Exec.exec Pool.step Pool.empty
      [.create, .create, .call 0 (.append ['a', 'b', 'c']), .call 1 (.append ['d', 'e']),
        .appendBuffer 0 1, .call 0 (.drain 2), .call 0 (.peekExtents 2), .call 0 .size] = .ok p ∧
      List.Forall₂ SlotRefines p.buffers [some ['c', 'd', 'e'], some []] ∧
      p.results.filterMap Result.observe = [.cells [some 'c', some 'd'], .size 3] ∧
      ∀ memory, Result.extents memory ∈ p.results → ∀ m ∈ memory, m ≠ [] :=
  pool_refines_byteLists (s := ⟨[some ['c', 'd', 'e'], some []], _⟩) _
    (by simp [OnWritePath]) (by decide)

end Pool

end WhatTheEvent
