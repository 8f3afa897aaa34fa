import WhatTheEvent.Stream.Connecting
import WhatTheEvent.Stream.Received

/-!
# Stopping to read

Between a call of `stopRead` and the next one of `startRead` there is no read callback to call, and
what is read meanwhile stays in the read buffer. The first call of `available()` after that is
passed all of it, behind what was left before.
-/

namespace WhatTheEvent

variable {β Q : Type}

/-- A method of a read callback is called. -/
def Event.onReadCallback : Event β → Bool
  | .available _ _ => true
  | .eof _ _ => true
  | .readError _ _ => true
  | _ => false

/-- The call looks at the buffer or drains it. -/
def Call.drains : Call β → Bool
  | .peek _ => true
  | .peekExtents _ => true
  | .drain _ => true
  | .size => true
  | .empty => true
  | _ => false

namespace Act

/-- The callback consumes by `drain` or by moving the whole buffer. -/
def consumes : Act β → Bool
  | .readBuffer c => c.drains
  | _ => true

/-- What the use of the buffer passed to `available()` leaves of its bytes. -/
def leaves (left : List β) : Act β → List β
  | .readBuffer (.drain count) => left.drop count
  | .moveReadBuffer => []
  | .writeReadBuffer _ => []
  | _ => left

/-- The bytes taken off the socket. -/
def taken : Act β → List β
  | .xread (.data bytes) => bytes
  | _ => []

end Act

/-- What the callbacks have left of the bytes taken off the socket. -/
def unconsumed (acts : List (Act β)) : List β :=
  acts.foldl (fun left act => act.leaves left ++ act.taken) []

lemma Event.onReadCallback_of_onWriteSide {e : Event β} (h : e.onWriteSide = true) :
    e.onReadCallback = false := by
  cases e <;> first | rfl | cases h

@[simp] lemma unconsumed_concat {acts : List (Act β)} {act : Act β} :
    unconsumed (acts ++ [act]) = act.leaves (unconsumed acts) ++ act.taken := by
  simp [unconsumed]

namespace Stream

variable {s s' s₀ s₁ : Stream Q β} {act : Act β} {acts mid : List (Act β)}
  {events : List (Event β)}

lemma readCallback_stopRead : s.stopRead.readCallback = none := by
  unfold stopRead
  split_ifs with hnone
  · exact Option.isNone_iff_eq_none.mp hnone
  all_goals rfl

/-! ### The read buffer -/

/-- A call that looks at the buffer or drains it. -/
lemma tight_call {b b' : BufferImpl β} {c : Call β} {results : List (Result β)} (h : b.Tight)
    (hc : c.drains = true) (hok : b.call c = .ok (b', results)) :
    b'.Tight ∧ b'.bytes = (Act.readBuffer c).leaves b.bytes := by
  cases c with
  | drain count =>
    obtain ⟨b₁, hb₁, -, ht, hbytes, -⟩ :=
      BufferImpl.drain_spec (n := count) h.wellFormed (h.wellFormed.clear_iff.mpr (.inr h))
    obtain rfl := BufferImpl.eq_of_call (by rw [BufferImpl.call, hb₁]; rfl) hok
    exact ⟨ht h, hbytes⟩
  | peek size =>
    obtain rfl := BufferImpl.eq_of_call rfl hok
    rw [BufferImpl.peek_eq h.sound]
    exact ⟨h, rfl⟩
  | peekExtents size | size | empty =>
    obtain rfl := BufferImpl.eq_of_call rfl hok
    exact ⟨h, rfl⟩
  | _ => cases hc

/-- Nothing is left of a buffer that was spliced into another one. -/
lemma moved_spec {b o : BufferImpl β} (h : o.Tight) :
    (b.appendBuffer o).2.Tight ∧ (b.appendBuffer o).2.bytes = [] := by
  unfold BufferImpl.appendBuffer
  split_ifs with hempty
  · refine ⟨h, ?_⟩
    rw [BufferImpl.bytes_eq, List.isEmpty_iff.mp hempty, BufferImpl.writtenBytes_nil]
  · exact ⟨BufferImpl.tight_empty, rfl⟩

lemma leaves_of_other (huse : act.usesReadBuffer = false)
    (hwrite : ∀ callback, act ≠ .writeReadBuffer callback) (left : List β) :
    act.leaves left = left := by
  cases act with
  | readBuffer | moveReadBuffer => cases huse
  | writeReadBuffer callback => exact absurd rfl (hwrite callback)
  | _ => rfl

lemma taken_of_not_xread (h : ∀ result, act ≠ .xread result) : act.taken = [] := by
  cases act with
  | xread result => exact absurd rfl (h result)
  | _ => rfl

/-- What a chunk, an end of stream or an error leaves in the read buffer. -/
lemma readBuffer_step_of_xread {result : ReadResult β} (h : s.xread result = .ok s')
    (ht : s.readBuffer.Tight) :
    s'.readBuffer.Tight ∧
      s'.readBuffer.bytes = s.readBuffer.bytes ++ (Act.xread result).taken ∧
      ((∀ e ∈ s.emitted s', e.isAvailable = false) → s'.NotInAvailable) := by
  have happended : ∀ {bytes : List β} {readBuffer : BufferImpl β},
      0 < bytes.length ∧ bytes.length ≤ readSize → s.readBuffer.append bytes = .ok readBuffer →
        readBuffer.Tight ∧ readBuffer.bytes = s.readBuffer.bytes ++ bytes := by
    intro bytes readBuffer hlen happend
    have hlimit : bytes.length < SizeT.objectLimit := Nat.lt_of_le_of_lt hlen.2 (by decide)
    obtain ⟨b, hb, -, htight, hbytes, -⟩ :=
      BufferImpl.append_spec ht.wellFormed (.inl ht.spare_eq) hlimit
    obtain rfl := Except.ok.inj (hb.symm.trans happend)
    exact ⟨htight ht, hbytes⟩
  cases xread_cases h with
  | ended hdata =>
    refine ⟨ht, ?_, fun _ nread hn => by cases hn⟩
    cases result with
    | data bytes => exact absurd rfl (hdata bytes)
    | _ => exact (List.append_nil _).symm
  | failed | eof => exact ⟨ht, (List.append_nil _).symm, fun _ nread hn => by cases hn⟩
  | available hlen happend =>
    obtain ⟨htight, hbytes⟩ := happended hlen happend
    refine ⟨htight, hbytes, fun hnone => ?_⟩
    rw [emitted_eq (List.append_assoc _ _ _)] at hnone
    exact absurd (hnone _ (List.mem_append_right _ (List.mem_singleton_self _))) nofun
  | kept hlen happend =>
    obtain ⟨htight, hbytes⟩ := happended hlen happend
    refine ⟨htight, hbytes, fun _ nread hn => ?_⟩
    simp only at hn
    split_ifs at hn
    cases hn

/-! ### Silence -/

/-- No read callback was installed or called in the step. -/
def Mute (s s' : Stream Q β) : Prop :=
  s'.readCallback = none ∧
    ∃ events, s'.trace = s.trace ++ events ∧ ∀ e ∈ events, e.onReadCallback = false

lemma mute_of_same (hcb : s'.readCallback = none) (htrace : s'.trace = s.trace) : s.Mute s' :=
  ⟨hcb, [], by rw [htrace, List.append_nil], fun e he => absurd he List.not_mem_nil⟩

lemma mute_of_concat {e : Event β} (hcb : s'.readCallback = none)
    (htrace : s'.trace = s.trace ++ [e]) (he : e.onReadCallback = false) : s.Mute s' :=
  ⟨hcb, [e], htrace, List.forall_mem_singleton.mpr he⟩

lemma mute_closeConnect (h : s.readCallback = none) : s.Mute s.closeConnect := by
  cases hcb : s.connectCallback with
  | none =>
    rw [closeConnect_of_none hcb, closeFinish_eq]
    refine ⟨h, _, rfl, ?_⟩
    split_ifs <;> simp [Event.onReadCallback]
  | some cb =>
    rw [closeConnect_of_some hcb]
    exact mute_of_concat h rfl rfl

lemma mute_connect {results : ConnectResults} {callback : Nat} (h : s.readCallback = none)
    (hok : s.connect results callback = .ok s') : s.Mute s' := by
  obtain ⟨-, hstep⟩ := connect_cases hok
  cases hstep with
  | failed error =>
    refine ⟨h, _, List.append_assoc _ _ _, List.forall_mem_append.mpr ⟨?_, ?_⟩⟩
    · split_ifs <;> simp [Event.onReadCallback]
    · simp [Event.onReadCallback]
  | pending => exact mute_of_same h rfl
  | completed => exact mute_of_concat h rfl rfl

variable [RequestQueue Q (WriteRequest β)]

/-- While no read callback is installed none is called, and only `startRead` installs one. -/
lemma mute_step (h : s.readCallback = none) (hact : ∀ callback, act ≠ .startRead callback)
    (hok : s.step act = .ok s') : s.Mute s' := by
  cases step_effect hok with
  | queue readBuffer _ _ hqueue =>
    obtain ⟨requests, -, rfl⟩ := queueWrite_cases hqueue
    exact mute_of_concat h rfl rfl
  | useBuffer readBuffer => exact mute_of_same h rfl
  | startRead callback => exact absurd rfl (hact callback)
  | stopRead =>
    refine mute_of_same readCallback_stopRead ?_
    unfold stopRead
    split_ifs <;> rfl
  | close =>
    rw [close_of_none h]
    exact mute_closeConnect h
  | connect _ hconnect => exact mute_connect h hconnect
  | destroy _ hdestroy =>
    obtain ⟨⟨requests, r⟩, -, hok⟩ := bind_eq_ok.mp hdestroy
    obtain rfl := Except.ok.inj hok
    exact mute_of_same h rfl
  | ready event =>
    rw [ready_eq]
    exact mute_of_same h rfl
  | @getsockopt _ rc _ _ _ _ _ hget =>
    obtain ⟨cb, -, rfl⟩ := getsockopt_cases hget
    refine mute_of_concat h rfl ?_
    split_ifs <;> rfl
  | xwrites _ _ _ hx =>
    obtain ⟨events, htrace, hevents⟩ := xwrites_trace hx
    refine ⟨?_, events, htrace, fun e he => e.onReadCallback_of_onWriteSide (hevents e he)⟩
    rw [xwrites_frame hx]
    exact h
  | xread _ _ _ hx =>
    cases xread_cases hx with
    | ended | kept => exact mute_of_concat h rfl rfl
    | failed hcb | eof hcb | available _ _ hcb => exact absurd (h.symm.trans hcb) nofun
  | @returned c calls _ _ hcall =>
    cases c with
    | closeRead =>
      obtain ⟨-, rfl⟩ := access_map_eq_ok.mp hcall
      exact mute_closeConnect (s := { s with calls }) h
    | closeConnect =>
      obtain ⟨-, rfl⟩ := access_map_eq_ok.mp hcall
      rw [closeFinish_eq]
      refine ⟨h, _, rfl, ?_⟩
      split_ifs <;> simp [Event.onReadCallback]
    | connect =>
      obtain rfl := Except.ok.inj hcall
      exact mute_of_same h rfl
  | resumed _ _ hd =>
    rw [resumeDispatch_eq hd]
    exact mute_of_same h rfl

lemma mute_exec (h : s.readCallback = none) (hmid : ∀ callback, .startRead callback ∉ mid)
    (hok : Exec.exec step s mid = .ok s') : s.Mute s' := by
  induction mid using List.reverseRecOn generalizing s' with
  | nil =>
    obtain rfl := Except.ok.inj hok
    exact mute_of_same h rfl
  | append_singleton mid act ih =>
    obtain ⟨s₁, hmid', hstep⟩ := Exec.exec_concat_eq_ok.mp hok
    obtain ⟨hnone, events, htrace, hevents⟩ :=
      ih (fun callback hmem => hmid callback (List.mem_append_left _ hmem)) hmid'
    obtain ⟨hnone', events', htrace', hevents'⟩ := mute_step hnone
      (fun callback heq =>
        hmid callback (List.mem_append_right _ (heq ▸ List.mem_singleton_self _)))
      hstep
    exact ⟨hnone', events ++ events', by rw [htrace', htrace, List.append_assoc],
      List.forall_mem_append.mpr ⟨hevents, hevents'⟩⟩

/-! ### Nothing is lost -/

/-- A step that takes nothing off the socket and does not use the buffer passed to `available()`. -/
lemma readBuffer_step_of_other (hok : s.step act = .ok s') (ha : s'.alive = true)
    (hx : ∀ result, act ≠ .xread result) (huse : act.usesReadBuffer = false)
    (hwrite : ∀ callback, act ≠ .writeReadBuffer callback) :
    s'.readBuffer = s.readBuffer ∧ (s.NotInAvailable → s'.NotInAvailable) := by
  have hqueue : ∀ {buffer : BufferImpl β} {callback : Option Nat},
      s.queueWrite buffer callback = .ok s' →
        s'.readBuffer = s.readBuffer ∧ (s.NotInAvailable → s'.NotInAvailable) := by
    intro buffer callback hqueue
    obtain ⟨-, -, -, hd, hbuf⟩ := queueWrite_eq_ok hqueue
    exact ⟨hbuf, fun h nread hn => h nread (hd ▸ hn)⟩
  cases step_cases hok with
  | quiet hq =>
    refine ⟨hq.readBuffer, fun h nread hn => ?_⟩
    rcases hq.dispatch _ hn with hd | hentered
    · exact h nread hd
    · cases hentered
  | write _ h => exact hqueue h
  | writeBuffer h => exact hqueue h
  | writeReadBuffer => exact absurd rfl (hwrite _)
  | readBuffer => cases huse
  | moveReadBuffer => cases huse
  | xwrites _ _ h =>
    obtain ⟨request, pass, buffer, requests, -, -, -, -, -, -, hbuf, hnot⟩ := xwrites_cases h
    exact ⟨hbuf, fun _ => hnot⟩
  | xread => exact absurd rfl (hx _)
  | destroy h =>
    obtain ⟨⟨requests, r⟩, -, hok⟩ := bind_eq_ok.mp h
    obtain rfl := Except.ok.inj hok
    cases ha

/-- A use of the buffer passed to `available()`. -/
lemma readBuffer_step_of_use (hok : s.step act = .ok s') (ht : s.readBuffer.Tight)
    (hcons : act.consumes = true)
    (huse : act.usesReadBuffer = true ∨ ∃ callback, act = .writeReadBuffer callback) :
    s.inAvailable = true ∧ s'.dispatch = s.dispatch ∧ s'.readBuffer.Tight ∧
      s'.readBuffer.bytes = act.leaves s.readBuffer.bytes ++ act.taken := by
  cases act with
  | readBuffer c =>
    simp only [step] at hok
    split_ifs at hok with hin
    simp only [useReadBuffer] at hok
    split_ifs at hok
    obtain ⟨⟨b, results⟩, hcall, rfl⟩ := map_eq_ok.mp hok
    obtain ⟨ht', hbytes⟩ := tight_call ht hcons hcall
    exact ⟨hin, rfl, ht', hbytes.trans (List.append_nil _).symm⟩
  | moveReadBuffer =>
    simp only [step] at hok
    split_ifs at hok with hin
    obtain rfl := Except.ok.inj hok
    exact ⟨hin, rfl, BufferImpl.tight_empty, rfl⟩
  | writeReadBuffer callback =>
    simp only [step] at hok
    split_ifs at hok with hin
    obtain ⟨-, -, -, hd, hbuf⟩ := queueWrite_eq_ok hok
    refine ⟨hin, hd, ?_⟩
    rw [hbuf]
    exact moved_spec ht
  | _ => simp [Act.usesReadBuffer] at huse

/-- What a step does to the read buffer. -/
structure ReadBufferStep (s : Stream Q β) (act : Act β) (s' : Stream Q β) : Prop where
  tight : s'.readBuffer.Tight
  bytes : s'.readBuffer.bytes = act.leaves s.readBuffer.bytes ++ act.taken
  kept : s.NotInAvailable → ∀ left, act.leaves left = left
  later : (∀ e ∈ s.emitted s', e.isAvailable = false) → act.taken ≠ [] ∨ s.NotInAvailable →
    s'.NotInAvailable

lemma readBufferStep_of_step (hok : s.step act = .ok s') (ha : s'.alive = true)
    (ht : s.readBuffer.Tight) (hcons : act.consumes = true) : s.ReadBufferStep act s' := by
  by_cases hx : ∃ result, act = .xread result
  · obtain ⟨result, rfl⟩ := hx
    obtain ⟨htight, hbytes, hnot⟩ := readBuffer_step_of_xread (step_xread hok).2 ht
    exact ⟨htight, hbytes, fun _ _ => rfl, fun hnone _ => hnot hnone⟩
  have hx : ∀ result, act ≠ .xread result := fun result heq => hx ⟨result, heq⟩
  have htaken := taken_of_not_xread hx
  by_cases huse : act.usesReadBuffer = true ∨ ∃ callback, act = .writeReadBuffer callback
  · obtain ⟨hin, hd, htight, hbytes⟩ := readBuffer_step_of_use hok ht hcons huse
    obtain ⟨-, nread, hin⟩ := exists_of_inAvailable hin
    refine ⟨htight, hbytes, fun hnot => absurd hin (hnot nread), fun _ h nread hn => ?_⟩
    exact h.elim (absurd htaken) fun hnot => hnot nread (hd ▸ hn)
  · obtain ⟨huse, hwrite⟩ := not_or.mp huse
    have hwrite : ∀ callback, act ≠ .writeReadBuffer callback :=
      fun callback heq => hwrite ⟨callback, heq⟩
    have hleaves := leaves_of_other (Bool.eq_false_iff.mpr huse) hwrite
    obtain ⟨hbuf, hnot⟩ :=
      readBuffer_step_of_other hok ha hx (Bool.eq_false_iff.mpr huse) hwrite
    refine ⟨hbuf ▸ ht, ?_, fun _ => hleaves, fun _ h => h.elim (absurd htaken) hnot⟩
    rw [hbuf, hleaves, htaken, List.append_nil]

/-- The read buffer holds what the callbacks have left. -/
def Holding (acts : List (Act β)) (s : Stream Q β) : Prop :=
  s.alive = true → s.readBuffer.Tight ∧ s.readBuffer.bytes = unconsumed acts

lemma Holding.step (h : Holding acts s) (hcons : act.consumes = true) (hok : s.step act = .ok s') :
    Holding (acts ++ [act]) s' := by
  intro ha
  obtain ⟨ht, hbytes⟩ := h (alive_of_step hok ha)
  have hstep := readBufferStep_of_step hok ha ht hcons
  exact ⟨hstep.tight, by rw [hstep.bytes, hbytes, unconsumed_concat]⟩

lemma Holding.exec (h : Holding acts s₀) (hcons : ∀ act ∈ mid, act.consumes = true)
    (hok : Exec.exec Stream.step s₀ mid = .ok s₁) : Holding (acts ++ mid) s₁ := by
  induction mid using List.reverseRecOn generalizing s₁ with
  | nil =>
    obtain rfl := Except.ok.inj hok
    rwa [List.append_nil]
  | append_singleton mid act ih =>
    obtain ⟨s', hmid, hstep⟩ := Exec.exec_concat_eq_ok.mp hok
    rw [List.forall_mem_append, List.forall_mem_singleton] at hcons
    rw [← List.append_assoc]
    exact (ih hcons.1 hmid).step hcons.2 hstep

lemma holding_new (fd : Int) : Holding [] (new fd : Stream Q β) :=
  fun _ => ⟨BufferImpl.tight_empty, rfl⟩

lemma exec_trace (hok : Exec.exec step s₀ mid = .ok s₁) :
    ∃ events, s₁.trace = s₀.trace ++ events := by
  induction mid using List.reverseRecOn generalizing s₁ with
  | nil =>
    obtain rfl := Except.ok.inj hok
    exact ⟨[], (List.append_nil _).symm⟩
  | append_singleton mid act ih =>
    obtain ⟨s', hmid, hstep⟩ := Exec.exec_concat_eq_ok.mp hok
    obtain ⟨events, htrace⟩ := ih hmid
    obtain ⟨events', htrace'⟩ := step_trace hstep
    exact ⟨events ++ events', by rw [htrace', htrace, List.append_assoc]⟩

/-- As long as `available()` is not called, callbacks consume only what was there before. -/
lemma unconsumed_append (h : Holding acts s₀) (hcons : ∀ act ∈ mid, act.consumes = true)
    (hok : Exec.exec step s₀ mid = .ok s₁) (ha : s₁.alive = true)
    (hnone : ∀ e ∈ s₀.emitted s₁, e.isAvailable = false) :
    unconsumed (acts ++ mid) =
        mid.foldl Act.leaves (unconsumed acts) ++ mid.flatMap Act.taken ∧
      (mid.flatMap Act.taken = [] ∨ s₁.NotInAvailable) := by
  induction mid using List.reverseRecOn generalizing s₁ with
  | nil => simp
  | append_singleton mid act ih =>
    obtain ⟨s', hmid, hstep⟩ := Exec.exec_concat_eq_ok.mp hok
    rw [List.forall_mem_append, List.forall_mem_singleton] at hcons
    obtain ⟨events, htrace⟩ := exec_trace hmid
    obtain ⟨events', htrace'⟩ := step_trace hstep
    have halive := alive_of_step hstep ha
    rw [emitted_eq (htrace'.trans (htrace ▸ List.append_assoc _ _ _)),
      List.forall_mem_append] at hnone
    obtain ⟨heq, hbefore⟩ := ih hcons.1 hmid halive (by rw [emitted_eq htrace]; exact hnone.1)
    obtain ⟨ht, -⟩ := h.exec hcons.1 hmid halive
    have hread := readBufferStep_of_step hstep ha ht hcons.2
    have hlater := hread.later (by rw [emitted_eq htrace']; exact hnone.2)
    rw [← List.append_assoc, unconsumed_concat, heq, List.foldl_append, List.flatMap_append]
    simp only [List.foldl_cons, List.foldl_nil, List.flatMap_cons, List.flatMap_nil,
      List.append_nil]
    rcases hbefore with hnil | hnot
    · rw [hnil, List.append_nil, List.nil_append]
      exact ⟨rfl, or_iff_not_imp_left.mpr fun hne => hlater (.inl hne)⟩
    · rw [hread.kept hnot, hread.kept hnot, List.append_assoc]
      exact ⟨rfl, .inr (hlater (.inr hnot))⟩

/-- `available()` is called with the read buffer, for a chunk that was taken off the socket. -/
lemma available_step (hside : s.ReadSide) (hok : s.step act = .ok s') {cb : Nat}
    {buffer : BufferImpl β} (hmem : .available cb buffer ∈ s.emitted s') :
    ∃ chunk, act = .xread (.data chunk) ∧ s'.readBuffer = buffer ∧ s'.alive = true := by
  by_cases hx : ∃ result, act = .xread result
  · obtain ⟨result, rfl⟩ := hx
    obtain ⟨ha, hread⟩ := step_xread hok
    cases xread_cases hread with
    | ended | kept =>
      rw [emitted_eq rfl] at hmem
      simp at hmem
    | failed | eof =>
      rw [emitted_eq (List.append_assoc _ _ _)] at hmem
      simp at hmem
    | @available bytes =>
      rw [emitted_eq (List.append_assoc _ _ _)] at hmem
      simp only [List.singleton_append, List.mem_cons, reduceCtorEq, Event.available.injEq,
        List.not_mem_nil, or_false, false_or] at hmem
      exact ⟨bytes, rfl, hmem.2.symm, ha⟩
  · obtain ⟨-, events, htrace, hevents⟩ :=
      step_readSide hside hok fun result heq => hx ⟨result, heq⟩
    rw [emitted_eq htrace] at hmem
    exact absurd (hevents _ hmem) nofun

/-! ### The law of `stopRead` -/

/-- After a call of `stopRead`, with `acts` before and `mid` after it: no read callback is called
before `startRead` is, and the first call of `available()` is passed what was left before, less what
the callback that called `stopRead` goes on to consume, all that was taken off the socket since, and
the new chunk. -/
structure StopReadLaw (acts mid : List (Act β)) (s₀ s₁ : Stream Q β) : Prop where
  silent : (∀ callback, .startRead callback ∉ mid) →
    ∀ e ∈ s₀.emitted s₁, e.onReadCallback = false
  lossless : (∀ act ∈ acts ++ mid, act.consumes = true) →
    (∀ e ∈ s₀.emitted s₁, e.isAvailable = false) →
    ∀ act s₂ cb buffer, s₁.step act = .ok s₂ → .available cb buffer ∈ s₁.emitted s₂ →
      ∃ chunk, act = .xread (.data chunk) ∧ buffer.contents =
        (mid.foldl Act.leaves (unconsumed acts) ++ mid.flatMap Act.taken ++ chunk).map some

/-- The law holds of every call of `stopRead`, whatever was done before it and is done after it. -/
theorem stopReadLaw_of_exec (fd : Int) (acts mid : List (Act β))
    (h₀ : Exec.exec step (new fd : Stream Q β) (acts ++ [.stopRead]) = .ok s₀)
    (h₁ : Exec.exec step s₀ mid = .ok s₁) : StopReadLaw acts mid s₀ s₁ := by
  constructor
  · intro hmid
    obtain ⟨s, -, hstop⟩ := Exec.exec_concat_eq_ok.mp h₀
    have hnone : s₀.readCallback = none := by
      simp only [step] at hstop
      split_ifs at hstop
      obtain rfl := Except.ok.inj hstop
      exact readCallback_stopRead
    obtain ⟨-, events, htrace, hevents⟩ := mute_exec hnone hmid h₁
    rwa [emitted_eq htrace]
  · intro hcons hnone act s₂ cb buffer hstep hmem
    have hside : s₁.ReadSide := by
      have hrun := Exec.exec_append_eq_ok.mpr ⟨s₀, h₀, h₁⟩
      exact Exec.exec_invariant (P := fun _ _ => True) ReadSide
        (fun _ _ _ hside _ hok => (hside.step hok).1) (readSide_new fd)
        (Exec.Along.of_forall fun _ _ => trivial) hrun
    obtain ⟨chunk, rfl, hbuffer, ha⟩ := available_step hside hstep hmem
    refine ⟨chunk, rfl, ?_⟩
    rw [List.forall_mem_append] at hcons
    have hstop : ∀ act ∈ acts ++ [.stopRead], act.consumes = true :=
      List.forall_mem_append.mpr ⟨hcons.1, List.forall_mem_singleton.mpr rfl⟩
    have hold : Holding (acts ++ [.stopRead]) s₀ := (holding_new fd).exec hstop h₀
    have halive := alive_of_step hstep ha
    obtain ⟨ht, hbytes⟩ := (hold.exec hcons.2 h₁).step rfl hstep ha
    obtain ⟨happend, -⟩ := unconsumed_append hold hcons.2 h₁ halive hnone
    have hleft : unconsumed (acts ++ [.stopRead]) = unconsumed acts := by
      rw [unconsumed_concat]
      exact List.append_nil _
    rw [← hbuffer, ht.contents_eq, hbytes, unconsumed_concat, happend, hleft]
    rfl

/-- `stopRead` is called from `available()`, which then drains a byte; more arrives before the next
`startRead` and after it. -/
theorem stopReadLaw_in_available : ∃ s₀ s₁ : Stream (Requests (WriteRequest Char)) Char,
    Exec.exec step (new 3) ([.startRead (some 1), .ready .read, .xread (.data ['a', 'b'])] ++
      [.stopRead]) = .ok s₀ ∧
    Exec.exec step s₀ [.readBuffer (.drain 1), .ret, .ready .read, .xread (.data ['c']),
      .startRead (some 2), .ready .read] = .ok s₁ ∧
    (∀ e ∈ s₀.emitted s₁, e.isAvailable = false) ∧
    ∀ s₂ cb buffer, s₁.step (.xread (.data ['d'])) = .ok s₂ →
      .available cb buffer ∈ s₁.emitted s₂ → buffer.contents = [some 'b', some 'c', some 'd'] := by
  refine ⟨_, _, rfl, rfl, by decide, fun s₂ cb buffer hstep hmem => ?_⟩
  have hlaw := stopReadLaw_of_exec (Q := Requests (WriteRequest Char)) 3
    [.startRead (some 1), .ready .read, .xread (.data ['a', 'b'])]
    [.readBuffer (.drain 1), .ret, .ready .read, .xread (.data ['c']), .startRead (some 2),
      .ready .read] rfl rfl
  obtain ⟨chunk, hact, hcontents⟩ :=
    hlaw.lossless (by decide) (by decide) _ _ cb buffer hstep hmem
  obtain rfl := ReadResult.data.inj (Act.xread.inj hact)
  exact hcontents

end Stream

end WhatTheEvent
