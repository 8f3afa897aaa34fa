import WhatTheEvent.Stream.ByteLaw
import WhatTheEvent.Stream.Effect
import WhatTheEvent.Stream.Freeing
import WhatTheEvent.Stream.LinkedRequests
import WhatTheEvent.Stream.Queued

/-!
# The bytes on their way out

`append` links a request behind the one that `tail` points to, which is the first one or has been
consumed. A request that was linked there before is lost. What the socket accepts is therefore a
subsequence of what was written, and is followed by what is left of it in exactly those runs in
which no request that holds bytes is replaced.
-/

namespace WhatTheEvent

variable {β ρ : Type}

/-! ### Requests of which two can be reached -/

namespace Requests

variable {q q' : Requests ρ} {request request' : ρ} {a : Nat} {items rest : List (Nat × ρ)}

/-- The request linked behind the first one. -/
def second (q : Requests ρ) : Option ρ := do
  let node ← q.heap.load (← q.head)
  let next ← q.heap.load (← node.next)
  pure next.request

/-- These requests can be reached, and `tail` is the first of them or was consumed. -/
structure Short (q : Requests ρ) (items : List (Nat × ρ)) : Prop where
  linked : Linked q.heap q.head items
  nodup : (items.map Prod.fst).Nodup
  length : items.length ≤ 2
  tail : ∀ t node, q.tail = some t → q.heap.load t = some node → q.head = some t
  tail_lt : ∀ t, q.tail = some t → t < q.heap.fresh

lemma short_empty : (empty : Requests ρ).Short [] where
  linked := rfl
  nodup := List.nodup_nil
  length := Nat.zero_le _
  tail _ _ ht := by cases ht
  tail_lt _ ht := by cases ht

lemma Short.second_eq (h : q.Short items) : q.second = (items.map Prod.snd)[1]? := by
  have hlinked := h.linked
  cases items with
  | nil => simp [second, show q.head = none from hlinked]
  | cons item rest =>
    obtain ⟨a, request⟩ := item
    obtain ⟨hhead, next, hload, hrest⟩ := hlinked
    cases rest with
    | nil =>
      obtain rfl : next = none := hrest
      simp [second, hhead, hload]
    | cons item rest =>
      obtain ⟨b, request'⟩ := item
      obtain ⟨rfl, next', hload', -⟩ := hrest
      simp [second, hhead, hload, hload']

/-- Only where `tail` was not consumed can a request be appended to a list that is not empty. -/
lemma load_tail_of_append (hhead : q.head = some a)
    (hlt : ∀ t, q.tail = some t → t < q.heap.fresh) (hok : q.append request = .ok q') :
    ∃ t node, q.tail = some t ∧ q.heap.load t = some node := by
  unfold append at hok
  rw [hhead] at hok
  cases ht : q.tail with
  | none =>
    rw [ht] at hok
    cases hok
  | some t =>
    rw [ht] at hok
    obtain ⟨node, hnode, -⟩ := bind_eq_ok.mp hok
    rw [deref_eq_ok, Heap.load_alloc_of_ne (Nat.ne_of_lt (hlt t ht))] at hnode
    exact ⟨t, node, rfl, hnode⟩

/-- The first request stays and the new one is linked to it. -/
lemma Short.append (h : q.Short items) (hok : q.append request = .ok q') :
    q'.Short (items.take 1 ++ [(q.heap.fresh, request)]) := by
  have hlength : (items.take 1 ++ [(q.heap.fresh, request)]).length ≤ 2 := by
    rw [List.length_append, List.length_take]
    exact Nat.add_le_add_right (Nat.min_le_left _ _) _
  cases hhead : q.head with
  | none =>
    have hlinked := h.linked
    rw [hhead] at hlinked
    obtain rfl := linked_none hlinked
    rw [append_of_head_none hhead] at hok
    obtain rfl := Except.ok.inj hok
    refine ⟨⟨rfl, none, Heap.load_alloc_fresh, rfl⟩, List.nodup_singleton _, hlength,
      fun _ _ ht _ => ht, fun t ht => ?_⟩
    obtain rfl := Option.some.inj ht
    exact Heap.lt_fresh Heap.load_alloc_fresh
  | some a =>
    obtain ⟨htail, hfresh⟩ := tail_append hhead hok
    obtain ⟨t, node, ht, hload⟩ := load_tail_of_append hhead h.tail_lt hok
    obtain ⟨q'', hok', hlinked, hanchored⟩ :=
      h.linked.append_anchored (ht.trans (h.tail t node ht hload).symm) request
    obtain rfl := Except.ok.inj (hok'.symm.trans hok)
    refine ⟨hlinked, h.linked.nodup_append, hlength, fun _ _ ht' _ => hanchored ▸ ht', ?_⟩
    intro t' ht'
    rw [hfresh]
    exact Nat.lt_succ_of_lt (h.tail_lt t' (htail ▸ ht'))

lemma Short.put (h : q.Short ((a, request) :: rest)) (hok : q.put a request' = .ok q') :
    q'.Short ((a, request') :: rest) := by
  obtain ⟨hlinked, hhead, htail⟩ := h.linked.put h.nodup hok
  obtain ⟨node', hnode, rfl⟩ := put_eq_ok hok
  refine ⟨hlinked, h.nodup, h.length, fun t node ht hload => ?_, fun t ht => ?_⟩
  · by_cases hat : a = t
    · exact hat ▸ h.linked.1
    · rw [Heap.load_store_of_ne hat] at hload
      exact h.tail t node ht hload
  · rw [Heap.fresh_store]
    exact h.tail_lt t ht

lemma Short.consumeFront {next : Option Nat} (h : q.Short ((a, request) :: rest))
    (hok : q.consumeFront = .ok (q', next)) : q'.Short rest := by
  obtain ⟨q'', hok', hlinked, -⟩ := h.linked.consumeFront h.nodup
  obtain ⟨rfl, -⟩ := Prod.mk.inj (Except.ok.inj (hok'.symm.trans hok))
  obtain ⟨hfresh, htail⟩ := fresh_consumeFront hok
  have hheap : q''.heap = q.heap.free a := by
    rcases (consumeFront_eq_ok hok).2 with ⟨hnone, -⟩ | ⟨b, hb, hheap⟩
    · rw [h.linked.1] at hnone
      cases hnone
    · obtain rfl := Option.some.inj (h.linked.1.symm.trans hb)
      exact hheap
  refine ⟨hlinked, (List.nodup_cons.mp h.nodup).2, Nat.le_trans (Nat.le_succ _) h.length,
    fun t node ht hload => ?_, fun t ht => ?_⟩
  · -- a tail that is still there was the first request, which is gone
    have hat : a ≠ t := by
      rintro rfl
      rw [hheap, Heap.load_free_self] at hload
      cases hload
    rw [hheap, Heap.load_free_of_ne hat] at hload
    rcases htail with hnone | hsame
    · rw [hnone] at ht
      cases ht
    · have heq := h.linked.1.symm.trans (h.tail t node (hsame ▸ ht) hload)
      exact absurd (Option.some.inj heq) hat
  · rcases htail with hnone | hsame
    · rw [hnone] at ht
      cases ht
    · rw [hfresh]
      exact h.tail_lt t (hsame ▸ ht)

end Requests

instance (e : InternalExtent β) : Decidable e.Sound := inferInstanceAs (Decidable (_ ≤ _))

instance (b : BufferImpl β) : Decidable b.Sound := inferInstanceAs (Decidable (∀ e ∈ _, _))

namespace Stream

variable {s s' : Stream (Requests (WriteRequest β)) β} {act : Act β}

/-- A buffer passed to `write` is sound, and a `size_t` can count its cells. -/
def Measured (s : Stream (Requests (WriteRequest β)) β) : Act β → Prop
  | .writeBuffer source _ => source.Sound ∧ source.contents.length ≤ SizeT.max
  | .writeReadBuffer _ => s.readBuffer.contents.length ≤ SizeT.max
  | _ => True

/-- The request that the write loop works on. -/
def writing (s : Stream (Requests (WriteRequest β)) β) : Option (WriteRequest β) :=
  match s.dispatch with
  | some (.writeHelper _ req) => (s.requests.get req).toOption
  | _ => none

/-- No byte of a request is accepted behind a short count in the same round. -/
def Ordered (s : Stream (Requests (WriteRequest β)) β) : Act β → Prop
  | .xwrites results =>
    ∀ request ∈ s.writing, InOrder (request.buffer.peekExtents SizeT.max) results
  | _ => True

instance (s : Stream (Requests (WriteRequest β)) β) : ∀ act, Decidable (s.Measured act)
  | .writeBuffer source _ =>
    inferInstanceAs (Decidable (source.Sound ∧ source.contents.length ≤ SizeT.max))
  | .writeReadBuffer _ => inferInstanceAs (Decidable (s.readBuffer.contents.length ≤ SizeT.max))
  | .write _ _ | .startRead _ | .stopRead | .close | .connect _ _ | .destroy | .readBuffer _
  | .moveReadBuffer | .ready _ | .getsockopt _ _ | .xwrites _ | .xread _ | .ret =>
    inferInstanceAs (Decidable True)

instance (s : Stream (Requests (WriteRequest β)) β) : ∀ act, Decidable (s.Ordered act)
  | .xwrites results => inferInstanceAs (Decidable
      (∀ request ∈ s.writing, InOrder (request.buffer.peekExtents SizeT.max) results))
  | .write _ _ | .startRead _ | .stopRead | .close | .connect _ _ | .destroy | .readBuffer _
  | .moveReadBuffer | .ready _ | .getsockopt _ _ | .writeBuffer _ _ | .writeReadBuffer _
  | .xread _ | .ret => inferInstanceAs (Decidable True)

section Dead

variable {Q : Type} [RequestQueue Q (WriteRequest β)] {t t' : Stream Q β}

/-- Only callbacks return into the methods of a destroyed stream. -/
lemma quiet_of_dead (hs : t.step act = .ok t') (ha : t.alive = false) : t.Quiet t' := by
  by_cases hact : act = .ret
  · subst hact
    exact quiet_ret hs
  · rw [step_of_dead ha hact] at hs
    cases hs

end Dead

/-! ### Steps -/

/-- A second request is replaced that holds bytes. -/
def Replaces (s : Stream (Requests (WriteRequest β)) β) (act : Act β) : Prop :=
  act.isWrite = true ∧ ∃ request ∈ s.requests.second, request.buffer.contents ≠ []

instance [DecidableEq β] (s : Stream (Requests (WriteRequest β)) β) (act : Act β) :
    Decidable (s.Replaces act) :=
  inferInstanceAs (Decidable (_ ∧ _))

/-- The cells that the requests hold. -/
def outgoing (items : List (Nat × WriteRequest β)) : List (Cell β) :=
  items.flatMap fun item => item.2.buffer.contents

/-- The requests of a live stream, which hold sound buffers. -/
structure Owes (s : Stream (Requests (WriteRequest β)) β) (items : List (Nat × WriteRequest β)) :
    Prop where
  short : s.requests.Short items
  measured : ∀ item ∈ items,
    item.2.buffer.Sound ∧ item.2.buffer.contents.length ≤ SizeT.max

/-- What a step does to the bytes on their way out. -/
inductive Moves (s : Stream (Requests (WriteRequest β)) β) (items : List (Nat × WriteRequest β))
    (act : Act β) (s' : Stream (Requests (WriteRequest β)) β) : Prop
  | passed {items' : List (Nat × WriteRequest β)} (h : s'.Owes items')
    (hact : act.isWrite = false) (halive : s'.alive = s.alive)
    (hbytes : accepted s'.trace ++ outgoing items' = accepted s.trace ++ outgoing items)
    (hwritten : written s'.trace = written s.trace)
  | appended {item : Nat × WriteRequest β} (h : s'.Owes (items.take 1 ++ [item]))
    (hact : act.isWrite = true) (halive : s'.alive = s.alive)
    (haccepted : accepted s'.trace = accepted s.trace)
    (hwritten : written s'.trace = written s.trace ++ outgoing [item])
  | destroyed (hact : act.isWrite = false) (hdead : s'.alive = false) (htrace : s'.trace = s.trace)

variable {items rest : List (Nat × WriteRequest β)} {buffer : BufferImpl β} {callback : Option Nat}
  {event : What} {req : Nat} {results : List WriteResult}

/-- Events that are not on the write side move no bytes. -/
lemma same_of_neutral {events : List (Event β)} (htrace : s'.trace = s.trace ++ events)
    (hevents : ∀ e ∈ events, e.onWriteSide = false) :
    accepted s'.trace = accepted s.trace ∧ written s'.trace = written s.trace := by
  have hnil : ∀ e ∈ events, e.accepted = [] ∧ e.written = [] := fun e he =>
    (Event.of_not_onWriteSide (hevents e he)).2
  refine ⟨?_, ?_⟩
  · rw [htrace, accepted_append_of_nil fun e he => (hnil e he).1]
  · rw [htrace, written_append, written, written,
      List.flatMap_eq_nil_iff.mpr fun e he => (hnil e he).2, List.append_nil]

lemma Owes.neutral (h : s.Owes items) {events : List (Event β)} (hact : act.isWrite = false)
    (hreq : s'.requests = s.requests) (halive : s'.alive = s.alive)
    (htrace : s'.trace = s.trace ++ events) (hevents : ∀ e ∈ events, e.onWriteSide = false) :
    s.Moves items act s' := by
  obtain ⟨haccepted, hwritten⟩ := same_of_neutral htrace hevents
  exact .passed ⟨hreq ▸ h.short, h.measured⟩ hact halive
    (congrArg (· ++ outgoing items) haccepted) hwritten

lemma Owes.queueWrite (h : s.Owes items) (hact : act.isWrite = true) (hsound : buffer.Sound)
    (hlen : buffer.contents.length ≤ SizeT.max) (hok : s.queueWrite buffer callback = .ok s') :
    s.Moves items act s' := by
  obtain ⟨happend, htrace, halive, -⟩ := queueWrite_eq_ok hok
  refine .appended ⟨h.short.append happend, List.forall_mem_append.mpr ⟨?_, ?_⟩⟩ hact halive ?_ ?_
  · exact fun item hitem => h.measured item (List.mem_of_mem_take hitem)
  · exact List.forall_mem_singleton.mpr ⟨hsound, hlen⟩
  · rw [htrace, accepted_append]
    exact List.append_nil _
  · rw [htrace, written_append]
    rfl

/-- The first request is what the write loop works on. -/
lemma Owes.items_of_head (h : s.Owes items) (hhead : s.requests.head = some req) :
    ∃ request rest, items = (req, request) :: rest ∧ s.requests.get req = .ok request := by
  have hlinked := h.short.linked
  cases items with
  | nil =>
    rw [show s.requests.head = none from hlinked] at hhead
    cases hhead
  | cons item rest =>
    obtain rfl := Option.some.inj (hhead.symm.trans hlinked.1)
    exact ⟨item.2, rest, rfl, hlinked.get⟩

lemma outgoing_cons {request : WriteRequest β} :
    outgoing ((req, request) :: rest) = request.buffer.contents ++ outgoing rest :=
  List.flatMap_cons

/-- What tries to pass a request writes none. -/
lemma written_of_tries {events : List (Event β)} (h : ∀ e ∈ events, e.Tries req) :
    written events = [] :=
  List.flatMap_eq_nil_iff.mpr fun e he => (h e he).request_eq.2

/-- A round of the write loop queues nothing. -/
lemma written_xwrites (hx : s.xwrites event req results = .ok s') :
    written s'.trace = written s.trace := by
  obtain ⟨request, pass, buffer, requests, -, hpass, -, -, hends, -⟩ := xwrites_cases hx
  cases hends with
  | stopped _ _ htrace =>
    rw [htrace, written_append, written_of_tries (tries_of_mem_stopped hpass), List.append_nil]
  | completed _ _ htrace =>
    rw [htrace, written_append, written_append, written_of_tries (tries_of_mem_events hpass)]
    cases request.callback <;> exact List.append_nil _

/-- A round of the write loop in which nothing is accepted behind a short count. -/
lemma Owes.xwrites (h : s.Owes items) (hhead : s.OnHead) (halive : s.alive = true)
    (hd : s.dispatch = some (.writeHelper event req)) (hordered : s.Ordered (.xwrites results))
    (hx : s.xwrites event req results = .ok s') : s.Moves items (.xwrites results) s' := by
  obtain ⟨request, rest, rfl, hget⟩ := h.items_of_head (hhead halive _ req hd rfl)
  obtain ⟨request', pass, buffer, requests, hget', hpass, hdrain, hput, hends, halive', -⟩ :=
    xwrites_cases hx
  obtain rfl : request = request' := Except.ok.inj (hget.symm.trans hget')
  obtain ⟨hsound, hlen⟩ := h.measured _ List.mem_cons_self
  have hin : InOrder (request.buffer.peekExtents SizeT.max) results := by
    refine hordered request ?_
    rw [writing, hd]
    change request ∈ (s.requests.get req).toOption
    rw [hget]
    rfl
  obtain ⟨hne, hflatten⟩ := BufferImpl.peekExtents_spec (n := SizeT.max) hsound
  rw [List.take_of_length_le hlen] at hflatten
  have haccepted := writeExtents_accepted hin hpass
  obtain ⟨-, hstop⟩ := writeExtents_total hne hpass
  rw [hflatten] at haccepted hstop
  obtain ⟨buffer', hdrain', hsound', hrest⟩ := BufferImpl.drain_contents hsound
  obtain rfl : buffer' = buffer := Except.ok.inj (hdrain'.symm.trans hdrain)
  have hsplit : accepted pass.events ++ buffer'.contents = request.buffer.contents := by
    rw [haccepted, hrest, List.take_append_drop]
  have hshort := h.short.put hput
  have hmeasured := (List.forall_mem_cons.mp h.measured).2
  cases hends with
  | stopped hstopped hreq htrace _ =>
    have howes : s'.Owes ((req, { request with buffer := buffer' }) :: rest) := by
      refine ⟨hreq ▸ hshort, List.forall_mem_cons.mpr ⟨⟨hsound', Nat.le_trans ?_ hlen⟩, hmeasured⟩⟩
      rw [← hsplit, List.length_append]
      exact Nat.le_add_left _ _
    refine .passed howes rfl halive' ?_ (written_xwrites hx)
    rw [htrace, accepted_append, accepted_stopped, outgoing_cons, outgoing_cons, ← hsplit]
    simp only [List.append_assoc]
  | completed hgo hconsume htrace _ =>
    have hnil : buffer'.contents = [] := by
      rw [hrest, List.drop_eq_nil_iff]
      exact Nat.le_of_not_lt fun hlt => Bool.false_ne_true (hgo.symm.trans (hstop.mpr hlt))
    rw [hnil, List.append_nil] at hsplit
    have hcompleted : accepted (pass.events ++ completeEvents req request.callback) =
        accepted pass.events := by
      rw [accepted_append_of_nil]
      cases request.callback <;> simp [completeEvents, Event.accepted]
    have howes : s'.Owes rest := ⟨hshort.consumeFront hconsume, hmeasured⟩
    refine .passed howes rfl halive' ?_ (written_xwrites hx)
    rw [htrace, accepted_append, hcompleted, hsplit, outgoing_cons, List.append_assoc]

/-- A step that leaves the requests as they are queues none. -/
lemma isWrite_of_requests (hs : s.step act = .ok s') (hreq : s'.requests = s.requests) :
    act.isWrite = false := by
  cases step_effect hs with
  | queue readBuffer _ hact hqueue =>
    obtain ⟨happend, -⟩ := queueWrite_eq_ok hqueue
    have hfresh := (Requests.append_eq_ok happend).1
    rw [hreq] at hfresh
    exact absurd hfresh.symm (Nat.succ_ne_self _)
  | useBuffer readBuffer _ hact =>
    cases act <;> first | rfl | cases hact
  | _ => rfl

/-- What a step of a live stream does to its bytes. -/
theorem Owes.step (h : s.Owes items) (hread : s.ReadSide) (hhead : s.OnHead)
    (hmeasured : s.Measured act) (hordered : s.Ordered act) (hs : s.step act = .ok s') :
    s.Moves items act s' := by
  have hsame : s.trace = s.trace ++ [] := (List.append_nil _).symm
  have hnone : ∀ e ∈ ([] : List (Event β)), e.onWriteSide = false := fun _ he =>
    absurd he List.not_mem_nil
  cases step_cases hs with
  | quiet hq =>
    obtain ⟨events, htrace, hevents⟩ := hq.trace
    exact h.neutral (isWrite_of_requests hs hq.requests) hq.requests hq.alive htrace
      fun e he => (hevents e he).1
  | write hbuffer hqueue =>
    obtain ⟨hsound, hlen⟩ := append_empty_spec hbuffer
    exact h.queueWrite rfl hsound hlen hqueue
  | writeBuffer hqueue =>
    obtain ⟨hsound, hlen⟩ := splice_empty_spec hmeasured.1 hmeasured.2
    exact h.queueWrite rfl hsound hlen hqueue
  | writeReadBuffer _ hqueue =>
    obtain ⟨hsound, hlen⟩ := splice_empty_spec hread.tight.sound hmeasured
    have hholds : Owes { s with
      readBuffer := (BufferImpl.empty.appendBuffer s.readBuffer).2 } items := ⟨h.short, h.measured⟩
    cases hholds.queueWrite (show (Act.writeReadBuffer (β := β) none).isWrite = true from rfl)
      hsound hlen hqueue with
    | appended h _ halive haccepted hwritten => exact .appended h rfl halive haccepted hwritten
    | passed _ hact | destroyed hact => cases hact
  | readBuffer => exact h.neutral rfl rfl rfl hsame hnone
  | moveReadBuffer => exact h.neutral rfl rfl rfl hsame hnone
  | xwrites halive hd hx => exact h.xwrites hhead halive hd hordered hx
  | xread _ _ hx =>
    obtain ⟨hreq, halive, -, events, htrace, hevents⟩ := xread_writeSide hx
    exact h.neutral rfl hreq halive htrace hevents
  | destroy hdestroy =>
    obtain ⟨_, -, hok⟩ := bind_eq_ok.mp hdestroy
    obtain rfl := Except.ok.inj hok
    exact .destroyed rfl rfl rfl

/-- What was accepted is followed by what the requests hold. -/
def Conserves (s : Stream (Requests (WriteRequest β)) β) : Prop :=
  ∃ items, Requests.Linked s.requests.heap s.requests.head items ∧
    accepted s.trace ++ outgoing items = written s.trace

/-- The invariant of a run. -/
structure Sends (s : Stream (Requests (WriteRequest β)) β) : Prop where
  readSide : s.ReadSide
  onHead : s.OnHead
  sublist : (accepted s.trace).Sublist (written s.trace)
  live : s.alive = true → ∃ items, s.Owes items ∧
    (accepted s.trace ++ outgoing items).Sublist (written s.trace)

lemma sends_new (fd : Int) : (new fd : Stream (Requests (WriteRequest β)) β).Sends where
  readSide := readSide_new fd
  onHead := onHead_new fd
  sublist := List.nil_sublist _
  live _ := ⟨[], ⟨Requests.short_empty, fun _ hitem => absurd hitem List.not_mem_nil⟩,
    List.nil_sublist _⟩

lemma Owes.conserves_iff (h : s.Owes items) :
    s.Conserves ↔ accepted s.trace ++ outgoing items = written s.trace := by
  constructor
  · rintro ⟨items', hlinked, heq⟩
    rwa [h.short.linked.unique hlinked]
  · exact fun heq => ⟨items, h.short.linked, heq⟩

lemma outgoing_append {items' : List (Nat × WriteRequest β)} :
    outgoing (items ++ items') = outgoing items ++ outgoing items' := List.flatMap_append

lemma outgoing_take_sublist : (outgoing (items.take 1)).Sublist (outgoing items) := by
  conv_rhs => rw [← List.take_append_drop 1 items, outgoing_append]
  exact List.sublist_append_left _ _

/-- The bytes that a request linked behind the first one holds are lost for good. -/
lemma Owes.conserves_take_iff (h : s.Owes items) (hact : act.isWrite = true)
    (hlaw : (accepted s.trace ++ outgoing items).Sublist (written s.trace)) :
    accepted s.trace ++ outgoing (items.take 1) = written s.trace ↔
      s.Conserves ∧ ¬ s.Replaces act := by
  rw [h.conserves_iff, Replaces, h.short.second_eq]
  match items with
  | [] | [_] => simp [outgoing]
  | (a, first) :: (b, second) :: rest =>
    obtain rfl : rest = [] := by
      have hlength := h.short.length
      simpa using hlength
    by_cases hnil : second.buffer.contents = []
    · simp [outgoing, hnil]
    · refine iff_of_false (fun heq => hnil ?_) fun hboth => hboth.2 ⟨hact, by simpa using hnil⟩
      rw [← heq] at hlaw
      have hle := hlaw.length_le
      simp only [outgoing, List.take_succ_cons, List.take_zero, List.flatMap_cons,
        List.flatMap_nil, List.append_nil, List.length_append] at hle
      exact List.length_eq_zero_iff.mp (by omega)

/-- A step into a destroyed stream, or of one, moves no bytes. -/
lemma Sends.same_of_dead (h : s.Sends) (hmeasured : s.Measured act) (hordered : s.Ordered act)
    (hs : s.step act = .ok s') (hdead : s'.alive = false) :
    accepted s'.trace = accepted s.trace ∧ written s'.trace = written s.trace := by
  cases halive : s.alive with
  | false =>
    obtain ⟨events, htrace, hevents⟩ := (quiet_of_dead hs halive).trace
    exact same_of_neutral htrace fun e he => (hevents e he).1
  | true =>
    obtain ⟨items, howes, -⟩ := h.live halive
    cases howes.step h.readSide h.onHead hmeasured hordered hs with
    | passed _ _ halive' | appended _ _ halive' =>
      rw [halive', halive] at hdead
      cases hdead
    | destroyed _ _ htrace => exact ⟨by rw [htrace], by rw [htrace]⟩

lemma Sends.step (h : s.Sends) (hmeasured : s.Measured act) (hordered : s.Ordered act)
    (hs : s.step act = .ok s') :
    s'.Sends ∧ (s'.alive = true → s.alive = true ∧
      (s'.Conserves ↔ s.Conserves ∧ ¬ s.Replaces act)) := by
  have hread := (h.readSide.step hs).1
  have hhead := h.onHead.step hs
  cases halive' : s'.alive with
  | false =>
    obtain ⟨haccepted, hwritten⟩ := h.same_of_dead hmeasured hordered hs halive'
    refine ⟨⟨hread, hhead, ?_, fun ha => ?_⟩, fun ha => by cases ha⟩
    · rw [haccepted, hwritten]
      exact h.sublist
    · rw [halive'] at ha
      cases ha
  | true =>
    have halive := alive_of_step hs halive'
    obtain ⟨items, howes, hlaw⟩ := h.live halive
    cases howes.step h.readSide h.onHead hmeasured hordered hs with
    | @passed items' howes' hact _ hbytes hwritten =>
      have hlaw' : (accepted s'.trace ++ outgoing items').Sublist (written s'.trace) := by
        rw [hbytes, hwritten]
        exact hlaw
      refine ⟨⟨hread, hhead, (List.sublist_append_left _ _).trans hlaw',
        fun _ => ⟨items', howes', hlaw'⟩⟩, fun _ => ⟨halive, ?_⟩⟩
      rw [howes'.conserves_iff, howes.conserves_iff, hbytes, hwritten]
      exact (and_iff_left fun hreplaces => Bool.false_ne_true (hact.symm.trans hreplaces.1)).symm
    | @appended item howes' hact _ haccepted hwritten =>
      have hlaw' : (accepted s'.trace ++ outgoing (items.take 1 ++ [item])).Sublist
          (written s'.trace) := by
        rw [haccepted, hwritten, outgoing_append, ← List.append_assoc]
        exact ((List.Sublist.append_left outgoing_take_sublist _).trans hlaw).append_right _
      refine ⟨⟨hread, hhead, (List.sublist_append_left _ _).trans hlaw',
        fun _ => ⟨_, howes', hlaw'⟩⟩, fun _ => ⟨halive, ?_⟩⟩
      rw [howes'.conserves_iff, haccepted, hwritten, outgoing_append, ← List.append_assoc,
        List.append_left_inj]
      exact howes.conserves_take_iff hact hlaw
    | destroyed _ hdead =>
      rw [hdead] at halive'
      cases halive'

/-! ### Runs -/

section Runs

variable {fd : Int} {acts : List (Act β)}

/-- Buffers are sound, and within one round no byte is accepted behind a short count. -/
def Regular (s : Stream (Requests (WriteRequest β)) β) (act : Act β) : Prop :=
  s.Measured act ∧ s.Ordered act

instance (s : Stream (Requests (WriteRequest β)) β) (act : Act β) : Decidable (s.Regular act) :=
  inferInstanceAs (Decidable (_ ∧ _))

lemma sends_of_exec
    (h : Exec.exec step (new fd : Stream (Requests (WriteRequest β)) β) acts = .ok s)
    (hregular : Exec.Along step Regular (new fd : Stream (Requests (WriteRequest β)) β) acts) :
    s.Sends ∧ (s.alive = true → (s.Conserves ↔
      Exec.Along step (fun s act => ¬ s.Replaces act)
        (new fd : Stream (Requests (WriteRequest β)) β) acts)) := by
  obtain ⟨hsends, hiff⟩ := Exec.exec_iff_along (L := fun s => s.alive = true) (R := Conserves) Sends
    (fun s act s' hs hregular hok => hs.step hregular.1 hregular.2 hok) (sends_new fd) hregular h
  refine ⟨hsends, fun ha => ?_⟩
  rw [(hiff ha).2, and_iff_right]
  exact ⟨[], rfl, rfl⟩

/-- Where no request that holds bytes is replaced, what was accepted is a beginning of what was
written, also once the stream is destroyed. -/
lemma prefix_of_exec
    (h : Exec.exec step (new fd : Stream (Requests (WriteRequest β)) β) acts = .ok s)
    (hregular : Exec.Along step Regular (new fd : Stream (Requests (WriteRequest β)) β) acts)
    (hreplaces : Exec.Along step (fun s act => ¬ s.Replaces act)
      (new fd : Stream (Requests (WriteRequest β)) β) acts) :
    (s.alive = true → s.Conserves) ∧ accepted s.trace <+: written s.trace := by
  have hrun : s.Sends ∧ (s.alive = true → s.Conserves) ∧ accepted s.trace <+: written s.trace := by
    refine Exec.exec_invariant
      (fun s => s.Sends ∧ (s.alive = true → s.Conserves) ∧ accepted s.trace <+: written s.trace)
      ?_ ⟨sends_new fd, fun _ => ⟨[], rfl, rfl⟩, List.prefix_refl _⟩ (hregular.and hreplaces) h
    rintro s act s' ⟨hs, hconserves, hfirst⟩ ⟨hregular, hreplaces⟩ hok
    obtain ⟨hs', hiff⟩ := hs.step hregular.1 hregular.2 hok
    have hconserves' : s'.alive = true → s'.Conserves := fun ha =>
      (hiff ha).2.mpr ⟨hconserves (hiff ha).1, hreplaces⟩
    refine ⟨hs', hconserves', ?_⟩
    cases ha' : s'.alive with
    | true =>
      obtain ⟨items, -, heq⟩ := hconserves' ha'
      exact ⟨_, heq⟩
    | false =>
      obtain ⟨haccepted, hwritten⟩ := hs.same_of_dead hregular.1 hregular.2 hok ha'
      rw [haccepted, hwritten]
      exact hfirst
  exact hrun.2

/-- Whatever is written in whatever order, the socket accepts a subsequence of it: no byte is made
up, sent twice or overtaken by a later one. -/
theorem accepted_sublist (fd : Int) (acts : List (Act β))
    (h : Exec.exec step (new fd : Stream (Requests (WriteRequest β)) β) acts = .ok s)
    (hregular : Exec.Along step Regular (new fd : Stream (Requests (WriteRequest β)) β) acts) :
    (accepted s.trace).Sublist (written s.trace) :=
  (sends_of_exec h hregular).1.sublist

/-- Three requests, of which the second one is lost. -/
theorem accepted_sublist_three_requests : ∃ s : Stream (Requests (WriteRequest Char)) Char,
    Exec.exec step (new 3) [.write ['a'] none, .write ['b'] none, .write ['c'] none, .ready .write,
      .xwrites [.count 1], .xwrites [.count 1]] = .ok s ∧
    (accepted s.trace).Sublist (written s.trace) := by
  refine ⟨?_, ?hrun, accepted_sublist 3 _ ?hrun ?_⟩
  case hrun => rfl
  decide

/-- The requests of a live stream hold all that is left of the bytes written if and only if no
request was replaced that held some. -/
theorem conserves_iff_not_replaces (fd : Int) (acts : List (Act β))
    (h : Exec.exec step (new fd : Stream (Requests (WriteRequest β)) β) acts = .ok s)
    (hregular : Exec.Along step Regular (new fd : Stream (Requests (WriteRequest β)) β) acts)
    (halive : s.alive = true) :
    s.Conserves ↔ Exec.Along step (fun s act => ¬ s.Replaces act)
      (new fd : Stream (Requests (WriteRequest β)) β) acts :=
  (sends_of_exec h hregular).2 halive

/-- Two requests, the second one appended while the first one is being written. -/
theorem conserves_two_requests : ∃ s : Stream (Requests (WriteRequest Char)) Char,
    Exec.exec step (new 3) [.write ['a', 'b'] none, .ready .write, .xwrites [.count 1],
      .write ['c'] none] = .ok s ∧ s.Conserves := by
  refine ⟨?_, ?hrun, (conserves_iff_not_replaces 3 _ ?hrun ?_ ?halive).mpr ?_⟩
  case hrun | halive => rfl
  · decide
  · decide

end Runs

end Stream

end WhatTheEvent
