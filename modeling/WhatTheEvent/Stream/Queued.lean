import WhatTheEvent.Stream.ByteLaw
import WhatTheEvent.Stream.Outcomes

/-!
# Properties of the requests in memory

A property of a request that may depend on what has happened to it holds of all of them throughout a
run, if `write` establishes it and rounds of the write loop that stop keep it.
-/

namespace WhatTheEvent

variable {β ρ : Type}

namespace Requests

variable {P : Nat → ρ → Prop} {q q' : Requests ρ} {request request' : ρ} {p p' : Nat}

/-! ### The requests in memory -/

lemma lt_fresh_of_get (h : q.get p = .ok request) : p < q.heap.fresh := by
  obtain ⟨next, hload⟩ := get_eq_ok.mp h
  exact Heap.lt_fresh hload

/-- Linking the new request in changes no request. -/
lemma append_eq_ok (hok : q.append request = .ok q') :
    q'.heap.fresh = q.heap.fresh + 1 ∧
      ∀ p, q'.get p = get { q with heap := q.heap.alloc ⟨request, none⟩ } p := by
  unfold append at hok
  cases hh : q.head with
  | none =>
    simp only [hh] at hok
    obtain rfl := Except.ok.inj hok
    exact ⟨Heap.fresh_alloc, fun p => rfl⟩
  | some a =>
    cases ht : q.tail with
    | none =>
      simp only [hh, ht] at hok
      cases hok
    | some t =>
      simp only [hh, ht] at hok
      obtain ⟨node, hnode, hok⟩ := bind_eq_ok.mp hok
      obtain rfl := Except.ok.inj hok
      refine ⟨by rw [Heap.fresh_store, Heap.fresh_alloc], fun p => ?_⟩
      have htail := deref_eq_ok.mp hnode
      by_cases htp : t = p
      · subst htp
        simp only [get, deref, Heap.load_store_self htail, htail, map_ok]
      · simp only [get, deref, Heap.load_store_of_ne htp]

/-- Appending adds its request and no other. -/
lemma get_append (hok : q.append request = .ok q') (p : Nat) :
    q'.get p = if p = q.heap.fresh then .ok request else q.get p := by
  rw [(append_eq_ok hok).2 p]
  split_ifs with hp
  · rw [hp, get, deref, Heap.load_alloc_fresh]
    rfl
  · rw [get, get, deref, deref, Heap.load_alloc_of_ne hp]

lemma get_append_of_get (hok : q.append request = .ok q') (h : q.get p = .ok request') :
    q'.get p = .ok request' := by
  rw [get_append hok, if_neg (Nat.ne_of_lt (lt_fresh_of_get h)), h]

lemma get_put_self (hok : q.put p request = .ok q') : q'.get p = .ok request := by
  obtain ⟨node, hload, rfl⟩ := put_eq_ok hok
  exact get_eq_ok.mpr ⟨node.next, Heap.load_store_self hload⟩

lemma get_put_of_ne (hok : q.put p request = .ok q') (hne : p' ≠ p) : q'.get p' = q.get p' := by
  obtain ⟨node, -, rfl⟩ := put_eq_ok hok
  rw [get, get, deref, deref, Heap.load_store_of_ne hne.symm]

lemma fresh_put (hok : q.put p request = .ok q') : q'.heap.fresh = q.heap.fresh := by
  obtain ⟨node, -, rfl⟩ := put_eq_ok hok
  exact Heap.fresh_store

/-- The first request is consumed. -/
lemma get_consumeFront {next : Option Nat} (hok : q.consumeFront = .ok (q', next))
    (h : q'.get p = .ok request) : q.get p = .ok request ∧ q.head ≠ some p := by
  obtain ⟨-, ⟨hnone, rfl⟩ | ⟨a, ha, hheap⟩⟩ := consumeFront_eq_ok hok
  · exact ⟨h, by rw [hnone]; nofun⟩
  · rw [get, deref, hheap] at h
    by_cases hap : a = p
    · subst hap
      rw [Heap.load_free_self] at h
      cases h
    · rw [Heap.load_free_of_ne hap] at h
      exact ⟨h, fun heq => hap (Option.some.inj (ha.symm.trans heq))⟩

/-- Every request in memory has the property. -/
def Every (P : Nat → ρ → Prop) (q : Requests ρ) : Prop :=
  ∀ p request, q.get p = .ok request → P p request

end Requests

namespace Stream

/-- A buffer that is written is sound. -/
def SoundSource : Act β → Prop
  | .writeBuffer source _ => source.Sound
  | _ => True

lemma soundSource_of_forall {acts : List (Act β)}
    (h : ∀ source callback, .writeBuffer source callback ∈ acts → source.Sound) :
    ∀ act ∈ acts, SoundSource act := by
  intro act hmem
  cases act with
  | writeBuffer source callback => exact h source callback hmem
  | _ => trivial

variable {P : List (Event β) → Nat → WriteRequest β → Prop}
  {s s' : Stream (Requests (WriteRequest β)) β} {act : Act β} {event : What} {req : Nat}
  {results : List WriteResult} {buffer : BufferImpl β} {callback : Option Nat}
  {events : List (Event β)} {request : WriteRequest β} {pass : WritePass β}

/-- What a property of requests has to withstand: it holds of what is written, and events about
other requests do not matter. -/
structure Stable (P : List (Event β) → Nat → WriteRequest β → Prop) : Prop where
  written : ∀ trace req buffer callback, (∀ e ∈ trace, e.request ≠ some req) → buffer.Sound →
    P (trace ++ [.write req buffer.contents callback]) req ⟨buffer, callback⟩
  others : ∀ trace events req request, (∀ e ∈ events, e.request ≠ some req) →
    P trace req request → P (trace ++ events) req request

/-- Every request in memory has the property, and there are no events about those that were not
allocated. -/
structure Queued (P : List (Event β) → Nat → WriteRequest β → Prop)
    (s : Stream (Requests (WriteRequest β)) β) : Prop where
  every : s.requests.Every (P s.trace)
  fresh : ∀ e ∈ s.trace, ∀ req, e.request = some req → req < s.requests.heap.fresh

/-- A round of the write loop that stops keeps the property of its request. -/
def KeepsRound (P : List (Event β) → Nat → WriteRequest β → Prop)
    (s : Stream (Requests (WriteRequest β)) β) (act : Act β) : Prop :=
  ∀ results event req request pass buffer, act = .xwrites results →
    s.dispatch = some (.writeHelper event req) → s.requests.get req = .ok request →
    writeExtents s.fd req (request.buffer.peekExtents SizeT.max) results = .ok pass →
    request.buffer.drain pass.totalWritten = .ok buffer →
    (pass.blocked || pass.failed) = true → P s.trace req request →
      P (s.trace ++ (pass.events ++ if pass.failed then errorEvents req request.callback else []))
        req { request with buffer }

lemma peekExtents_eq_nil_iff (h : buffer.Sound) :
    buffer.peekExtents SizeT.max = [] ↔ buffer.contents = [] := by
  obtain ⟨hne, hflatten⟩ := BufferImpl.peekExtents_spec (n := SizeT.max) h
  constructor
  · intro hnil
    rw [hnil, List.flatten_nil] at hflatten
    rcases List.take_eq_nil_iff.mp hflatten.symm with hmax | hcontents
    · exact absurd hmax (by decide)
    · exact hcontents
  · intro hnil
    rw [hnil, List.take_nil, List.flatten_eq_nil_iff] at hflatten
    exact List.eq_nil_iff_forall_not_mem.mpr fun data hmem => hne data hmem (hflatten data hmem)

/-- A round that stops leaves something of its request. -/
lemma contents_ne_nil_of_stopped (hsound : request.buffer.Sound)
    (hpass : writeExtents s.fd req (request.buffer.peekExtents SizeT.max) results = .ok pass)
    (hdrain : request.buffer.drain pass.totalWritten = .ok buffer)
    (hstop : (pass.blocked || pass.failed) = true) :
    buffer.Sound ∧ buffer.contents ≠ [] ∧ request.buffer.contents ≠ [] := by
  obtain ⟨hne, hflatten⟩ := BufferImpl.peekExtents_spec (n := SizeT.max) hsound
  obtain ⟨-, htotal⟩ := writeExtents_total hne hpass
  have hlt : pass.totalWritten < request.buffer.contents.length := by
    refine Nat.lt_of_lt_of_le (htotal.mp hstop) ?_
    rw [hflatten]
    exact List.length_take_le' _ _
  obtain ⟨b', hb', hsound', hrest⟩ := BufferImpl.drain_contents hsound
  obtain rfl : b' = buffer := Except.ok.inj (hb'.symm.trans hdrain)
  refine ⟨hsound', fun hnil => ?_, List.ne_nil_of_length_pos (Nat.zero_lt_of_lt hlt)⟩
  rw [hrest, List.drop_eq_nil_iff] at hnil
  exact absurd hlt (Nat.not_lt.mpr hnil)

/-! ### Requests throughout a run -/

lemma queued_new (fd : Int) : Queued P (new fd : Stream (Requests (WriteRequest β)) β) where
  every := fun p request h => by simp [RequestQueue.empty, new, Requests.empty, Requests.get,
    Requests.deref, Heap.load, Heap.empty, Except.map] at h
  fresh := fun e he => absurd he List.not_mem_nil

lemma Queued.of_neutral (hP : Stable P) (h : s.Queued P) (hreq : s'.requests = s.requests)
    (htrace : s'.trace = s.trace ++ events) (hevents : ∀ e ∈ events, e.onWriteSide = false) :
    s'.Queued P := by
  have hnone : ∀ e ∈ events, e.request = none :=
    fun e he => (Event.of_not_onWriteSide (hevents e he)).1
  refine ⟨fun p request hget => ?_, ?_⟩
  · rw [htrace]
    refine hP.others _ _ _ _ (fun e he => ?_) (h.every p request (hreq ▸ hget))
    rw [hnone e he]
    nofun
  · rw [htrace, hreq]
    refine List.forall_mem_append.mpr ⟨h.fresh, fun e he req heq => ?_⟩
    rw [hnone e he] at heq
    cases heq

lemma Queued.queueWrite (hP : Stable P) (h : s.Queued P) (hsound : buffer.Sound)
    (hok : s.queueWrite buffer callback = .ok s') : s'.Queued P := by
  obtain ⟨happend, htrace, -⟩ := queueWrite_eq_ok hok
  have happend : s.requests.append ⟨buffer, callback⟩ = .ok s'.requests := happend
  have hunknown : ∀ e ∈ s.trace, e.request ≠ some s.requests.heap.fresh :=
    fun e he heq => absurd (h.fresh e he _ heq) (Nat.lt_irrefl _)
  refine ⟨fun p request hget => ?_, ?_⟩
  · rw [Requests.get_append happend] at hget
    rw [htrace]
    split_ifs at hget with hp
    · obtain rfl := Except.ok.inj hget
      subst hp
      exact hP.written _ _ _ _ hunknown hsound
    · refine hP.others _ _ _ _ (List.forall_mem_singleton.mpr ?_) (h.every p request hget)
      exact fun heq => hp (Option.some.inj heq).symm
  · rw [htrace, (Requests.append_eq_ok happend).1]
    refine List.forall_mem_append.mpr ⟨fun e he req heq => ?_, List.forall_mem_singleton.mpr ?_⟩
    · exact Nat.lt_succ_of_lt (h.fresh e he req heq)
    · exact fun req heq => Nat.lt_succ_of_le (Nat.le_of_eq (Option.some.inj heq).symm)

/-- A round is about its request only. -/
lemma request_of_mem_round {requests : Requests (WriteRequest β)} {extents : List (List (Cell β))}
    (hpass : writeExtents s.fd req extents results = .ok pass)
    (hends : s.RoundEnds req request pass requests s') :
    ∃ outcome, s'.trace = s.trace ++ (pass.events ++ outcome) ∧
      ∀ e ∈ pass.events ++ outcome, e.request = some req := by
  obtain ⟨outcome, htrace, houtcome, -⟩ := hends.trace_eq
  refine ⟨outcome, htrace, List.forall_mem_append.mpr ⟨fun e he => ?_, fun e he => ?_⟩⟩
  · exact (tries_of_mem_events hpass e he).request_eq.1
  · rcases houtcome with rfl | ⟨e', rfl, ho⟩
    · exact absurd he List.not_mem_nil
    · obtain rfl := List.mem_singleton.mp he
      cases e with
      | writeComplete r cb => exact congrArg some ho
      | writeError r cb message => exact congrArg some ho
      | _ => exact absurd ho id

/-- A round of the write loop keeps or consumes the first request, and leaves the others. -/
lemma Queued.xwrites (hP : Stable P) (h : s.Queued P) (hhead : s.OnHead) (ha : s.alive = true)
    (hd : s.dispatch = some (.writeHelper event req)) (hround : s.KeepsRound P (.xwrites results))
    (hx : s.xwrites event req results = .ok s') : s'.Queued P := by
  obtain ⟨request, pass, buffer, requests, hget, hpass, hdrain, hput, hends, -⟩ := xwrites_cases hx
  have hget : s.requests.get req = .ok request := hget
  have hput : s.requests.put req { request with buffer } = .ok requests := hput
  obtain ⟨outcome, htrace, hevents⟩ := request_of_mem_round hpass hends
  have hothers : ∀ p request', p ≠ req → s.requests.get p = .ok request' →
      P s'.trace p request' := by
    intro p request' hp hgetp
    rw [htrace]
    refine hP.others _ _ _ _ (fun e he heq => ?_) (h.every p request' hgetp)
    exact hp (Option.some.inj (heq.symm.trans (hevents e he)))
  have hfresh : s'.requests.heap.fresh = s.requests.heap.fresh → ∀ e ∈ s'.trace, ∀ p,
      e.request = some p → p < s'.requests.heap.fresh := by
    intro hsame
    rw [hsame, htrace]
    refine List.forall_mem_append.mpr ⟨h.fresh, fun e he p hp => ?_⟩
    obtain rfl := Option.some.inj (hp.symm.trans (hevents e he))
    exact Requests.lt_fresh_of_get hget
  cases hends with
  | stopped hstop hreq htrace' _ =>
    refine ⟨fun p request' hgetp => ?_, hfresh (by rw [hreq, Requests.fresh_put hput])⟩
    rw [hreq] at hgetp
    by_cases hp : p = req
    · subst hp
      obtain rfl := Except.ok.inj ((Requests.get_put_self hput).symm.trans hgetp)
      rw [htrace']
      exact hround results event p request pass buffer rfl hd hget hpass hdrain hstop
        (h.every p request hget)
    · exact hothers p request' hp (Requests.get_put_of_ne hput hp ▸ hgetp)
  | completed _ hconsume _ _ =>
    have hconsume : requests.consumeFront = .ok (s'.requests, _) := hconsume
    have hfirst : requests.head = some req :=
      (LawfulRequestQueue.head_put (Q := Requests (WriteRequest β)) hput).trans
        (hhead ha _ req hd rfl)
    refine ⟨fun p request' hgetp => ?_, hfresh ?_⟩
    · obtain ⟨hgetp, hp⟩ := Requests.get_consumeFront hconsume hgetp
      have hp : p ≠ req := fun heq => hp (heq ▸ hfirst)
      exact hothers p request' hp (Requests.get_put_of_ne hput hp ▸ hgetp)
    · rw [(Requests.fresh_consumeFront hconsume).1, Requests.fresh_put hput]

/-- What a step keeps of the requests, as long as the stream is not destroyed. -/
theorem Queued.step (hP : Stable P) (h : s.Queued P) (hread : s.ReadSide) (hhead : s.OnHead)
    (hs : s.step act = .ok s') (hsource : SoundSource act) (hround : s.KeepsRound P act)
    (ha : s'.alive = true) : s'.Queued P := by
  have hsame : s.trace = s.trace ++ [] := (List.append_nil _).symm
  have hnone : ∀ e ∈ ([] : List (Event β)), e.onWriteSide = false := fun _ he =>
    absurd he List.not_mem_nil
  cases step_cases hs with
  | quiet hq =>
    obtain ⟨events, htrace, hevents⟩ := hq.trace
    exact h.of_neutral hP hq.requests htrace fun e he => (hevents e he).1
  | write hbuffer hqueue => exact h.queueWrite hP (append_empty_spec hbuffer).1 hqueue
  | writeBuffer hqueue =>
    exact h.queueWrite hP (BufferImpl.tight_empty.sound.appendBuffer hsource) hqueue
  | writeReadBuffer _ hqueue =>
    have hqueued : Queued P { s with
        readBuffer := (BufferImpl.empty.appendBuffer s.readBuffer).2 } :=
      h.of_neutral hP rfl hsame hnone
    exact hqueued.queueWrite hP (BufferImpl.tight_empty.sound.appendBuffer hread.tight.sound) hqueue
  | readBuffer => exact h.of_neutral hP rfl hsame hnone
  | moveReadBuffer => exact h.of_neutral hP rfl hsame hnone
  | xwrites halive hd hx => exact h.xwrites hP hhead halive hd hround hx
  | xread _ _ hx =>
    obtain ⟨hreq, -, -, events, htrace, hevents⟩ := xread_writeSide hx
    exact h.of_neutral hP hreq htrace hevents
  | destroy hdestroy =>
    obtain ⟨⟨requests, r⟩, -, hok⟩ := bind_eq_ok.mp hdestroy
    obtain rfl := Except.ok.inj hok
    cases ha

end Stream

end WhatTheEvent
