import WhatTheEvent.Stream.ByteLaw

/-!
# A single write request

A request whose data lies in one extent, in a list that holds no other: what a round of the loop in
`writeHelper` does with it.
-/

namespace WhatTheEvent

variable {β ρ : Type}

/-! ### Lists with at most one request -/

namespace Requests

variable {q q' : Requests ρ} {request request' : ρ} {a : Nat}

/-- There is no request in the list. -/
structure Vacant (q : Requests ρ) : Prop where
  head : q.head = none
  tail : q.tail = none

/-- The list holds one request, which lies at `a`. -/
structure Sole (q : Requests ρ) (a : Nat) (request : ρ) : Prop where
  head : q.head = some a
  tail : q.tail = some a
  load : q.heap.load a = some ⟨request, none⟩

lemma vacant_empty : (empty : Requests ρ).Vacant := ⟨rfl, rfl⟩

lemma Vacant.append (h : q.Vacant) (hok : q.append request = .ok q') :
    q'.Sole q.heap.fresh request := by
  rw [append_of_head_none h.head] at hok
  obtain rfl := Except.ok.inj hok
  exact ⟨rfl, rfl, Heap.load_alloc_fresh⟩

lemma Sole.get (h : q.Sole a request) : q.get a = .ok request :=
  get_eq_ok.mpr ⟨none, h.load⟩

lemma Sole.put (h : q.Sole a request) (hok : q.put a request' = .ok q') :
    q'.Sole a request' := by
  obtain ⟨node, hload, rfl⟩ := put_eq_ok hok
  obtain rfl := Option.some.inj (h.load.symm.trans hload)
  exact ⟨h.head, h.tail, Heap.load_store_self h.load⟩

lemma Sole.consumeFront {next : Option Nat} (h : q.Sole a request)
    (hok : q.consumeFront = .ok (q', next)) : next = none ∧ q'.Vacant := by
  unfold Requests.consumeFront at hok
  rw [h.head] at hok
  obtain ⟨node, hderef, hok⟩ := bind_eq_ok.mp hok
  obtain rfl := Option.some.inj (h.load.symm.trans (deref_eq_ok.mp hderef))
  obtain ⟨rfl, rfl⟩ := Prod.mk.inj (Except.ok.inj hok)
  exact ⟨rfl, rfl, rfl⟩

end Requests

/-! ### Buffers of one extent -/

namespace BufferImpl

variable {b b' : BufferImpl β} {n : Nat}

/-- The data of the buffer lies in one extent. -/
structure OneExtent (b : BufferImpl β) : Prop where
  sound : b.Sound
  extents : b.extents.length ≤ 1
  length : b.contents.length ≤ SizeT.max

lemma oneExtent_append {buf : List β} (h : empty.append buf = .ok b) :
    b.OneExtent ∧ b.contents = buf.map some := by
  obtain ⟨hsound, hlen⟩ := Stream.append_empty_spec h
  have hspec := append_of_spare_eq_zero (b := (empty : BufferImpl β)) rfl
    (Stream.length_lt_of_append_empty h)
  obtain rfl := Except.ok.inj (hspec.symm.trans h)
  refine ⟨⟨hsound, Nat.le_refl 1, hlen⟩, ?_⟩
  rw [contents_eq]
  simp [unreadCells, empty]

lemma length_dropExtents {extents : List (InternalExtent β)} :
    (dropExtents extents n).length ≤ extents.length := by
  induction extents generalizing n with
  | nil => exact Nat.le_refl 0
  | cons cur rest ih =>
    unfold dropExtents
    split_ifs
    · exact Nat.le_refl _
    · exact Nat.le_succ_of_le ih
    · exact Nat.le_refl _

lemma OneExtent.drain (h : b.OneExtent) (hok : b.drain n = .ok b') :
    b'.OneExtent ∧ b'.contents = b.contents.drop n := by
  obtain ⟨b₁, hb₁, hsound, hcontents⟩ := drain_contents (n := n) h.sound
  obtain rfl := Except.ok.inj (hb₁.symm.trans hok)
  refine ⟨⟨hsound, ?_, ?_⟩, hcontents⟩
  · obtain rfl := Except.ok.inj ((drain_eq h.sound).symm.trans hok)
    exact Nat.le_trans length_dropExtents h.extents
  · rw [hcontents, List.length_drop]
    exact Nat.le_trans (Nat.sub_le _ _) h.length

lemma length_peekLoop {extents : List (InternalExtent β)} {size total : Nat} :
    (peekLoop size extents total).length ≤ extents.length := by
  induction extents generalizing total with
  | nil => exact Nat.le_refl 0
  | cons cur rest ih =>
    simp only [peekLoop]
    split_ifs
    · exact Nat.succ_le_succ ih
    · exact Nat.le_succ_of_le ih
    · exact Nat.zero_le _

lemma OneExtent.length_peekExtents (h : b.OneExtent) : (b.peekExtents n).length ≤ 1 :=
  Nat.le_trans length_peekLoop h.extents

end BufferImpl

/-! ### A round of the write loop -/

namespace Stream

variable {s s' : Stream (Requests (WriteRequest β)) β} {event : What} {req : Nat}
  {results : List WriteResult} {request : WriteRequest β} {cb : Nat}

/-- One extent is passed in order. -/
lemma inOrder_of_length_le_one {fd : Int} {extents : List (List (Cell β))} {pass : WritePass β}
    (hlen : extents.length ≤ 1) (h : writeExtents fd req extents results = .ok pass) :
    InOrder extents results := by
  cases extents with
  | nil => trivial
  | cons data extents =>
    obtain rfl : extents = [] :=
      List.length_eq_zero_iff.mp (Nat.le_zero.mp (Nat.le_of_succ_le_succ hlen))
    cases results with
    | nil => trivial
    | cons r results =>
      cases r with
      | error e => trivial
      | count n =>
        simp only [writeExtents] at h
        split_ifs at h
        obtain ⟨rest, hrest, -⟩ := bind_eq_ok.mp h
        cases results with
        | cons r results => cases hrest
        | nil =>
          simp [InOrder]

/-- How a round ends that works on the only request of the list. -/
inductive SoleRound (s : Stream (Requests (WriteRequest β)) β) (event : What) (req : Nat)
    (request : WriteRequest β) (cb : Nat) (results : List WriteResult) :
    Stream (Requests (WriteRequest β)) β → Prop
  | blocked {requests : Requests (WriteRequest β)} {buffer : BufferImpl β} {events : List (Event β)}
    (hsole : requests.Sole req { request with buffer }) (hbuffer : buffer.OneExtent)
    (haccepted : accepted events ++ buffer.contents = request.buffer.contents)
    (hpasses : ∀ e ∈ events, e.Passes req)
    (hresults : ¬ ∃ e, WriteResult.error e ∈ results) :
    SoleRound s event req request cb results { s with
      requests
      dispatch := (s.readyRead event).dispatch
      trace := s.trace ++ events }
  | failed {requests : Requests (WriteRequest β)} {buffer : BufferImpl β} {events : List (Event β)}
    (hsole : requests.Sole req { request with buffer }) (hbuffer : buffer.OneExtent)
    (haccepted : accepted events ++ buffer.contents = request.buffer.contents)
    (hresults : ∃ e, WriteResult.error e ∈ results) :
    SoleRound s event req request cb results { s with
      requests
      dispatch := some (.writeFailed event)
      trace := s.trace ++ events ++ [.writeError req cb "Write failed"] }
  | completed {requests : Requests (WriteRequest β)} {events : List (Event β)}
    (hvacant : requests.Vacant) (haccepted : accepted events = request.buffer.contents)
    (hresults : ¬ ∃ e, WriteResult.error e ∈ results) :
    SoleRound s event req request cb results { s with
      requests
      watched := s.watched.removeWrite
      dispatch := some (.writeDone event none)
      trace := s.trace ++ events ++ [.writeComplete req cb] }

/-- Some of the extent is accepted and the rest stays, or all of it is and the list is left
empty. -/
theorem soleRound_of_xwrites (hsole : s.requests.Sole req request)
    (hbuffer : request.buffer.OneExtent) (hcb : request.callback = some cb)
    (h : s.xwrites event req results = .ok s') : s.SoleRound event req request cb results s' := by
  obtain ⟨request', hget, h⟩ := bind_eq_ok.mp h
  obtain rfl : request' = request := Except.ok.inj (Eq.trans (Eq.symm hget) hsole.get)
  obtain ⟨pass, hpass, h⟩ := bind_eq_ok.mp h
  obtain ⟨buffer, hdrain, h⟩ := bind_eq_ok.mp h
  obtain ⟨requests, hput, h⟩ := bind_eq_ok.mp h
  obtain ⟨hne, hflatten⟩ := BufferImpl.peekExtents_spec (n := SizeT.max) hbuffer.sound
  rw [List.take_of_length_le hbuffer.length] at hflatten
  have haccepted :=
    writeExtents_accepted (inOrder_of_length_le_one hbuffer.length_peekExtents hpass) hpass
  obtain ⟨hle, hstop⟩ := writeExtents_total hne hpass
  rw [hflatten] at haccepted hle hstop
  obtain ⟨hbuffer', hcontents⟩ := hbuffer.drain hdrain
  have hsole' := hsole.put hput
  have hsplit : accepted pass.events ++ buffer.contents = request'.buffer.contents := by
    rw [haccepted, hcontents, List.take_append_drop]
  have hfailed := writeExtents_failed_iff hpass
  cases hs : pass.blocked || pass.failed with
  | true =>
    rw [hs] at h
    simp only [if_true, hcb] at h
    cases hf : pass.failed with
    | true =>
      rw [hf] at h hfailed
      obtain rfl := Except.ok.inj h
      exact .failed hsole' hbuffer' hsplit (hfailed.mp rfl)
    | false =>
      rw [hf] at h hfailed
      obtain rfl := Except.ok.inj h
      exact .blocked hsole' hbuffer' hsplit (fun e he => passes_of_mem_events hpass he)
        fun herror => Bool.false_ne_true (hfailed.mpr herror)
  | false =>
    have hnot : pass.failed = false := (Bool.or_eq_false_iff.mp hs).2
    rw [hs] at h
    simp only [Bool.false_eq_true, if_false, hcb] at h
    obtain ⟨⟨requests', next⟩, hconsume, h⟩ := bind_eq_ok.mp h
    obtain ⟨rfl, hvacant⟩ := hsole'.consumeFront hconsume
    obtain rfl := Except.ok.inj h
    refine .completed hvacant ?_ fun herror => ?_
    · have hall : request'.buffer.contents.length ≤ pass.totalWritten :=
        Nat.le_of_not_lt fun hlt => Bool.false_ne_true (hs.symm.trans (hstop.mpr hlt))
      rw [haccepted, List.take_of_length_le hall]
    · rw [hnot] at hfailed
      exact Bool.false_ne_true (hfailed.mpr herror)

end Stream

end WhatTheEvent
