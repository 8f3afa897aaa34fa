import WhatTheEvent.Stream.LinkedRequests
import WhatTheEvent.Stream.SoleRequest

/-!
# A round of the write loop on the first request

The list of requests of a connection has two requests at the most, whose data lies in one extent
each. The first one is worked on by a round of the loop in `writeHelper`.
-/

namespace WhatTheEvent

variable {β : Type}

namespace Stream

variable {s s' : Stream (Requests (WriteRequest β)) β} {event : What} {req cb : Nat}
  {results : List WriteResult} {request : WriteRequest β} {rest : List (Nat × WriteRequest β)}

/-- How a round ends that works on the first request of a list, of one extent. -/
inductive FirstRound (s : Stream (Requests (WriteRequest β)) β) (event : What) (req cb : Nat)
    (request : WriteRequest β) (rest : List (Nat × WriteRequest β)) (results : List WriteResult) :
    Stream (Requests (WriteRequest β)) β → Prop
  | blocked {requests : Requests (WriteRequest β)} {buffer : BufferImpl β} {events : List (Event β)}
    (hlinked : Requests.Linked requests.heap requests.head ((req, { request with buffer }) :: rest))
    (htail : requests.tail = s.requests.tail) (hbuffer : buffer.OneExtent)
    (haccepted : accepted events ++ buffer.contents = request.buffer.contents)
    (hpasses : ∀ e ∈ events, e.Passes req)
    (hresults : ¬ ∃ e, WriteResult.error e ∈ results) :
    FirstRound s event req cb request rest results { s with
      requests
      dispatch := (s.readyRead event).dispatch
      trace := s.trace ++ events }
  | failed {requests : Requests (WriteRequest β)} {buffer : BufferImpl β} {events : List (Event β)}
    (hlinked : Requests.Linked requests.heap requests.head ((req, { request with buffer }) :: rest))
    (haccepted : accepted events ++ buffer.contents = request.buffer.contents)
    (hpasses : ∀ e ∈ events, e.Passes req)
    (hresults : ∃ e, WriteResult.error e ∈ results) :
    FirstRound s event req cb request rest results { s with
      requests
      dispatch := some (.writeFailed event)
      trace := s.trace ++ events ++ [.writeError req cb "Write failed"] }
  | completed {requests : Requests (WriteRequest β)} {events : List (Event β)}
    (hlinked : Requests.Linked requests.heap requests.head rest)
    (htail : rest = [] → requests.tail = none)
    (haccepted : accepted events = request.buffer.contents)
    (hpasses : ∀ e ∈ events, e.Passes req)
    (hresults : ¬ ∃ e, WriteResult.error e ∈ results) :
    FirstRound s event req cb request rest results { s with
      requests
      watched := if rest = [] then s.watched.removeWrite else s.watched
      dispatch := some (.writeDone event (rest.head?.map Prod.fst))
      trace := s.trace ++ events ++ [.writeComplete req cb] }

/-- The results of `xwrite` either do not fit the extents or end the round. -/
lemma writeExtents_error {fd : Int} {extents : List (List (Cell β))} {f : Fault}
    (h : writeExtents fd req extents results = .error f) : f = .disabled := by
  induction extents generalizing results with
  | nil =>
    cases results with
    | nil => cases h
    | cons r results => exact (Except.error.inj h).symm
  | cons data extents ih =>
    cases results with
    | nil => exact (Except.error.inj h).symm
    | cons r results =>
      cases r with
      | count n =>
        simp only [writeExtents] at h
        split_ifs at h
        · cases hrest : writeExtents fd req extents results with
          | error f' =>
            rw [hrest] at h
            obtain rfl := Except.error.inj h
            exact ih hrest
          | ok pass =>
            rw [hrest] at h
            cases h
        · exact (Except.error.inj h).symm
      | error e =>
        cases results with
        | nil => cases h
        | cons r results => exact (Except.error.inj h).symm

/-- A round on the first request of a list: some of its extent is accepted and the rest stays, or
all of it is and the request is consumed. -/
theorem firstRound_of_xwrites
    (hlinked : Requests.Linked s.requests.heap s.requests.head ((req, request) :: rest))
    (hnodup : (((req, request) :: rest).map Prod.fst).Nodup)
    (hbuffer : request.buffer.OneExtent) (hcb : request.callback = some cb) :
    s.xwrites event req results = .error .disabled ∨
      ∃ s', s.xwrites event req results = .ok s' ∧
        s.FirstRound event req cb request rest results s' := by
  have hget : RequestQueue.get s.requests req = .ok request := hlinked.get
  unfold xwrites
  rw [hget, ok_bind]
  cases hpass : writeExtents s.fd req (request.buffer.peekExtents SizeT.max) results with
  | error f =>
    obtain rfl := writeExtents_error hpass
    exact .inl rfl
  | ok pass =>
    right
    obtain ⟨hne, hflatten⟩ := BufferImpl.peekExtents_spec (n := SizeT.max) hbuffer.sound
    rw [List.take_of_length_le hbuffer.length] at hflatten
    have haccepted :=
      writeExtents_accepted (inOrder_of_length_le_one hbuffer.length_peekExtents hpass) hpass
    obtain ⟨-, hstop⟩ := writeExtents_total hne hpass
    rw [hflatten] at haccepted hstop
    obtain ⟨buffer, hdrain, -⟩ :=
      BufferImpl.drain_contents (n := pass.totalWritten) hbuffer.sound
    obtain ⟨hbuffer', hcontents⟩ := hbuffer.drain hdrain
    obtain ⟨requests, hput⟩ :
        ∃ requests, RequestQueue.put s.requests req { request with buffer } = .ok requests := by
      obtain ⟨-, next, hload, -⟩ := hlinked
      refine ⟨_, bind_eq_ok.mpr ⟨_, Requests.deref_eq_ok.mpr hload, rfl⟩⟩
    obtain ⟨hlinked', hhead, htail⟩ := hlinked.put hnodup hput
    have hsplit : accepted pass.events ++ buffer.contents = request.buffer.contents := by
      rw [haccepted, hcontents, List.take_append_drop]
    have hfailed := writeExtents_failed_iff hpass
    have hpasses : ∀ e ∈ pass.events, e.Passes req := fun e he => passes_of_mem_events hpass he
    rw [ok_bind, hdrain, ok_bind, hput, ok_bind]
    cases hs : pass.blocked || pass.failed with
    | true =>
      simp only [if_true, hcb]
      cases hf : pass.failed with
      | true =>
        rw [hf] at hfailed
        exact ⟨_, rfl, .failed hlinked' hsplit hpasses (hfailed.mp rfl)⟩
      | false =>
        rw [hf] at hfailed
        exact ⟨_, rfl, .blocked hlinked' htail hbuffer' hsplit hpasses
          fun herror => Bool.false_ne_true (hfailed.mpr herror)⟩
    | false =>
      have hnot : pass.failed = false := (Bool.or_eq_false_iff.mp hs).2
      rw [hnot] at hfailed
      have hall : request.buffer.contents.length ≤ pass.totalWritten :=
        Nat.le_of_not_lt fun hlt => Bool.false_ne_true (hs.symm.trans (hstop.mpr hlt))
      rw [List.take_of_length_le hall] at haccepted
      obtain ⟨q', hconsume, hrest, htail'⟩ := hlinked'.consumeFront hnodup
      have hconsume' : RequestQueue.consumeFront requests = .ok (q', rest.head?.map Prod.fst) :=
        hconsume
      refine ⟨_, ?_, .completed hrest htail' haccepted hpasses
        fun herror => Bool.false_ne_true (hfailed.mpr herror)⟩
      simp only [Bool.false_eq_true, if_false, hcb, hconsume', ok_bind, pure_eq_ok]
      cases rest <;> rfl

end Stream

end WhatTheEvent
