import WhatTheEvent.Stream.Queued

/-!
# The assertion of the write loop

`writeHelper` asserts that there are extents of the request that it inspects. What is left of a
request between two rounds is not empty, so that the assertion fails for requests that were written
with no bytes, and for no others. Where it is compiled out these are completed.
-/

namespace WhatTheEvent

variable {β : Type}

namespace Stream

variable {s s' : Stream (Requests (WriteRequest β)) β} {act : Act β} {event : What} {req : Nat}
  {results : List WriteResult} {request : WriteRequest β} {pass : WritePass β}
  {buffer : BufferImpl β} {callback : Option Nat} {trace : List (Event β)}

/-- In the round that the step is, the assertion holds, and if the request was written with no bytes
it is completed. -/
structure AssertionLaw (s : Stream (Requests (WriteRequest β)) β) (act : Act β) : Prop where
  asserted : ∀ results event req request, act = .xwrites results →
    s.dispatch = some (.writeHelper event req) → s.requests.get req = .ok request →
      request.buffer.peekExtents SizeT.max ≠ []
  completed : ∀ results event req callback, act = .xwrites results →
    s.dispatch = some (.writeHelper event req) → .write req [] callback ∈ s.trace →
      Exec.After step (fun s' => s'.trace = s.trace ++ completeEvents req callback ∧
        ∀ request, s'.requests.get req ≠ .ok request) s act

/-- The step is a round of the write loop on a request that was written with no bytes. -/
def MeetsEmpty (s : Stream (Requests (WriteRequest β)) β) : Act β → Prop
  | .xwrites _ => ∃ event req callback, s.dispatch = some (.writeHelper event req) ∧
    .write req [] callback ∈ s.trace
  | _ => False

/-- The request is the one of its call of `write`, and holds nothing only if nothing was written. -/
structure Origin (trace : List (Event β)) (req : Nat) (request : WriteRequest β) : Prop where
  sound : request.buffer.Sound
  written : ∃ contents, .write req contents request.callback ∈ trace
  only : ∀ contents callback, .write req contents callback ∈ trace →
    callback = request.callback ∧ (contents = [] ↔ request.buffer.contents = [])

lemma stable_origin : Stable (Origin (β := β)) where
  written := by
    intro trace req buffer callback hold hsound
    refine ⟨hsound, ⟨_, List.mem_append_right _ List.mem_cons_self⟩, fun contents cb hmem => ?_⟩
    rcases List.mem_append.mp hmem with hmem | hmem
    · exact absurd rfl (hold _ hmem)
    · obtain ⟨-, rfl, rfl⟩ := Event.write.inj (List.mem_singleton.mp hmem)
      exact ⟨rfl, Iff.rfl⟩
  others := by
    intro trace events req request hothers h
    obtain ⟨contents, hmem⟩ := h.written
    refine ⟨h.sound, ⟨contents, List.mem_append_left _ hmem⟩, fun contents cb hmem => ?_⟩
    rcases List.mem_append.mp hmem with hmem | hmem
    · exact h.only contents cb hmem
    · exact absurd rfl (hothers _ hmem)

lemma keepsRound_origin : s.KeepsRound Origin act := by
  intro results event req request pass buffer _ _ _ hpass hdrain hstop h
  obtain ⟨hsound, hrest, hall⟩ := contents_ne_nil_of_stopped h.sound hpass hdrain hstop
  obtain ⟨contents, hmem⟩ := h.written
  refine ⟨hsound, ⟨contents, List.mem_append_left _ hmem⟩, fun contents cb hmem => ?_⟩
  rcases List.mem_append.mp hmem with hmem | hmem
  · obtain ⟨hcb, hiff⟩ := h.only contents cb hmem
    exact ⟨hcb, iff_of_false (fun hnil => hall (hiff.mp hnil)) hrest⟩
  · exact absurd (tries_of_mem_stopped hpass _ hmem) id

/-- The round on a request of no bytes consumes it and calls its callback. -/
lemma xwrites_completes (h : s.Queued Origin) (hhead : s.OnHead) (ha : s.alive = true)
    (hd : s.dispatch = some (.writeHelper event req)) (hx : s.xwrites event req results = .ok s')
    (hempty : .write req [] callback ∈ s.trace) :
    s'.trace = s.trace ++ completeEvents req callback ∧
      ∀ request, s'.requests.get req ≠ .ok request := by
  obtain ⟨request, pass, buffer, requests, hget, hpass, -, hput, hends, -⟩ := xwrites_cases hx
  have horigin : Origin s.trace req request := h.every req request hget
  obtain ⟨rfl, hiff⟩ := horigin.only [] callback hempty
  rw [(peekExtents_eq_nil_iff horigin.sound).mpr (hiff.mp rfl)] at hpass
  obtain rfl := writeExtents_nil hpass
  cases hends with
  | stopped hstop => cases hstop
  | completed _ hconsume htrace _ =>
    refine ⟨htrace, fun request' hget' => ?_⟩
    have hfirst : requests.head = some req :=
      (LawfulRequestQueue.head_put (Q := Requests (WriteRequest β)) hput).trans
        (hhead ha _ req hd rfl)
    exact (Requests.get_consumeFront hconsume hget').2 hfirst

/-- A round obeys the law if and only if its request was not written with no bytes. -/
lemma assertionLaw_xwrites_iff (h : s.Queued Origin) (hhead : s.OnHead)
    (hs : s.step (.xwrites results) = .ok s') :
    s.AssertionLaw (.xwrites results) ↔ ¬ s.MeetsEmpty (.xwrites results) := by
  constructor
  · rintro hlaw ⟨event, req, callback, hd, hempty⟩
    obtain ⟨-, event', req', hd', hx⟩ := step_xwrites hs
    obtain ⟨rfl, rfl⟩ := Dispatch.writeHelper.inj (Option.some.inj (hd.symm.trans hd'))
    obtain ⟨request, -, -, -, hget, -⟩ := xwrites_cases hx
    have horigin : Origin s.trace req request := h.every req request hget
    refine hlaw.asserted results event req request rfl hd hget ?_
    exact (peekExtents_eq_nil_iff horigin.sound).mpr ((horigin.only [] callback hempty).2.mp rfl)
  · intro hno
    refine ⟨fun results' event req request _ hd hget hnil => ?_,
      fun results' event req callback _ hd hempty s₁ hs₁ => ?_⟩
    · have horigin : Origin s.trace req request := h.every req request hget
      obtain ⟨contents, hmem⟩ := horigin.written
      have hcontents := (peekExtents_eq_nil_iff horigin.sound).mp hnil
      obtain rfl := (horigin.only contents request.callback hmem).2.mpr hcontents
      exact hno ⟨event, req, request.callback, hd, hmem⟩
    · obtain ⟨ha, event', req', hd', hx⟩ := step_xwrites hs₁
      obtain ⟨rfl, rfl⟩ := Dispatch.writeHelper.inj (Option.some.inj (hd.symm.trans hd'))
      exact xwrites_completes h hhead ha hd hx hempty

lemma assertionLaw_step_iff (hqueued : s.alive = true → s.Queued Origin) (hhead : s.OnHead)
    (hs : s.step act = .ok s') : s.AssertionLaw act ↔ ¬ s.MeetsEmpty act := by
  by_cases hact : ∃ results, act = .xwrites results
  · obtain ⟨results, rfl⟩ := hact
    exact assertionLaw_xwrites_iff (hqueued (step_xwrites hs).1) hhead hs
  · refine iff_of_true ⟨fun results _ _ _ heq => absurd ⟨results, heq⟩ hact,
      fun results _ _ _ heq => absurd ⟨results, heq⟩ hact⟩ ?_
    cases act with
    | xwrites results => exact absurd ⟨results, rfl⟩ hact
    | _ => exact id

/-- In a run of a stream the assertion holds whenever the write loop inspects a request, and
requests of no bytes are completed, if and only if the write loop never comes to a request of no
bytes. -/
theorem assertionLaw_iff (fd : Int) (acts : List (Act β))
    (hsource : ∀ source callback, .writeBuffer source callback ∈ acts → source.Sound)
    (h : Exec.exec step (new fd : Stream (Requests (WriteRequest β)) β) acts = .ok s) :
    Exec.Along step AssertionLaw (new fd : Stream (Requests (WriteRequest β)) β) acts ↔
      Exec.Along step (fun s act => ¬ s.MeetsEmpty act) (new fd) acts := by
  refine Exec.along_congr (C := fun _ act => SoundSource act)
    (fun s => s.ReadSide ∧ s.OnHead ∧ (s.alive = true → s.Queued Origin)) ?_
    ⟨readSide_new fd, onHead_new fd, fun _ => queued_new fd⟩
    (Exec.Along.of_mem (soundSource_of_forall hsource)) h
  rintro s act s' ⟨hread, hhead, hqueued⟩ hsound hs
  refine ⟨assertionLaw_step_iff hqueued hhead hs, fun _ => ⟨(hread.step hs).1, hhead.step hs, ?_⟩⟩
  exact fun ha => (hqueued (alive_of_step hs ha)).step stable_origin hread hhead hs hsound
    keepsRound_origin ha

/-- A short count and the rest in the next round. -/
theorem assertionLaw_short_write :
    Exec.Along step AssertionLaw (new 3 : Stream (Requests (WriteRequest Char)) Char)
        [.write ['a', 'b'] (some 7), .ready .write, .xwrites [.count 1], .ready .write,
          .xwrites [.count 1]] ↔
      Exec.Along step (fun s act => ¬ s.MeetsEmpty act) (new 3)
        [.write ['a', 'b'] (some 7), .ready .write, .xwrites [.count 1], .ready .write,
          .xwrites [.count 1]] :=
  assertionLaw_iff 3 _ (fun source callback hmem => by simp at hmem) rfl

/-- A write of no bytes is inspected at the next event. -/
theorem not_assertionLaw : ¬ ∀ (fd : Int) (acts : List (Act Char))
    (s : Stream (Requests (WriteRequest Char)) Char),
    (∀ source callback, .writeBuffer source callback ∈ acts → source.Sound) →
    Exec.exec step (new fd) acts = .ok s →
    Exec.Along step AssertionLaw (new fd : Stream (Requests (WriteRequest Char)) Char) acts := by
  intro h
  have hrun := h 3 [.write [] (some 7), .ready .write, .xwrites []] _
    (fun source callback hmem => by simp at hmem) rfl
  obtain ⟨-, -, hround, -⟩ := hrun
  exact hround.asserted [] .write 0 ⟨⟨[InternalExtent.of [] [] []], 0⟩, some 7⟩ rfl rfl rfl rfl

end Stream

end WhatTheEvent
