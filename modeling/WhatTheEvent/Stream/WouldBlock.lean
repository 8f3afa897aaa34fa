import WhatTheEvent.Stream.Assertion
import WhatTheEvent.Stream.Effect

/-!
# Would-block on the write side

A request that `xwrite` could not pass is meant to wait at the head of the list, with `WRITE`
watched, until it can be passed. Any failure of `xwrite` is reported to the callback of the request
as an error, so that only requests without a callback wait.
-/

namespace WhatTheEvent

variable {β : Type}

/-- The request that the event passes data of, and the result. -/
def Event.tried : Event β → Option (Nat × WriteResult)
  | .xwrite _ req _ result => some (req, result)
  | _ => none

/-- The last call of `xwrite`. -/
def lastTry (trace : List (Event β)) : Option (Nat × WriteResult) :=
  (trace.filterMap Event.tried).getLast?

/-- The last call of `xwrite` was made for the request and failed. -/
def Waits (trace : List (Event β)) (req : Nat) : Prop :=
  ∃ e, lastTry trace = some (req, .error e)

section Trace

variable {trace events : List (Event β)} {req : Nat} {result : WriteResult}

lemma lastTry_append : lastTry (trace ++ events) = (lastTry events).or (lastTry trace) := by
  rw [lastTry, List.filterMap_append, List.getLast?_append]
  rfl

lemma exists_of_lastTry (h : lastTry events = some (req, result)) :
    ∃ e ∈ events, e.request = some req := by
  obtain ⟨e, he, htried⟩ := List.mem_filterMap.mp (List.mem_of_getLast? h)
  refine ⟨e, he, ?_⟩
  cases e with
  | xwrite fd r data res =>
    obtain ⟨rfl, -⟩ := Prod.mk.inj (Option.some.inj htried)
    rfl
  | _ => cases htried

lemma lastTry_eq_none (h : ∀ e ∈ events, e.onWriteSide = false) : lastTry events = none := by
  refine Option.eq_none_iff_forall_ne_some.mpr fun ⟨req, result⟩ heq => ?_
  obtain ⟨e, he, hreq⟩ := exists_of_lastTry heq
  rw [(Event.of_not_onWriteSide (h e he)).1] at hreq
  cases hreq

/-- A request that waits goes on waiting while `xwrite` is not called. -/
lemma waits_append_iff (h : lastTry events = none) : Waits (trace ++ events) req ↔
    Waits trace req := by
  rw [Waits, lastTry_append, h, Option.none_or]
  rfl

/-- Events about other requests make no request wait. -/
lemma Waits.of_others (hothers : ∀ e ∈ events, e.request ≠ some req)
    (h : Waits (trace ++ events) req) : Waits trace req := by
  obtain ⟨er, hlast⟩ := h
  rw [lastTry_append] at hlast
  cases hevents : lastTry events with
  | none =>
    rw [hevents, Option.none_or] at hlast
    exact ⟨er, hlast⟩
  | some last =>
    rw [hevents, Option.some_or] at hlast
    obtain ⟨e, he, hreq⟩ := exists_of_lastTry (hevents.trans hlast)
    exact absurd hreq (hothers e he)

end Trace

namespace Stream

section Round

variable {fd : Int} {req : Nat} {extents : List (List (Cell β))} {results : List WriteResult}
  {pass : WritePass β}

/-- The loop over the extents fails if and only if the last call of `xwrite` does. -/
lemma waits_events_iff (h : writeExtents fd req extents results = .ok pass) :
    Waits pass.events req ↔ pass.failed = true := by
  induction extents generalizing results pass with
  | nil =>
    obtain rfl := writeExtents_nil h
    exact iff_of_false (fun ⟨_, hlast⟩ => Option.some_ne_none _ hlast.symm) Bool.false_ne_true
  | cons data extents ih =>
    cases results with
    | nil => cases h
    | cons r results =>
      cases r with
      | count n =>
        simp only [writeExtents] at h
        split_ifs at h
        obtain ⟨rest, hrest, hok⟩ := bind_eq_ok.mp h
        obtain rfl := Except.ok.inj hok
        change Waits ([.xwrite fd req data (.count n)] ++ rest.events) req ↔ rest.failed = true
        rw [← ih hrest, Waits, Waits, lastTry_append]
        cases lastTry rest.events with
        | none => simp [lastTry, Event.tried]
        | some last => rw [Option.some_or]
      | error er =>
        cases results with
        | nil =>
          obtain rfl := Except.ok.inj h
          exact iff_of_true ⟨er, rfl⟩ rfl
        | cons r' results => cases h

/-- Where there are extents `xwrite` is called. -/
lemma lastTry_ne_none (h : writeExtents fd req extents results = .ok pass) (hne : extents ≠ []) :
    lastTry pass.events ≠ none := by
  intro hnone
  obtain ⟨e, he⟩ := List.exists_mem_of_ne_nil _ (events_ne_nil h hne)
  have hp := passes_of_mem_events h he
  cases e with
  | xwrite fd r data result =>
    have hmem : (r, result) ∈ pass.events.filterMap Event.tried :=
      List.mem_filterMap.mpr ⟨_, he, rfl⟩
    rw [List.getLast?_eq_none_iff.mp hnone] at hmem
    exact absurd hmem List.not_mem_nil
  | _ => exact absurd hp id

/-- Whatever waits after a round waits because the round failed, or did so before it and the round
had nothing to pass. -/
lemma waits_of_round {trace outcome : List (Event β)} {req' : Nat}
    (hpass : writeExtents fd req extents results = .ok pass) (houtcome : lastTry outcome = none)
    (h : Waits (trace ++ (pass.events ++ outcome)) req') :
    (req' = req ∧ pass.failed = true) ∨ (extents = [] ∧ Waits trace req') := by
  obtain ⟨e, hlast⟩ := h
  rw [lastTry_append, lastTry_append, houtcome, Option.none_or] at hlast
  cases hevents : lastTry pass.events with
  | none =>
    rw [hevents, Option.none_or] at hlast
    refine .inr ⟨?_, e, hlast⟩
    by_contra hne
    exact lastTry_ne_none hpass hne hevents
  | some last =>
    rw [hevents, Option.some_or] at hlast
    have hwaits := hevents.trans hlast
    obtain ⟨e', he', hreq⟩ := exists_of_lastTry hwaits
    obtain rfl := Option.some.inj
      (hreq.symm.trans (tries_of_mem_events hpass e' he').request_eq.1)
    exact .inl ⟨rfl, (waits_events_iff hpass).mp ⟨e, hwaits⟩⟩

end Round

variable {s s' : Stream (Requests (WriteRequest β)) β} {act : Act β} {event : What} {req : Nat}
  {results : List WriteResult}

/-- The request holds exactly what was not accepted of it. -/
structure Unsent (trace : List (Event β)) (req : Nat) (request : WriteRequest β) : Prop where
  sound : request.buffer.Sound
  written : .write req (acceptedOf req trace ++ request.buffer.contents) request.callback ∈ trace
  only : ∀ contents callback, .write req contents callback ∈ trace →
    contents = acceptedOf req trace ++ request.buffer.contents ∧ callback = request.callback
  rest : Waits trace req → request.buffer.contents ≠ []

/-- No callback was told of an error, and a request that waits is at the head, with what was not
accepted of it and `WRITE` watched. -/
structure WouldBlockLaw (s : Stream (Requests (WriteRequest β)) β) : Prop where
  noError : ∀ req cb message, .writeError req cb message ∉ s.trace
  waiting : s.alive = true → ∀ req, Waits s.trace req →
    s.requests.head = some req ∧ s.watched.isWrite = true ∧
      ∃ request, s.requests.get req = .ok request ∧ Unsent s.trace req request

/-- In a round nothing is accepted behind a short count, and if `xwrite` fails the request has no
callback and `WRITE` is watched. A stream with a request that waits is not closed, and does not
forget `WRITE`. -/
def Undisturbed (s : Stream (Requests (WriteRequest β)) β) : Act β → Prop
  | .xwrites results => ∀ event req request, s.dispatch = some (.writeHelper event req) →
    s.requests.get req = .ok request →
      InOrder (request.buffer.peekExtents SizeT.max) results ∧
      ∀ e, .error e ∈ results → request.callback = none ∧ s.watched.isWrite = true
  | .close => ∀ req, ¬ Waits s.trace req
  | .startRead callback => s.watched = .readWrite → callback ≠ s.readCallback →
    ∀ req, ¬ Waits s.trace req
  | _ => True

/-! ### What the requests hold -/

lemma stable_unsent : Stable (Unsent (β := β)) where
  written := by
    intro trace req buffer callback hold hsound
    have haccepted : acceptedOf req (trace ++ [.write req buffer.contents callback]) = [] := by
      rw [acceptedOf_append_of_nil (by simp [Event.accepted]), acceptedOf_eq_nil hold]
    refine ⟨hsound, ?_, fun contents cb hmem => ?_, ?_⟩
    · rw [haccepted]
      exact List.mem_append_right _ List.mem_cons_self
    · rw [haccepted]
      rcases List.mem_append.mp hmem with hmem | hmem
      · exact absurd rfl (hold _ hmem)
      · obtain ⟨-, rfl, rfl⟩ := Event.write.inj (List.mem_singleton.mp hmem)
        exact ⟨rfl, rfl⟩
    · rintro ⟨e, hlast⟩
      rw [lastTry_append, show lastTry [Event.write req buffer.contents callback] = none from rfl,
        Option.none_or] at hlast
      obtain ⟨e', he', hreq⟩ := exists_of_lastTry hlast
      exact absurd hreq (hold e' he')
  others := by
    intro trace events req request hothers h
    have haccepted : acceptedOf req (trace ++ events) = acceptedOf req trace := by
      rw [acceptedOf_append, acceptedOf_eq_nil hothers, List.append_nil]
    refine ⟨h.sound, ?_, fun contents cb hmem => ?_,
      fun hwaits => h.rest (hwaits.of_others hothers)⟩
    · rw [haccepted]
      exact List.mem_append_left _ h.written
    · rw [haccepted]
      rcases List.mem_append.mp hmem with hmem | hmem
      · exact h.only contents cb hmem
      · exact absurd rfl (hothers _ hmem)

/-- In order, a round takes what is accepted out of the buffer. -/
lemma keepsRound_unsent (hin : s.Undisturbed act) : s.KeepsRound Unsent act := by
  intro results event req request pass buffer hact hd hget hpass hdrain hstop h
  subst hact
  obtain ⟨hsound, hrest, -⟩ := contents_ne_nil_of_stopped h.sound hpass hdrain hstop
  obtain ⟨hne, hflatten⟩ := BufferImpl.peekExtents_spec (n := SizeT.max) h.sound
  have haccepted := writeExtents_accepted (hin event req request hd hget).1 hpass
  obtain ⟨hle, -⟩ := writeExtents_total hne hpass
  rw [hflatten] at haccepted hle
  rw [List.take_take, Nat.min_eq_left (Nat.le_trans hle (List.length_take_le _ _))] at haccepted
  have hall : accepted pass.events ++ buffer.contents = request.buffer.contents := by
    obtain ⟨b', hb', -, hcontents⟩ := BufferImpl.drain_contents h.sound
    obtain rfl : b' = buffer := Except.ok.inj (hb'.symm.trans hdrain)
    rw [haccepted, hcontents, List.take_append_drop]
  have htries : ∀ e ∈ pass.events ++
      (if pass.failed then errorEvents req request.callback else []), e.Tries req :=
    tries_of_mem_stopped hpass
  have hof : acceptedOf req (s.trace ++ (pass.events ++
      if pass.failed then errorEvents req request.callback else [])) ++ buffer.contents =
      acceptedOf req s.trace ++ request.buffer.contents := by
    rw [acceptedOf_append, acceptedOf_eq_accepted fun e he => (htries e he).request_eq.1,
      accepted_stopped, List.append_assoc, hall]
  refine ⟨hsound, ?_, fun contents cb hmem => ?_, fun _ => hrest⟩
  · rw [hof]
    exact List.mem_append_left _ h.written
  · rw [hof]
    rcases List.mem_append.mp hmem with hmem | hmem
    · exact h.only contents cb hmem
    · exact absurd (htries _ hmem) id

/-! ### The request that waits -/

/-- A request that waits is at the head and in memory, and `WRITE` is watched; no call of `close` is
in progress. -/
structure Waiting (s : Stream (Requests (WriteRequest β)) β) (req : Nat) : Prop where
  head : s.requests.head = some req
  watched : s.watched.isWrite = true
  stored : ∃ request, s.requests.get req = .ok request
  calls : ∀ c ∈ s.calls, c = .connect

/-- A step that calls no `xwrite` and leaves the requests keeps what waits. -/
lemma Waiting.of_same {events : List (Event β)} (h : ∀ req, Waits s.trace req → s.Waiting req)
    (hreq : s'.requests = s.requests) (hwatched : s.watched.isWrite = true →
      s'.watched.isWrite = true) (hcalls : ∀ c ∈ s'.calls, c ∈ s.calls ∨ c = .connect)
    (htrace : s'.trace = s.trace ++ events) (hevents : ∀ e ∈ events, e.onWriteSide = false) :
    ∀ req, Waits s'.trace req → s'.Waiting req := by
  intro req hwaits
  rw [htrace, waits_append_iff (lastTry_eq_none hevents)] at hwaits
  obtain ⟨hhead, hwrite, hstored, hpending⟩ := h req hwaits
  refine ⟨hreq ▸ hhead, hwatched hwrite, hreq ▸ hstored, fun c hc => ?_⟩
  exact (hcalls c hc).elim (hpending c) id

lemma Waits.of_quiet {Q : Type} {s s' : Stream Q β} [RequestQueue Q (WriteRequest β)]
    (hq : s.Quiet s') (h : Waits s'.trace req) : Waits s.trace req := by
  obtain ⟨events, htrace, hevents⟩ := hq.trace
  rw [htrace] at h
  exact (waits_append_iff (lastTry_eq_none fun e he => (hevents e he).1)).mp h

lemma Waiting.queueWrite {buffer : BufferImpl β} {callback : Option Nat}
    (h : ∀ req, Waits s.trace req → s.Waiting req) (hok : s.queueWrite buffer callback = .ok s') :
    ∀ req, Waits s'.trace req → s'.Waiting req := by
  obtain ⟨requests, happend, rfl⟩ := queueWrite_cases hok
  have happend : s.requests.append ⟨buffer, callback⟩ = .ok requests := happend
  intro req hwaits
  obtain ⟨hhead, -, ⟨request, hget⟩, hpending⟩ := h req ((waits_append_iff rfl).mp hwaits)
  exact ⟨Requests.head_append happend hhead, What.isWrite_ensureWrite _,
    ⟨request, Requests.get_append_of_get happend hget⟩, hpending⟩

/-- Whatever waits after a round waits for the request of the round. -/
lemma Waiting.xwrites (h : ∀ req, Waits s.trace req → s.Waiting req) (hqueued : s.Queued Unsent)
    (hhead : s.OnHead) (ha : s.alive = true) (hcalls : s.calls = [])
    (hd : s.dispatch = some (.writeHelper event req)) (hclean : s.Undisturbed (.xwrites results))
    (hx : s.xwrites event req results = .ok s') :
    ∀ req', Waits s'.trace req' → s'.Waiting req' := by
  intro req' hwaits
  obtain ⟨request, pass, buffer, requests, hget, hpass, -, hput, hends, -⟩ := xwrites_cases hx
  have hput : s.requests.put req { request with buffer } = .ok requests := hput
  have hsame : requests.head = some req :=
    (LawfulRequestQueue.head_put (Q := Requests (WriteRequest β)) hput).trans
      (hhead ha _ req hd rfl)
  -- the request at the head is not empty if it waited before
  have hold : Waits s.trace req' → request.buffer.peekExtents SizeT.max ≠ [] := by
    intro hwaits hnil
    obtain rfl := Option.some.inj ((hhead ha _ req hd rfl).symm.trans (h req' hwaits).head)
    have hunsent : Unsent s.trace req request := hqueued.every req request hget
    exact hunsent.rest hwaits ((peekExtents_eq_nil_iff hunsent.sound).mp hnil)
  obtain ⟨hframe, hwatched, -⟩ := xwrites_eq hx
  cases hends with
  | stopped hstop hreq htrace _ =>
    rw [htrace] at hwaits
    have hnone : lastTry (if pass.failed then (errorEvents req request.callback : List (Event β))
        else []) = none := by
      split_ifs
      · cases request.callback <;> rfl
      · rfl
    rcases waits_of_round hpass hnone hwaits with ⟨rfl, hfailed⟩ | ⟨hnil, hwaits⟩
    · obtain ⟨e, he⟩ := (writeExtents_failed_iff hpass).mp hfailed
      have hwrite := ((hclean event req' request hd hget).2 e he).2
      have hfirst : RequestQueue.head s'.requests = some req' := hreq ▸ hsame
      refine ⟨hfirst, ?_, ⟨_, hreq ▸ Requests.get_put_self hput⟩, ?_⟩
      · rcases hwatched with ⟨-, hwatched⟩ | hwatched
        · rwa [hwatched]
        · rwa [hwatched, hfirst, if_neg (by simp)]
      · rw [hframe]
        exact fun c hc => absurd (hcalls ▸ hc) List.not_mem_nil
    · exact absurd hnil (hold hwaits)
  | completed hgo _ htrace _ =>
    rw [htrace] at hwaits
    have hnone : lastTry (completeEvents req request.callback : List (Event β)) = none := by
      cases request.callback <;> rfl
    rcases waits_of_round hpass hnone hwaits with ⟨-, hfailed⟩ | ⟨hnil, hwaits⟩
    · rw [hfailed, Bool.or_true] at hgo
      cases hgo
    · exact absurd hnil (hold hwaits)

/-- A step keeps what waits. -/
theorem Waiting.step (h : ∀ req, Waits s.trace req → s.Waiting req) (hqueued : s.Queued Unsent)
    (hhead : s.OnHead) (hok : s.step act = .ok s') (hclean : s.Undisturbed act)
    (ha' : s'.alive = true) : ∀ req, Waits s'.trace req → s'.Waiting req := by
  have hnil : s.trace = s.trace ++ [] := (List.append_nil _).symm
  have hempty : ∀ e ∈ ([] : List (Event β)), e.onWriteSide = false := fun _ he =>
    absurd he List.not_mem_nil
  cases step_effect hok with
  | queue readBuffer _ _ hqueue =>
    have hsame : ∀ req, Waits s.trace req → Waiting { s with readBuffer } req := fun req hw =>
      ⟨(h req hw).head, (h req hw).watched, (h req hw).stored, (h req hw).calls⟩
    exact Waiting.queueWrite hsame hqueue
  | useBuffer readBuffer => exact Waiting.of_same h rfl id (fun _ hc => .inl hc) hnil hempty
  | startRead callback =>
    by_cases heq : callback = s.readCallback
    · rw [startRead, if_pos heq.symm]
      exact h
    · rw [startRead, if_neg (Ne.symm heq)]
      intro req hwaits
      have hw := h req hwaits
      refine ⟨hw.head, ?_, hw.stored, hw.calls⟩
      have hwrite := hw.watched
      cases hwatched : s.watched with
      | readWrite => exact absurd hwaits (hclean hwatched heq req)
      | write => rfl
      | none | read => rw [hwatched] at hwrite; cases hwrite
  | stopRead =>
    unfold stopRead
    split_ifs with hnone hread hwrite
    · exact h
    · exact Waiting.of_same h rfl id (fun _ hc => .inl hc) hnil hempty
    · exact Waiting.of_same h rfl (fun _ => rfl) (fun _ hc => .inl hc) hnil hempty
    · exact Waiting.of_same h rfl id (fun _ hc => .inl hc) hnil hempty
  | close => exact fun req hwaits => absurd (Waits.of_quiet quiet_close hwaits) (hclean req)
  | connect _ hconnect =>
    intro req hwaits
    have hwrite := (h req (Waits.of_quiet (quiet_connect hconnect) hwaits)).watched
    rw [(connect_cases hconnect).1.2.2] at hwrite
    cases hwrite
  | destroy _ hdestroy =>
    obtain ⟨⟨requests, r⟩, -, hok⟩ := bind_eq_ok.mp hdestroy
    obtain rfl := Except.ok.inj hok
    cases ha'
  | ready event =>
    rw [ready_eq]
    exact Waiting.of_same h rfl id (fun _ hc => .inl hc) hnil hempty
  | getsockopt _ _ _ hget =>
    obtain ⟨cb, -, rfl⟩ := getsockopt_cases hget
    refine Waiting.of_same h rfl id (fun _ hc => .inl hc) rfl ?_
    split_ifs <;> simp [Event.onWriteSide]
  | xwrites ha hcalls hd hx => exact Waiting.xwrites h hqueued hhead ha hcalls hd hclean hx
  | xread _ _ _ hx =>
    obtain ⟨events, htrace, hevents⟩ := (xread_writeSide hx).2.2.2
    have heq := xread_eq hx
    refine Waiting.of_same h (xread_writeSide hx).1 ?_ ?_ htrace hevents
    · rw [heq]
      exact id
    · rw [heq]
      exact fun _ hc => .inl hc
  | @returned c calls _ hcalls hcall =>
    intro req hwaits
    have hw := h req (Waits.of_quiet (.of_calls calls (quiet_resumeCall hcall)) hwaits)
    obtain rfl : c = .connect := hw.calls c (by rw [hcalls]; exact List.mem_cons_self)
    obtain rfl := Except.ok.inj hcall
    exact ⟨hw.head, hw.watched, hw.stored, fun c hc =>
      hw.calls c (by rw [hcalls]; exact List.mem_cons_of_mem _ hc)⟩
  | resumed _ _ hd =>
    rw [resumeDispatch_eq hd]
    exact Waiting.of_same h rfl id (fun _ hc => .inl hc) hnil hempty

/-! ### Errors -/

/-- Only a round that fails tells a callback of an error. -/
lemma noError_step (h : ∀ req cb message, .writeError req cb message ∉ s.trace)
    (hok : s.step act = .ok s') (hclean : s.Undisturbed act) :
    ∀ req cb message, .writeError req cb message ∉ s'.trace := by
  intro r cb message hmem
  by_cases hact : ∃ results, act = .xwrites results
  · obtain ⟨results, rfl⟩ := hact
    obtain ⟨-, event, req, hd, hx⟩ := step_xwrites hok
    obtain ⟨request, pass, buffer, requests, hget, hpass, -, -, hends, -⟩ := xwrites_cases hx
    have hpassed : .writeError r cb message ∉ pass.events := fun hm =>
      absurd (passes_of_mem_events hpass hm) id
    cases hends with
    | stopped _ _ htrace =>
      rw [htrace, List.mem_append, List.mem_append] at hmem
      rcases hmem with hmem | hmem | hmem
      · exact h r cb message hmem
      · exact hpassed hmem
      · split_ifs at hmem with hfailed
        · obtain ⟨e, he⟩ := (writeExtents_failed_iff hpass).mp hfailed
          rw [((hclean event req request hd hget).2 e he).1] at hmem
          exact absurd hmem List.not_mem_nil
        · exact absurd hmem List.not_mem_nil
    | completed _ _ htrace =>
      rw [htrace, List.mem_append, List.mem_append] at hmem
      rcases hmem with hmem | hmem | hmem
      · exact h r cb message hmem
      · exact hpassed hmem
      · cases hcb : request.callback <;> simp [hcb, completeEvents] at hmem
  · obtain ⟨-, events, htrace, hevents⟩ := step_neutral hok fun results heq => hact ⟨results, heq⟩
    rw [htrace, List.mem_append] at hmem
    exact hmem.elim (h r cb message) fun hm => (hevents _ hm r).1 rfl

/-- In a run that is undisturbed no `error()` is called, and a request whose `xwrite` failed stays
at the head of the list with exactly what was not accepted of it, and with `WRITE` watched. -/
theorem wouldBlockLaw_of_exec (fd : Int) (acts : List (Act β))
    (hsource : ∀ source callback, .writeBuffer source callback ∈ acts → source.Sound)
    (h : Exec.exec step (new fd : Stream (Requests (WriteRequest β)) β) acts = .ok s)
    (hclean : Exec.Along step Undisturbed (new fd : Stream (Requests (WriteRequest β)) β) acts) :
    s.WouldBlockLaw := by
  have hrun : s.ReadSide ∧ s.OnHead ∧
      (∀ req cb message, .writeError req cb message ∉ s.trace) ∧
      (s.alive = true → s.Queued Unsent ∧ ∀ req, Waits s.trace req → s.Waiting req) := by
    refine Exec.exec_invariant (fun s => s.ReadSide ∧ s.OnHead ∧
        (∀ req cb message, .writeError req cb message ∉ s.trace) ∧
        (s.alive = true → s.Queued Unsent ∧ ∀ req, Waits s.trace req → s.Waiting req)) ?_
      ⟨readSide_new fd, onHead_new fd, fun _ _ _ => List.not_mem_nil, fun _ =>
        ⟨queued_new fd, fun req hwaits => ?_⟩⟩
      (hclean.and (Exec.Along.of_mem (soundSource_of_forall hsource))) h
    · rintro s act s' ⟨hread, hhead, herror, hwait⟩ ⟨hundisturbed, hsound⟩ hs
      refine ⟨(hread.step hs).1, hhead.step hs, noError_step herror hs hundisturbed, fun ha => ?_⟩
      obtain ⟨hqueued, hwaiting⟩ := hwait (alive_of_step hs ha)
      exact ⟨hqueued.step stable_unsent hread hhead hs hsound (keepsRound_unsent hundisturbed) ha,
        Waiting.step hwaiting hqueued hhead hs hundisturbed ha⟩
    · obtain ⟨e, hlast⟩ := hwaits
      cases hlast
  refine ⟨hrun.2.2.1, fun ha req hwaits => ?_⟩
  obtain ⟨hqueued, hwaiting⟩ := hrun.2.2.2 ha
  obtain ⟨hhead, hwatched, ⟨request, hget⟩, -⟩ := hwaiting req hwaits
  exact ⟨hhead, hwatched, request, hget, hqueued.every req request hget⟩

/-- A request without a callback would block after a short count. -/
theorem wouldBlockLaw_no_callback : ∃ s : Stream (Requests (WriteRequest Char)) Char,
    Exec.exec step (new 3) [.write ['a', 'b'] none, .ready .write, .xwrites [.count 1],
      .ready .write, .xwrites [.error .eagain]] = .ok s ∧ Waits s.trace 0 ∧ s.WouldBlockLaw := by
  refine ⟨_, rfl, ⟨.eagain, rfl⟩, wouldBlockLaw_of_exec 3 [.write ['a', 'b'] none, .ready .write,
    .xwrites [.count 1], .ready .write, .xwrites [.error .eagain]]
    (fun source callback hmem => by simp at hmem) rfl ?_⟩
  refine ⟨trivial, trivial, ?_, trivial, ?_, trivial⟩
  · intro event req request hd hget
    have hd' : some (Dispatch.writeHelper .write 0) = some (.writeHelper event req) := hd
    obtain ⟨rfl, rfl⟩ := Dispatch.writeHelper.inj (Option.some.inj hd')
    have hget' : Except.ok ⟨⟨[InternalExtent.of [] ['a', 'b'] []], 2⟩, none⟩ =
      (.ok request : Except Fault _) := hget
    obtain rfl := Except.ok.inj hget'
    exact ⟨by decide, fun e he => nomatch List.mem_singleton.mp he⟩
  · intro event req request hd hget
    have hd' : some (Dispatch.writeHelper .write 0) = some (.writeHelper event req) := hd
    obtain ⟨rfl, rfl⟩ := Dispatch.writeHelper.inj (Option.some.inj hd')
    obtain ⟨rest, hrest, rfl⟩ : ∃ rest,
        (⟨[InternalExtent.of [] ['a', 'b'] []], 2⟩ : BufferImpl Char).drain 1 = .ok rest ∧
          request = ⟨rest, none⟩ := ⟨_, rfl, (Except.ok.inj hget).symm⟩
    obtain rfl := Except.ok.inj hrest
    exact ⟨by decide, fun _ _ => ⟨rfl, rfl⟩⟩

/-- `EAGAIN` is reported to the callback of the request as an error. -/
theorem not_wouldBlockLaw : ¬ ∀ (fd : Int) (acts : List (Act Char))
    (s : Stream (Requests (WriteRequest Char)) Char),
    (∀ source callback, .writeBuffer source callback ∈ acts → source.Sound) →
    (∀ results, .xwrites results ∈ acts → ∀ e, .error e ∈ results → isReadRetryable e = true) →
    Exec.exec step (new fd) acts = .ok s → s.WouldBlockLaw := by
  intro h
  have hlaw := h 3 [.write ['a'] (some 7), .ready .write, .xwrites [.error .eagain]] _
    (fun source callback hmem => by simp at hmem) (fun results hmem e he => ?_) rfl
  · exact hlaw.noError 0 7 "Write failed" (by decide)
  · obtain rfl : results = [.error .eagain] := by simpa using hmem
    obtain rfl := WriteResult.error.inj (List.mem_singleton.mp he)
    rfl

end Stream

end WhatTheEvent
