import WhatTheEvent.Stream.WriteSide

/-!
# The outcome of a write

The callback of a request is called at most once, and nothing happens to a request that has
failed, in exactly those runs in which the write loop never starts over on such a request.
-/

namespace WhatTheEvent

variable {β : Type}

/-! ### What stays true of a request -/

namespace Requests

variable {ρ : Type} {P : ρ → Prop} {q q' : Requests ρ} {request old : ρ} {r p : Nat}

/-- The request `r` has been allocated, and has the property as long as it is in memory. -/
def Still (P : ρ → Prop) (q : Requests ρ) (r : Nat) : Prop :=
  r < q.heap.fresh ∧ ∀ node, q.heap.load r = some node → P node.request

lemma Still.alloc (h : Still P q r) {node : RequestNode ρ} :
    ∀ node', (q.heap.alloc node).load r = some node' → P node'.request := by
  intro node' hload
  rw [Heap.load_alloc_of_ne (Nat.ne_of_lt h.1)] at hload
  exact h.2 node' hload

lemma Still.append (h : Still P q r) (hok : q.append request = .ok q') : Still P q' r := by
  unfold Requests.append at hok
  have hlt := Nat.lt_succ_of_lt h.1
  cases hh : q.head with
  | none =>
    simp only [hh] at hok
    obtain rfl := Except.ok.inj hok
    exact ⟨by rwa [Heap.fresh_alloc], h.alloc⟩
  | some a =>
    cases ht : q.tail with
    | none =>
      simp only [hh, ht] at hok
      cases hok
    | some t =>
      simp only [hh, ht] at hok
      obtain ⟨node, hnode, hok⟩ := bind_eq_ok.mp hok
      obtain rfl := Except.ok.inj hok
      refine ⟨by rwa [Heap.fresh_store, Heap.fresh_alloc], fun node' hload => ?_⟩
      have htail := deref_eq_ok.mp hnode
      by_cases hrt : t = r
      · subst hrt
        rw [Heap.load_store_self htail] at hload
        obtain rfl := Option.some.inj hload
        exact h.alloc node htail
      · rw [Heap.load_store_of_ne hrt] at hload
        exact h.alloc node' hload

lemma Still.put (h : Still P q r) (hok : q.put p request = .ok q')
    (hP : ∀ old, q.get p = .ok old → P old → P request) : Still P q' r := by
  obtain ⟨node, hload, rfl⟩ := put_eq_ok hok
  refine ⟨by rw [Heap.fresh_store]; exact h.1, fun node' hload' => ?_⟩
  by_cases hpr : p = r
  · subst hpr
    rw [Heap.load_store_self hload] at hload'
    obtain rfl := Option.some.inj hload'
    exact hP node.request (get_eq_ok.mpr ⟨node.next, hload⟩) (h.2 node hload)
  · rw [Heap.load_store_of_ne hpr] at hload'
    exact h.2 node' hload'

lemma Still.consumeFront (h : Still P q r) {next : Option Nat}
    (hok : q.consumeFront = .ok (q', next)) : Still P q' r := by
  obtain ⟨-, ⟨-, rfl⟩ | ⟨a, -, hheap⟩⟩ := consumeFront_eq_ok hok
  · exact h
  · unfold Still
    rw [hheap]
    refine ⟨by rw [Heap.fresh_free]; exact h.1, fun node hload => ?_⟩
    by_cases har : a = r
    · subst har
      rw [Heap.load_free_self] at hload
      cases hload
    · rw [Heap.load_free_of_ne har] at hload
      exact h.2 node hload

/-- What has just been written has its property. -/
lemma Still.of_put (hok : q.put p request = .ok q') (hP : P request) : Still P q' p := by
  obtain ⟨node, hload, rfl⟩ := put_eq_ok hok
  refine ⟨by rw [Heap.fresh_store]; exact Heap.lt_fresh hload, fun node' hload' => ?_⟩
  rw [Heap.load_store_self hload] at hload'
  obtain rfl := Option.some.inj hload'
  exact hP

/-- The request consumed is no longer in memory. -/
lemma Still.of_consumeFront {next : Option Nat} (h : Still P q r) (hhead : q.head = some r)
    (hok : q.consumeFront = .ok (q', next)) : Still (fun _ => False) q' r := by
  obtain ⟨-, ⟨hnone, -⟩ | ⟨a, ha, hheap⟩⟩ := consumeFront_eq_ok hok
  · rw [hhead] at hnone
    cases hnone
  · obtain rfl := Option.some.inj (hhead.symm.trans ha)
    unfold Still
    rw [hheap]
    refine ⟨by rw [Heap.fresh_free]; exact h.1, fun node hload => ?_⟩
    rw [Heap.load_free_self] at hload
    cases hload

/-- A request in memory has its property. -/
lemma Still.get (h : Still P q r) (hget : q.get r = .ok request) : P request := by
  obtain ⟨next, hload⟩ := get_eq_ok.mp hget
  exact h.2 _ hload

end Requests

/-! ### Outcomes -/

/-- What may follow `e` in a run: no call of the callback of a request follows another, and
nothing is passed of a request once its `error()` was called. -/
def Event.MayPrecede (e e' : Event β) : Prop :=
  match e with
  | .writeComplete req _ => ¬ e'.IsOutcome req
  | .writeError req _ _ => ¬ e'.IsOutcome req ∧ ¬ e'.Passes req
  | _ => True

instance (e e' : Event β) : Decidable (e.MayPrecede e') :=
  match e with
  | .writeComplete req _ => inferInstanceAs (Decidable (¬ e'.IsOutcome req))
  | .writeError req _ _ => inferInstanceAs (Decidable (¬ e'.IsOutcome req ∧ ¬ e'.Passes req))
  | .write _ _ _ | .xwrite _ _ _ _ | .xread _ _ _ | .available _ _ | .eof _ _ | .readError _ _
  | .connectComplete _ | .connectError _ _ | .xclose _ => inferInstanceAs (Decidable True)

/-- The callback of each request was called at most once, and after `error()` nothing more was
passed of the request. -/
def AtMostOneOutcome (trace : List (Event β)) : Prop := trace.Pairwise Event.MayPrecede

instance (trace : List (Event β)) : Decidable (AtMostOneOutcome trace) :=
  inferInstanceAs (Decidable (List.Pairwise _ _))

namespace Stream

variable {s s' : Stream (Requests (WriteRequest β)) β} {act : Act β} {event : What} {req : Nat}
  {results : List WriteResult} {trace events : List (Event β)}

/-- The step is a round of the write loop on a request whose `error()` was called. -/
def Retries (s : Stream (Requests (WriteRequest β)) β) : Act β → Prop
  | .xwrites _ => ∃ event req cb message,
    s.dispatch = some (.writeHelper event req) ∧ .writeError req cb message ∈ s.trace
  | _ => False

/-- Requests that have completed are no longer in memory, and those that have failed have a
callback. -/
structure Settled (s : Stream (Requests (WriteRequest β)) β) : Prop where
  onHead : s.OnHead
  completed : ∀ req cb, .writeComplete req cb ∈ s.trace → s.requests.Still (fun _ => False) req
  failed : ∀ req cb message, .writeError req cb message ∈ s.trace →
    s.requests.Still (fun request => request.callback.isSome) req

lemma settled_new (fd : Int) : Settled (new fd : Stream (Requests (WriteRequest β)) β) :=
  ⟨onHead_new fd, fun _ _ h => absurd h List.not_mem_nil, fun _ _ _ h => absurd h List.not_mem_nil⟩

/-- An event that is neither a call of a callback of a write nor passes data. -/
def Neutral (e : Event β) : Prop := ∀ req, ¬ e.IsOutcome req ∧ ¬ e.Passes req

lemma neutral_of_not_onWriteSide {e : Event β} (h : e.onWriteSide = false) : Neutral e := by
  intro req
  cases e <;> first | exact ⟨id, id⟩ | cases h

/-- Neutral events make no difference. -/
lemma atMostOneOutcome_neutral (h : ∀ e ∈ events, Neutral e) :
    AtMostOneOutcome (trace ++ events) ↔ AtMostOneOutcome trace := by
  unfold AtMostOneOutcome
  rw [List.pairwise_append]
  refine ⟨fun hp => hp.1, fun hp => ⟨hp, ?_, ?_⟩⟩
  · refine List.pairwise_of_forall_mem_list fun e he e' _ => ?_
    cases e with
    | writeComplete req cb => exact absurd rfl (h _ he req).1
    | writeError req cb message => exact absurd rfl (h _ he req).1
    | _ => trivial
  · intro e _ e' he'
    cases e with
    | writeComplete req cb => exact (h e' he' req).1
    | writeError req cb message => exact h e' he' req
    | _ => trivial

/-- The facts about requests carry over a step that keeps them and adds neutral events. -/
lemma Settled.of_neutral (h : s.Settled) (hhead : s'.OnHead)
    (hstill : ∀ P r, s.requests.Still P r → s'.requests.Still P r)
    (htrace : s'.trace = s.trace ++ events) (hevents : ∀ e ∈ events, Neutral e) :
    s'.Settled := by
  refine ⟨hhead, fun req cb hmem => ?_, fun req cb message hmem => ?_⟩
  · rw [htrace, List.mem_append] at hmem
    rcases hmem with hmem | hmem
    · exact hstill _ _ (h.completed req cb hmem)
    · exact absurd rfl (hevents _ hmem req).1
  · rw [htrace, List.mem_append] at hmem
    rcases hmem with hmem | hmem
    · exact hstill _ _ (h.failed req cb message hmem)
    · exact absurd rfl (hevents _ hmem req).1

/-- What every other step than a round of the write loop does. -/
lemma step_neutral (hs : s.step act = .ok s') (hact : ∀ results, act ≠ .xwrites results) :
    (∀ P r, s.requests.Still P r → s'.requests.Still P r) ∧
      ∃ events, s'.trace = s.trace ++ events ∧ ∀ e ∈ events, Neutral e := by
  have hwrite : ∀ {t : Stream (Requests (WriteRequest β)) β} {buffer callback},
      t.requests = s.requests → t.trace = s.trace → t.queueWrite buffer callback = .ok s' →
      (∀ P r, s.requests.Still P r → s'.requests.Still P r) ∧
        ∃ events, s'.trace = s.trace ++ events ∧ ∀ e ∈ events, Neutral e := by
    intro t buffer callback hreq htrace hqueue
    obtain ⟨happend, htrace', -⟩ := queueWrite_eq_ok hqueue
    rw [hreq] at happend
    rw [htrace] at htrace'
    exact ⟨fun P r hr => hr.append happend, _, htrace',
      List.forall_mem_singleton.mpr fun _ => ⟨id, id⟩⟩
  cases step_cases hs with
  | quiet hq =>
    obtain ⟨events, htrace, hevents⟩ := hq.trace
    exact ⟨fun P r hr => hq.requests ▸ hr, events, htrace,
      fun e he => neutral_of_not_onWriteSide (hevents e he).1⟩
  | write _ hqueue => exact hwrite rfl rfl hqueue
  | writeBuffer hqueue => exact hwrite rfl rfl hqueue
  | writeReadBuffer _ hqueue =>
    exact hwrite
      (t := { s with readBuffer := (BufferImpl.empty.appendBuffer s.readBuffer).2 }) rfl rfl hqueue
  | readBuffer => exact ⟨fun _ _ hr => hr, [], (List.append_nil _).symm, by simp⟩
  | moveReadBuffer => exact ⟨fun _ _ hr => hr, [], (List.append_nil _).symm, by simp⟩
  | xwrites => exact absurd rfl (hact _)
  | xread _ _ hx =>
    obtain ⟨hreq, -, -, events, htrace, hevents⟩ := xread_writeSide hx
    exact ⟨fun P r hr => hreq ▸ hr, events, htrace,
      fun e he => neutral_of_not_onWriteSide (hevents e he)⟩
  | destroy hdestroy =>
    obtain ⟨⟨requests, r⟩, hloop, hok⟩ := bind_eq_ok.mp hdestroy
    obtain rfl := Except.ok.inj hok
    refine ⟨fun P r hr => ?_, [], (List.append_nil _).symm, by simp⟩
    refine Loop.doWhile_invariant (fun st => st.1.Still P r) ?_ hr hloop
    intro st st' hst hconsume
    exact hst.consumeFront hconsume

variable {request : WriteRequest β} {pass : WritePass β} {buffer : BufferImpl β}
  {requests : Requests (WriteRequest β)}

/-- A round adds what it passes and at most one call of the callback, which is not missing when the
request is completed. -/
lemma RoundEnds.trace_eq (h : s.RoundEnds req request pass requests s') :
    ∃ outcome, s'.trace = s.trace ++ (pass.events ++ outcome) ∧
      (outcome = [] ∨ ∃ e : Event β, outcome = [e] ∧ e.IsOutcome req) ∧
      ((pass.blocked || pass.failed) = false → request.callback.isSome → outcome ≠ []) := by
  cases h with
  | stopped hstop _ htrace =>
    refine ⟨_, htrace, ?_, fun hgo => absurd (hstop.symm.trans hgo) (by simp)⟩
    split_ifs
    · cases request.callback with
      | none => exact Or.inl rfl
      | some cb => exact Or.inr ⟨_, rfl, rfl⟩
    · exact Or.inl rfl
  | completed _ _ htrace =>
    refine ⟨_, htrace, ?_⟩
    cases request.callback with
    | none => exact ⟨Or.inl rfl, fun _ hcb => nomatch hcb⟩
    | some cb => exact ⟨Or.inr ⟨_, rfl, rfl⟩, fun _ _ => List.cons_ne_nil _ _⟩

lemma mayPrecede_of_passes {e e' : Event β} {r : Nat} (h : e.Passes r) : e.MayPrecede e' := by
  cases e with
  | xwrite fd req data result => trivial
  | _ => exact absurd h id

lemma not_isOutcome_of_passes {e : Event β} {r r' : Nat} (h : e.Passes r) : ¬ e.IsOutcome r' := by
  cases e <;> first | exact id | exact absurd h id

lemma eq_of_passes {e : Event β} {r r' : Nat} (h : e.Passes r) (h' : e.Passes r') : r = r' := by
  cases e with
  | xwrite fd req data result => exact h.symm.trans h'
  | _ => exact absurd h id

lemma eq_of_isOutcome {e : Event β} {r r' : Nat} (h : e.IsOutcome r) (h' : e.IsOutcome r') :
    r = r' := by
  cases e with
  | writeComplete req cb => exact h.symm.trans h'
  | writeError req cb message => exact h.symm.trans h'
  | _ => exact absurd h id

/-- A round keeps the facts about requests: what has completed is gone, what has failed has a
callback. -/
lemma Settled.xwrites (h : s.Settled) (ha : s.alive = true)
    (hd : s.dispatch = some (.writeHelper event req)) (hx : s.xwrites event req results = .ok s') :
    s'.Settled := by
  obtain ⟨request, pass, buffer, requests, hget, hpass, -, hput, hends, -⟩ := xwrites_cases hx
  have hkeep : ∀ {P : WriteRequest β → Prop} {r}, (∀ old buffer, P old → P { old with buffer }) →
      s.requests.Still P r → requests.Still P r := by
    intro P r hP hr
    refine hr.put hput fun old hold => ?_
    obtain rfl := Except.ok.inj (hget.symm.trans hold)
    exact hP request buffer
  have hfalse : ∀ (old : WriteRequest β) (_ : BufferImpl β), False → False := fun _ _ hf => hf
  have hcallback : ∀ (old : WriteRequest β) (buffer : BufferImpl β), old.callback.isSome = true →
      ({ old with buffer } : WriteRequest β).callback.isSome = true := fun _ _ hc => hc
  have hpassed : ∀ {e r}, e ∈ pass.events → ¬ e.IsOutcome r := fun he =>
    not_isOutcome_of_passes (passes_of_mem_events hpass he)
  cases hends with
  | stopped _ hreq htrace _ =>
    refine ⟨OnHead.xwrites hx, fun r cb hmem => ?_, fun r cb message hmem => ?_⟩
    · rw [htrace, List.mem_append, List.mem_append] at hmem
      rw [hreq]
      rcases hmem with hmem | hmem | hmem
      · exact hkeep hfalse (h.completed r cb hmem)
      · exact absurd rfl (hpassed hmem)
      · split_ifs at hmem
        · cases hcb : request.callback <;> simp [hcb, errorEvents] at hmem
        · exact absurd hmem List.not_mem_nil
    · rw [htrace, List.mem_append, List.mem_append] at hmem
      rw [hreq]
      rcases hmem with hmem | hmem | hmem
      · exact hkeep hcallback (h.failed r cb message hmem)
      · exact absurd rfl (hpassed hmem)
      · split_ifs at hmem
        · cases hcb : request.callback with
          | none => simp [hcb, errorEvents] at hmem
          | some cb' =>
            rw [hcb, errorEvents, List.mem_singleton, Event.writeError.injEq] at hmem
            obtain ⟨rfl, -⟩ := hmem
            exact .of_put hput (by rw [hcb]; rfl)
        · exact absurd hmem List.not_mem_nil
  | completed _ hconsume htrace _ =>
    have hhead : requests.head = some req :=
      (LawfulRequestQueue.head_put (Q := Requests (WriteRequest β)) hput).trans
        (h.onHead ha _ req hd rfl)
    refine ⟨OnHead.xwrites hx, fun r cb hmem => ?_, fun r cb message hmem => ?_⟩
    · rw [htrace, List.mem_append, List.mem_append] at hmem
      rcases hmem with hmem | hmem | hmem
      · exact (hkeep hfalse (h.completed r cb hmem)).consumeFront hconsume
      · exact absurd rfl (hpassed hmem)
      · cases hcb : request.callback with
        | none => simp [hcb, completeEvents] at hmem
        | some cb' =>
          rw [hcb, completeEvents, List.mem_singleton, Event.writeComplete.injEq] at hmem
          obtain ⟨rfl, -⟩ := hmem
          exact Requests.Still.of_consumeFront
            (.of_put (P := fun _ => True) hput trivial) hhead hconsume
    · rw [htrace, List.mem_append, List.mem_append] at hmem
      rcases hmem with hmem | hmem | hmem
      · exact (hkeep hcallback (h.failed r cb message hmem)).consumeFront hconsume
      · exact absurd rfl (hpassed hmem)
      · cases hcb : request.callback <;> simp [hcb, completeEvents] at hmem

theorem Settled.step (h : s.Settled) (hs : s.step act = .ok s') : s'.Settled := by
  by_cases hact : ∃ results, act = .xwrites results
  · obtain ⟨results, rfl⟩ := hact
    obtain ⟨ha, event, req, hd, hx⟩ := step_xwrites hs
    exact h.xwrites ha hd hx
  · obtain ⟨hstill, events, htrace, hevents⟩ :=
      step_neutral hs fun results heq => hact ⟨results, heq⟩
    exact h.of_neutral (h.onHead.step hs) hstill htrace hevents

/-- A round on a request that has failed before is a second outcome or passes data once more; any
other round is harmless. -/
lemma xwrites_atMostOneOutcome_iff (h : s.Settled)
    (hd : s.dispatch = some (.writeHelper event req)) (hx : s.xwrites event req results = .ok s') :
    AtMostOneOutcome s'.trace ↔
      AtMostOneOutcome s.trace ∧ ¬ s.Retries (.xwrites results) := by
  obtain ⟨request, pass, buffer, requests, hget, hpass, hdrain, -, hends, -⟩ := xwrites_cases hx
  obtain ⟨outcome, htrace, houtcome, hcomplete⟩ := hends.trace_eq
  have habout : ∀ e ∈ pass.events ++ outcome, ∀ r, e.IsOutcome r ∨ e.Passes r → r = req := by
    intro e he r hr
    rcases List.mem_append.mp he with he | he
    · have hp := passes_of_mem_events hpass he
      exact hr.elim (fun ho => absurd ho (not_isOutcome_of_passes hp)) fun hr => eq_of_passes hr hp
    · rcases houtcome with rfl | ⟨e', rfl, ho⟩
      · exact absurd he List.not_mem_nil
      · obtain rfl := List.mem_singleton.mp he
        exact hr.elim (fun hr => eq_of_isOutcome hr ho)
          fun hp => absurd ho (not_isOutcome_of_passes hp)
  unfold AtMostOneOutcome
  rw [htrace, List.pairwise_append]
  constructor
  · rintro ⟨hp, -, hcross⟩
    refine ⟨hp, ?_⟩
    rintro ⟨event', req', cb, message, hd', hmem⟩
    obtain ⟨rfl, rfl⟩ := Dispatch.writeHelper.inj (Option.some.inj (hd.symm.trans hd'))
    -- something happens to the request in the round
    have hsome : ∃ e ∈ pass.events ++ outcome, e.IsOutcome req ∨ e.Passes req := by
      by_cases hext : request.buffer.peekExtents SizeT.max = []
      · rw [hext] at hpass
        obtain rfl := writeExtents_nil hpass
        have hcb := (h.failed req cb message hmem).get hget
        rcases houtcome with rfl | ⟨e, rfl, ho⟩
        · exact absurd rfl (hcomplete rfl hcb)
        · exact ⟨e, List.mem_append_right _ (List.mem_singleton_self e), Or.inl ho⟩
      · obtain ⟨e, he⟩ := List.exists_mem_of_ne_nil _ (events_ne_nil hpass hext)
        exact ⟨e, List.mem_append_left _ he, Or.inr (passes_of_mem_events hpass he)⟩
    obtain ⟨e, he, hreq⟩ := hsome
    obtain ⟨hno, hnp⟩ := hcross _ hmem e he
    exact hreq.elim hno hnp
  · rintro ⟨hp, hretry⟩
    refine ⟨hp, ?_, ?_⟩
    · refine List.pairwise_append.mpr ⟨?_, ?_, fun e he e' _ => ?_⟩
      · exact List.pairwise_of_forall_mem_list fun e he e' _ =>
          mayPrecede_of_passes (passes_of_mem_events hpass he)
      · rcases houtcome with rfl | ⟨e, rfl, -⟩
        · exact List.Pairwise.nil
        · exact List.pairwise_singleton _ _
      · exact mayPrecede_of_passes (passes_of_mem_events hpass he)
    · intro e he e' he'
      cases e with
      | writeComplete r cb =>
        intro ho
        obtain rfl := habout e' he' r (Or.inl ho)
        exact (h.completed r cb he).get hget
      | writeError r cb message =>
        have hne : ∀ {P : Prop}, (P → r = req) → ¬ P := fun hP hp => by
          obtain rfl := hP hp
          exact hretry ⟨event, r, cb, message, hd, he⟩
        exact ⟨hne fun ho => habout e' he' r (Or.inl ho), hne fun hq => habout e' he' r (Or.inr hq)⟩
      | _ => trivial

theorem step_atMostOneOutcome_iff (h : s.Settled) (hs : s.step act = .ok s') :
    AtMostOneOutcome s'.trace ↔ AtMostOneOutcome s.trace ∧ ¬ s.Retries act := by
  by_cases hact : ∃ results, act = .xwrites results
  · obtain ⟨results, rfl⟩ := hact
    obtain ⟨-, event, req, hd, hx⟩ := step_xwrites hs
    exact xwrites_atMostOneOutcome_iff h hd hx
  · obtain ⟨-, events, htrace, hevents⟩ := step_neutral hs fun results heq => hact ⟨results, heq⟩
    have hretry : ¬ s.Retries act := by
      cases act with
      | xwrites results => exact absurd ⟨results, rfl⟩ hact
      | _ => exact id
    rw [htrace, atMostOneOutcome_neutral hevents]
    exact (and_iff_left hretry).symm

/-- In a run of a stream the callback of every write is called at most once, and nothing is passed
of a write that has failed, if and only if the write loop never starts over on a request whose
`error()` was called. -/
theorem atMostOneOutcome_iff (fd : Int) (acts : List (Act β))
    (h : Exec.exec step (new fd) acts = .ok s) :
    AtMostOneOutcome s.trace ↔ Exec.Along step (fun s act => ¬ s.Retries act) (new fd) acts := by
  have hrun : s.Settled ∧ (AtMostOneOutcome s.trace ↔
      Exec.Along step (fun s act => ¬ s.Retries act) (new fd) acts) := by
    induction acts using List.reverseRecOn generalizing s with
    | nil =>
      obtain rfl := Except.ok.inj h
      exact ⟨settled_new fd, fun _ => Exec.along_nil, fun _ => List.Pairwise.nil⟩
    | append_singleton acts act ih =>
      obtain ⟨s₁, hacts, hstep⟩ := Exec.exec_concat_eq_ok.mp h
      obtain ⟨hsettled, hiff⟩ := ih hacts
      refine ⟨hsettled.step hstep, ?_⟩
      rw [step_atMostOneOutcome_iff hsettled hstep, hiff, Exec.along_concat hacts]
  exact hrun.2

/-- A request whose second write is short and that is then written to the end. -/
theorem atMostOneOutcome_short_write : ∃ s : Stream (Requests (WriteRequest Char)) Char,
    Exec.exec step (new 3) [.write ['a', 'b'] (some 7), .ready .write, .xwrites [.count 1],
      .ready .write, .xwrites [.count 1]] = .ok s ∧
    (AtMostOneOutcome s.trace ↔ Exec.Along step (fun s act => ¬ s.Retries act) (new 3)
      [.write ['a', 'b'] (some 7), .ready .write, .xwrites [.count 1], .ready .write,
        .xwrites [.count 1]]) :=
  ⟨_, rfl, atMostOneOutcome_iff 3 _ rfl⟩

/-- After a failure the request stays at the head and the handler watches for another event, which
calls `error()` again. -/
theorem not_atMostOneOutcome : ¬ ∀ (fd : Int) (acts : List (Act Char))
    (s : Stream (Requests (WriteRequest Char)) Char),
    Exec.exec step (new fd) acts = .ok s → AtMostOneOutcome s.trace := by
  intro h
  have hrun := h 3 [.write ['a', 'b'] (some 7), .ready .write, .xwrites [.error (.other 32)], .ret,
    .ready .write, .xwrites [.error (.other 32)]] _ rfl
  exact absurd hrun (by decide)

end Stream

end WhatTheEvent
