import WhatTheEvent.Stream.Transition

/-!
# The write side of a stream

What a round of the loop in `writeHelper` does. The request that it works on is the head of the
list.
-/

namespace WhatTheEvent

variable {β Q : Type}

/-- The event is about `xwrite` of data of the request `req`. -/
def Event.Passes (req : Nat) : Event β → Prop
  | .xwrite _ req' _ _ => req' = req
  | _ => False

/-- The event is a call of the callback of the request `req`. -/
def Event.IsOutcome (req : Nat) : Event β → Prop
  | .writeComplete req' _ => req' = req
  | .writeError req' _ _ => req' = req
  | _ => False

instance (req : Nat) (e : Event β) : Decidable (e.Passes req) :=
  match e with
  | .xwrite _ req' _ _ => inferInstanceAs (Decidable (req' = req))
  | .write _ _ _ | .writeComplete _ _ | .writeError _ _ _ | .xread _ _ _ | .available _ _
  | .eof _ _ | .readError _ _ | .connectComplete _ | .connectError _ _ | .xclose _ =>
    inferInstanceAs (Decidable False)

instance (req : Nat) (e : Event β) : Decidable (e.IsOutcome req) :=
  match e with
  | .writeComplete req' _ => inferInstanceAs (Decidable (req' = req))
  | .writeError req' _ _ => inferInstanceAs (Decidable (req' = req))
  | .write _ _ _ | .xwrite _ _ _ _ | .xread _ _ _ | .available _ _ | .eof _ _ | .readError _ _
  | .connectComplete _ | .connectError _ _ | .xclose _ => inferInstanceAs (Decidable False)

/-- The request that the write loop works on or is about to go on with. -/
def Dispatch.request : Dispatch → Option Nat
  | .writeHelper _ req => some req
  | .writeDone _ next => next
  | _ => none

namespace Stream

section Extents

variable {fd : Int} {req : Nat} {extents : List (List (Cell β))} {results : List WriteResult}
  {pass : WritePass β} {e : Event β}

/-- The loop over the extents passes data of the one request only. -/
lemma passes_of_mem_events (h : writeExtents fd req extents results = .ok pass)
    (he : e ∈ pass.events) : e.Passes req := by
  induction extents generalizing results pass with
  | nil =>
    cases results with
    | nil =>
      obtain rfl := Except.ok.inj h
      exact absurd he List.not_mem_nil
    | cons r results => cases h
  | cons data extents ih =>
    cases results with
    | nil => cases h
    | cons r results =>
      cases r with
      | count n =>
        simp only [writeExtents] at h
        split_ifs at h
        obtain ⟨rest, hrest, hok⟩ := bind_eq_ok.mp h
        obtain rfl := Except.ok.inj hok
        rcases List.mem_cons.mp he with rfl | he
        · exact rfl
        · exact ih hrest he
      | error er =>
        cases results with
        | nil =>
          obtain rfl := Except.ok.inj h
          rw [List.mem_singleton.mp he]
          exact rfl
        | cons r' results => cases h

/-- Where there are extents something is passed. -/
lemma events_ne_nil (h : writeExtents fd req extents results = .ok pass) (hne : extents ≠ []) :
    pass.events ≠ [] := by
  cases extents with
  | nil => exact absurd rfl hne
  | cons data extents =>
    cases results with
    | nil => cases h
    | cons r results =>
      cases r with
      | count n =>
        simp only [writeExtents] at h
        split_ifs at h
        obtain ⟨rest, -, hok⟩ := bind_eq_ok.mp h
        obtain rfl := Except.ok.inj hok
        exact List.cons_ne_nil _ _
      | error er =>
        cases results with
        | nil =>
          obtain rfl := Except.ok.inj h
          exact List.cons_ne_nil _ _
        | cons r' results => cases h

lemma writeExtents_nil (h : writeExtents fd req ([] : List (List (Cell β))) results = .ok pass) :
    pass = ⟨0, false, false, []⟩ := by
  cases results with
  | nil => exact (Except.ok.inj h).symm
  | cons r results => cases h

end Extents

variable {s s' : Stream Q β} {act : Act β} {event : What} {req : Nat}
  {results : List WriteResult} {buffer : BufferImpl β} {callback : Option Nat}

/-- The dispatch is not inside `available()`. -/
def NotInAvailable (s : Stream Q β) : Prop := ∀ nread, s.dispatch ≠ some (.readAvailable nread)

lemma readyRead_request {d : Dispatch} (h : (s.readyRead event).dispatch = some d) :
    d.request = none := by
  unfold readyRead at h
  split_ifs at h
  obtain rfl := Option.some.inj h
  rfl

lemma readyRead_notInAvailable : (s.readyRead event).NotInAvailable := by
  intro nread h
  unfold readyRead at h
  split_ifs at h
  cases h

lemma writeLoop_notInAvailable {next : Option Nat} :
    (s.writeLoop event next).NotInAvailable := by
  intro nread h
  cases next with
  | none => exact readyRead_notInAvailable nread h
  | some next => cases h

lemma writeLoop_request {d : Dispatch} {next : Option Nat}
    (h : (s.writeLoop event next).dispatch = some d) : d.request = none ∨ d.request = next := by
  cases next with
  | none => exact Or.inl (readyRead_request h)
  | some next =>
    obtain rfl := Option.some.inj h
    exact Or.inr rfl

/-- What is received does not concern the requests. -/
lemma xread_writeSide {result : ReadResult β} (hok : s.xread result = .ok s') :
    s'.requests = s.requests ∧ s'.alive = s.alive ∧
      (∀ d, s'.dispatch = some d → d.request = none) ∧
      ∃ events, s'.trace = s.trace ++ events ∧ ∀ e ∈ events, e.onWriteSide = false := by
  cases xread_cases hok with
  | ended =>
    refine ⟨rfl, rfl, fun d hd => ?_, _, rfl, by simp [Event.onWriteSide]⟩
    cases hd
  | kept =>
    refine ⟨rfl, rfl, fun d hd => ?_, _, rfl, by simp [Event.onWriteSide]⟩
    simp only at hd
    split_ifs at hd
    obtain rfl := Option.some.inj hd
    rfl
  | failed | eof | available =>
    refine ⟨rfl, rfl, fun d hd => ?_, _, List.append_assoc _ _ _, by simp [Event.onWriteSide]⟩
    obtain rfl := Option.some.inj hd
    rfl

variable [RequestQueue Q (WriteRequest β)]

/-- What a call of `write` does. -/
lemma queueWrite_eq_ok (h : s.queueWrite buffer callback = .ok s') :
    RequestQueue.append s.requests ⟨buffer, callback⟩ = .ok s'.requests ∧
      s'.trace = s.trace ++
        [.write (RequestQueue.fresh s.requests) buffer.contents callback] ∧
      s'.alive = s.alive ∧ s'.dispatch = s.dispatch ∧ s'.readBuffer = s.readBuffer := by
  obtain ⟨requests, happend, hok⟩ := bind_eq_ok.mp h
  obtain rfl := Except.ok.inj hok
  exact ⟨happend, rfl, rfl, rfl, rfl⟩

/-- The call of `error()`, if the request has a callback. -/
def errorEvents (req : Nat) : Option Nat → List (Event β)
  | some cb => [.writeError req cb "Write failed"]
  | none => []

/-- The call of `complete()`, if the request has a callback. -/
def completeEvents (req : Nat) : Option Nat → List (Event β)
  | some cb => [.writeComplete req cb]
  | none => []

/-- How a round of the write loop ends, with the data of `request` passed and drained in
`requests`: the loop stops, or the request is consumed and the loop goes on with the next one. -/
inductive RoundEnds (s : Stream Q β) (req : Nat) (request : WriteRequest β) (pass : WritePass β)
    (requests : Q) (s' : Stream Q β) : Prop
  | stopped (hstop : (pass.blocked || pass.failed) = true) (hreq : s'.requests = requests)
    (htrace : s'.trace = s.trace ++ (pass.events ++
      if pass.failed then errorEvents req request.callback else []))
    (hdispatch : ∀ d, s'.dispatch = some d → d.request = none)
  | completed (hgo : (pass.blocked || pass.failed) = false) {next : Option Nat}
    (hconsume : RequestQueue.consumeFront requests = .ok (s'.requests, next))
    (htrace : s'.trace = s.trace ++ (pass.events ++ completeEvents req request.callback))
    (hdispatch : ∀ d, s'.dispatch = some d → d.request = none ∨ d.request = next)

/-- A round of the write loop. -/
theorem xwrites_cases (h : s.xwrites event req results = .ok s') :
    ∃ request pass buffer requests,
      RequestQueue.get s.requests req = .ok request ∧
      writeExtents s.fd req (request.buffer.peekExtents SizeT.max) results = .ok pass ∧
      request.buffer.drain pass.totalWritten = .ok buffer ∧
      RequestQueue.put s.requests req { request with buffer } = .ok requests ∧
      s.RoundEnds req request pass requests s' ∧
      s'.alive = s.alive ∧ s'.readBuffer = s.readBuffer ∧ s'.NotInAvailable := by
  obtain ⟨request, hget, h⟩ := bind_eq_ok.mp h
  obtain ⟨pass, hpass, h⟩ := bind_eq_ok.mp h
  obtain ⟨buffer, hdrain, h⟩ := bind_eq_ok.mp h
  obtain ⟨requests, hput, h⟩ := bind_eq_ok.mp h
  refine ⟨request, pass, buffer, requests, hget, hpass, hdrain, hput, ?_⟩
  cases hstop : pass.blocked || pass.failed with
  | true =>
    rw [hstop] at h
    simp only [if_true] at h
    cases hfailed : pass.failed with
    | false =>
      rw [hfailed] at h
      obtain rfl := Except.ok.inj h
      refine ⟨.stopped hstop rfl ?_ fun d => readyRead_request, rfl, rfl, readyRead_notInAvailable⟩
      rw [hfailed]
      exact congrArg (s.trace ++ ·) (List.append_nil _).symm
    | true =>
      rw [hfailed] at h
      cases hcb : request.callback with
      | none =>
        rw [hcb] at h
        obtain rfl := Except.ok.inj h
        refine ⟨.stopped hstop rfl ?_ fun d => readyRead_request, rfl, rfl,
          readyRead_notInAvailable⟩
        rw [hfailed, hcb]
        exact congrArg (s.trace ++ ·) (List.append_nil _).symm
      | some cb =>
        rw [hcb] at h
        obtain rfl := Except.ok.inj h
        refine ⟨.stopped hstop rfl ?_ ?_, rfl, rfl, fun nread hn => nomatch hn⟩
        · rw [hfailed, hcb]
          exact List.append_assoc _ _ _
        · intro d hd
          obtain rfl := Option.some.inj hd
          rfl
  | false =>
    rw [hstop] at h
    simp only [Bool.false_eq_true, if_false] at h
    obtain ⟨⟨requests', next⟩, hconsume, h⟩ := bind_eq_ok.mp h
    cases hcb : request.callback with
    | none =>
      rw [hcb] at h
      obtain rfl := Except.ok.inj h
      refine ⟨.completed hstop ?_ ?_ fun d => writeLoop_request, ?_, ?_, writeLoop_notInAvailable⟩
      · cases next <;> exact hconsume
      · rw [hcb]
        cases next <;> exact congrArg (s.trace ++ ·) (List.append_nil _).symm
      · cases next <;> rfl
      · cases next <;> rfl
    | some cb =>
      rw [hcb] at h
      obtain rfl := Except.ok.inj h
      refine ⟨.completed hstop hconsume ?_ ?_, rfl, rfl, fun nread hn => nomatch hn⟩
      · rw [hcb]
        exact List.append_assoc _ _ _
      · intro d hd
        obtain rfl := Option.some.inj hd
        exact Or.inr rfl

/-- The destructor is final. -/
lemma alive_of_step (hs : s.step act = .ok s') (ha : s'.alive = true) : s.alive = true := by
  cases step_cases hs with
  | quiet hq => exact hq.alive ▸ ha
  | write _ hqueue => exact (queueWrite_eq_ok hqueue).2.2.1 ▸ ha
  | writeBuffer hqueue => exact (queueWrite_eq_ok hqueue).2.2.1 ▸ ha
  | writeReadBuffer _ hqueue => exact (queueWrite_eq_ok hqueue).2.2.1 ▸ ha
  | readBuffer => exact ha
  | moveReadBuffer => exact ha
  | xwrites halive _ _ => exact halive
  | xread halive _ _ => exact halive
  | destroy hdestroy =>
    obtain ⟨⟨requests, r⟩, -, hok⟩ := bind_eq_ok.mp hdestroy
    obtain rfl := Except.ok.inj hok
    cases ha

/-! ### The request at the head -/

/-- The write loop works on the head of the list. -/
def OnHead (s : Stream Q β) : Prop :=
  s.alive = true → ∀ d req, s.dispatch = some d → d.request = some req →
    RequestQueue.head s.requests = some req

lemma onHead_new (fd : Int) : (new fd : Stream Q β).OnHead := fun _ _ _ h => nomatch h

lemma OnHead.with_readBuffer (h : s.OnHead) (readBuffer : BufferImpl β) :
    { s with readBuffer }.OnHead := h

lemma OnHead.quiet (h : s.OnHead) (hq : s.Quiet s') : s'.OnHead := by
  intro halive d req hd hreq
  rw [hq.requests]
  rw [hq.alive] at halive
  rcases hq.dispatch d hd with hd | hentered
  · exact h halive d req hd hreq
  · cases hentered with
    | writeHelper hhead =>
      obtain rfl := Option.some.inj hreq
      exact hhead
    | writeNext hnext => exact h halive _ req hnext hreq
    | _ => cases hreq

lemma OnHead.xread {result : ReadResult β} (hok : s.xread result = .ok s') : s'.OnHead := by
  intro _ d req hd hreq
  rw [(xread_writeSide hok).2.2.1 d hd] at hreq
  cases hreq

variable [LawfulRequestQueue Q]

lemma OnHead.queueWrite (h : s.OnHead) (hok : s.queueWrite buffer callback = .ok s') :
    s'.OnHead := by
  obtain ⟨happend, -, hal, hdisp, -⟩ := queueWrite_eq_ok hok
  intro halive d req hd hreq
  exact LawfulRequestQueue.head_append happend (h (hal ▸ halive) d req (hdisp ▸ hd) hreq)

lemma OnHead.xwrites (hok : s.xwrites event req results = .ok s') : s'.OnHead := by
  obtain ⟨request, pass, buffer, requests, -, -, -, -, hends, -⟩ := xwrites_cases hok
  intro _ d req' hd hreq
  cases hends with
  | stopped _ _ _ hdispatch =>
    rw [hdispatch d hd] at hreq
    cases hreq
  | completed _ hconsume _ hdispatch =>
    rw [← LawfulRequestQueue.head_consumeFront hconsume, ← hreq]
    rcases hdispatch d hd with hnone | hnext
    · rw [hnone] at hreq
      cases hreq
    · exact hnext.symm

lemma OnHead.step (h : s.OnHead) (hok : s.step act = .ok s') : s'.OnHead := by
  cases step_cases hok with
  | quiet hq => exact h.quiet hq
  | write _ hqueue => exact h.queueWrite hqueue
  | writeBuffer hqueue => exact h.queueWrite hqueue
  | writeReadBuffer _ hqueue => exact (h.with_readBuffer _).queueWrite hqueue
  | readBuffer => exact h.with_readBuffer _
  | moveReadBuffer => exact h.with_readBuffer _
  | xwrites _ _ hx => exact OnHead.xwrites hx
  | xread _ _ hx => exact OnHead.xread hx
  | destroy hdestroy =>
    obtain ⟨⟨requests, r⟩, -, hok⟩ := bind_eq_ok.mp hdestroy
    obtain rfl := Except.ok.inj hok
    exact fun ha => nomatch ha

end Stream

end WhatTheEvent
