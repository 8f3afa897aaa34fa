import WhatTheEvent.Stream.Connecting

/-!
# What happens after a close

The first `close` of a stream is final in the runs in which no dispatch goes back to the socket
after it, no dispatch starts that finds something to do, and `close` is not called again with
something left to close.
-/

namespace WhatTheEvent

variable {β Q : Type}

/-- The event is something that should not happen once `close` has returned: the descriptor is
used, or a read or connect callback is called. -/
def Event.disturbs : Event β → Bool
  | .write _ _ _ => false
  | .writeComplete _ _ => false
  | .writeError _ _ _ => false
  | _ => true

def Event.isXclose : Event β → Bool
  | .xclose _ => true
  | _ => false

def Event.closed : Event β → Option Int
  | .xclose fd => some fd
  | _ => none

/-- The descriptors closed. -/
def closed (trace : List (Event β)) : List Int := trace.filterMap Event.closed

lemma closed_append {trace events : List (Event β)} :
    closed (trace ++ events) = closed trace ++ closed events := List.filterMap_append

/-- The dispatch goes on with a callback or with the socket once its callback has returned. -/
def Dispatch.GoesOn (head : Option Nat) : Dispatch → Prop
  | .connectDone event => head ≠ none ∨ event.isRead = true
  | .writeDone event next => next ≠ none ∨ event.isRead = true
  | .writeFailed event => event.isRead = true
  | .readAvailable nread => Stream.readSize ≤ nread
  | _ => False

namespace Stream

section Phases

variable {s₀ s s' : Stream Q β} {events : List (Event β)}

/-- The descriptor is passed to `xclose`, if there is one. -/
def closeEvents (s : Stream Q β) : List (Event β) := if s.fd ≠ -1 then [.xclose s.fd] else []

/-- The `close` of `s₀` is in progress. -/
structure Closing (s₀ s : Stream Q β) : Prop where
  fd : s.fd = s₀.fd
  back : ∀ d, s.dispatch = some d → d.isCallback = true
  calls : s.calls = .closeRead :: s₀.calls ∨ s.calls = .closeConnect :: s₀.calls
  trace : ∃ events, s.trace = s₀.trace ++ events ∧ events.filter Event.isXclose = []

/-- The `close` of `s₀` has returned. -/
structure Closed (s₀ s : Stream Q β) : Prop where
  fd : s.fd = s₀.fd
  back : ∀ d, s.dispatch = some d → d.isCallback = true
  calls : s.calls <:+ s₀.calls
  trace : ∃ events, s.trace = s₀.trace ++ events ∧ events.filter Event.isXclose = s₀.closeEvents

/-- `close` after the callbacks. -/
lemma closed_closeFinish {calls : List PendingCall} (hfd : s.fd = s₀.fd)
    (hback : ∀ d, s.dispatch = some d → d.isCallback = true) (hcalls : calls = s₀.calls)
    (htrace : ∃ events, s.trace = s₀.trace ++ events ∧ events.filter Event.isXclose = []) :
    s₀.Closed { s with calls }.closeFinish := by
  obtain ⟨events, htrace, hevents⟩ := htrace
  rw [closeFinish_eq]
  refine ⟨hfd, hback, hcalls ▸ List.suffix_rfl, events ++ s₀.closeEvents, ?_, ?_⟩
  · simp only [htrace, hfd, closeEvents, List.append_assoc]
  · rw [List.filter_append, hevents, closeEvents]
    split_ifs <;> rfl

/-- `close` from the test of the connect callback on. -/
lemma closing_closeConnect {calls : List PendingCall} (hfd : s.fd = s₀.fd)
    (hback : ∀ d, s.dispatch = some d → d.isCallback = true) (hcalls : calls = s₀.calls)
    (htrace : ∃ events, s.trace = s₀.trace ++ events ∧ events.filter Event.isXclose = []) :
    s₀.Closing { s with calls }.closeConnect ∨ s₀.Closed { s with calls }.closeConnect := by
  rcases Option.eq_none_or_eq_some s.connectCallback with hcb | ⟨cb, hcb⟩
  · have hnone : { s with calls }.connectCallback = none := hcb
    rw [closeConnect_of_none hnone]
    exact .inr (closed_closeFinish hfd hback hcalls htrace)
  · obtain ⟨events, htrace, hevents⟩ := htrace
    have hsome : { s with calls }.connectCallback = some cb := hcb
    rw [closeConnect_of_some hsome]
    refine .inl ⟨hfd, hback, .inr (by rw [hcalls]), events ++
      [.connectError cb "Closed before connect"], ?_, ?_⟩
    · simp only [htrace, List.append_assoc]
    · rw [List.filter_append, hevents]
      rfl

/-- The first `close`. -/
lemma closing_close (hback : ∀ d, s₀.dispatch = some d → d.isCallback = true) :
    s₀.Closing s₀.close ∨ s₀.Closed s₀.close := by
  cases hcb : s₀.readCallback with
  | none =>
    rw [close_of_none hcb]
    exact closing_closeConnect rfl hback rfl ⟨[], (List.append_nil _).symm, rfl⟩
  | some cb =>
    rw [close_of_some hcb]
    exact .inl ⟨rfl, hback, .inl rfl, [.eof cb false], rfl, rfl⟩

/-! ### Harmless steps -/

/-- A step of the user that is not `close` or `connect`, or the end of a dispatch, uses neither the
descriptor nor the read and connect callbacks. -/
def Harmless (s s' : Stream Q β) : Prop :=
  s'.fd = s.fd ∧ (s'.dispatch = s.dispatch ∨ s'.dispatch = none) ∧ s'.calls = s.calls ∧
    ∃ events, s'.trace = s.trace ++ events ∧ ∀ e ∈ events, e.disturbs = false

lemma harmless_of_same (hfd : s'.fd = s.fd) (hd : s'.dispatch = s.dispatch ∨ s'.dispatch = none)
    (hcalls : s'.calls = s.calls) (htrace : s'.trace = s.trace) : s.Harmless s' :=
  ⟨hfd, hd, hcalls, [], by rw [htrace, List.append_nil], fun _ he => absurd he List.not_mem_nil⟩

lemma Harmless.back (h : s.Harmless s') (hback : ∀ d, s.dispatch = some d → d.isCallback = true) :
    ∀ d, s'.dispatch = some d → d.isCallback = true := by
  intro d hd
  rcases h.2.1 with hsame | hnone
  · exact hback d (hsame ▸ hd)
  · rw [hnone] at hd
    cases hd

/-- Harmless events do not close the descriptor. -/
lemma filter_isXclose_of_harmless {events : List (Event β)}
    (h : ∀ e ∈ events, e.disturbs = false) : events.filter Event.isXclose = [] := by
  refine List.filter_eq_nil_iff.mpr fun e he hclose => ?_
  have hnot := h e he
  cases e with
  | xclose fd => cases hnot
  | _ => cases hclose

end Phases

variable [RequestQueue Q (WriteRequest β)]

/-- After the first `close`, the step finds something to do that `close` should have ended. -/
def Revives (s : Stream Q β) : Act β → Prop
  | .close => s.fd ≠ -1 ∨ s.readCallback ≠ none ∨ s.connectCallback ≠ none
  | .connect _ _ => True
  | .ready event => event.isRead = true ∨ s.connectCallback ≠ none ∨
    RequestQueue.head s.requests ≠ none
  | .ret => s.calls = [] ∧ ∃ d, s.dispatch = some d ∧ d.GoesOn (RequestQueue.head s.requests)
  | _ => False

/-- When the `close` of `s₀` has returned in the course of the steps `post`, its descriptor was
passed to `xclose` once, and from then on the descriptor is not used and no read or connect callback
is called. -/
def CloseFinal (s₀ : Stream Q β) (post : List (Act β)) : Prop :=
  ∀ front back t s, post = front ++ back → Exec.exec step s₀ (.close :: front) = .ok t →
    Exec.exec step t back = .ok s → t.calls = s₀.calls →
    (s₀.emitted t).filter Event.isXclose = s₀.closeEvents ∧
      ∀ e ∈ t.emitted s, e.disturbs = false

variable {s₀ s s' : Stream Q β} {act : Act β} {event : What} {d : Dispatch}

/-! ### Steps after the first `close` -/

/-- A call of `close` that finds nothing to close. -/
lemma close_of_not_revives (h : ¬ s.Revives .close) : s.close = { s with watched := .none } := by
  have hfd : ¬ s.fd ≠ -1 := fun hne => h (.inl hne)
  have hread : s.readCallback = none := by
    by_contra hne
    exact h (.inr (.inl hne))
  have hconnect : s.connectCallback = none := by
    by_contra hne
    exact h (.inr (.inr hne))
  rw [close_of_none hread, closeConnect_of_none hconnect, closeFinish_eq, if_neg hfd,
    List.append_nil]

/-- A dispatch that finds nothing to do. -/
lemma ready_of_not_revives (h : ¬ s.Revives (.ready event)) :
    s.ready event = { s with dispatch := none } := by
  have hread : event.isRead = false := by
    by_contra hne
    exact h (.inl ((Bool.not_eq_false _).mp hne))
  have hconnect : s.connectCallback = none := by
    by_contra hne
    exact h (.inr (.inl hne))
  have hhead : RequestQueue.head s.requests = none := by
    by_contra hne
    exact h (.inr (.inr hne))
  simp [ready, hconnect, writeHelper, hhead, writeLoop, readyRead, hread]

/-- A dispatch that does not go on. -/
lemma resumeDispatch_of_not_goesOn (h : ¬ d.GoesOn (RequestQueue.head s.requests))
    (hok : s.resumeDispatch d = .ok s') : s' = { s with dispatch := none } := by
  have hread : ∀ event : What, event.isRead = false → s.resumeRead event = .ok s' →
      s' = { s with dispatch := none } := by
    intro event hnot hread
    unfold resumeRead at hread
    rw [hnot] at hread
    obtain rfl := Except.ok.inj hread
    simp [readyRead, hnot]
  cases d with
  | connectDone event =>
    obtain ⟨-, rfl⟩ := access_map_eq_ok.mp hok
    have hhead : RequestQueue.head s.requests = none := by
      by_contra hne
      exact h (.inl hne)
    have hnot : event.isRead = false := by
      by_contra hne
      exact h (.inr ((Bool.not_eq_false _).mp hne))
    simp [writeHelper, hhead, writeLoop, readyRead, hnot]
  | writeDone event next =>
    cases next with
    | none =>
      refine hread event ?_ hok
      by_contra hne
      exact h (.inr ((Bool.not_eq_false _).mp hne))
    | some next => exact absurd (.inl (Option.some_ne_none next)) h
  | writeFailed event =>
    refine hread event ?_ hok
    by_contra hne
    exact h ((Bool.not_eq_false _).mp hne)
  | readAvailable nread =>
    simp only [resumeDispatch, if_pos (Nat.lt_of_not_le h)] at hok
    exact (Except.ok.inj hok).symm
  | readEnded => exact (Except.ok.inj hok).symm
  | connectHelper event => cases hok
  | writeHelper event req => cases hok
  | readHelper => cases hok

/-- A step that revives nothing is harmless, or a call returns. -/
lemma harmless_or_returned (hback : ∀ d, s.dispatch = some d → d.isCallback = true)
    (hok : s.step act = .ok s') (hrevives : ¬ s.Revives act) :
    s.Harmless s' ∨ ∃ c calls, s.calls = c :: calls ∧ { s with calls }.resumeCall c = .ok s' := by
  cases step_effect hok with
  | queue readBuffer _ _ hqueue =>
    obtain ⟨requests, -, rfl⟩ := queueWrite_cases hqueue
    exact .inl ⟨rfl, .inl rfl, rfl, _, rfl, by simp [Event.disturbs]⟩
  | useBuffer readBuffer => exact .inl (harmless_of_same rfl (.inl rfl) rfl rfl)
  | startRead callback =>
    rw [startRead]
    split_ifs
    · exact .inl (harmless_of_same rfl (.inl rfl) rfl rfl)
    · exact .inl (harmless_of_same rfl (.inl rfl) rfl rfl)
  | stopRead =>
    rw [stopRead]
    split_ifs <;> exact .inl (harmless_of_same rfl (.inl rfl) rfl rfl)
  | close =>
    rw [close_of_not_revives hrevives]
    exact .inl (harmless_of_same rfl (.inl rfl) rfl rfl)
  | connect => exact absurd trivial hrevives
  | destroy _ hdestroy =>
    obtain ⟨⟨requests, r⟩, -, hok⟩ := bind_eq_ok.mp hdestroy
    obtain rfl := Except.ok.inj hok
    exact .inl (harmless_of_same rfl (.inl rfl) rfl rfl)
  | ready event =>
    rw [ready_of_not_revives hrevives]
    exact .inl (harmless_of_same rfl (.inr rfl) rfl rfl)
  | getsockopt _ _ hd => cases hback _ hd
  | xwrites _ _ hd => cases hback _ hd
  | xread _ _ hd => cases hback _ hd
  | returned hcalls hcall => exact .inr ⟨_, _, hcalls, hcall⟩
  | resumed hcalls hd hresume =>
    have hnot : ¬ Dispatch.GoesOn (RequestQueue.head s.requests) _ := fun hgoes =>
      hrevives ⟨hcalls, _, hd, hgoes⟩
    rw [resumeDispatch_of_not_goesOn hnot hresume]
    exact .inl (harmless_of_same rfl (.inr rfl) rfl rfl)

lemma closing_step (h : s₀.Closing s) (hok : s.step act = .ok s') (hrevives : ¬ s.Revives act) :
    s₀.Closing s' ∨ s₀.Closed s' := by
  obtain ⟨events, htrace, hevents⟩ := h.trace
  rcases harmless_or_returned h.back hok hrevives with hharmless | ⟨c, calls, hcalls, hcall⟩
  · obtain ⟨hfd, -, hsame, events', htrace', hevents'⟩ := id hharmless
    refine .inl ⟨hfd.trans h.fd, hharmless.back h.back, hsame ▸ h.calls, events ++ events', ?_, ?_⟩
    · rw [htrace', htrace, List.append_assoc]
    · rw [List.filter_append, hevents, filter_isXclose_of_harmless hevents', List.append_nil]
  · rcases h.calls with hread | hconnect
    · obtain ⟨rfl, hcs⟩ := List.cons.inj (hcalls.symm.trans hread)
      obtain ⟨-, rfl⟩ := access_map_eq_ok.mp hcall
      exact closing_closeConnect h.fd h.back hcs ⟨events, htrace, hevents⟩
    · obtain ⟨rfl, rfl⟩ := List.cons.inj (hcalls.symm.trans hconnect)
      obtain ⟨-, rfl⟩ := access_map_eq_ok.mp hcall
      exact .inr (closed_closeFinish h.fd h.back rfl ⟨events, htrace, hevents⟩)

/-- Once the first `close` has returned, only calls of `connect` return. -/
lemma closed_step (h : s₀.Closed s) (hconnect : ∀ c ∈ s₀.calls, c = .connect)
    (hok : s.step act = .ok s') (hrevives : ¬ s.Revives act) :
    s₀.Closed s' ∧ ∃ events, s'.trace = s.trace ++ events ∧ ∀ e ∈ events, e.disturbs = false := by
  obtain ⟨events, htrace, hevents⟩ := h.trace
  rcases harmless_or_returned h.back hok hrevives with hharmless | ⟨c, calls, hcalls, hcall⟩
  · obtain ⟨hfd, -, hsame, events', htrace', hevents'⟩ := id hharmless
    refine ⟨⟨hfd.trans h.fd, hharmless.back h.back, hsame ▸ h.calls, events ++ events', ?_, ?_⟩,
      events', htrace', hevents'⟩
    · rw [htrace', htrace, List.append_assoc]
    · rw [List.filter_append, hevents, filter_isXclose_of_harmless hevents', List.append_nil]
  · have hsuffix : c :: calls <:+ s₀.calls := hcalls ▸ h.calls
    obtain rfl : c = .connect := hconnect c (hsuffix.subset List.mem_cons_self)
    obtain rfl := Except.ok.inj hcall
    exact ⟨⟨h.fd, h.back, (List.suffix_cons _ calls).trans hsuffix, events, htrace, hevents⟩, [],
      (List.append_nil _).symm, fun _ he => absurd he List.not_mem_nil⟩

/-! ### Runs -/

lemma disturbs_of_closed {acts : List (Act β)} (h : s₀.Closed s)
    (hconnect : ∀ c ∈ s₀.calls, c = .connect) (hok : Exec.exec step s acts = .ok s')
    (hrevives : Exec.Along step (fun s act => ¬ s.Revives act) s acts) :
    ∀ e ∈ s.emitted s', e.disturbs = false := by
  have hrun : s₀.Closed s' ∧ ∃ events, s'.trace = s.trace ++ events ∧
      ∀ e ∈ events, e.disturbs = false := by
    induction acts using List.reverseRecOn generalizing s' with
    | nil =>
      obtain rfl := Except.ok.inj hok
      exact ⟨h, [], (List.append_nil _).symm, fun _ he => absurd he List.not_mem_nil⟩
    | append_singleton acts act ih =>
      obtain ⟨s₁, hacts, hstep⟩ := Exec.exec_concat_eq_ok.mp hok
      obtain ⟨halong, hact⟩ := (Exec.along_concat hacts).mp hrevives
      obtain ⟨hclosed, events, htrace, hevents⟩ := ih hacts halong
      obtain ⟨hclosed', events', htrace', hevents'⟩ := closed_step hclosed hconnect hstep hact
      refine ⟨hclosed', events ++ events', ?_, List.forall_mem_append.mpr ⟨hevents, hevents'⟩⟩
      rw [htrace', htrace, List.append_assoc]
  obtain ⟨-, events, htrace, hevents⟩ := hrun
  rw [emitted_eq htrace]
  exact hevents

lemma closing_or_closed_of_exec {acts : List (Act β)} (h : s₀.Closing s ∨ s₀.Closed s)
    (hconnect : ∀ c ∈ s₀.calls, c = .connect) (hok : Exec.exec step s acts = .ok s')
    (hrevives : Exec.Along step (fun s act => ¬ s.Revives act) s acts) :
    s₀.Closing s' ∨ s₀.Closed s' := by
  refine Exec.exec_invariant (fun s => s₀.Closing s ∨ s₀.Closed s) ?_ h hrevives hok
  rintro t act t' (hclosing | hclosed) hact hstep
  · exact closing_step hclosing hstep hact
  · exact .inr (closed_step hclosed hconnect hstep hact).1

/-- Only `connect` is in progress as long as `close` is not called. -/
lemma calls_of_step [LawfulRequestQueue Q] (hcalls : ∀ c ∈ s.calls, c = .connect)
    (hne : act ≠ .close) (hok : s.step act = .ok s') : ∀ c ∈ s'.calls, c = .connect := by
  cases step_effect hok with
  | queue readBuffer _ _ hqueue =>
    obtain ⟨requests, -, rfl⟩ := queueWrite_cases hqueue
    exact hcalls
  | useBuffer readBuffer => exact hcalls
  | startRead callback =>
    rw [startRead]
    split_ifs <;> exact hcalls
  | stopRead =>
    rw [stopRead]
    split_ifs <;> exact hcalls
  | close => exact absurd rfl hne
  | connect _ hconnect =>
    cases (connect_cases hconnect).2 with
    | failed => exact List.forall_mem_cons.mpr ⟨rfl, hcalls⟩
    | pending => exact hcalls
    | completed => exact List.forall_mem_cons.mpr ⟨rfl, hcalls⟩
  | destroy _ hdestroy =>
    obtain ⟨⟨requests, r⟩, -, hok⟩ := bind_eq_ok.mp hdestroy
    obtain rfl := Except.ok.inj hok
    exact hcalls
  | ready event =>
    rw [ready_eq]
    exact hcalls
  | getsockopt _ _ _ hget =>
    obtain ⟨cb, -, rfl⟩ := getsockopt_cases hget
    exact hcalls
  | xwrites _ _ _ hx =>
    rw [(xwrites_eq hx).1]
    exact hcalls
  | xread _ _ _ hx =>
    rw [xread_eq hx]
    exact hcalls
  | @returned c calls _ hcons hcall =>
    rw [hcons, List.forall_mem_cons] at hcalls
    obtain ⟨rfl, hrest⟩ := hcalls
    obtain rfl := Except.ok.inj hcall
    exact hrest
  | resumed _ _ hresume =>
    rw [resumeDispatch_eq hresume]
    exact hcalls

lemma calls_of_exec [LawfulRequestQueue Q] {fd : Int} {acts : List (Act β)}
    (h : Exec.exec step (new fd : Stream Q β) acts = .ok s) (hclose : .close ∉ acts) :
    s.Coherent ∧ ∀ c ∈ s.calls, c = .connect := by
  induction acts using List.reverseRecOn generalizing s with
  | nil =>
    obtain rfl := Except.ok.inj h
    exact ⟨coherent_new fd, fun _ hc => absurd hc List.not_mem_nil⟩
  | append_singleton acts act ih =>
    obtain ⟨s₁, hacts, hstep⟩ := Exec.exec_concat_eq_ok.mp h
    obtain ⟨hco, hcalls⟩ := ih hacts fun hmem => hclose (List.mem_append_left _ hmem)
    have hne : act ≠ .close := fun heq =>
      hclose (heq ▸ List.mem_append_right acts (List.mem_singleton_self act))
    exact ⟨hco.step hstep, calls_of_step hcalls hne hstep⟩

/-- The first `close` of a stream is final in a run in which nothing is left to close where `close`
is called again, `connect` is not called again, no dispatch starts that finds something to do, and
no dispatch goes back to the descriptor once its callback has returned. -/
theorem closeFinal_of_not_revives [LawfulRequestQueue Q] (fd : Int) (pre post : List (Act β))
    (hpre : Exec.exec step (new fd : Stream Q β) pre = .ok s₀) (hfirst : .close ∉ pre)
    (hclose : s₀.step .close = .ok s)
    (hrevives : Exec.Along step (fun s act => ¬ s.Revives act) s post) :
    s₀.CloseFinal post := by
  obtain ⟨hco, hcalls⟩ := calls_of_exec hpre hfirst
  have hstart : s₀.Closing s ∨ s₀.Closed s := by
    cases step_effect hclose with
    | close hc => exact closing_close (hco.isCallback hc)
    | queue _ _ hact => cases hact
    | useBuffer _ _ hact => cases hact
  rintro front back t s' rfl hfront hback hreturned
  obtain ⟨s₁, hs₁, hrun⟩ := Exec.exec_cons_eq_ok.mp hfront
  obtain rfl := Except.ok.inj (hclose.symm.trans hs₁)
  obtain ⟨halong, hback'⟩ := (Exec.along_append hrun).mp hrevives
  have hclosed : s₀.Closed t := by
    rcases closing_or_closed_of_exec hstart hcalls hrun halong with hclosing | hclosed
    · -- `close` has not returned yet
      rcases hclosing.calls with hread | hconnect
      · rw [hreturned] at hread
        exact absurd hread.symm (List.cons_ne_self _ _)
      · rw [hreturned] at hconnect
        exact absurd hconnect.symm (List.cons_ne_self _ _)
    · exact hclosed
  obtain ⟨events, htrace, hevents⟩ := id hclosed.trace
  refine ⟨?_, disturbs_of_closed hclosed hcalls hback hback'⟩
  rw [emitted_eq htrace]
  exact hevents

/-- A stream is closed from `available()`, and destroyed after the dispatch. -/
theorem closeFinal_available : ∃ s₀ : Stream (Requests (WriteRequest Char)) Char,
    Exec.exec step (new 3) [.startRead (some 1), .ready .read, .xread (.data ['a'])] = .ok s₀ ∧
    s₀.CloseFinal [.ret, .ret, .destroy] := by
  refine ⟨_, rfl, closeFinal_of_not_revives 3 [.startRead (some 1), .ready .read,
    .xread (.data ['a'])] _ rfl (by simp) rfl ⟨?_, ?_, id, trivial⟩⟩
  · rintro ⟨hcalls, -⟩
    cases hcalls
  · rintro ⟨-, d, hd, hgoes⟩
    obtain rfl := Option.some.inj hd
    have hle : readSize ≤ 1 := hgoes
    exact absurd hle (by decide)

/-- A second `close` passes the descriptor to `xclose` once more. -/
theorem not_closeFinal : ¬ ∀ (fd : Int) (pre post : List (Act Char))
    (s₀ s : Stream (Requests (WriteRequest Char)) Char),
    Exec.exec step (new fd) pre = .ok s₀ → .close ∉ pre → s₀.step .close = .ok s →
    s₀.CloseFinal post := by
  intro h
  have hfinal := h 3 [] [.close] _ _ rfl (by simp) rfl [.close] [] _ _ rfl rfl rfl rfl
  exact absurd hfinal.1 (by decide)

end Stream

end WhatTheEvent
