import WhatTheEvent.EventLoop.Registration
import WhatTheEvent.Library.Lockstep
import WhatTheEvent.Stream.Effect
import WhatTheEvent.Stream.Freeing

/-!
# Streams and their handlers

A stream registers its handler with the event base anew whenever it watches for something else. Here
the streams run with the handlers and libevent: a step of a stream makes the calls that the source
makes in it, while other handlers may be called for in between.
-/

namespace WhatTheEvent

variable {L β Q : Type}

/-- The handler that the call is about. -/
def HandlerCall.handler : HandlerCall → Nat
  | .registerHandler _ h _ => h
  | .unregisterHandler _ h => h
  | .unregister h => h
  | .setFd h _ => h

namespace Stream

variable [RequestQueue Q (WriteRequest β)]

/-- The call of `closeFinish`, which tests whether the handler is registered. -/
def closeCalls (s : Stream Q β) (h : Nat) : List HandlerCall :=
  if s.watched = .none then [] else [.unregister h]

/-- The calls about the handler `h` in a step to `s'`, with `base` for `base_`. A round of the write
loop makes one if it consumes the last request. -/
def handlerCalls (s : Stream Q β) (base h : Nat) (s' : Stream Q β) : Act β → List HandlerCall
  | .write _ _ | .writeBuffer _ _ | .writeReadBuffer _ =>
    [.registerHandler base h s.watched.ensureWrite]
  | .startRead callback =>
    if s.readCallback = callback then [] else [.registerHandler base h s.watched.ensureRead]
  | .stopRead =>
    if s.readCallback.isSome ∧ s.watched.isRead ∧ s.watched.isWrite then
      [.registerHandler base h .write]
    else []
  | .close => if s.readCallback = none ∧ s.connectCallback = none then s.closeCalls h else []
  | .connect results _ =>
    if results.socket = -1 ∨ results.setNonblocking = -1 ∨ results.inetPton ≠ 1 then []
    else if results.connect = -1 then
      if isConnectRetryable results.errno then
        [.setFd h results.socket, .registerHandler base h s.watched.ensureWrite]
      else []
    else [.setFd h results.socket]
  | .destroy => [.unregister h]
  | .xwrites _ =>
    if (RequestQueue.head s'.requests).isNone then [.registerHandler base h s.watched.removeWrite]
    else []
  | .ret =>
    match s.calls with
    | .closeRead :: _ => if s.connectCallback = none then s.closeCalls h else []
    | .closeConnect :: _ => s.closeCalls h
    | _ => []
  | _ => []

end Stream

/-! ### What the calls ask for -/

namespace Registrations

/-- The calls made so far change the registrations, and cannot fail. -/
def step (i : Registrations) (call : HandlerCall) : Except AssertionFailed Registrations :=
  .ok (i.apply call)

/-- The call is about the handler `h` and, if it registers it, made on `base`. The descriptor is
set while the handler is not registered. -/
def Own (base h : Nat) (i : Registrations) : HandlerCall → Prop
  | .registerHandler b h' _ => b = base ∧ h' = h
  | .unregisterHandler _ _ => False
  | .unregister h' => h' = h
  | .setFd h' _ => h' = h ∧ i.registered h = none

/-- The handler is registered as the stream has it. -/
structure Intends (i : Registrations) (base h : Nat) (fd : Int) (watched : What) : Prop where
  fd : i.fd h = fd
  registered : i.registered h = if watched = .none then none else some (base, watched)

variable {i : Registrations} {base h h' : Nat} {fd : Int} {watched : What} {call : HandlerCall}

lemma exec_step (calls : List HandlerCall) :
    Exec.exec step i calls = .ok (calls.foldl apply i) := by
  induction calls generalizing i with
  | nil => rfl
  | cons call calls ih => exact (Exec.exec_cons_ok rfl).trans ih

/-- What the calls of a step lead to. -/
def Leads (i : Registrations) (base h : Nat) (calls : List HandlerCall) (fd : Int)
    (watched : What) : Prop :=
  Exec.Along step (Own base h) i calls ∧ (calls.foldl apply i).Intends base h fd watched

lemma Intends.registered_eq_none (hi : i.Intends base h fd watched) (hnone : watched = .none) :
    i.registered h = none := by
  rw [hi.registered, if_pos hnone]

lemma Intends.register (hi : i.Intends base h fd watched) (what : What) :
    (i.apply (.registerHandler base h what)).Intends base h fd what :=
  ⟨hi.fd, registered_register_self⟩

lemma Intends.unregister (hi : i.Intends base h fd watched) :
    (i.apply (.unregister h)).Intends base h fd .none :=
  ⟨hi.fd, registered_register_self⟩

lemma Intends.setFd (hi : i.Intends base h fd watched) (fd' : Int) :
    (i.apply (.setFd h fd')).Intends base h fd' watched :=
  ⟨Function.update_self .., hi.registered⟩

lemma Intends.leads_register (hi : i.Intends base h fd watched) (what : What) :
    i.Leads base h [.registerHandler base h what] fd what :=
  ⟨⟨⟨rfl, rfl⟩, trivial⟩, hi.register what⟩

lemma Intends.leads_unregister (hi : i.Intends base h fd watched) :
    i.Leads base h [.unregister h] fd .none :=
  ⟨⟨rfl, trivial⟩, hi.unregister⟩

lemma Intends.leads_nil (hi : i.Intends base h fd watched) : i.Leads base h [] fd watched :=
  ⟨trivial, hi⟩

/-- Calls about one handler concern no other one. -/
lemma apply_of_ne (hh : h' ≠ call.handler) :
    (i.apply call).fd h' = i.fd h' ∧ (i.apply call).registered h' = i.registered h' := by
  cases call with
  | registerHandler | unregisterHandler | unregister =>
    exact ⟨rfl, registered_register_of_ne hh⟩
  | setFd => exact ⟨Function.update_of_ne hh _ _, rfl⟩

end Registrations

namespace Stream

variable {s s' : Stream Q β} {act : Act β} {base h : Nat} {i : Registrations}

lemma leads_closeCalls (hi : i.Intends base h s.fd s.watched) :
    i.Leads base h (s.closeCalls h) s.fd .none := by
  unfold closeCalls
  split_ifs with hnone
  · rw [hnone] at hi
    exact hi.leads_nil
  · exact hi.leads_unregister

/-- The calls of `close` behind its callbacks. -/
lemma leads_closeConnect (hi : i.Intends base h s.fd s.watched) :
    i.Leads base h (if s.connectCallback = none then s.closeCalls h else []) s.closeConnect.fd
      s.closeConnect.watched := by
  cases hcb : s.connectCallback with
  | none =>
    rw [if_pos rfl, closeConnect_of_none hcb, closeFinish_eq]
    exact leads_closeCalls hi
  | some cb =>
    rw [if_neg (Option.some_ne_none cb), closeConnect_of_some hcb]
    exact hi.leads_nil

variable [RequestQueue Q (WriteRequest β)]

/-- A destroyed stream watches nothing. -/
lemma watched_of_dead (hdead : s.alive = false → s.watched = .none) (hs : s.step act = .ok s')
    (hdead' : s'.alive = false) : s'.watched = .none := by
  cases halive : s.alive with
  | true =>
    have hno : s'.alive ≠ s.alive := by
      rw [hdead', halive]
      exact Bool.false_ne_true
    cases step_cases hs with
    | quiet hq => exact absurd hq.alive hno
    | write _ hqueue => exact absurd (queueWrite_eq_ok hqueue).2.2.1 hno
    | writeBuffer hqueue => exact absurd (queueWrite_eq_ok hqueue).2.2.1 hno
    | writeReadBuffer _ hqueue => exact absurd (queueWrite_eq_ok hqueue).2.2.1 hno
    | readBuffer => exact absurd rfl hno
    | moveReadBuffer => exact absurd rfl hno
    | xwrites _ _ hx =>
      rw [xwrites_frame hx] at hno
      exact absurd rfl hno
    | xread _ _ hx => exact absurd (xread_writeSide hx).2.1 hno
    | destroy hdestroy =>
      obtain ⟨_, -, hok⟩ := bind_eq_ok.mp hdestroy
      obtain rfl := Except.ok.inj hok
      rfl
  | false =>
    have hact : act = .ret := by
      by_contra hne
      rw [step_of_dead halive hne] at hs
      cases hs
    subst hact
    cases ret_effect hs with
    | queue _ _ hact => cases hact
    | useBuffer _ _ hact => cases hact
    | @returned c calls _ hcalls hok =>
      cases c with
      | closeRead | closeConnect =>
        obtain ⟨ha, -⟩ := access_map_eq_ok.mp hok
        exact absurd (halive.symm.trans ha) Bool.false_ne_true
      | connect =>
        obtain rfl := Except.ok.inj hok
        exact hdead halive
    | resumed _ _ hok =>
      rw [resumeDispatch_eq hok]
      exact hdead halive

/-- The calls of a step lead to what the stream watches after it. -/
theorem leads_handlerCalls [LawfulRequestQueue Q] (hhead : s.OnHead) (hs : s.step act = .ok s')
    (hi : i.Intends base h s.fd s.watched) :
    i.Leads base h (s.handlerCalls base h s' act) s'.fd s'.watched := by
  cases step_effect hs with
  | queue readBuffer _ hact hqueue =>
    obtain ⟨requests, -, rfl⟩ := queueWrite_cases hqueue
    cases act <;> first | exact hi.leads_register _ | cases hact
  | useBuffer readBuffer _ hact => cases act <;> first | exact hi.leads_nil | cases hact
  | startRead callback =>
    simp only [handlerCalls, Stream.startRead]
    split_ifs
    · exact hi.leads_nil
    · exact hi.leads_register _
  | stopRead =>
    simp only [handlerCalls, Stream.stopRead]
    cases s.readCallback with
    | none => simpa using hi.leads_nil
    | some cb =>
      cases hw : s.watched <;> rw [hw] at hi
      all_goals first | exact hi.leads_nil | exact hi.leads_register _
  | close =>
    simp only [handlerCalls]
    cases hcb : s.readCallback with
    | none =>
      rw [close_of_none hcb]
      simpa using leads_closeConnect hi
    | some cb =>
      rw [close_of_some hcb]
      simpa using hi.leads_nil
  | connect _ hconnect =>
    simp only [handlerCalls]
    simp only [Stream.connect] at hconnect
    split_ifs at hconnect with hguard hfd hnonblocking hpton hrefused hretry
    all_goals obtain rfl := Except.ok.inj hconnect
    · rw [if_pos (.inl hfd)]
      exact hi.leads_nil
    · rw [if_pos (.inr (.inl hnonblocking))]
      exact hi.leads_nil
    · rw [if_pos (.inr (.inr hpton))]
      exact hi.leads_nil
    · rw [if_neg (by simp [hfd, hnonblocking, hpton]), if_pos hrefused, if_pos hretry]
      exact ⟨⟨⟨rfl, hi.registered_eq_none hguard.2.2⟩, ⟨rfl, rfl⟩, trivial⟩,
        (hi.setFd _).register _⟩
    · rw [if_neg (by simp [hfd, hnonblocking, hpton]), if_pos hrefused, if_neg hretry]
      exact hi.leads_nil
    · rw [if_neg (by simp [hfd, hnonblocking, hpton]), if_neg hrefused]
      exact ⟨⟨⟨rfl, hi.registered_eq_none hguard.2.2⟩, trivial⟩, hi.setFd _⟩
  | destroy _ hdestroy =>
    obtain ⟨_, -, hok⟩ := bind_eq_ok.mp hdestroy
    obtain rfl := Except.ok.inj hok
    exact hi.leads_unregister
  | ready event =>
    rw [ready_eq]
    exact hi.leads_nil
  | getsockopt _ _ _ hok =>
    cases hcb : s.connectCallback with
    | none =>
      simp only [Stream.getsockopt, hcb] at hok
      cases hok
    | some cb =>
      simp only [Stream.getsockopt, hcb] at hok
      obtain rfl := Except.ok.inj hok
      exact hi.leads_nil
  | xwrites halive _ hd hx =>
    obtain ⟨heq, hwatched, -⟩ := xwrites_eq hx
    have hfd : s'.fd = s.fd := by rw [heq]
    simp only [handlerCalls]
    rw [hfd]
    rcases hwatched with ⟨hsame, hwatched⟩ | hwatched
    · rw [hsame, hhead halive _ _ hd rfl, hwatched]
      exact hi.leads_nil
    · rw [hwatched]
      split_ifs
      · exact hi.leads_register _
      · exact hi.leads_nil
  | xread _ _ _ hx => cases xread_cases hx <;> exact hi.leads_nil
  | @returned c calls _ hcalls hok =>
    simp only [handlerCalls, hcalls]
    cases c with
    | closeRead =>
      obtain ⟨-, rfl⟩ := access_map_eq_ok.mp hok
      exact leads_closeConnect (s := { s with calls }) hi
    | closeConnect =>
      obtain ⟨-, rfl⟩ := access_map_eq_ok.mp hok
      rw [closeFinish_eq]
      exact leads_closeCalls hi
    | connect =>
      obtain rfl := Except.ok.inj hok
      exact hi.leads_nil
  | resumed hcalls hd hok =>
    rw [resumeDispatch_eq hok]
    simp only [handlerCalls, hcalls]
    exact hi.leads_nil

end Stream

/-! ### What the calls do -/

namespace Registry

variable [Libevent L] {r r' r₀ : Registry L} {i i₀ : Registrations} {base h h' : Nat}
  {call : HandlerCall} {calls : List HandlerCall} {fd : Int} {watched : What}

/-- The handler was never registered with another base. -/
def BelongsTo (r : Registry L) (base h : Nat) : Prop :=
  (r.handlers h).base = none ∨ (r.handlers h).base = some base

lemma handlers_step_of_ne (hok : r.step call = .ok r') (hh : h' ≠ call.handler) :
    r'.handlers h' = r.handlers h' := by
  have hunregister : ∀ {this h}, h' ≠ h → r.unregisterHandler this h = .ok r' →
      r'.handlers h' = r.handlers h' := by
    intro this h hh hok
    rcases unregisterHandler_cases hok with ⟨-, rfl⟩ | ⟨impl, -, -, rfl⟩
    · rfl
    · exact handlers_set_of_ne hh
  cases call with
  | registerHandler this h what =>
    rcases (registerHandler_cases hok).2 with ⟨-, -, rfl⟩ | ⟨-, hok⟩ | ⟨-, rfl⟩
    · rfl
    · exact hunregister hh hok
    · exact handlers_set_of_ne hh
  | unregisterHandler this h => exact hunregister hh hok
  | unregister h =>
    simp only [step, unregister] at hok
    split at hok
    · exact hunregister hh hok
    · obtain rfl := Except.ok.inj hok
      rfl
  | setFd h fd =>
    simp only [step, setFd] at hok
    split_ifs at hok
    obtain rfl := Except.ok.inj hok
    exact handlers_set_of_ne hh

lemma exists_unregisterHandler (hbase : ∀ b, (r.handlers h).base = some b → b = base) :
    ∃ r', r.unregisterHandler base h = .ok r' := by
  cases himpl : (r.handlers h).impl with
  | none => exact ⟨r, unregisterHandler_of_none himpl⟩
  | some impl =>
    have hb : impl.base = base := hbase _ (by rw [EventHandler.base, himpl]; rfl)
    unfold unregisterHandler
    rw [himpl]
    dsimp only
    rw [if_neg (not_not.mpr hb)]
    split_ifs
    · exact ⟨_, rfl⟩
    · exact ⟨_, rfl⟩

/-- No assertion fails in a call of the stream that the handler belongs to. -/
lemma exists_step (hr : r.Agrees i h) (hbase : r.BelongsTo base h) (hown : i.Own base h call) :
    ∃ r', r.step call = .ok r' := by
  have hb : ∀ b, (r.handlers h).base = some b → b = base := fun b hb => by
    rcases hbase with hnone | hsome
    · rw [hnone] at hb
      cases hb
    · exact Option.some.inj (hb.symm.trans hsome)
  cases call with
  | registerHandler b h' what =>
    obtain ⟨rfl, rfl⟩ := hown
    simp only [step, registerHandler, registerHandlerInternal]
    split_ifs with hother
    · exact absurd (hbase.resolve_left hother.1) hother.2.2
    · exact ⟨r, rfl⟩
    · exact exists_unregisterHandler hb
    · exact ⟨_, rfl⟩
  | unregisterHandler b h' => exact absurd hown id
  | unregister h' =>
    obtain rfl : h' = h := hown
    simp only [step, unregister]
    cases hsome : (r.handlers h').base with
    | none => exact ⟨r, rfl⟩
    | some b =>
      obtain rfl := hb b hsome
      exact exists_unregisterHandler hb
  | setFd h' fd =>
    obtain ⟨rfl, hnone⟩ := hown
    refine ⟨_, if_neg ?_⟩
    rw [hr.registered, hnone]
    exact Bool.false_ne_true

lemma BelongsTo.step (hbase : r.BelongsTo base h) (hown : i.Own base h call)
    (hok : r.step call = .ok r') : r'.BelongsTo base h := by
  rcases hbase with hnone | hsome
  · have himpl : (r.handlers h).impl = none := Option.map_eq_none_iff.mp hnone
    cases call with
    | registerHandler b h' what =>
      obtain ⟨rfl, rfl⟩ := hown
      rcases (registerHandler_cases hok).2 with ⟨-, -, rfl⟩ | ⟨-, hok⟩ | ⟨-, rfl⟩
      · exact .inl hnone
      · rw [unregisterHandler_of_none himpl] at hok
        exact .inl (Except.ok.inj hok ▸ hnone)
      · right
        rw [assignEvent, handlers_set_self, himpl]
        rfl
    | unregisterHandler b h' => exact absurd hown id
    | unregister h' =>
      obtain rfl : h' = h := hown
      simp only [Registry.step, unregister, hnone] at hok
      exact .inl (Except.ok.inj hok ▸ hnone)
    | setFd h' fd =>
      obtain ⟨rfl, -⟩ := hown
      simp only [Registry.step, setFd] at hok
      split_ifs at hok
      obtain rfl := Except.ok.inj hok
      left
      rw [handlers_set_self]
      exact hnone
  · exact .inr (base_step hok hsome)

/-- The registry and the registrations after some of the calls of a stream, which leave other
handlers as they were. -/
structure After (r₀ : Registry L) (i₀ : Registrations) (base h : Nat) (i : Registrations)
    (r : Registry L) : Prop where
  agrees : ∀ h', r.Agrees i h'
  belongs : r.BelongsTo base h
  handlers : ∀ h', h' ≠ h → r.handlers h' = r₀.handlers h'
  fd : ∀ h', h' ≠ h → i.fd h' = i₀.fd h'
  registered : ∀ h', h' ≠ h → i.registered h' = i₀.registered h'

variable [LawfulLibevent L]

lemma After.step (hafter : After r₀ i₀ base h i r) (hown : i.Own base h call) :
    Lockstep (After r₀ i₀ base h) (i.step call) (r.step call) := by
  obtain ⟨r', hok⟩ := exists_step (hafter.agrees h) hafter.belongs hown
  have hhandler : call.handler = h := by
    cases call with
    | registerHandler => exact hown.2
    | unregisterHandler => exact absurd hown id
    | unregister => exact hown
    | setFd => exact hown.1
  rw [hok]
  refine .ok ⟨agrees_step hafter.agrees hok, hafter.belongs.step hown hok, fun h' hh => ?_,
    fun h' hh => ?_, fun h' hh => ?_⟩
  · exact (handlers_step_of_ne hok (hhandler ▸ hh)).trans (hafter.handlers h' hh)
  · exact (Registrations.apply_of_ne (hhandler ▸ hh)).1.trans (hafter.fd h' hh)
  · exact (Registrations.apply_of_ne (hhandler ▸ hh)).2.trans (hafter.registered h' hh)

/-- The calls of a step of a stream fail no assertion. -/
lemma exists_exec (hr : ∀ h', r.Agrees i h') (hbase : r.BelongsTo base h)
    (hown : Exec.Along Registrations.step (Registrations.Own base h) i calls) :
    ∃ r', Exec.exec step r calls = .ok r' ∧
      After r i base h (calls.foldl Registrations.apply i) r' := by
  have hafter : After r i base h i r := ⟨hr, hbase, fun _ _ => rfl, fun _ _ => rfl, fun _ _ => rfl⟩
  have hlockstep := Lockstep.exec (fun _ _ _ => After.step) hafter hown
  rw [Registrations.exec_step] at hlockstep
  exact hlockstep.exists_of_ok

end Registry

end WhatTheEvent
