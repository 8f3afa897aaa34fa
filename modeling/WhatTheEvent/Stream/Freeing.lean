import WhatTheEvent.Stream.Effect

/-!
# Freeing a stream from its callback

A callback that destroys the stream is followed by an access to it, in the rest of the dispatch,
unless it is `eof()` or `error()` called from `readHelper`, or `complete()` of the last request in a
dispatch without `READ`.
-/

namespace WhatTheEvent

variable {β Q : Type}

namespace Stream

section Frees

variable {s s' : Stream Q β}

/-- A dispatch is in progress, and the innermost callback is `complete()` of the last request, or
`eof()` or `error()` of the read callback. -/
inductive InFreeingCallback (s : Stream Q β) : Prop
  | complete (event : What) (hcalls : s.calls = [])
    (hd : s.dispatch = some (.writeDone event none))
  | readEnded (hcalls : s.calls = []) (hd : s.dispatch = some .readEnded)
  | closed (calls : List PendingCall) (hcalls : s.calls = .closeRead :: calls)
    (hd : s.dispatch ≠ none)

/-- The method that has called the innermost callback goes on with the stream: `ready` with
`readHelper`, or `close` with the connect callback. -/
def GoesBack (s : Stream Q β) : Prop :=
  (s.calls = [] ∧ ∃ event, s.dispatch = some (.writeDone event none) ∧ event.isRead = true) ∨
    ∃ calls, s.calls = .closeRead :: calls

lemma access_of_dead (h : s.alive = false) : s.access = .error .useAfterFree := by
  rw [access, h]
  rfl

end Frees

variable [RequestQueue Q (WriteRequest β)] {s s' : Stream Q β} {act : Act β}

/-- The destructor ends no method in progress. -/
lemma destroy_eq (h : s.destroy = .ok s') :
    s'.alive = false ∧ s'.calls = s.calls ∧ s'.dispatch = s.dispatch := by
  obtain ⟨⟨requests, r⟩, -, hok⟩ := bind_eq_ok.mp h
  obtain rfl := Except.ok.inj hok
  exact ⟨rfl, rfl, rfl⟩

/-- A destroyed stream is not called, and no event of it is dispatched. -/
lemma step_of_dead (h : s.alive = false) (hact : act ≠ .ret) : s.step act = .error .disabled := by
  have hcallable : s.callable = false := by
    rw [callable, h]
    rfl
  have hin : s.inAvailable = false := by
    rw [inAvailable, h]
    rfl
  cases act with
  | ret => exact absurd rfl hact
  | ready => simp [step, h]
  | getsockopt | xwrites | xread => simp [step, h]
  | writeReadBuffer | readBuffer | moveReadBuffer => simp [step, hin]
  | _ => simp [step, hcallable]

/-- Nothing accesses a destroyed stream once the methods in progress have returned. -/
lemma exec_of_ended (h : s.alive = false) (hcalls : s.calls = []) (hd : s.dispatch = none)
    (rest : List (Act β)) : Exec.exec step s rest ≠ .error .useAfterFree := by
  cases rest with
  | nil => exact fun hexec => by cases hexec
  | cons act rest =>
    have hstep : s.step act = .error .disabled := by
      by_cases hact : act = .ret
      · subst hact
        simp only [step, ret, hcalls, hd]
      · exact step_of_dead h hact
    rw [Exec.exec, hstep]
    exact fun hexec => by cases hexec

/-- The rest of a dispatch on a destroyed stream starts with the return of the callback. -/
lemma exec_of_dead (h : s.alive = false) :
    (∀ rest, Exec.exec step s rest ≠ .error .useAfterFree) ↔
      ∀ rest, Exec.exec step s (.ret :: rest) ≠ .error .useAfterFree := by
  refine ⟨fun hrest rest => hrest _, fun hret rest => ?_⟩
  cases rest with
  | nil => exact fun hexec => by cases hexec
  | cons act rest =>
    by_cases hact : act = .ret
    · subst hact
      exact hret rest
    · rw [Exec.exec, step_of_dead h hact]
      exact fun hexec => by cases hexec

/-- The callback returns to something that accesses the stream first. -/
lemma exec_of_ret_error (h : s.ret = .error .useAfterFree) :
    ¬ ∀ rest, Exec.exec step s (.ret :: rest) ≠ .error .useAfterFree := by
  intro hrest
  refine hrest [] ?_
  rw [Exec.exec, show s.step .ret = s.ret from rfl, h]

/-- The callback returns to the end of the dispatch. -/
lemma exec_of_ret_ok (h : s.ret = .ok s') (halive : s'.alive = false) (hcalls : s'.calls = [])
    (hd : s'.dispatch = none) (rest : List (Act β)) :
    Exec.exec step s (.ret :: rest) ≠ .error .useAfterFree := by
  rw [Exec.exec_cons_ok (show s.step .ret = .ok s' from h)]
  exact exec_of_ended halive hcalls hd rest

/-- If the last `complete()`, or `eof()` or `error()` of the read callback, destroys the stream in a
dispatch, nothing accesses the stream in the rest of the dispatch if and only if neither `ready`
goes on to read nor `close` has called `eof()`. -/
theorem freed_iff_not_goesBack (s s' : Stream Q β) (hcallback : s.InFreeingCallback)
    (hdestroy : s.step .destroy = .ok s') :
    (∀ rest, Exec.exec step s' rest ≠ .error .useAfterFree) ↔ ¬ s.GoesBack := by
  have hdead : s.destroy = .ok s' := by
    cases step_effect hdestroy with
    | destroy _ h => exact h
    | queue _ _ hact => cases hact
    | useBuffer _ _ hact => cases hact
  obtain ⟨halive, hcalls', hd'⟩ := destroy_eq hdead
  rw [exec_of_dead halive]
  cases hcallback with
  | complete event hcalls hd =>
    rw [hcalls] at hcalls'
    rw [hd] at hd'
    have hret : s'.ret = s'.resumeRead event := by simp only [ret, hcalls', hd', resumeDispatch]
    cases hread : event.isRead with
    | true =>
      have hback : s.GoesBack := .inl ⟨hcalls, event, hd, hread⟩
      refine iff_of_false (exec_of_ret_error ?_) (not_not.mpr hback)
      rw [hret, resumeRead, if_pos hread, access_of_dead halive]
      rfl
    | false =>
      have hback : ¬ s.GoesBack := by
        rintro (⟨-, event', hd₁, hread'⟩ | ⟨calls, hcons⟩)
        · obtain ⟨rfl, -⟩ := Dispatch.writeDone.inj (Option.some.inj (hd.symm.trans hd₁))
          rw [hread] at hread'
          cases hread'
        · rw [hcalls] at hcons
          cases hcons
      have hok : s'.ret = .ok (s'.readyRead event) := by
        rw [hret, resumeRead, hread]
        rfl
      exact iff_of_true (exec_of_ret_ok hok halive hcalls'
        (readyRead_dispatch_eq_none_iff.mpr hread)) hback
  | readEnded hcalls hd =>
    rw [hcalls] at hcalls'
    rw [hd] at hd'
    have hback : ¬ s.GoesBack := by
      rintro (⟨-, event, hd₁, -⟩ | ⟨calls, hcons⟩)
      · rw [hd] at hd₁
        cases hd₁
      · rw [hcalls] at hcons
        cases hcons
    have hok : s'.ret = .ok { s' with dispatch := none } := by
      simp only [ret, hcalls', hd', resumeDispatch]
    exact iff_of_true (exec_of_ret_ok hok halive hcalls' rfl) hback
  | closed calls hcalls =>
    rw [hcalls] at hcalls'
    refine iff_of_false (exec_of_ret_error ?_) (not_not.mpr (.inr ⟨calls, hcalls⟩))
    rw [ret, hcalls']
    simp only [resumeCall]
    rw [access_of_dead (s := { s' with calls }) halive]
    rfl

/-- The last `complete()` of a dispatch of `WRITE` frees the stream. -/
theorem freed_complete : ∃ s s' : Stream (Requests (WriteRequest Char)) Char,
    Exec.exec step (new 3) [.write ['a'] (some 2), .ready .write, .xwrites [.count 1]] = .ok s ∧
    s.step .destroy = .ok s' ∧
    ((∀ rest, Exec.exec step s' rest ≠ .error .useAfterFree) ↔ ¬ s.GoesBack) :=
  ⟨_, _, rfl, rfl, freed_iff_not_goesBack _ _ (.complete .write rfl rfl) rfl⟩

/-- In a dispatch of `READ_WRITE`, `ready` calls `readHelper` after the last `complete()` has freed
the stream. -/
theorem not_freed : ¬ ∀ (fd : Int) (acts : List (Act Char))
    (s s' : Stream (Requests (WriteRequest Char)) Char),
    Exec.exec step (new fd) acts = .ok s → s.InFreeingCallback → s.step .destroy = .ok s' →
    ∀ rest, Exec.exec step s' rest ≠ .error .useAfterFree := by
  intro h
  refine h 3
    [.startRead (some 1), .write ['a'] (some 2), .ready .readWrite, .xwrites [.count 1]] _ _
    rfl (.complete .readWrite rfl rfl) rfl [.ret] rfl

end Stream

end WhatTheEvent
