import WhatTheEvent.EventLoop.Scheduling

/-!
# Requests to stop

`stop` either runs its operation by itself or puts it into the queue, as it finds `loopThread_`. A
request ends with the run of `loop` that it stops unless it comes too late for that run.
-/

namespace WhatTheEvent

open Exec

/-- The thread in `loop` has not yet left the loop. -/
def LoopPlace.isActive : LoopPlace → Bool
  | started _ | popping _ | running _ _ _ | waiting _ | polled _ _ => true
  | idle | left | reset | cleared => false

namespace EventBase

variable {s s' : EventBase} {act : BaseAct} {addr : Nat} {acts : List BaseAct} {c : Nat}

/-- Once no thread is in `loop` and all calls of `stop` have returned, nothing of them is left. -/
def Quiet (s : EventBase) : Prop :=
  s.loop = .idle →
    (∀ c, (s.calls c).kind = .stop →
      (s.calls c).place = .idle ∨ ∃ result, (s.calls c).place = .returned result) →
    s.terminate = false ∧ s.loopExit = false ∧ ∀ c, (s.calls c).kind = .stop → ¬ s.Queued c

/-- No thread has been in `loop` yet. -/
def Unlooped (s : EventBase) : Prop := s.loop = .idle ∧ s.finished = false

/-- The operation of a call of `stop` is in the queue or on its way. -/
def Headed (s : EventBase) (c : Nat) : Prop :=
  (s.calls c).kind = .stop ∧ ((s.calls c).place = .pushing ∨ s.Queued c)

/-- `loop` leaves its loop in the next step. -/
def Leaves (s : EventBase) : Prop :=
  ∃ mode empty, s.loop = .polled mode empty ∧ s.again mode empty = false

/-- The step does not come too late for the run of `loop` that it has to stop. -/
def Timely (s : EventBase) : BaseAct → Prop
  -- an operation is to be queued only for a thread that will look into the queue again
  | .check c => (s.calls c).kind = .stop → (s.calls c).place = .scheduling →
      s.isInline c = false → s.loop.isActive
  -- what the operation sets is reset on the way out of `loop`, the loop exit before `terminate_`
  | .runOp c => (s.calls c).kind = .stop → s.loop.isActive ∨ s.Unlooped ∨
      s.loop = .left ∧ ∃ closure, (s.calls c).place = .running closure false
  | .goOnLoop => s.Leaves → s.loopExit = false ∧ ∀ c, ¬ s.Headed c
  | _ => True

/-- The invariant of runs whose steps are timely. -/
structure Prompt (s : EventBase) : Prop where
  terminate : s.terminate → s.loop.isActive ∨ s.loop = .left ∨ s.Unlooped
  loopExit : s.loopExit → s.loop.isActive ∨ s.Unlooped
  headed : ∀ c, s.Headed c → s.loop.isActive
  returned : s.Unlooped → ∀ c, (s.calls c).kind = .stop → ∀ result,
    (s.calls c).place ≠ .returned result
  requested : s.Unlooped → s.terminate ∨ s.loopExit →
    ∃ c, (s.calls c).kind = .stop ∧ (s.calls c).place ≠ .idle

lemma Prompt.quiet (h : s.Prompt) : s.Quiet := by
  intro hidle hreturned
  have hactive : ¬ s.loop.isActive := by simp [hidle, LoopPlace.isActive]
  -- before the first run of `loop` no call of `stop` can have returned
  have hnot : s.Unlooped → ¬ (s.terminate ∨ s.loopExit) := by
    intro hunlooped hset
    obtain ⟨c, hstop, hplace⟩ := h.requested hunlooped hset
    obtain ⟨result, hresult⟩ := (hreturned c hstop).resolve_left hplace
    exact h.returned hunlooped c hstop result hresult
  refine ⟨Bool.eq_false_iff.mpr fun hset => ?_, Bool.eq_false_iff.mpr fun hset => ?_, ?_⟩
  · rcases h.terminate hset with hact | hleft | hunlooped
    · exact hactive hact
    · rw [hidle] at hleft
      cases hleft
    · exact hnot hunlooped (.inl hset)
  · rcases h.loopExit hset with hact | hunlooped
    · exact hactive hact
    · exact hnot hunlooped (.inr hset)
  · exact fun c hstop hqueued => hactive (h.headed c ⟨hstop, .inr hqueued⟩)

/-! ### What a step changes -/

/-- `loop` goes on, or leaves its loop. -/
lemma active_step (heff : s.Effect act s') (h : s.loop.isActive) :
    s'.loop.isActive ∨ act = .goOnLoop ∧ s.Leaves ∧ s'.loop = .left := by
  cases heff with
  | leave hloop hagain => exact .inr ⟨rfl, ⟨_, _, hloop, hagain⟩, rfl⟩
  | loop | started | pop | popped | empty | startOp | finishOp | again | notified | polled =>
    exact .inl rfl
  | reset hloop | clear hloop | finish hloop => simp [hloop, LoopPlace.isActive] at h
  | _ => exact .inl h

/-- No run of `loop` is forgotten. -/
lemma unlooped_of_step (heff : s.Effect act s') (h : s'.Unlooped) : s.Unlooped := by
  cases heff with
  | finish => cases h.2
  | finishInline => exact ⟨h.1, h.2⟩
  | _ => first | exact h | cases h.1

/-- From before the first run of `loop`, a step leads there or into the run. -/
lemma unlooped_step (heff : s.Effect act s') (h : s.Unlooped) :
    s'.Unlooped ∨ s'.loop.isActive := by
  have hidle := h.1
  cases heff with
  | loop => exact .inr rfl
  | finishInline => exact .inl ⟨h.1, h.2⟩
  | _ => first | exact .inl h | simp_all

/-- `terminate_` is set by the operation of a call of `stop` and reset on the way out of `loop`. -/
lemma terminate_cases (heff : s.Effect act s') (h : s'.terminate) :
    (s.terminate ∧ (s.loop = .left → s'.loop = .left)) ∨
      (∃ c, act = .runOp c ∧ (s.calls c).kind = .stop ∧ (s.calls c).place ≠ .idle ∧
        s'.loop = s.loop ∧ s'.finished = s.finished) ∨ s'.loop.isActive := by
  cases heff with
  | @startInline c closure hplace =>
    by_cases hstop : (s.calls c).kind = .stop
    · exact .inr (.inl ⟨c, rfl, hstop, by simp [hplace], rfl, rfl⟩)
    · have hset : (if (s.calls c).kind = .stop then true else s.terminate) = true := h
      rw [if_neg hstop] at hset
      exact .inl ⟨hset, id⟩
  | loop | started | pop | popped | empty | startOp | finishOp | again | notified | polled =>
    exact .inr (.inr rfl)
  | reset => cases h
  | leave => exact .inl ⟨h, fun _ => rfl⟩
  | clear hloop | finish hloop => exact .inl ⟨h, fun hleft => by cases hleft.symm.trans hloop⟩
  | _ => exact .inl ⟨h, id⟩

/-- A loop exit is scheduled when the operation of a call of `stop` ends. -/
lemma loopExit_cases (heff : s.Effect act s') (h : s'.loopExit) :
    s.loopExit ∨
      (∃ c closure, act = .runOp c ∧ (s.calls c).kind = .stop ∧
        (s.calls c).place = .running closure true ∧ s'.loop = s.loop ∧ s'.finished = s.finished) ∨
      s'.loop.isActive := by
  cases heff with
  | @finishInline c closure hplace =>
    by_cases hstop : (s.calls c).kind = .stop
    · exact .inr (.inl ⟨c, closure, rfl, hstop, hplace, rfl, rfl⟩)
    · have hset : (if (s.calls c).kind = .stop then true else s.loopExit) = true := h
      rw [if_neg hstop] at hset
      exact .inl hset
  | finishOp | polled => exact .inr (.inr rfl)
  | _ => exact .inl h

lemma after_ne_idle (kind : CallKind) (written : Bool) : kind.after written ≠ .idle := by
  cases kind <;> cases written <;> simp [CallKind.after]

/-- A call that was made stays what it is. -/
lemma nonidle_step (heff : s.Effect act s') (h : (s.calls c).place ≠ .idle) :
    (s'.calls c).kind = (s.calls c).kind ∧ (s'.calls c).place ≠ .idle := by
  rcases heff.moves c with ⟨hplace, hkind⟩ | hmoves
  · exact ⟨hkind, hplace ▸ h⟩
  · generalize (s'.calls c).place = place at hmoves ⊢
    generalize (s'.calls c).kind = kind at hmoves ⊢
    cases hmoves with
    | call _ _ hidle => exact absurd hidle h
    | entered => exact ⟨rfl, by split_ifs <;> nofun⟩
    | scheduling => exact ⟨rfl, by split_ifs <;> nofun⟩
    | startInline => exact ⟨rfl, nofun⟩
    | finishInline =>
      refine ⟨rfl, ?_⟩
      split_ifs
      · nofun
      · exact after_ne_idle _ _
    | pushed =>
      refine ⟨rfl, ?_⟩
      split_ifs
      · nofun
      · exact after_ne_idle _ _
    | signal => exact ⟨rfl, after_ne_idle _ _⟩
    | await => exact ⟨rfl, nofun⟩

/-- A call of `stop` returns only once `loop` has ended. -/
lemma finished_of_returned {place : CallPlace} {kind : CallKind} {result : Bool}
    (hmoves : s.Moves c act place kind) (hplace : place = .returned result) (hstop : kind = .stop) :
    s.finished := by
  cases hmoves with
  | call _ kind =>
    rcases first_cases kind with hfirst | hfirst <;> rw [hfirst] at hplace <;> cases hplace
  | entered => split_ifs at hplace
  | scheduling => split_ifs at hplace
  | startInline => cases hplace
  | finishInline => simp [hstop, CallKind.isWait, CallKind.after] at hplace
  | pushed =>
    rw [hstop, CallKind.after] at hplace
    split_ifs at hplace
  | signal => simp [hstop, CallKind.after] at hplace
  | await _ hdone => rwa [if_pos hstop] at hdone

/-- An operation gets into the queue by the `push` of its call. -/
lemma queued_goOn {c' : Nat} {queue : MpscQueue Nat} (hlawful : s.Lawful)
    (hplace : (s.calls c').place = .pushing) (hqueue : s.queue.step (.goOn c') = .ok queue)
    (h : Queued { s with queue } c) : s.Queued c ∨ (s.calls c).place = .pushing := by
  by_cases heq : c = c'
  · rw [heq]
    exact .inr hplace
  · left
    unfold Queued at h
    obtain ⟨hpopped, -, ⟨cur, item, hpush, -, hexchanged⟩ | ⟨-, -, hexchanged⟩⟩ :=
      MpscQueue.goOn_cases hqueue
    · obtain rfl := (hlawful c').item _ _ hpush
      have hne : item ≠ c := fun hsame => heq hsame.symm
      simpa [Queued, hexchanged, hpopped, hne] using h
    · simpa [Queued, hexchanged, hpopped] using h

lemma queued_pop {queue : MpscQueue Nat} (hqueue : s.queue.step .pop = .ok queue)
    (h : Queued { s with queue } c) : s.Queued c := by
  unfold Queued at h
  obtain ⟨-, hexchanged, ⟨hpopped, -⟩ | ⟨op, hpopped, -, -⟩⟩ := pop_cases hqueue
  · simpa [Queued, hexchanged, hpopped] using h
  · simp only [hexchanged, hpopped, List.count_append] at h
    exact Nat.lt_of_le_of_lt (Nat.le_add_right _ _) h

lemma queued_step (hlawful : s.Lawful) (heff : s.Effect act s') (h : s'.Queued c) :
    s.Queued c ∨ (s.calls c).place = .pushing := by
  cases heff with
  | push _ hqueue =>
    cases MpscQueue.step_effect hqueue with
    | push => exact .inl h
  | goOn hplace hqueue => exact queued_goOn hlawful hplace hqueue h
  | pushed hplace hqueue => exact queued_goOn hlawful hplace hqueue h
  | pop _ hqueue => exact .inl (queued_pop hqueue h)
  | popped _ hqueue => exact .inl (queued_pop hqueue h)
  | empty _ hqueue => exact .inl (queued_pop hqueue h)
  | _ => exact .inl h

/-- The operation of a call that was not made is in no queue. -/
lemma Lawful.not_queued (h : s.Lawful) (hplace : (s.calls c).place = .idle) : ¬ s.Queued c := by
  have hagrees := h.agrees c
  rw [hplace] at hagrees
  have hpush : s.queue.pushes c = .idle := hagrees
  obtain ⟨hexchanged, -, -, -⟩ := (h c).exchanged_eq_zero (by simp [view, hpush])
  show ¬ (s.view c).popped < (s.view c).exchanged
  rw [hexchanged]
  exact Nat.not_lt_zero _

/-- Only a test that finds another thread in `loop` leads into `push`. -/
lemma check_of_pushing {place : CallPlace} {kind : CallKind} (hmoves : s.Moves c act place kind)
    (hplace : place = .pushing) : act = .check c ∧ (s.calls c).kind = kind ∧
      (s.calls c).place = .scheduling ∧ s.isInline c = false := by
  have hafter : ∀ (kind : CallKind) written, kind.after written ≠ .pushing := by
    intro kind written
    cases kind <;> cases written <;> simp [CallKind.after]
  cases hmoves with
  | call _ kind =>
    rcases first_cases kind with hfirst | hfirst <;> rw [hfirst] at hplace <;> cases hplace
  | entered => split_ifs at hplace
  | scheduling hscheduling =>
    split_ifs at hplace with hinline
    exact ⟨rfl, rfl, hscheduling, Bool.eq_false_iff.mpr hinline⟩
  | startInline => cases hplace
  | finishInline =>
    split_ifs at hplace
    exact absurd hplace (hafter _ _)
  | pushed =>
    split_ifs at hplace
    exact absurd hplace (hafter _ _)
  | signal => exact absurd hplace (hafter _ _)
  | await => cases hplace

/-- The operation of a call of `stop` sets out when the call finds another thread in `loop`. -/
lemma headed_step (hlawful : s.Lawful) (heff : s.Effect act s') (h : s'.Headed c) :
    s.Headed c ∨ act = .check c ∧ (s.calls c).kind = .stop ∧ (s.calls c).place = .scheduling ∧
      s.isInline c = false ∧ s'.loop = s.loop := by
  obtain ⟨hstop, hwhere⟩ := h
  by_cases hidle : (s.calls c).place = .idle
  · have hnot := hlawful.not_queued hidle
    rcases hwhere with hplace | hqueued
    · rcases heff.moves c with ⟨hsame, -⟩ | hmoves
      · rw [hsame, hidle] at hplace
        cases hplace
      · obtain ⟨-, -, hscheduling, -⟩ := check_of_pushing hmoves hplace
        rw [hidle] at hscheduling
        cases hscheduling
    · rcases queued_step hlawful heff hqueued with hqueued | hplace
      · exact absurd hqueued hnot
      · rw [hidle] at hplace
        cases hplace
  · have hkind : (s.calls c).kind = .stop := (nonidle_step heff hidle).1.symm.trans hstop
    rcases hwhere with hplace | hqueued
    · rcases heff.moves c with ⟨hsame, -⟩ | hmoves
      · exact .inl ⟨hkind, .inl (hsame ▸ hplace)⟩
      · obtain ⟨rfl, -, hscheduling, hinline⟩ := check_of_pushing hmoves hplace
        refine .inr ⟨rfl, hkind, hscheduling, hinline, ?_⟩
        cases heff with
        | entered => rfl
        | scheduling => rfl
    · exact .inl ⟨hkind, (queued_step hlawful heff hqueued).symm⟩

/-! ### Runs -/

lemma prompt_new (addr : Nat) : (new addr).Prompt where
  terminate := nofun
  loopExit := nofun
  headed := by
    rintro c ⟨-, hplace | hqueued⟩
    · cases hplace
    · exact absurd hqueued (Nat.lt_irrefl 0)
  returned := fun _ _ _ _ => nofun
  requested := fun _ h => by simp [new] at h

lemma prompt_step (hlawful : s.Lawful) (h : s.Prompt) (htimely : s.Timely act)
    (heff : s.Effect act s') : s'.Prompt where
  terminate := by
    intro hset
    rcases terminate_cases heff hset with ⟨hbefore, hleft⟩ | ⟨c, rfl, hstop, -, hloop, hfinished⟩ |
      hact
    · rcases h.terminate hbefore with hact | hleft' | hunlooped
      · rcases active_step heff hact with hact' | ⟨-, -, hleft'⟩
        · exact .inl hact'
        · exact .inr (.inl hleft')
      · exact .inr (.inl (hleft hleft'))
      · rcases unlooped_step heff hunlooped with hunlooped' | hact'
        · exact .inr (.inr hunlooped')
        · exact .inl hact'
    · unfold Unlooped
      rw [hloop, hfinished]
      rcases htimely hstop with hact | hunlooped | ⟨hleft, -⟩
      · exact .inl hact
      · exact .inr (.inr hunlooped)
      · exact .inr (.inl hleft)
    · exact .inl hact
  loopExit := by
    intro hset
    rcases loopExit_cases heff hset with hbefore |
      ⟨c, closure, rfl, hstop, hplace, hloop, hfinished⟩ | hact
    · rcases h.loopExit hbefore with hact | hunlooped
      · rcases active_step heff hact with hact' | ⟨rfl, hleaves, -⟩
        · exact .inl hact'
        · rw [(htimely hleaves).1] at hbefore
          cases hbefore
      · exact (unlooped_step heff hunlooped).symm
    · unfold Unlooped
      rw [hloop, hfinished]
      rcases htimely hstop with hact | hunlooped | ⟨-, closure', hplace'⟩
      · exact .inl hact
      · exact .inr hunlooped
      · rw [hplace] at hplace'
        cases hplace'
    · exact .inl hact
  headed := by
    intro c hheaded
    rcases headed_step hlawful heff hheaded with hbefore | ⟨rfl, hstop, hplace, hinline, hloop⟩
    · rcases active_step heff (h.headed c hbefore) with hact | ⟨rfl, hleaves, -⟩
      · exact hact
      · exact absurd hbefore ((htimely hleaves).2 c)
    · rw [hloop]
      exact htimely hstop hplace hinline
  returned := by
    intro hunlooped c hstop result hresult
    have hbefore := unlooped_of_step heff hunlooped
    rcases heff.moves c with ⟨hplace, hkind⟩ | hmoves
    · exact h.returned hbefore c (hkind ▸ hstop) result (hplace ▸ hresult)
    · have hfinished := finished_of_returned hmoves hresult hstop
      rw [hbefore.2] at hfinished
      cases hfinished
  requested := by
    intro hunlooped hset
    have hbefore := unlooped_of_step heff hunlooped
    have hnot : ¬ s'.loop.isActive := by simp [hunlooped.1, LoopPlace.isActive]
    have hcall : ∃ c, (s.calls c).kind = .stop ∧ (s.calls c).place ≠ .idle := by
      rcases hset with hset | hset
      · rcases terminate_cases heff hset with ⟨hset', -⟩ | ⟨c, -, hstop, hplace, -, -⟩ | hact
        · exact h.requested hbefore (.inl hset')
        · exact ⟨c, hstop, hplace⟩
        · exact absurd hact hnot
      · rcases loopExit_cases heff hset with hset' | ⟨c, closure, -, hstop, hplace, -, -⟩ | hact
        · exact h.requested hbefore (.inr hset')
        · exact ⟨c, hstop, by simp [hplace]⟩
        · exact absurd hact hnot
    obtain ⟨c, hstop, hplace⟩ := hcall
    obtain ⟨hkind', hplace'⟩ := nonidle_step heff hplace
    exact ⟨c, hkind'.trans hstop, hplace'⟩

/-- When no step comes too late for the run of `loop` that it has to stop, a request to stop dies
with the run: once no thread is in `loop` and all calls of `stop` have returned, nothing of them is
left. -/
theorem quiet_of_timely (addr : Nat) (acts : List BaseAct) {s : EventBase}
    (htimely : Along step Timely (new addr) acts) (h : exec step (new addr) acts = .ok s) :
    s.Quiet := by
  have hrun : s.queue.Sound ∧ s.Lawful ∧ s.Prompt := by
    refine exec_invariant (fun s => s.queue.Sound ∧ s.Lawful ∧ s.Prompt) ?_
      ⟨MpscQueue.sound_new addr, lawful_new addr, prompt_new addr⟩ htimely h
    rintro s act s' ⟨hsound, hlawful, hprompt⟩ hact hok
    have heff := step_effect hok
    have hsound' := heff.sound hsound
    exact ⟨hsound', lawful_step hlawful heff hsound', prompt_step hlawful hprompt hact heff⟩
  exact hrun.2.2.quiet

/-- `stop` is called before `loop` is. -/
theorem quiet_stopped : ∃ s, exec step (new 0)
    [.call 0 2 .stop, .check 0, .runOp 0, .runOp 0, .loop 1 .forever, .goOnLoop, .goOnLoop,
      .goOnLoop, .polled false, .goOnLoop, .goOnLoop, .goOnLoop, .goOnLoop, .await 0] = .ok s ∧
    (s.calls 0).place = .returned true ∧ s.Quiet := by
  refine ⟨_, rfl, rfl, quiet_of_timely 0 [.call 0 2 .stop, .check 0, .runOp 0, .runOp 0,
    .loop 1 .forever, .goOnLoop, .goOnLoop, .goOnLoop, .polled false, .goOnLoop, .goOnLoop,
    .goOnLoop, .goOnLoop, .await 0] ?_ rfl⟩
  have hstays : ∀ {s : EventBase}, (∀ mode empty, s.loop ≠ .polled mode empty) →
      s.Timely .goOnLoop := fun h ⟨mode, empty, hloop, _⟩ => absurd hloop (h mode empty)
  have hunlooped : ∀ {s : EventBase}, s.Unlooped → s.Timely (.runOp 0) := fun h _ => .inr (.inl h)
  -- the call of `stop` waits when `loop` leaves, and no other call was made
  refine And.intro trivial <| And.intro (fun _ _ h => nomatch h) <|
    And.intro (hunlooped ⟨rfl, rfl⟩) <| And.intro (hunlooped ⟨rfl, rfl⟩) <| And.intro trivial <|
    And.intro (hstays nofun) <| And.intro (hstays nofun) <| And.intro (hstays nofun) <|
    And.intro trivial <| And.intro (fun _ => ⟨rfl, ?_⟩) <| And.intro (hstays nofun) <|
    And.intro (hstays nofun) <| And.intro (hstays nofun) <| And.intro trivial trivial
  rintro c ⟨-, hplace | hqueued⟩
  · cases c with
    | zero => cases hplace
    | succ c => cases hplace
  · exact absurd hqueued (Nat.lt_irrefl 0)

/-- `stop` is called after `loop` has ended: the request is left for the next run. -/
theorem not_quiet : ∃ acts s, exec step (new 0) acts = .ok s ∧ ¬ s.Quiet := by
  refine ⟨[.loop 1 .once, .goOnLoop, .goOnLoop, .goOnLoop, .polled false, .goOnLoop, .goOnLoop,
    .goOnLoop, .goOnLoop, .call 0 2 .stop, .check 0, .runOp 0, .runOp 0, .await 0], _, rfl,
    fun hquiet => ?_⟩
  refine nomatch (hquiet rfl fun c _ => ?_).1
  cases c with
  | zero => exact .inr ⟨true, rfl⟩
  | succ c => exact .inl rfl

end EventBase

end WhatTheEvent
