import WhatTheEvent.EventLoop.BaseEffect

/-!
# Waiting in `stop`

`stop` waits for the end of the run of `loop`. When the thread that is in `loop` calls it, from an
operation or from a handler, it waits for itself.
-/

namespace WhatTheEvent

open Exec

/-- The call that goes on with the step. -/
def BaseAct.ofCall : BaseAct → Option Nat
  | .check c | .runOp c | .push c _ | .goOn c | .signal c _ | .await c => some c
  | .call _ _ _ | .loop _ _ | .goOnLoop | .notified _ | .polled _ => none

/-- The thread that calls `stop` in the step. -/
def BaseAct.stopCaller : BaseAct → Option Nat
  | .call _ thread .stop => some thread
  | _ => none

/-- The thread in `loop` runs an operation, or a handler or a timeout out of `event_base_loop`. -/
def LoopPlace.runsUser : LoopPlace → Bool
  | running _ _ begun => begun
  | waiting _ => true
  | _ => false

namespace EventBase

variable {s s' : EventBase} {act : BaseAct} {addr : Nat} {acts : List BaseAct} {c : Nat}

/-- The call of `stop` was made and has not returned. -/
def InStop (s : EventBase) (c : Nat) : Prop :=
  (s.calls c).kind = .stop ∧ (s.calls c).place ≠ .idle ∧
    ∀ result, (s.calls c).place ≠ .returned result

/-- The thread that takes the step. Between the resets at its end `loop` calls nothing. -/
def actor (s : EventBase) : BaseAct → Option Nat
  | .call _ thread _ => some thread
  | .check c | .runOp c | .push c _ | .goOn c | .signal c _ | .await c => some (s.calls c).thread
  | .loop thread _ => some thread
  | .goOnLoop | .notified _ | .polled _ => s.loopThread

/-- A thread that is in a call of `stop` does nothing but go on with it. -/
def Sequential (s : EventBase) (act : BaseAct) : Prop :=
  ∀ c, s.InStop c → s.actor act = some (s.calls c).thread → act.ofCall = some c

/-- The caller waits in `stop` for `await_.finished`, which only the thread in `loop` can set, and
it is that thread. -/
def SelfBlocked (s : EventBase) (c : Nat) : Prop :=
  (s.calls c).kind = .stop ∧ (s.calls c).place = .awaiting ∧ s.finished = false ∧
    s.loopThread = some (s.calls c).thread

/-- The step is not a call of `stop` by the thread that is in `loop`. -/
def FromOutside (s : EventBase) (act : BaseAct) : Prop :=
  ∀ thread ∈ act.stopCaller, s.loopThread ≠ some thread

/-- No thread that is in `loop` is in a call of `stop`. -/
def Outside (s : EventBase) : Prop :=
  ∀ c, s.InStop c → s.loopThread ≠ some (s.calls c).thread

instance : Decidable (s.InStop c) := inferInstanceAs (Decidable (_ ∧ _ ∧ _))

instance : Decidable (s.FromOutside act) :=
  inferInstanceAs (Decidable (∀ thread ∈ act.stopCaller, s.loopThread ≠ some thread))

lemma SelfBlocked.inStop (h : s.SelfBlocked c) : s.InStop c := by
  obtain ⟨hstop, hplace, -, -⟩ := h
  exact ⟨hstop, by rw [hplace]; nofun, fun result => by rw [hplace]; nofun⟩

/-! ### Calls of `stop` -/

/-- A call that has begun and goes on was in `stop` before. -/
lemma inStop_moveTo {c' : Nat} {place : CallPlace} (hidle : (s.calls c').place ≠ .idle)
    (hreturned : ∀ result, (s.calls c').place ≠ .returned result)
    (h : (s.moveTo c' place).InStop c) :
    s.InStop c ∧ ((s.moveTo c' place).calls c).thread = (s.calls c).thread := by
  unfold InStop at h ⊢
  by_cases heq : c = c'
  · subst heq
    rw [calls_moveTo_self] at h ⊢
    exact ⟨⟨h.1, hidle, hreturned⟩, rfl⟩
  · rw [calls_moveTo_of_ne heq] at h ⊢
    exact ⟨h, rfl⟩

lemma inStop_finishOp {c' : Nat} {closure : Bool} (h : (s.finishOp c' closure).InStop c) :
    s.InStop c ∧ ((s.finishOp c' closure).calls c).thread = (s.calls c).thread := by
  unfold InStop at h ⊢
  rw [place_finishOp, kind_finishOp] at h
  refine ⟨h, ?_⟩
  cases closure with
  | false => rfl
  | true =>
    by_cases heq : c = c'
    · subst heq
      simp [finishOp]
    · simp [finishOp, heq]

/-- A call of `stop` that has not returned was made in the step or was there before. -/
lemma inStop_step (heff : s.Effect act s') (h : s'.InStop c) :
    (s.InStop c ∧ (s'.calls c).thread = (s.calls c).thread) ∨
      ∃ thread, act = .call c thread .stop ∧ (s'.calls c).thread = thread ∧
        s'.loopThread = s.loopThread := by
  cases heff with
  | @call c' thread kind hplace =>
    unfold InStop at h ⊢
    by_cases heq : c = c'
    · subst heq
      simp only [Function.update_self] at h ⊢
      exact .inr ⟨thread, by rw [h.1], rfl, trivial⟩
    · simp only [Function.update_of_ne heq] at h ⊢
      exact .inl ⟨h, trivial⟩
  | entered hplace | scheduling hplace | startInline hplace | pushed hplace | signal hplace
  | await hplace =>
    exact .inl (inStop_moveTo (s := { s with }) (by simp [hplace]) (by simp [hplace]) h)
  | finishInline hplace =>
    obtain ⟨hin, hthread⟩ := inStop_moveTo (by simp [hplace]) (by simp [hplace]) h
    obtain ⟨hin, hthread'⟩ := inStop_finishOp hin
    exact .inl ⟨hin, hthread.trans hthread'⟩
  | finishOp => exact .inl (inStop_finishOp h)
  | _ => exact .inl ⟨h, rfl⟩

/-- A thread gets into `loop` by calling it. -/
lemma loopThread_step {thread : Nat} (heff : s.Effect act s')
    (h : s'.loopThread = some thread) :
    s.loopThread = some thread ∨ ∃ mode, act = .loop thread mode := by
  cases heff with
  | @loop cur mode =>
    obtain rfl := Option.some.inj h
    exact .inr ⟨mode, rfl⟩
  | clear => cases h
  | _ => exact .inl h

/-! ### Runs -/

lemma Outside.step (h : s.Outside) (hseq : s.Sequential act) (hout : s.FromOutside act)
    (heff : s.Effect act s') : s'.Outside := by
  intro c hin hloop
  rcases inStop_step heff hin with ⟨hin, hthread⟩ | ⟨thread, rfl, rfl, hsame⟩
  · rw [hthread] at hloop
    rcases loopThread_step heff hloop with hloop | ⟨mode, rfl⟩
    · exact h c hin hloop
    · cases hseq c hin rfl
  · exact hout _ rfl (hsame ▸ hloop)

/-- When `stop` is never called by the thread that is in `loop`, no caller waits in `stop` for
itself. -/
theorem not_selfBlocked_of_fromOutside (addr : Nat) (acts : List BaseAct)
    (hseq : Along step Sequential (new addr) acts)
    (hout : Along step FromOutside (new addr) acts)
    (h : exec step (new addr) acts = .ok s) : ∀ c, ¬ s.SelfBlocked c := by
  have houtside : s.Outside := by
    refine exec_invariant (P := fun s act => s.Sequential act ∧ s.FromOutside act) Outside ?_ ?_
      (hseq.and hout) h
    · exact fun s act s' hs hact hok => hs.step hact.1 hact.2 (step_effect hok)
    · exact fun c hin => absurd rfl hin.2.1
  exact fun c hblocked => houtside c hblocked.inStop hblocked.2.2.2

/-- In a run with one call of `stop` only the thread of that call is constrained. -/
lemma along_sequential (hsole : ∀ c', s.InStop c' → c' = c)
    (hcalls : ∀ c' thread, .call c' thread .stop ∈ acts → c' = c)
    (hseq : Along step (fun s act => s.InStop c → s.actor act = some (s.calls c).thread →
      act.ofCall = some c) s acts)
    (h : exec step s acts = .ok s') : Along step Sequential s acts := by
  induction acts generalizing s with
  | nil => trivial
  | cons act acts ih =>
    obtain ⟨s₁, hok, h⟩ := exec_cons_eq_ok.mp h
    rw [along_cons hok] at hseq ⊢
    constructor
    · intro c' hin hactor
      obtain rfl := hsole c' hin
      exact hseq.1 hin hactor
    · refine ih (fun c' hin => ?_) (fun c' thread hmem => hcalls c' thread (.tail _ hmem)) hseq.2 h
      rcases inStop_step (step_effect hok) hin with ⟨hin, -⟩ | ⟨thread, rfl, -, -⟩
      · exact hsole c' hin
      · exact hcalls c' thread (.head _)

/-- A thread calls `stop` while another one is in `loop`, and waits for it. -/
theorem not_selfBlocked_of_other_thread : ∃ s, exec step (new 0)
    [.loop 2 .forever, .goOnLoop, .call 0 1 .stop, .check 0, .push 0 8, .goOn 0, .goOn 0, .goOn 0,
      .signal 0 true] = .ok s ∧
    (s.calls 0).place = .awaiting ∧ s.finished = false ∧ ∀ c, ¬ s.SelfBlocked c := by
  have hseq : Along step Sequential (new 0)
      [.loop 2 .forever, .goOnLoop, .call 0 1 .stop, .check 0, .push 0 8, .goOn 0, .goOn 0, .goOn 0,
        .signal 0 true] :=
    along_sequential (c := 0) (fun c hin => absurd rfl hin.2.1) (by simp) (by decide) rfl
  exact ⟨_, rfl, rfl, rfl, not_selfBlocked_of_fromOutside 0 _ hseq (by decide) rfl⟩

/-- The operation of another thread, once the loop has started it, calls `stop`. -/
theorem selfBlocked_in_operation : ¬ ∀ (acts : List BaseAct) (s : EventBase),
    Along step Sequential (new 0) acts → exec step (new 0) acts = .ok s →
      ∀ c, ¬ s.SelfBlocked c := by
  intro h
  have hseq : Along step Sequential (new 0)
      [.call 0 1 (.runOnEventLoop true), .check 0, .push 0 8, .goOn 0, .goOn 0, .goOn 0,
        .signal 0 true, .loop 2 .forever, .goOnLoop, .goOnLoop, .goOnLoop, .goOnLoop, .goOnLoop,
        .goOnLoop, .goOnLoop, .call 1 2 .stop, .check 1, .runOp 1, .runOp 1] :=
    along_sequential (c := 1) (fun c hin => absurd rfl hin.2.1) (by simp) (by decide) rfl
  exact h _ _ hseq rfl 1 ⟨rfl, rfl, rfl, rfl⟩

/-! ### From within -/

/-- The thread that is in `loop` has called `stop`, and gets no further than to wait there. -/
structure WaitsWithin (s : EventBase) (c : Nat) : Prop where
  kind : (s.calls c).kind = .stop
  place : (s.calls c).place = .scheduling ∨
    (∃ started, (s.calls c).place = .running false started) ∨ (s.calls c).place = .awaiting
  finished : s.finished = false
  thread : s.loopThread = some (s.calls c).thread
  inLoop : s.loop ≠ .idle

/-- `await_.finished` is false while a thread runs through `loop`. -/
def Unfinished (s : EventBase) : Prop :=
  s.loop = .idle ∨ (∃ mode, s.loop = .started mode) ∨ s.finished = false

lemma Unfinished.step (h : s.Unfinished) (heff : s.Effect act s') : s'.Unfinished := by
  cases heff with
  | loop => exact .inr (.inl ⟨_, rfl⟩)
  | started => exact .inr (.inr rfl)
  | finish => exact .inl rfl
  | pop hloop | popped hloop | empty hloop | startOp hloop | finishOp hloop | again hloop
  | leave hloop | reset hloop | clear hloop | notified hloop | polled hloop =>
    rcases h with hidle | ⟨mode, hstarted⟩ | hfinished
    · rw [hloop] at hidle
      cases hidle
    · rw [hloop] at hstarted
      cases hstarted
    · exact .inr (.inr hfinished)
  | _ => exact h

lemma unfinished_exec (h : exec step (new addr) acts = .ok s) : s.Unfinished :=
  exec_invariant (P := fun _ _ => True) Unfinished (fun _ _ _ hs _ hok => hs.step (step_effect hok))
    (.inl rfl) (.of_forall fun _ _ => trivial) h

lemma WaitsWithin.inStop (h : s.WaitsWithin c) : s.InStop c := by
  refine ⟨h.kind, ?_, fun result => ?_⟩
  · rcases h.place with hplace | ⟨started, hplace⟩ | hplace <;> simp [hplace]
  · rcases h.place with hplace | ⟨started, hplace⟩ | hplace <;> simp [hplace]

/-- Steps of other calls leave the call. -/
lemma WaitsWithin.of_same (h : s.WaitsWithin c) (hcall : s'.calls c = s.calls c)
    (hfinished : s'.finished = s.finished) (hthread : s'.loopThread = s.loopThread)
    (hloop : s'.loop = s.loop) : s'.WaitsWithin c ∧ s'.loop = s.loop := by
  refine ⟨⟨?_, ?_, hfinished.trans h.finished, ?_, hloop ▸ h.inLoop⟩, hloop⟩
  · rw [hcall]
    exact h.kind
  · rw [hcall]
    exact h.place
  · rw [hthread, hcall]
    exact h.thread

lemma WaitsWithin.moveTo {place : CallPlace} (h : s.WaitsWithin c)
    (hplace : (∃ started, place = .running false started) ∨ place = .awaiting) :
    (s.moveTo c place).WaitsWithin c := by
  refine ⟨?_, ?_, h.finished, ?_, h.inLoop⟩
  · rw [calls_moveTo_self]
    exact h.kind
  · rw [calls_moveTo_self]
    exact .inr hplace
  · rw [calls_moveTo_self]
    exact h.thread

/-- The call finds itself in the loop thread, runs its operation, and waits. -/
lemma WaitsWithin.step (h : s.WaitsWithin c) (hseq : s.Sequential act) (heff : s.Effect act s') :
    s'.WaitsWithin c ∧ s'.loop = s.loop := by
  -- The thread in `loop` does not go on with `loop`.
  have hstay : s.actor act = s.loopThread → act.ofCall = some c :=
    fun heq => hseq c h.inStop (heq.trans h.thread)
  have hother : ∀ {c' : Nat} {place : CallPlace} {s₁ : EventBase}, c ≠ c' →
      s₁.calls c = s.calls c → s₁.finished = s.finished → s₁.loopThread = s.loopThread →
      s₁.loop = s.loop → (s₁.moveTo c' place).WaitsWithin c ∧ (s₁.moveTo c' place).loop = s.loop :=
    fun hne hcall hfinished hthread hloop =>
      h.of_same ((calls_moveTo_of_ne hne).trans hcall) hfinished hthread hloop
  cases heff with
  | @call c' thread kind hidle =>
    have hne : c ≠ c' := fun heq => h.inStop.2.1 (heq ▸ hidle)
    exact h.of_same (Function.update_of_ne hne ..) rfl rfl rfl
  | @entered c' hplace =>
    have hne : c ≠ c' := by
      rintro rfl
      simpa [hplace] using h.place
    exact hother hne rfl rfl rfl rfl
  | @scheduling c' hplace =>
    by_cases heq : c = c'
    · subst heq
      have hinline : s.isInline c = true := by
        simp [isInline, inLoopThread, h.thread, h.kind, CallKind.defer]
      rw [hinline, if_pos rfl, h.kind]
      exact ⟨h.moveTo (.inl ⟨false, rfl⟩), rfl⟩
    · exact hother heq rfl rfl rfl rfl
  | @startInline c' closure hplace =>
    by_cases heq : c = c'
    · subst heq
      obtain rfl : closure = false := by simpa [hplace] using h.place
      have hstarted : (s.startOp c).WaitsWithin c ∧ (s.startOp c).loop = s.loop :=
        h.of_same rfl rfl rfl rfl
      exact ⟨hstarted.1.moveTo (.inl ⟨true, rfl⟩), rfl⟩
    · exact hother heq rfl rfl rfl rfl
  | @finishInline c' closure hplace =>
    by_cases heq : c = c'
    · subst heq
      obtain rfl : closure = false := by simpa [hplace] using h.place
      have hfinished : (s.finishOp c false).WaitsWithin c ∧
          (s.finishOp c false).loop = s.loop := h.of_same rfl rfl rfl rfl
      rw [h.kind]
      exact ⟨hfinished.1.moveTo (.inr rfl), rfl⟩
    · refine hother heq ?_ rfl rfl rfl
      cases closure with
      | false => rfl
      | true => exact Function.update_of_ne heq ..
  | push | goOn => exact h.of_same rfl rfl rfl rfl
  | @pushed c' _ _ _ hplace =>
    have hne : c ≠ c' := by
      rintro rfl
      simpa [hplace] using h.place
    exact hother hne rfl rfl rfl rfl
  | @signal c' _ hplace =>
    have hne : c ≠ c' := by
      rintro rfl
      simpa [hplace] using h.place
    exact hother hne rfl rfl rfl rfl
  | @await c' hplace hdone =>
    have hne : c ≠ c' := by
      rintro rfl
      simp [h.kind, h.finished] at hdone
    exact hother hne rfl rfl rfl rfl
  | loop hidle => exact absurd hidle h.inLoop
  | _ => cases hstay rfl

/-- A call of `stop` by the thread that is in `loop`, from whatever it runs there, never returns,
and the loop never goes on, whatever other threads do. -/
theorem stop_never_returns {thread : Nat} {s₁ : EventBase} {acts' : List BaseAct}
    (h : exec step (new addr) acts = .ok s) (huser : s.loop.runsUser = true)
    (hthread : s.loopThread = some thread) (hcall : s.step (.call c thread .stop) = .ok s₁)
    (hseq : Along step Sequential s₁ acts') (hrun : exec step s₁ acts' = .ok s') :
    s'.loop = s.loop ∧ ∀ result, (s'.calls c).place ≠ .returned result := by
  have hfinished : s.finished = false := by
    rcases unfinished_exec h with hidle | ⟨mode, hstarted⟩ | hfinished
    · rw [hidle] at huser
      cases huser
    · rw [hstarted] at huser
      cases huser
    · exact hfinished
  have hcalled : s₁.calls c = ⟨thread, .stop, .scheduling, false⟩ ∧ s₁.finished = false ∧
      s₁.loopThread = some thread ∧ s₁.loop = s.loop := by
    cases step_effect hcall with
    | call => exact ⟨Function.update_self .., hfinished, hthread, rfl⟩
  obtain ⟨hplace, hfinished₁, hthread₁, hloop₁⟩ := hcalled
  have hwaits : s₁.WaitsWithin c := by
    refine ⟨by rw [hplace], .inl (by rw [hplace]), hfinished₁, by rw [hthread₁, hplace], ?_⟩
    intro hidle
    rw [← hloop₁, hidle] at huser
    cases huser
  have hend : s'.WaitsWithin c ∧ s'.loop = s.loop := by
    refine exec_invariant (fun s' => s'.WaitsWithin c ∧ s'.loop = s.loop) ?_ ⟨hwaits, hloop₁⟩ hseq
      hrun
    intro s₁ act s₂ hs₁ hseq hok
    obtain ⟨hwaits, hsame⟩ := hs₁.1.step hseq (step_effect hok)
    exact ⟨hwaits, hsame.trans hs₁.2⟩
  exact ⟨hend.2, hend.1.inStop.2.2⟩

lemma eq_of_inStop_call {thread : Nat} (hnone : ∀ c, ¬ s.InStop c)
    (hcall : s.step (.call c thread .stop) = .ok s') : ∀ c', s'.InStop c' → c' = c := by
  intro c' hin
  rcases inStop_step (step_effect hcall) hin with ⟨hin, -⟩ | ⟨thread', heq, -⟩
  · exact absurd hin (hnone c')
  · exact (BaseAct.call.inj heq).1.symm

/-- A handler calls `stop`, and another thread puts an operation into the queue meanwhile. -/
theorem stop_never_returns_in_handler : ∃ s s₁ s' : EventBase,
    exec step (new 0) [.loop 2 .forever, .goOnLoop, .goOnLoop, .goOnLoop] = .ok s ∧
    s.step (.call 0 2 .stop) = .ok s₁ ∧
    exec step s₁ [.check 0, .call 1 3 (.runOnEventLoop true), .runOp 0, .check 1, .runOp 0,
      .push 1 8, .goOn 1, .goOn 1, .goOn 1, .signal 1 true] = .ok s' ∧
    s'.loop = s.loop ∧ ∀ result, (s'.calls 0).place ≠ .returned result := by
  refine ⟨?_, ?_, ?_, ?hstart, ?hcall, ?hrun, stop_never_returns ?hstart ?huser ?hthread ?hcall
    (along_sequential (eq_of_inStop_call ?hnone ?hcall) ?hcalls ?hseq ?hrun) ?hrun⟩
  case hstart | hcall | hrun | huser | hthread => rfl
  case hnone => exact fun c hin => hin.2.1 rfl
  case hcalls => simp
  case hseq => decide

end EventBase

end WhatTheEvent
