import WhatTheEvent.EventLoop.BaseEffect

/-!
# Operations and the loop

A call that finds no thread in `loop` runs its operation by itself. It does so beside the loop in
exactly those runs in which a thread gets into `loop` between the test and the end of the operation,
and is still there when the operation is executing.
-/

namespace WhatTheEvent

open Exec

namespace EventBase

variable {s s' : EventBase} {act : BaseAct} {addr : Nat} {acts : List BaseAct} {c : Nat}

/-- The caller is executing the operation of the call. -/
def Executing (s : EventBase) (c : Nat) : Prop :=
  ∃ closure, (s.calls c).place = .running closure true

/-- While a thread is inside `loop` no other one is executing an operation. -/
def Serial (s : EventBase) : Prop :=
  ∀ c, s.Executing c → ∀ thread, s.loopThread = some thread → (s.calls c).thread = thread

/-- A thread gets into `loop` while another one is executing an operation, or the operation starts
of a call that would find another thread in `loop` if it were to test again. -/
def Intrudes (s : EventBase) : BaseAct → Prop
  | .loop thread _ => ∃ c, s.Executing c ∧ (s.calls c).thread ≠ thread
  | .runOp c => (∃ closure, (s.calls c).place = .running closure false) ∧
      s.inLoopThread (s.calls c).thread = false
  | _ => False

lemma inLoopThread_iff {thread : Nat} :
    s.inLoopThread thread = true ↔ ∀ cur, s.loopThread = some cur → thread = cur := by
  unfold inLoopThread
  cases s.loopThread with
  | none => simp
  | some cur =>
    simp only [beq_iff_eq, Option.some.injEq, forall_eq']
    exact eq_comm

lemma after_ne_running {kind : CallKind} {result closure : Bool} :
    kind.after result ≠ .running closure true := by
  cases kind <;> cases result <;> nofun

/-- A call that goes on to a place at which no operation is executing. -/
lemma executing_moveTo {s₁ : EventBase} {c' : Nat} {place : CallPlace}
    (hplace : ∀ closure, place ≠ .running closure true) (h : (s₁.moveTo c' place).Executing c) :
    s₁.Executing c ∧ ((s₁.moveTo c' place).calls c).thread = (s₁.calls c).thread := by
  obtain ⟨closure, hc⟩ := h
  by_cases heq : c = c'
  · subst heq
    rw [calls_moveTo_self] at hc
    exact absurd hc (hplace closure)
  · rw [calls_moveTo_of_ne heq] at hc ⊢
    exact ⟨⟨closure, hc⟩, rfl⟩

/-- The end of an operation changes neither the places nor the threads of the calls. -/
lemma executing_finishOp {c' : Nat} {closure : Bool} (h : (s.finishOp c' closure).Executing c) :
    s.Executing c ∧ ((s.finishOp c' closure).calls c).thread = (s.calls c).thread := by
  obtain ⟨closure', hc⟩ := h
  rw [place_finishOp] at hc
  refine ⟨⟨closure', hc⟩, ?_⟩
  cases closure with
  | false => rfl
  | true =>
    by_cases heq : c = c'
    · subst heq
      simp [finishOp]
    · simp [finishOp, heq]

/-- What is executing was executing before, and no thread has got into `loop`. -/
lemma Serial.of_executing (h : s.Serial)
    (hcalls : ∀ c, s'.Executing c → s.Executing c ∧ (s'.calls c).thread = (s.calls c).thread)
    (hthread : ∀ thread, s'.loopThread = some thread → s.loopThread = some thread) :
    s'.Serial := by
  intro c hc thread hloop
  obtain ⟨hbefore, hsame⟩ := hcalls c hc
  rw [hsame]
  exact h c hbefore thread (hthread thread hloop)

/-- A step keeps the operations apart from the loop if and only if it does not intrude. -/
lemma serial_step_iff (h : s.Serial) (heff : s.Effect act s') :
    s'.Serial ↔ ¬ s.Intrudes act := by
  have hmoved : ∀ {s₁ : EventBase} {c : Nat} {place : CallPlace}, s₁.calls = s.calls →
      s₁.loopThread = s.loopThread → (∀ closure, place ≠ .running closure true) →
      (s₁.moveTo c place).Serial := by
    intro s₁ c place hcalls hloop hplace
    refine h.of_executing (fun c' hc' => ?_) fun thread hthread => hloop ▸ hthread
    have hc := executing_moveTo hplace hc'
    unfold Executing at hc ⊢
    rwa [hcalls] at hc
  cases heff with
  | @call c thread kind hplace =>
    refine iff_of_true (h.of_executing (fun c' hc' => ?_) fun _ => id) id
    obtain ⟨closure, hc⟩ := hc'
    by_cases heq : c' = c
    · subst heq
      rcases first_cases kind with hfirst | hfirst <;> simp [hfirst] at hc
    · simp only [Function.update_of_ne heq] at hc ⊢
      exact ⟨⟨closure, hc⟩, trivial⟩
  | entered => exact iff_of_true (hmoved rfl rfl fun _ => by split_ifs <;> simp) id
  | scheduling => exact iff_of_true (hmoved rfl rfl fun _ => by split_ifs <;> simp) id
  | @startInline c closure hplace =>
    -- the operation starts where a test would now find the caller in the loop thread, or none
    have hself : Executing ((s.startOp c).moveTo c (.running closure true)) c :=
      ⟨closure, by rw [calls_moveTo_self]⟩
    have hthread : (((s.startOp c).moveTo c (.running closure true)).calls c).thread =
        (s.calls c).thread := by
      rw [calls_moveTo_self]
      rfl
    constructor
    · rintro hserial ⟨-, hnot⟩
      refine Bool.eq_false_iff.mp hnot (inLoopThread_iff.mpr fun cur hcur => ?_)
      rw [← hthread]
      exact hserial c hself cur hcur
    · intro hnot c' hc' thread hloop
      by_cases heq : c' = c
      · subst heq
        rw [hthread]
        refine inLoopThread_iff.mp (eq_true_of_ne_false fun hfalse => ?_) thread hloop
        exact hnot ⟨⟨closure, hplace⟩, hfalse⟩
      · unfold Executing at hc'
        rw [calls_moveTo_of_ne heq] at hc' ⊢
        exact h c' hc' thread hloop
  | finishInline hplace =>
    have hplace' : ∀ {c : Nat} {closure closure' : Bool},
        (if (s.calls c).kind.isWait && !closure then CallPlace.returned true
          else (s.calls c).kind.after true) ≠ .running closure' true := by
      intro c closure closure'
      split_ifs
      · nofun
      · exact after_ne_running
    refine iff_of_true (h.of_executing (fun c' hc' => ?_) fun _ => id) fun hf => ?_
    · obtain ⟨hc, hsame⟩ := executing_moveTo (fun _ => hplace') hc'
      obtain ⟨hc, hsame'⟩ := executing_finishOp hc
      exact ⟨hc, hsame.trans hsame'⟩
    · obtain ⟨⟨closure, hc⟩, -⟩ := hf
      rw [hplace] at hc
      cases hc
  | pushed =>
    refine iff_of_true (hmoved rfl rfl ?_) id
    split_ifs
    · nofun
    · exact fun _ => after_ne_running
  | signal => exact iff_of_true (hmoved rfl rfl fun _ => after_ne_running) id
  | await => exact iff_of_true (hmoved rfl rfl nofun) id
  | @loop thread =>
    constructor
    · rintro hserial ⟨c, hc, hne⟩
      exact hne (hserial c hc thread rfl)
    · intro hnot c hc thread' hloop
      obtain rfl := Option.some.inj hloop
      by_contra hne
      exact hnot ⟨c, hc, hne⟩
  | finishOp =>
    exact iff_of_true (h.of_executing (fun _ hc => executing_finishOp hc) fun _ => id) id
  | clear => exact iff_of_true (fun _ _ _ => nofun) id
  | _ => exact iff_of_true (h.of_executing (fun _ hc => ⟨hc, rfl⟩) fun _ => id) id

/-- In a run no operation is ever executing while another thread is inside `loop` if and only if no
thread gets into `loop` while another one executes an operation, and no operation starts whose
caller would by then find another thread in `loop`. -/
theorem serial_iff (addr : Nat) (acts : List BaseAct) (h : exec step (new addr) acts = .ok s) :
    Along step (After step Serial) (new addr) acts ↔
      Along step (fun s act => ¬ s.Intrudes act) (new addr) acts := by
  refine along_congr Serial (fun s act s' hserial _ hok => ?_) (fun c hc => ?_)
    (Along.of_forall (P := fun _ _ => True) fun _ _ => trivial) h
  · have hiff := serial_step_iff hserial (step_effect hok)
    exact ⟨(after_iff hok).trans hiff, hiff.mpr⟩
  · obtain ⟨closure, hplace⟩ := hc
    cases hplace

/-- An operation that its caller runs before a thread gets into `loop`, and one that the loop
runs. -/
theorem serial_before_loop : ∃ s, exec step (new 0)
    [.call 0 1 (.runOnEventLoop false), .check 0, .runOp 0, .runOp 0, .loop 2 .once,
      .call 1 1 (.runOnEventLoop false), .check 1, .push 1 8, .goOn 1, .goOn 1, .goOn 1,
      .goOnLoop, .goOnLoop, .goOnLoop, .goOnLoop, .goOnLoop, .goOnLoop, .goOnLoop] = .ok s ∧
    s.loop = .running .once 1 true ∧
    (Along step (After step Serial) (new 0)
      [.call 0 1 (.runOnEventLoop false), .check 0, .runOp 0, .runOp 0, .loop 2 .once,
        .call 1 1 (.runOnEventLoop false), .check 1, .push 1 8, .goOn 1, .goOn 1, .goOn 1,
        .goOnLoop, .goOnLoop, .goOnLoop, .goOnLoop, .goOnLoop, .goOnLoop, .goOnLoop] ↔
      Along step (fun s act => ¬ s.Intrudes act) (new 0)
      [.call 0 1 (.runOnEventLoop false), .check 0, .runOp 0, .runOp 0, .loop 2 .once,
        .call 1 1 (.runOnEventLoop false), .check 1, .push 1 8, .goOn 1, .goOn 1, .goOn 1,
        .goOnLoop, .goOnLoop, .goOnLoop, .goOnLoop, .goOnLoop, .goOnLoop, .goOnLoop]) :=
  ⟨_, rfl, rfl, serial_iff 0 _ rfl⟩

/-- A thread gets into `loop` between the test and the operation of another one. -/
theorem not_serial : ¬ ∀ (acts : List BaseAct) (s : EventBase),
    exec step (new 0) acts = .ok s → s.Serial := by
  intro h
  have hserial := h [.call 0 1 (.runOnEventLoop false), .check 0, .loop 2 .forever, .runOp 0] _ rfl
  exact absurd (hserial 0 ⟨false, rfl⟩ 2 rfl) (by decide)

end EventBase

end WhatTheEvent
