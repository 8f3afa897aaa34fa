import Mathlib.Data.List.Induction
import WhatTheEvent.EventLoop.BaseEffect

/-!
# Scheduled operations

What a call can rely on once it has returned: that its operation has run, or that it never will. The
history of one operation is a view of the base, and each step changes the views of few operations.
-/

namespace WhatTheEvent

open Exec

/-- The operation that the event is about. -/
def OpEvent.op : OpEvent → Nat
  | started op => op
  | finished op => op

namespace EventBase

/-- What has happened to the operation of the call. -/
def about (s : EventBase) (c : Nat) : List OpEvent := s.events.filter fun e => e.op = c

/-- The operation is in the queue, or was taken out and has not started. -/
def Pending (s : EventBase) (c : Nat) : Prop :=
  s.Queued c ∨ ∃ mode, s.loop = .running mode c false

/-- A call of `runOnEventLoopAndWait` that has returned true has had its operation run once, and one
of either method that has returned false leaves an operation that has not run and will not. -/
def Clean (s : EventBase) : Prop :=
  ∀ c, (s.calls c).kind ≠ .stop →
    ((s.calls c).kind.isWait ∧ (s.calls c).place = .returned true →
      s.about c = [.started c, .finished c]) ∧
    ((s.calls c).place = .returned false → .started c ∉ s.events ∧ ¬ s.Pending c)

end EventBase

/-! ### The history of one operation -/

/-- How often the call has put its node into the queue. -/
@[simp] def Push.exchanges {α : Type} : Push α → Nat
  | idle | allocated _ _ => 0
  | exchanged _ _ | checked _ _ _ | published _ _ | returned _ _ => 1

/-- The next step of `push` is the exchange, or comes after it. -/
lemma MpscQueue.goOn_cases {α : Type} {s s' : MpscQueue α} {thread : Nat}
    (h : s.step (.goOn thread) = .ok s') :
    popped s'.trace = popped s.trace ∧
      (∀ other, other ≠ thread → s'.pushes other = s.pushes other) ∧
      ((∃ cur item, s.pushes thread = .allocated cur item ∧
          s'.pushes thread = .exchanged cur s.head ∧
          exchanged s'.trace = exchanged s.trace ++ [(cur.node, item)]) ∨
        ((s.pushes thread).exchanges = 1 ∧ (s'.pushes thread).exchanges = 1 ∧
          exchanged s'.trace = exchanged s.trace)) := by
  cases step_effect h with
  | exchange hpush =>
    refine ⟨by simp [popped], fun other hne => Function.update_of_ne hne .., ?_⟩
    exact .inl ⟨_, _, hpush, Function.update_self .., by simp [exchanged]⟩
  | compare hpush =>
    refine ⟨rfl, fun other hne => Function.update_of_ne hne .., .inr ⟨?_, ?_, rfl⟩⟩
    · rw [hpush, Push.exchanges]
    · simp [Push.exchanges]
  | @publish thread cur prev emptyAtInit node hpush =>
    refine ⟨by simp [popped], fun other hne => Function.update_of_ne hne .., .inr ⟨?_, ?_, ?_⟩⟩
    · rw [hpush, Push.exchanges]
    · cases emptyAtInit <;> simp [Push.exchanges]
    · simp [exchanged]
  | compareAgain hpush =>
    refine ⟨rfl, fun other hne => Function.update_of_ne hne .., .inr ⟨?_, ?_, rfl⟩⟩
    · rw [hpush, Push.exchanges]
    · simp [Push.exchanges]

/-- What has happened to the operation of a call that has not put it into the queue. -/
def CallPlace.trail (c : Nat) : CallPlace → List OpEvent
  | running _ true => [.started c]
  | awaiting | returned _ => [.started c, .finished c]
  | _ => []

/-- Where a call stands and where it stands in `push`. -/
def CallPlace.Agrees (push : Push Nat) : CallPlace → Prop
  | idle | entered | scheduling | running _ _ => push = .idle
  | pushing => ∀ cur wasEmpty, push ≠ .returned cur wasEmpty
  | signalling | returned false => ∃ cur, push = .returned cur true
  | awaiting | returned true => push = .idle ∨ ∃ cur wasEmpty, push = .returned cur wasEmpty

/-- Whether the thread in `loop` is at the operation, and whether it has started. -/
def LoopPlace.atOp (c : Nat) : LoopPlace → Option Bool
  | running _ op begun => if op = c then some begun else none
  | _ => none

lemma LoopPlace.atOp_eq_some {loop : LoopPlace} {c : Nat} {begun : Bool}
    (h : loop.atOp c = some begun) : ∃ mode, loop = .running mode c begun := by
  unfold atOp at h
  split at h
  · split_ifs at h with heq
    obtain rfl := Option.some.inj h
    subst heq
    exact ⟨_, rfl⟩
  · cases h

/-- What concerns the operation of one call. -/
structure OpView where
  call : BaseCall
  push : Push Nat
  /-- How often the operation was put into the queue. -/
  exchanged : Nat
  /-- How often the operation was taken out. -/
  popped : Nat
  /-- Whether the thread in `loop` is at the operation, and whether it has started. -/
  atOp : Option Bool
  events : List OpEvent

namespace OpView

variable {v : OpView} {c : Nat} {place : CallPlace}

/-- What has happened to the operation, going by where it is. -/
def trail (v : OpView) (c : Nat) : List OpEvent :=
  if v.exchanged = 0 then v.call.place.trail c
  else if v.popped = 0 then []
  else match v.atOp with
    | some false => []
    | some true => [.started c]
    | none => [.started c, .finished c]

/-- The invariant of every operation. -/
structure Lawful (v : OpView) (c : Nat) : Prop where
  agrees : v.call.place.Agrees v.push
  item : ∀ cur item, v.push = .allocated cur item → item = c
  exchanged : v.exchanged = v.push.exchanges
  popped : v.popped ≤ v.exchanged
  atOp : v.atOp ≠ none → v.popped = 1
  events : v.events = v.trail c
  done : v.call.done → v.events = [.started c, .finished c]
  waited : v.exchanged = 1 → v.call.kind.isWait → v.call.place = .returned true → v.call.done

lemma Lawful.exchanged_eq_zero (h : v.Lawful c) (hpush : v.push.exchanges = 0) :
    v.exchanged = 0 ∧ v.popped = 0 ∧ v.atOp = none ∧ v.events = v.call.place.trail c := by
  have hexchanged : v.exchanged = 0 := h.exchanged.trans hpush
  have hpopped : v.popped = 0 := Nat.le_zero.mp (hexchanged ▸ h.popped)
  refine ⟨hexchanged, hpopped, ?_, ?_⟩
  · by_contra hat
    rw [h.atOp hat] at hpopped
    cases hpopped
  · rw [h.events, trail, if_pos hexchanged]

/-- The operation is not in the queue. -/
lemma lawful_of_unqueued (hpush : v.push = .idle ∨ ∃ cur, v.push = .allocated cur c)
    (hexchanged : v.exchanged = 0) (hpopped : v.popped = 0) (hat : v.atOp = none)
    (hagrees : v.call.place.Agrees v.push) (hevents : v.events = v.call.place.trail c)
    (hdone : v.call.done → v.events = [.started c, .finished c]) : v.Lawful c where
  agrees := hagrees
  item := by rcases hpush with hpush | ⟨cur, hpush⟩ <;> simp_all
  exchanged := by rcases hpush with hpush | ⟨cur, hpush⟩ <;> simp [hexchanged, hpush]
  popped := by rw [hpopped]; exact Nat.zero_le _
  atOp := fun hne => absurd hat hne
  events := by rw [hevents, trail, if_pos hexchanged]
  done := hdone
  waited := by simp [hexchanged]

/-- The call moves on after it has put the operation into the queue. -/
lemma Lawful.goOn {push : Push Nat} (h : v.Lawful c) (hpush : v.push.exchanges = 1)
    (hpush' : push.exchanges = 1) (hagrees : place.Agrees push)
    (hwaited : v.call.kind.isWait → place = .returned true → v.call.done) :
    Lawful { v with push, call := { v.call with place } } c where
  agrees := hagrees
  item := by
    rintro cur item rfl
    cases hpush'
  exchanged := (h.exchanged.trans hpush).trans hpush'.symm
  popped := h.popped
  atOp := h.atOp
  events := by
    have hne : v.exchanged ≠ 0 := by rw [h.exchanged, hpush]; exact Nat.one_ne_zero
    rw [h.events, trail, trail, if_neg hne, if_neg hne]
  done := h.done
  waited := fun _ => hwaited

/-- The operation is put into the queue. -/
lemma Lawful.exchange {cur : Ptr} {item : Nat} (h : v.Lawful c)
    (hpush : v.push = .allocated cur item) (hplace : v.call.place = .pushing) (prev : Ptr) :
    Lawful { v with push := .exchanged cur prev, exchanged := v.exchanged + 1 } c := by
  obtain ⟨hexchanged, hpopped, hat, hevents⟩ := h.exchanged_eq_zero (by rw [hpush, Push.exchanges])
  refine ⟨?_, nofun, ?_, ?_, fun hne => absurd hat hne, ?_, h.done, ?_⟩
  · simp [hplace, CallPlace.Agrees]
  · simp [hexchanged, Push.exchanges]
  · simp [hpopped]
  · simp [hevents, hplace, CallPlace.trail, trail, hpopped]
  · simp [hplace]

/-- The operation is taken out. -/
lemma Lawful.take (h : v.Lawful c) (hexchanged : v.exchanged ≤ 1)
    (hle : v.popped + 1 ≤ v.exchanged) :
    Lawful { v with popped := v.popped + 1, atOp := some false } c := by
  obtain ⟨hone, hpopped⟩ : v.exchanged = 1 ∧ v.popped = 0 := by omega
  have hevents : v.events = [] := by rw [h.events, trail, hone, hpopped]; rfl
  refine ⟨h.agrees, h.item, h.exchanged, hle, fun _ => ?_, ?_, h.done, h.waited⟩
  · rw [hpopped]
  · simp [hevents, trail, hone]

/-- The thread in `loop` starts the operation that it has taken out. -/
lemma Lawful.start (h : v.Lawful c) (hat : v.atOp = some false) :
    Lawful { v with atOp := some true, events := v.events ++ [.started c] } c := by
  have hpopped : v.popped = 1 := h.atOp (by simp [hat])
  have hexchanged : v.exchanged ≠ 0 := fun hzero => by simpa [hpopped, hzero] using h.popped
  have hevents : v.events = [] := by simp [h.events, trail, hexchanged, hpopped, hat]
  refine ⟨h.agrees, h.item, h.exchanged, h.popped, fun _ => hpopped, ?_, fun hdone => ?_, h.waited⟩
  · simp [hevents, trail, hexchanged, hpopped]
  · simpa [hevents] using h.done hdone

/-- The operation ends, with `done` set by the closure. -/
lemma Lawful.finish {done : Bool} (h : v.Lawful c) (hat : v.atOp = some true)
    (hdone : v.call.done → done) :
    Lawful { v with
      atOp := none
      events := v.events ++ [.finished c]
      call := { v.call with done } } c := by
  have hpopped : v.popped = 1 := h.atOp (by simp [hat])
  have hexchanged : v.exchanged ≠ 0 := fun hzero => by simpa [hpopped, hzero] using h.popped
  have hevents : v.events = [.started c] := by simp [h.events, trail, hexchanged, hpopped, hat]
  refine ⟨h.agrees, h.item, h.exchanged, h.popped, nofun, ?_, fun _ => ?_, ?_⟩
  · simp [hevents, trail, hexchanged, hpopped]
  · simp [hevents]
  · exact fun hone hwait hreturned => hdone (h.waited hone hwait hreturned)

end OpView

namespace EventBase

variable {s s' : EventBase} {act : BaseAct} {addr : Nat} {acts : List BaseAct} {c c' op : Nat}
  {place : CallPlace}

def view (s : EventBase) (c : Nat) : OpView where
  call := s.calls c
  push := s.queue.pushes c
  exchanged := ((MpscQueue.exchanged s.queue.trace).map Prod.snd).count c
  popped := (MpscQueue.popped s.queue.trace).count c
  atOp := s.loop.atOp c
  events := s.about c

/-- The invariant of every run. -/
def Lawful (s : EventBase) : Prop := ∀ c, (s.view c).Lawful c

lemma Lawful.agrees (h : s.Lawful) (c : Nat) : (s.calls c).place.Agrees (s.queue.pushes c) :=
  (h c).agrees

lemma Lawful.of_view (h : s.Lawful) (hview : ∀ c, s'.view c = s.view c) : s'.Lawful := by
  intro c
  rw [hview c]
  exact h c

/-- A step that concerns one operation. -/
lemma Lawful.of_own (h : s.Lawful) (hother : ∀ c', c' ≠ c → s'.view c' = s.view c')
    (hown : (s'.view c).Lawful c) : s'.Lawful := by
  intro c'
  by_cases heq : c' = c
  · rwa [heq]
  · rw [hother c' heq]
    exact h c'

lemma view_moveTo_of_ne (hne : c' ≠ c) : (s.moveTo c place).view c' = s.view c' := by
  simp [view, moveTo, about, hne]

lemma view_moveTo : (s.moveTo c place).view c =
    { s.view c with call := { (s.view c).call with place } } := by
  simp [view, moveTo, about]

/-! ### The steps -/

lemma lawful_new (addr : Nat) : (new addr).Lawful := fun _ =>
  OpView.lawful_of_unqueued (.inl rfl) rfl rfl rfl rfl rfl nofun

/-- A call that is not yet in `push` moves on. -/
lemma Lawful.moveTo (h : s.Lawful) (hpush : s.queue.pushes c = .idle) (hagrees : place.Agrees .idle)
    (htrail : place.trail c = (s.calls c).place.trail c) : (s.moveTo c place).Lawful := by
  refine h.of_own (fun c' hne => view_moveTo_of_ne hne) ?_
  obtain ⟨hexchanged, hpopped, hat, hevents⟩ := (h c).exchanged_eq_zero (by simp [view, hpush])
  have hagrees : place.Agrees (s.queue.pushes c) := by rwa [hpush]
  rw [view_moveTo]
  exact OpView.lawful_of_unqueued (.inl hpush) hexchanged hpopped hat hagrees
    (hevents.trans htrail.symm) (h c).done

lemma view_startOp_of_ne (hne : c' ≠ c) : (s.startOp c).view c' = s.view c' := by
  simp [view, startOp, about, OpEvent.op, hne.symm]

lemma view_startOp : (s.startOp c).view c =
    { s.view c with events := (s.view c).events ++ [.started c] } := by
  simp [view, startOp, about, OpEvent.op]

lemma view_finishOp_of_ne {closure : Bool} (hne : c' ≠ c) :
    (s.finishOp c closure).view c' = s.view c' := by
  cases closure <;> simp [view, finishOp, about, OpEvent.op, hne, hne.symm]

lemma view_finishOp {closure : Bool} : (s.finishOp c closure).view c =
    { s.view c with
      events := (s.view c).events ++ [.finished c]
      call := { (s.view c).call with done := closure || (s.view c).call.done } } := by
  cases closure <;> simp [view, finishOp, about, OpEvent.op]

/-- The caller starts the operation by itself. -/
lemma Lawful.startInline {closure : Bool} (h : s.Lawful)
    (hplace : (s.calls c).place = .running closure false) :
    ((s.startOp c).moveTo c (.running closure true)).Lawful := by
  refine h.of_own (fun c' hne => (view_moveTo_of_ne hne).trans (view_startOp_of_ne hne)) ?_
  have hpush : s.queue.pushes c = .idle := by
    have hagrees := h.agrees c
    rwa [hplace] at hagrees
  obtain ⟨hexchanged, hpopped, hat, hevents⟩ := (h c).exchanged_eq_zero (by simp [view, hpush])
  have hevents : (s.view c).events = [] := by rw [hevents, view, hplace]; rfl
  rw [view_moveTo, view_startOp]
  refine OpView.lawful_of_unqueued (.inl hpush) hexchanged hpopped hat hpush
    (by simp [hevents, CallPlace.trail]) fun hdone => ?_
  simpa [hevents] using (h c).done hdone

/-- The operation that the caller runs ends. -/
lemma Lawful.finishInline {closure : Bool} (h : s.Lawful)
    (hplace : (s.calls c).place = .running closure true)
    (hreturns : place = .returned true ∨ place = .awaiting) :
    ((s.finishOp c closure).moveTo c place).Lawful := by
  refine h.of_own (fun c' hne => (view_moveTo_of_ne hne).trans (view_finishOp_of_ne hne)) ?_
  have hpush : s.queue.pushes c = .idle := by
    have hagrees := h.agrees c
    rwa [hplace] at hagrees
  obtain ⟨hexchanged, hpopped, hat, hevents⟩ := (h c).exchanged_eq_zero (by simp [view, hpush])
  have hevents : (s.view c).events = [.started c] := by rw [hevents, view, hplace]; rfl
  have htrail : place.trail c = [.started c, .finished c] := by
    rcases hreturns with rfl | rfl <;> rfl
  rw [view_moveTo, view_finishOp]
  refine OpView.lawful_of_unqueued (.inl hpush) hexchanged hpopped hat ?_
    (by simp [hevents, htrail]) fun _ => by simp [hevents]
  rcases hreturns with rfl | rfl <;> exact .inl hpush

/-- A call moves on after its `push`. -/
lemma Lawful.moveOn (h : s.Lawful) (hpush : (s.queue.pushes c).exchanges = 1)
    (hagrees : place.Agrees (s.queue.pushes c))
    (hwaited : (s.calls c).kind.isWait → place = .returned true → (s.calls c).done) :
    (s.moveTo c place).Lawful := by
  refine h.of_own (fun c' hne => view_moveTo_of_ne hne) ?_
  rw [view_moveTo]
  exact (h c).goOn hpush hpush hagrees hwaited

lemma after_true_cases (kind : CallKind) :
    kind.after true = .returned true ∨ kind.after true = .awaiting := by
  cases kind <;> simp [CallKind.after]

lemma after_ne_returned (kind : CallKind) (written : Bool) :
    kind.after written ≠ .returned true ∨ kind.isWait = false := by
  cases kind <;> cases written <;> simp [CallKind.after, CallKind.isWait]

/-- Where a call goes on once its operation is in the queue. -/
lemma agrees_after {push : Push Nat} {cur : Ptr} {wasEmpty written : Bool} (kind : CallKind)
    (hpush : push = .returned cur wasEmpty) (hwritten : written = true ∨ wasEmpty = true) :
    (kind.after written).Agrees push := by
  subst hpush
  cases kind <;> cases written <;> simp_all [CallKind.after, CallPlace.Agrees]

/-- The queue as the operations of the calls see it. -/
lemma view_queue {queue : MpscQueue Nat} (hpushes : queue.pushes c = s.queue.pushes c)
    (hexchanged : ((MpscQueue.exchanged queue.trace).map Prod.snd).count c =
      ((MpscQueue.exchanged s.queue.trace).map Prod.snd).count c)
    (hpopped : (MpscQueue.popped queue.trace).count c =
      (MpscQueue.popped s.queue.trace).count c) : view { s with queue } c = s.view c := by
  simp [view, about, hpushes, hexchanged, hpopped]

/-- A `push` concerns the operation of its call only. -/
lemma view_goOn_of_ne {queue : MpscQueue Nat} (h : s.Lawful)
    (hqueue : s.queue.step (.goOn c) = .ok queue) (hne : c' ≠ c) :
    view { s with queue } c' = s.view c' := by
  obtain ⟨hpopped, hother, ⟨cur, item, hpush, -, hexchanged⟩ | ⟨-, -, hexchanged⟩⟩ :=
    MpscQueue.goOn_cases hqueue
  · obtain rfl := (h c).item _ _ hpush
    exact view_queue (hother c' hne) (by simp [hexchanged, hne.symm]) (by rw [hpopped])
  · exact view_queue (hother c' hne) (by rw [hexchanged]) (by rw [hpopped])

lemma Lawful.push {queue : MpscQueue Nat} (h : s.Lawful) (hplace : (s.calls c).place = .pushing)
    (hqueue : s.queue.step (.push c c addr) = .ok queue) : Lawful { s with queue } := by
  cases MpscQueue.step_effect hqueue with
  | push hfinished =>
    refine h.of_own (c := c) (fun c' hne => view_queue (Function.update_of_ne hne ..) rfl rfl) ?_
    have hpush : (s.queue.pushes c).exchanges = 0 := by
      have hagrees := h.agrees c
      rw [hplace] at hagrees
      cases hp : s.queue.pushes c with
      | idle => rfl
      | returned cur wasEmpty => exact absurd hp (hagrees cur wasEmpty)
      | _ => simp [hp, Push.isFinished] at hfinished
    obtain ⟨hexchanged, hpopped, hat, hevents⟩ := (h c).exchanged_eq_zero hpush
    refine OpView.lawful_of_unqueued (.inr ⟨_, Function.update_self ..⟩) hexchanged hpopped hat ?_
      hevents (h c).done
    simp [view, hplace, CallPlace.Agrees]

/-- What `push` has returned, or its last step before that. -/
lemma Lawful.goOn {queue : MpscQueue Nat} (h : s.Lawful) (hplace : (s.calls c).place = .pushing)
    (hqueue : s.queue.step (.goOn c) = .ok queue) (hagrees : place.Agrees (queue.pushes c))
    (hwaited : place ≠ .returned true ∨ (s.calls c).kind.isWait = false) :
    ({ s with queue }.moveTo c place).Lawful := by
  refine h.of_own (c := c)
    (fun c' hne => (view_moveTo_of_ne hne).trans (view_goOn_of_ne h hqueue hne)) ?_
  have hwaited : (s.calls c).kind.isWait → place = .returned true → (s.calls c).done :=
    fun hwait hreturned => by simp_all
  rw [view_moveTo]
  obtain ⟨hpopped, hother, ⟨cur, item, hpush, hpush', hexchanged⟩ | ⟨hone, hone', hexchanged⟩⟩ :=
    MpscQueue.goOn_cases hqueue
  · obtain rfl := (h c).item _ _ hpush
    rw [hpush'] at hagrees
    have hexchange := ((h item).exchange hpush hplace s.queue.head).goOn rfl rfl hagrees hwaited
    simpa [view, about, hpush', hexchanged, hpopped] using hexchange
  · have hgoOn := (h c).goOn hone hone' hagrees hwaited
    simpa [view, about, hexchanged, hpopped] using hgoOn

/-- A step of `pop` leaves the calls of `push` and what was exchanged. -/
lemma pop_cases {queue : MpscQueue Nat} (h : s.queue.step .pop = .ok queue) :
    queue.pushes = s.queue.pushes ∧
      MpscQueue.exchanged queue.trace = MpscQueue.exchanged s.queue.trace ∧
      (MpscQueue.popped queue.trace = MpscQueue.popped s.queue.trace ∧
          (∀ op, queue.pop = .idle → queue.trace.getLast? ≠ some (.popped op)) ∨
        ∃ op, MpscQueue.popped queue.trace = MpscQueue.popped s.queue.trace ++ [op] ∧
          queue.pop = .idle ∧ queue.trace.getLast? = some (.popped op)) := by
  cases MpscQueue.step_effect h with
  | loadTail => exact ⟨rfl, rfl, .inl ⟨rfl, fun _ heq => by cases heq⟩⟩
  | findNothing =>
    exact ⟨rfl, by simp [MpscQueue.exchanged], .inl ⟨by simp [MpscQueue.popped], by simp⟩⟩
  | find => exact ⟨rfl, rfl, .inl ⟨rfl, fun _ heq => by cases heq⟩⟩
  | storeTail => exact ⟨rfl, rfl, .inl ⟨rfl, fun _ heq => by cases heq⟩⟩
  | freeTail =>
    exact ⟨rfl, by simp [MpscQueue.exchanged],
      .inl ⟨by simp [MpscQueue.popped], fun _ heq => by cases heq⟩⟩
  | @take next node =>
    exact ⟨rfl, by simp [MpscQueue.exchanged],
      .inr ⟨node.data, by simp [MpscQueue.popped], rfl, by simp⟩⟩

lemma exchanges_le {α : Type} (push : Push α) : push.exchanges ≤ 1 := by
  cases push <;> simp

/-- The thread in `loop` takes an operation out. -/
lemma Lawful.popped {queue : MpscQueue Nat} {mode : LoopMode} (h : s.Lawful)
    (hloop : s.loop = .popping mode) (hqueue : s.queue.step .pop = .ok queue)
    (hlast : queue.trace.getLast? = some (.popped op)) (hidle : queue.pop = .idle)
    (hsound : queue.Sound) : Lawful { s with queue, loop := .running mode op false } := by
  obtain ⟨hpushes, hexchanged, ⟨-, hnot⟩ | ⟨op', hpopped, -, hlast'⟩⟩ := pop_cases hqueue
  · exact absurd hlast (hnot op hidle)
  · obtain rfl : op' = op := by
      rw [hlast] at hlast'
      exact (QueueEvent.popped.inj (Option.some.inj hlast')).symm
    refine h.of_own (c := op') (fun c' hne => ?_) ?_
    · simp [view, about, hpushes, hexchanged, hpopped, hloop, LoopPlace.atOp, hne.symm]
    · have hle : (s.view op').popped + 1 ≤ (s.view op').exchanged := by
        have hle := hsound.queueLaw.fifo.sublist.count_le op'
        simpa [view, hexchanged, hpopped] using hle
      have htake := (h op').take ((h op').exchanged ▸ exchanges_le _) hle
      simpa [view, about, hpushes, hexchanged, hpopped, LoopPlace.atOp] using htake

/-- The thread in `loop` starts and ends the operation. -/
lemma Lawful.startOp {mode : LoopMode} (h : s.Lawful) (hloop : s.loop = .running mode op false) :
    Lawful { s.startOp op with loop := .running mode op true } := by
  refine h.of_own (c := op) (fun c' hne => ?_) ?_
  · simp [view, EventBase.startOp, about, OpEvent.op, hloop, LoopPlace.atOp, hne.symm]
  · have hstart := (h op).start (by simp [view, hloop, LoopPlace.atOp])
    simpa [view, EventBase.startOp, about, OpEvent.op, LoopPlace.atOp] using hstart

lemma Lawful.finishOp {mode : LoopMode} {closure : Bool} (h : s.Lawful)
    (hloop : s.loop = .running mode op true) :
    Lawful { s.finishOp op closure with loop := .popping mode } := by
  refine h.of_own (c := op) (fun c' hne => ?_) ?_
  · cases closure <;>
      simp [view, EventBase.finishOp, about, OpEvent.op, hloop, LoopPlace.atOp, hne, hne.symm]
  · have hdone : (s.view op).call.done → (closure || (s.calls op).done) = true := by simp_all [view]
    have hfinish := (h op).finish (by simp [view, hloop, LoopPlace.atOp]) hdone
    cases closure <;>
      simpa [view, EventBase.finishOp, about, OpEvent.op, LoopPlace.atOp] using hfinish

/-- Every step keeps the invariant. -/
lemma lawful_step (h : s.Lawful) (heff : s.Effect act s') (hsound : s'.queue.Sound) :
    s'.Lawful := by
  cases heff with
  | @call c thread kind hplace =>
    refine h.of_own (c := c) (fun c' hne => by simp [view, about, hne]) ?_
    have hpush : s.queue.pushes c = .idle := by
      have hagrees := h.agrees c
      rwa [hplace] at hagrees
    obtain ⟨hexchanged, hpopped, hat, hevents⟩ := (h c).exchanged_eq_zero (by simp [view, hpush])
    have hevents : (s.view c).events = [] := by rw [hevents, view, hplace]; rfl
    refine OpView.lawful_of_unqueued (.inl hpush) hexchanged hpopped hat ?_ ?_ ?_
    · rcases first_cases kind with hfirst | hfirst <;>
        simpa [view, hfirst, CallPlace.Agrees] using hpush
    · rcases first_cases kind with hfirst | hfirst <;>
        simpa [view, about, hfirst, CallPlace.trail] using hevents
    · simp [view]
  | @entered c hplace =>
    have hagrees := h.agrees c
    rw [hplace] at hagrees
    refine h.moveTo hagrees ?_ ?_ <;> split_ifs <;> simp [CallPlace.Agrees, CallPlace.trail, hplace]
  | @scheduling c hplace =>
    have hagrees := h.agrees c
    rw [hplace] at hagrees
    refine h.moveTo hagrees ?_ ?_ <;> split_ifs <;> simp [CallPlace.Agrees, CallPlace.trail, hplace]
  | startInline hplace => exact h.startInline hplace
  | finishInline hplace =>
    refine h.finishInline hplace ?_
    split_ifs
    · exact .inl rfl
    · exact after_true_cases _
  | push hplace hqueue => exact h.push hplace hqueue
  | @goOn c queue hplace hqueue hpush =>
    have hgoOn : ({ s with queue }.moveTo c .pushing).Lawful :=
      h.goOn hplace hqueue hpush (.inl nofun)
    have hsame : { s with queue }.moveTo c .pushing = { s with queue } := moveTo_eq_self hplace
    rwa [hsame] at hgoOn
  | @pushed c queue cur wasEmpty hplace hqueue hpush =>
    refine h.goOn hplace hqueue ?_ ?_
    · cases wasEmpty with
      | false => exact agrees_after _ hpush (.inl rfl)
      | true => exact ⟨cur, hpush⟩
    · cases wasEmpty with
      | false => exact after_ne_returned _ true
      | true => exact .inl nofun
  | @signal c written hplace =>
    have hagrees := h.agrees c
    rw [hplace] at hagrees
    obtain ⟨cur, hpush⟩ := hagrees
    have hpiped : Lawful { s with pipe := if written then s.pipe + 1 else s.pipe } :=
      h.of_view fun _ => rfl
    refine hpiped.moveOn (by simp [hpush]) (agrees_after _ hpush (.inr rfl)) fun hwait heq => ?_
    rcases after_ne_returned (s.calls c).kind written with hne | hnot
    · exact absurd heq hne
    · simp [hnot] at hwait
  | @await c hplace hdone =>
    have hagrees := h.agrees c
    rw [hplace] at hagrees
    rcases hagrees with hpush | ⟨cur, wasEmpty, hpush⟩
    · exact h.moveTo hpush (.inl rfl) (by simp [CallPlace.trail, hplace])
    · refine h.moveOn (by simp [hpush]) (.inr ⟨cur, wasEmpty, hpush⟩) fun hwait _ => ?_
      have hne : (s.calls c).kind ≠ .stop := fun heq => by simp [heq, CallKind.isWait] at hwait
      rwa [if_neg hne] at hdone
  | pop hloop hqueue hpop =>
    obtain ⟨hpushes, hexchanged, ⟨hpopped, -⟩ | ⟨op, -, hidle, -⟩⟩ := pop_cases hqueue
    · exact h.of_view fun c => by
        simp [view, about, hpushes, hexchanged, hpopped, hloop, LoopPlace.atOp]
    · exact absurd hidle hpop
  | popped hloop hqueue hpop hlast => exact h.popped hloop hqueue hlast hpop hsound
  | empty hloop hqueue hpop hlast =>
    obtain ⟨hpushes, hexchanged, ⟨hpopped, -⟩ | ⟨op, -, -, hlast'⟩⟩ := pop_cases hqueue
    · exact h.of_view fun c => by
        simp [view, about, hpushes, hexchanged, hpopped, hloop, LoopPlace.atOp]
    · exact absurd hlast' (hlast op)
  | startOp hloop => exact h.startOp hloop
  | finishOp hloop => exact h.finishOp hloop
  -- the thread in `loop` is at no operation
  | loop hloop | started hloop | again hloop | leave hloop | reset hloop | clear hloop
  | finish hloop | notified hloop | polled hloop =>
    exact h.of_view fun c => by simp [view, about, hloop, LoopPlace.atOp]

/-! ### Runs -/

lemma lawful_exec (h : exec step (new addr) acts = .ok s) : s.Lawful := by
  have hrun : s.queue.Sound ∧ s.Lawful := by
    refine exec_invariant (P := fun _ _ => True) (fun s => s.queue.Sound ∧ s.Lawful) ?_
      ⟨MpscQueue.sound_new addr, lawful_new addr⟩ (Along.of_forall fun _ _ => trivial) h
    rintro s act s' ⟨hsound, hlawful⟩ - hok
    have hsound' := (step_effect hok).sound hsound
    exact ⟨hsound', lawful_step hlawful (step_effect hok) hsound'⟩
  exact hrun.2

/-- The call has been told that its write failed, and its operation is in the queue. -/
def Told (s : EventBase) (c : Nat) : Prop :=
  (s.calls c).place = .returned false ∨
    (s.calls c).kind = .stop ∧ ((s.calls c).place = .awaiting ∨ (s.calls c).place = .returned true)

lemma told_moves {kind : CallKind} (h : s.Told c) (hmoves : s.Moves c act place kind) :
    place = .returned false ∨
      kind = .stop ∧ (place = .awaiting ∨ place = .returned true) := by
  unfold Told at h
  cases hmoves with
  | await hplace =>
    rw [hplace] at h
    exact .inr ⟨(h.resolve_left nofun).1, .inr rfl⟩
  | call _ _ hplace => simp [hplace] at h
  | entered hplace => simp [hplace] at h
  | scheduling hplace => simp [hplace] at h
  | startInline _ hplace => simp [hplace] at h
  | finishInline _ hplace => simp [hplace] at h
  | pushed _ hplace => simp [hplace] at h
  | signal _ hplace => simp [hplace] at h

lemma told_step (h : s.Told c) (heff : s.Effect act s') : s'.Told c := by
  rcases heff.moves c with ⟨hplace, hkind⟩ | hmoves
  · unfold Told
    rwa [hplace, hkind]
  · exact told_moves h hmoves

lemma told_signal (heff : s.Effect (.signal c false) s') : s'.Told c := by
  cases heff with
  | signal hplace =>
    unfold Told
    cases hkind : (s.calls c).kind <;> simp [CallKind.after, hkind]

/-- Only a failed write makes a call return false. -/
lemma act_of_returned_false {kind : CallKind} (hmoves : s.Moves c act place kind)
    (h : place = .returned false) : act = .signal c false := by
  have hafter : ∀ kind : CallKind, kind.after true ≠ .returned false := fun kind heq => by
    rcases after_true_cases kind with htrue | htrue <;> rw [htrue] at heq <;> cases heq
  cases hmoves with
  | call thread kind =>
    rcases first_cases kind with hfirst | hfirst <;> rw [hfirst] at h <;> cases h
  | entered => split_ifs at h
  | scheduling => split_ifs at h
  | startInline => cases h
  | finishInline =>
    split_ifs at h
    · cases h
    · exact absurd h (hafter _)
  | pushed =>
    split_ifs at h
    exact absurd h (hafter _)
  | signal written =>
    cases written with
    | false => rfl
    | true => exact absurd h (hafter _)
  | await => cases h

lemma returned_false_step (heff : s.Effect act s') (h : (s'.calls c).place = .returned false) :
    (s.calls c).place = .returned false ∨ act = .signal c false := by
  rcases heff.moves c with ⟨hplace, -⟩ | hmoves
  · exact .inl (hplace.symm.trans h)
  · exact .inr (act_of_returned_false hmoves h)

lemma signal_mem (h : exec step (new addr) acts = .ok s) :
    (.signal c false ∈ acts → s.Told c) ∧
      ((s.calls c).place = .returned false → .signal c false ∈ acts) := by
  induction acts using List.reverseRecOn generalizing s with
  | nil =>
    obtain rfl := Except.ok.inj h
    exact ⟨nofun, nofun⟩
  | append_singleton acts act ih =>
    obtain ⟨s₁, h₁, hok⟩ := exec_concat_eq_ok.mp h
    have heff := step_effect hok
    constructor
    · intro hmem
      rcases List.mem_append.mp hmem with hmem | hmem
      · exact told_step ((ih h₁).1 hmem) heff
      · obtain rfl := List.mem_singleton.mp hmem
        exact told_signal heff
    · intro hreturned
      rcases returned_false_step heff hreturned with hbefore | rfl
      · exact List.mem_append_left _ ((ih h₁).2 hbefore)
      · simp

/-- A call that has waited for its operation has had it run. -/
lemma Lawful.about_of_returned (h : s.Lawful) (hwait : (s.calls c).kind.isWait)
    (hplace : (s.calls c).place = .returned true) : s.about c = [.started c, .finished c] := by
  by_cases hpush : (s.queue.pushes c).exchanges = 0
  · obtain ⟨-, -, -, hevents⟩ := (h c).exchanged_eq_zero hpush
    rw [view, hplace] at hevents
    exact hevents
  · have hone : (s.view c).exchanged = 1 :=
      (h c).exchanged.trans (Nat.le_antisymm (exchanges_le _) (Nat.one_le_iff_ne_zero.mpr hpush))
    exact (h c).done ((h c).waited hone hwait hplace)

/-- A call that has returned false has its operation in the queue, or it was started. -/
lemma Lawful.pending_of_returned_false (h : s.Lawful)
    (hplace : (s.calls c).place = .returned false) :
    .started c ∈ s.events ∨ s.Pending c := by
  have hagrees := h.agrees c
  rw [hplace] at hagrees
  obtain ⟨cur, hpush⟩ := hagrees
  have hone : (s.view c).exchanged = 1 := by rw [(h c).exchanged, view, hpush, Push.exchanges]
  have hevents := (h c).events
  rw [OpView.trail, hone, if_neg Nat.one_ne_zero] at hevents
  by_cases hpopped : (s.view c).popped = 0
  · right
    left
    show (s.view c).popped < (s.view c).exchanged
    rw [hpopped, hone]
    exact Nat.one_pos
  · rw [if_neg hpopped] at hevents
    have hmem : ∀ e ∈ (s.view c).events, e ∈ s.events := fun e he => (List.mem_filter.mp he).1
    cases hat : (s.view c).atOp with
    | none =>
      rw [hat] at hevents
      exact .inl (hmem _ (by simp [hevents]))
    | some begun =>
      rw [hat] at hevents
      cases begun with
      | true => exact .inl (hmem _ (by simp [hevents]))
      | false => exact .inr (.inr (LoopPlace.atOp_eq_some hat))

/-- Whatever the interleaving, the calls of `runOnEventLoop` and of `runOnEventLoopAndWait` are told
the truth exactly if none of their writes in `signalNotifyQueue` fails. -/
theorem clean_iff (addr : Nat) (acts : List BaseAct) {s : EventBase}
    (h : exec step (new addr) acts = .ok s) :
    s.Clean ↔ ∀ c, .signal c false ∈ acts → (s.calls c).kind = .stop := by
  have hlawful := lawful_exec h
  constructor
  · intro hclean c hmem
    by_contra hne
    rcases (signal_mem h).1 hmem with hplace | ⟨hstop, -⟩
    · obtain ⟨hnot, hpending⟩ := (hclean c hne).2 hplace
      exact (hlawful.pending_of_returned_false hplace).elim hnot hpending
    · exact hne hstop
  · intro hwritten c hne
    refine ⟨fun ⟨hwait, hplace⟩ => hlawful.about_of_returned hwait hplace, fun hplace => ?_⟩
    exact absurd (hwritten c ((signal_mem h).2 hplace)) hne

/-- A call waits for an operation that the thread in `loop` runs. -/
theorem clean_waiting : ∃ s, exec step (new 0)
    [.loop 1 .forever, .goOnLoop, .goOnLoop, .goOnLoop, .call 0 2 (.runOnEventLoopAndWait false),
      .check 0, .check 0, .push 0 8, .goOn 0, .goOn 0, .goOn 0, .signal 0 true, .notified 1,
      .goOnLoop, .goOnLoop, .goOnLoop, .goOnLoop, .goOnLoop, .goOnLoop, .goOnLoop, .await 0] =
      .ok s ∧ (s.calls 0).place = .returned true ∧ s.Clean :=
  ⟨_, rfl, rfl, (clean_iff 0 [.loop 1 .forever, .goOnLoop, .goOnLoop, .goOnLoop,
    .call 0 2 (.runOnEventLoopAndWait false), .check 0, .check 0, .push 0 8, .goOn 0, .goOn 0,
    .goOn 0, .signal 0 true, .notified 1, .goOnLoop, .goOnLoop, .goOnLoop, .goOnLoop, .goOnLoop,
    .goOnLoop, .goOnLoop, .await 0] rfl).mpr (by simp)⟩

/-- A write fails after the `push`: the call returns false, and the operation is in the queue. -/
theorem not_clean : ∃ acts s, exec step (new 0) acts = .ok s ∧ ¬ s.Clean := by
  refine ⟨[.loop 1 .forever, .goOnLoop, .goOnLoop, .goOnLoop,
    .call 0 2 (.runOnEventLoopAndWait false), .check 0, .check 0, .push 0 8, .goOn 0, .goOn 0,
    .goOn 0, .signal 0 false], _, rfl, fun hclean => ?_⟩
  exact ((hclean 0 (by decide)).2 rfl).2 (.inl Nat.one_pos)

end EventBase

end WhatTheEvent
