import WhatTheEvent.EventLoop.Scheduling

/-!
# The order of the operations

The thread in `loop` runs the operations that were put into the queue one after another, in the
order of the exchanges that put them there. Operations that their callers run are not among them.
-/

namespace WhatTheEvent

open Exec

/-- What happens to an operation that is run once. -/
def OpEvent.whole (op : Nat) : List OpEvent := [started op, finished op]

/-- What is still to happen to the operation that the thread in `loop` is at. -/
def LoopPlace.rest : LoopPlace → List OpEvent
  | running _ op false => OpEvent.whole op
  | running _ op true => [.finished op]
  | _ => []

lemma MpscQueue.trace_grows {α : Type} {s s' : MpscQueue α} {a : QueueAct α}
    (h : s.step a = .ok s') : s.trace <+: s'.trace := by
  cases MpscQueue.step_effect h with
  | exchange | publish | findNothing | freeTail | take => exact List.prefix_append _ _
  | push | compare | compareAgain | loadTail | find | storeTail => exact List.prefix_rfl

namespace EventBase

variable {s s' : EventBase} {act : BaseAct} {addr : Nat} {acts acts' : List BaseAct} {c c' op : Nat}

/-- The operations that were put into the queue, in the order of the exchanges. -/
def queueOrder (s : EventBase) : List Nat := (MpscQueue.exchanged s.queue.trace).map Prod.snd

/-- What has happened to the operations that were put into the queue. -/
def queuedEvents (s : EventBase) : List OpEvent :=
  s.events.filter fun e => s.queueOrder.contains e.op

/-- The operations that were taken out of the queue are run one after another. -/
def InOrder (s : EventBase) : Prop :=
  s.queuedEvents ++ s.loop.rest = (MpscQueue.popped s.queue.trace).flatMap OpEvent.whole

/-! ### Steps -/

/-- What has happened and what is still to happen make up the same. -/
lemma InOrder.of_moved (h : s.InOrder)
    (hpopped : MpscQueue.popped s'.queue.trace = MpscQueue.popped s.queue.trace)
    (hmoved : s'.queuedEvents ++ s'.loop.rest = s.queuedEvents ++ s.loop.rest) : s'.InOrder := by
  unfold InOrder
  rw [hmoved, hpopped]
  exact h

lemma InOrder.of_same (h : s.InOrder) (hevents : s'.queuedEvents = s.queuedEvents)
    (hpopped : MpscQueue.popped s'.queue.trace = MpscQueue.popped s.queue.trace)
    (hrest : s'.loop.rest = s.loop.rest) : s'.InOrder :=
  h.of_moved hpopped (by rw [hevents, hrest])

/-- Something happens to an operation that was put into the queue. -/
lemma queuedEvents_of_mem {e : OpEvent} (hevents : s'.events = s.events ++ [e])
    (horder : s'.queueOrder = s.queueOrder) (hmem : e.op ∈ s.queueOrder) :
    s'.queuedEvents = s.queuedEvents ++ [e] := by
  rw [queuedEvents, hevents, horder, List.filter_append, List.filter_singleton,
    List.contains_iff_mem.mpr hmem]
  rfl

lemma queuedEvents_of_not_mem {e : OpEvent} (hevents : s'.events = s.events ++ [e])
    (horder : s'.queueOrder = s.queueOrder) (hmem : e.op ∉ s.queueOrder) :
    s'.queuedEvents = s.queuedEvents := by
  have hnot : s.queueOrder.contains e.op = false := by simpa using hmem
  rw [queuedEvents, hevents, horder, List.filter_append, List.filter_singleton, hnot]
  exact List.append_nil _

/-- An operation that its caller runs is not put into the queue. -/
lemma Lawful.not_mem_queueOrder {closure started : Bool} (h : s.Lawful)
    (hplace : (s.calls c).place = .running closure started) : c ∉ s.queueOrder := by
  have hagrees := h.agrees c
  rw [hplace] at hagrees
  have hpush : (s.view c).push.exchanges = 0 := by
    rw [show (s.view c).push = .idle from hagrees, Push.exchanges]
  exact List.count_eq_zero.mp ((h c).exchanged_eq_zero hpush).1

/-- An operation is put into the queue before anything has happened to it. -/
lemma queuedEvents_goOn {queue : MpscQueue Nat} (h : s.Lawful)
    (hplace : (s.calls c).place = .pushing) (hqueue : s.queue.step (.goOn c) = .ok queue) :
    queuedEvents { s with queue } = s.queuedEvents := by
  obtain ⟨-, -, ⟨cur, item, hpush, -, hexchanged⟩ | ⟨-, -, hexchanged⟩⟩ :=
    MpscQueue.goOn_cases hqueue
  · obtain rfl := (h c).item _ _ hpush
    obtain ⟨-, -, -, hevents⟩ := (h item).exchanged_eq_zero (by simp [view, hpush])
    have habout : s.about item = [] := by
      rw [show s.about item = (s.view item).events from rfl, hevents, view, hplace]
      rfl
    refine List.filter_congr fun e he => ?_
    have hne : e.op ≠ item := fun heq =>
      List.filter_eq_nil_iff.mp habout e he (decide_eq_true heq)
    simp [queueOrder, hexchanged, hne]
  · simp only [queuedEvents, queueOrder, hexchanged]

/-- The operation that the thread in `loop` is at was put into the queue. -/
lemma Lawful.mem_queueOrder {mode : LoopMode} {begun : Bool} (h : s.Lawful)
    (hloop : s.loop = .running mode op begun) : op ∈ s.queueOrder := by
  have hat : (s.view op).atOp ≠ none := by simp [view, hloop, LoopPlace.atOp]
  have hle := (h op).popped
  rw [(h op).atOp hat] at hle
  exact List.count_pos_iff.mp hle

/-- Every step keeps the order. -/
lemma InOrder.step (h : s.InOrder) (hlawful : s.Lawful) (heff : s.Effect act s') :
    s'.InOrder := by
  cases heff with
  | call | entered | scheduling | signal | await => exact h
  | startInline hplace =>
    exact h.of_same (queuedEvents_of_not_mem rfl rfl (hlawful.not_mem_queueOrder hplace)) rfl rfl
  | finishInline hplace =>
    exact h.of_same (queuedEvents_of_not_mem rfl rfl (hlawful.not_mem_queueOrder hplace)) rfl rfl
  | push _ hqueue =>
    cases MpscQueue.step_effect hqueue with
    | push => exact h
  | goOn hplace hqueue =>
    exact h.of_same (queuedEvents_goOn hlawful hplace hqueue) (MpscQueue.goOn_cases hqueue).1 rfl
  | pushed hplace hqueue =>
    exact h.of_same (queuedEvents_goOn hlawful hplace hqueue) (MpscQueue.goOn_cases hqueue).1 rfl
  | pop hloop hqueue hpop =>
    obtain ⟨-, hexchanged, ⟨hpopped, -⟩ | ⟨op, -, hidle, -⟩⟩ := pop_cases hqueue
    · refine h.of_same ?_ hpopped (by rw [hloop])
      simp only [queuedEvents, queueOrder, hexchanged]
    · exact absurd hidle hpop
  | @popped mode queue op hloop hqueue hpop hlast =>
    obtain ⟨-, hexchanged, ⟨-, hnot⟩ | ⟨op', hpopped, -, hlast'⟩⟩ := pop_cases hqueue
    · exact absurd hlast (hnot op hpop)
    · obtain rfl : op' = op := by
        rw [hlast] at hlast'
        exact (QueueEvent.popped.inj (Option.some.inj hlast')).symm
      have hevents : s.queuedEvents = (MpscQueue.popped s.queue.trace).flatMap OpEvent.whole := by
        have hrest : s.loop.rest = [] := by rw [hloop]; rfl
        rw [← List.append_nil s.queuedEvents, ← hrest]
        exact h
      have hsame : queuedEvents { s with queue, loop := .running mode op' false } =
          s.queuedEvents := by
        simp only [queuedEvents, queueOrder, hexchanged]
      unfold InOrder
      rw [hsame, hevents]
      simp only [hpopped, List.flatMap_append, LoopPlace.rest, List.flatMap_cons,
        List.flatMap_nil, List.append_nil]
  | empty hloop hqueue hpop hlast =>
    obtain ⟨-, hexchanged, ⟨hpopped, -⟩ | ⟨op, -, -, hlast'⟩⟩ := pop_cases hqueue
    · refine h.of_same ?_ hpopped (by rw [hloop]; rfl)
      simp only [queuedEvents, queueOrder, hexchanged]
    · exact absurd hlast' (hlast op)
  | @startOp mode op hloop =>
    have hevents : queuedEvents { s.startOp op with loop := .running mode op true } =
        s.queuedEvents ++ [.started op] :=
      queuedEvents_of_mem rfl rfl (hlawful.mem_queueOrder hloop)
    refine h.of_moved rfl ?_
    rw [hevents, List.append_assoc, hloop]
    rfl
  | @finishOp mode op hloop =>
    have hevents : queuedEvents
        { s.finishOp op (s.calls op).kind.isWait with loop := .popping mode } =
        s.queuedEvents ++ [.finished op] :=
      queuedEvents_of_mem rfl rfl (hlawful.mem_queueOrder hloop)
    refine h.of_moved rfl ?_
    rw [hevents, List.append_assoc, hloop]
    rfl
  | loop hloop | started hloop | again hloop | leave hloop | reset hloop | clear hloop
  | finish hloop | notified hloop | polled hloop => exact h.of_same rfl rfl (by rw [hloop]; rfl)

/-! ### Runs -/

lemma inOrder_exec (h : exec step (new addr) acts = .ok s) : s.InOrder := by
  induction acts using List.reverseRecOn generalizing s with
  | nil =>
    obtain rfl := Except.ok.inj h
    rfl
  | append_singleton acts act ih =>
    obtain ⟨s₁, h₁, hok⟩ := exec_concat_eq_ok.mp h
    exact (ih h₁).step (lawful_exec h₁) (step_effect hok)

lemma Lawful.nodup_queueOrder (h : s.Lawful) : s.queueOrder.Nodup := by
  refine List.nodup_iff_count_le_one.mpr fun c => ?_
  rw [show s.queueOrder.count c = (s.view c).exchanged from rfl, (h c).exchanged]
  exact exchanges_le _

/-- Whatever the interleaving, the thread in `loop` runs the operations that were put into the queue
one after another, each of them once and none before one that was put there earlier. -/
theorem runs_in_order (h : exec step (new addr) acts = .ok s) :
    s.queueOrder.Nodup ∧ ∃ ran, ran <+: s.queueOrder ∧
      s.queuedEvents ++ s.loop.rest = ran.flatMap OpEvent.whole :=
  ⟨(lawful_exec h).nodup_queueOrder, _, (sound_exec h).queueLaw.fifo, inOrder_exec h⟩

/-- Two threads put operations into the queue, and the second of these is being run. -/
theorem runs_in_order_two_threads : ∃ s, exec step (new 0)
    [.loop 1 .forever, .goOnLoop, .goOnLoop, .goOnLoop, .call 0 2 (.runOnEventLoop false), .check 0,
      .push 0 8, .goOn 0, .call 1 3 (.runOnEventLoop true), .check 1, .push 1 16, .goOn 1, .goOn 0,
      .goOn 1, .goOn 0, .signal 0 true, .goOn 1, .goOn 1, .notified 1, .goOnLoop, .goOnLoop,
      .goOnLoop, .goOnLoop, .goOnLoop, .goOnLoop, .goOnLoop, .goOnLoop, .goOnLoop, .goOnLoop,
      .goOnLoop, .goOnLoop, .goOnLoop] = .ok s ∧
    s.queueOrder.Nodup ∧ ∃ ran, ran <+: s.queueOrder ∧
      s.queuedEvents ++ s.loop.rest = ran.flatMap OpEvent.whole := by
  refine ⟨?_, ?hrun, runs_in_order ?hrun⟩
  case hrun => rfl

/-! ### Earlier and later -/

/-- Of two beginnings of a list, one that does not hold the last element of the other one is shorter
than that. -/
lemma prefix_of_not_mem {α : Type} {l l₁ l₂ : List α} {a : α} (h₁ : l₁ <+: l)
    (h₂ : l₂ ++ [a] <+: l) (ha : a ∉ l₁) : l₁ <+: l₂ := by
  rcases List.prefix_or_prefix_of_prefix h₁ h₂ with hfirst | hlast
  · rcases List.prefix_concat_iff.mp hfirst with rfl | hfirst
    · exact absurd List.mem_concat_self ha
    · exact hfirst
  · exact absurd (hlast.subset List.mem_concat_self) ha

/-- Of two beginnings of a list, one that holds the last element of the other one, which comes there
for the first time, is no shorter. -/
lemma concat_prefix_of_mem {α : Type} {l l₁ l₂ : List α} {a : α} (h₁ : l₁ <+: l)
    (h₂ : l₂ ++ [a] <+: l) (ha : a ∈ l₁) (hfirst : a ∉ l₂) : l₂ ++ [a] <+: l₁ := by
  rcases List.prefix_or_prefix_of_prefix h₁ h₂ with hshort | hlong
  · rcases List.prefix_concat_iff.mp hshort with rfl | hshort
    · exact List.prefix_rfl
    · exact absurd (hshort.subset ha) hfirst
  · exact hlong

lemma queueOrder_step (heff : s.Effect act s') : s.queueOrder <+: s'.queueOrder := by
  have htrace : s.queue.trace <+: s'.queue.trace := by
    rcases heff.queue with heq | ⟨a, hqueue⟩
    · exact heq ▸ List.prefix_rfl
    · exact MpscQueue.trace_grows hqueue
  exact (htrace.filterMap _).map _

lemma queueOrder_exec (h : exec step s acts = .ok s') : s.queueOrder <+: s'.queueOrder := by
  refine exec_invariant (P := fun _ _ => True) (fun s₁ => s.queueOrder <+: s₁.queueOrder) ?_
    List.prefix_rfl (Along.of_forall fun _ _ => trivial) h
  exact fun s₁ act s₂ hs₁ _ hok => hs₁.trans (queueOrder_step (step_effect hok))

lemma mem_flatMap_whole {e : OpEvent} {ran : List Nat} (h : e ∈ ran.flatMap OpEvent.whole) :
    e.op ∈ ran := by
  obtain ⟨op, hop, he⟩ := List.mem_flatMap.mp h
  simp only [OpEvent.whole, List.mem_cons, List.not_mem_nil, or_false] at he
  rcases he with rfl | rfl
  · exact hop
  · exact hop

/-- An operation that was put into the queue before another one was is finished before the other one
is started, also where different threads have put them there. -/
theorem finished_before_started {s₁ s₂ : EventBase} (h₁ : exec step (new addr) acts = .ok s₁)
    (h₂ : exec step s₁ acts' = .ok s₂) (hc : c ∈ s₁.queueOrder) (hlater : c' ∉ s₁.queueOrder)
    (hc' : c' ∈ s₂.queueOrder) (hstarted : .started c' ∈ s₂.events) :
    [.finished c, .started c'].Sublist s₂.events := by
  have hrun : exec step (new addr) (acts ++ acts') = .ok s₂ := (exec_append_ok h₁).trans h₂
  obtain ⟨hnodup, ran, hran, hevents⟩ := runs_in_order hrun
  have hmem : .started c' ∈ s₂.queuedEvents :=
    List.mem_filter.mpr ⟨hstarted, List.contains_iff_mem.mpr hc'⟩
  have hfirst : s₂.queuedEvents <+: ran.flatMap OpEvent.whole := ⟨_, hevents⟩
  -- what the loop has taken out before `c'` includes `c`
  obtain ⟨before, after, rfl⟩ := List.append_of_mem (mem_flatMap_whole (hfirst.subset hmem))
  have hbefore : before ++ [c'] <+: before ++ c' :: after := ⟨after, by simp⟩
  have hmem_before : c ∈ before :=
    (prefix_of_not_mem (queueOrder_exec h₂) (hbefore.trans hran) hlater).subset hc
  have hnot : .started c' ∉ before.flatMap OpEvent.whole := by
    intro hin
    have hdisjoint := List.nodup_append.mp (hnodup.sublist hran.sublist)
    exact hdisjoint.2.2 _ (mem_flatMap_whole hin) _ List.mem_cons_self rfl
  have hlast : before.flatMap OpEvent.whole ++ [.started c'] <+: s₂.queuedEvents := by
    refine concat_prefix_of_mem hfirst ⟨.finished c' :: after.flatMap OpEvent.whole, ?_⟩ hmem hnot
    simp [OpEvent.whole, OpEvent.op]
  have hfinished : .finished c ∈ before.flatMap OpEvent.whole :=
    List.mem_flatMap.mpr ⟨c, hmem_before, by simp [OpEvent.whole]⟩
  have hpair := (List.singleton_sublist.mpr hfinished).append_right [.started c']
  exact (hpair.trans hlast.sublist).trans List.filter_sublist

/-- The later call is in `push` while the earlier one has still to link its node. -/
theorem finished_before_started_two_threads : ∃ s₁ s₂, exec step (new 0)
    [.loop 1 .forever, .goOnLoop, .goOnLoop, .goOnLoop, .call 0 2 (.runOnEventLoop false), .check 0,
      .push 0 8, .goOn 0] = .ok s₁ ∧
    exec step s₁ [.call 1 3 (.runOnEventLoop true), .check 1, .push 1 16, .goOn 1, .goOn 0, .goOn 1,
      .goOn 0, .signal 0 true, .goOn 1, .goOn 1, .notified 1, .goOnLoop, .goOnLoop, .goOnLoop,
      .goOnLoop, .goOnLoop, .goOnLoop, .goOnLoop, .goOnLoop, .goOnLoop, .goOnLoop, .goOnLoop,
      .goOnLoop, .goOnLoop] = .ok s₂ ∧
    [.finished 0, .started 1].Sublist s₂.events := by
  refine ⟨?_, ?_, ?hrun, ?hrest, finished_before_started ?hrun ?hrest ?_ ?_ ?_ ?_⟩
  case hrun | hrest => rfl
  all_goals decide

end EventBase

end WhatTheEvent
