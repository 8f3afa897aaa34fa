import WhatTheEvent.EventLoop.EventBase
import WhatTheEvent.EventLoop.QueueLaw

/-!
# What a step of the event base can do

Inversion lemmas: each step of the queue and of the event base, with the state that it leads to.
-/

namespace WhatTheEvent

open Exec

variable {α : Type}

/-! ### The queue -/

namespace MpscQueue

variable {s s' : MpscQueue α} {a : QueueAct α}

/-- A step of the queue, by what it does. -/
inductive Effect (s : MpscQueue α) : QueueAct α → MpscQueue α → Prop
  | push {thread : Nat} {item : α} {addr : Nat} (hfinished : (s.pushes thread).isFinished) :
    Effect s (.push thread item addr) { s with
      memory := s.memory.alloc ⟨addr, item, none⟩
      pushes := Function.update s.pushes thread (.allocated ⟨addr, s.memory.fresh⟩ item) }
  | exchange {thread : Nat} {cur : Ptr} {item : α} (hpush : s.pushes thread = .allocated cur item) :
    Effect s (.goOn thread) { s with
      head := cur
      pushes := Function.update s.pushes thread (.exchanged cur s.head)
      trace := s.trace ++ [.exchange cur.node item] }
  | compare {thread : Nat} {cur prev : Ptr} (hpush : s.pushes thread = .exchanged cur prev) :
    Effect s (.goOn thread) { s with
      pushes := Function.update s.pushes thread (.checked cur prev (prev.addr = s.tail.addr)) }
  | publish {thread : Nat} {cur prev : Ptr} {emptyAtInit : Bool} {node : Node α}
    (hpush : s.pushes thread = .checked cur prev emptyAtInit)
    (hnode : deref s.memory prev = .ok node) :
    Effect s (.goOn thread) { s with
      memory := s.memory.store prev.node { node with next := some cur }
      pushes := Function.update s.pushes thread
        (if emptyAtInit then .returned cur true else .published cur prev)
      trace := s.trace ++ [.publish cur.node] }
  | compareAgain {thread : Nat} {cur prev : Ptr} (hpush : s.pushes thread = .published cur prev) :
    Effect s (.goOn thread) { s with
      pushes := Function.update s.pushes thread (.returned cur (s.tail.addr = prev.addr)) }
  | loadTail (hpop : s.pop = .idle) : Effect s .pop { s with pop := .loadedTail s.tail }
  | findNothing {tail : Ptr} {node : Node α} (hpop : s.pop = .loadedTail tail)
    (hnode : deref s.memory tail = .ok node) (hnext : node.next = none) :
    Effect s .pop { s with pop := .idle, trace := s.trace ++ [.empty] }
  | find {tail next : Ptr} (hpop : s.pop = .loadedTail tail) :
    Effect s .pop { s with pop := .loadedNext tail next }
  | storeTail {tail next : Ptr} (hpop : s.pop = .loadedNext tail next) :
    Effect s .pop { s with tail := next, pop := .storedTail tail next }
  | freeTail {tail next : Ptr} (hpop : s.pop = .storedTail tail next) :
    Effect s .pop { s with
      memory := s.memory.free tail.node
      pop := .freed next
      trace := s.trace ++ [.free tail.node] }
  | take {next : Ptr} {node : Node α} (hpop : s.pop = .freed next) :
    Effect s .pop { s with pop := .idle, trace := s.trace ++ [.popped node.data] }

lemma popStep_effect (h : s.popStep = .ok s') : s.Effect .pop s' := by
  unfold popStep at h
  cases hpop : s.pop with
  | idle =>
    rw [hpop] at h
    obtain rfl := Except.ok.inj h
    exact .loadTail hpop
  | loadedTail tail =>
    rw [hpop] at h
    obtain ⟨node, hnode, h⟩ := bind_eq_ok.mp h
    cases hnext : node.next with
    | none =>
      rw [hnext] at h
      obtain rfl := Except.ok.inj h
      exact .findNothing hpop hnode hnext
    | some next =>
      rw [hnext] at h
      obtain rfl := Except.ok.inj h
      exact .find hpop
  | loadedNext tail next =>
    rw [hpop] at h
    obtain rfl := Except.ok.inj h
    exact .storeTail hpop
  | storedTail tail next =>
    rw [hpop] at h
    obtain ⟨node, -, h⟩ := bind_eq_ok.mp h
    obtain rfl := Except.ok.inj h
    exact .freeTail hpop
  | freed next =>
    rw [hpop] at h
    obtain ⟨node, -, h⟩ := bind_eq_ok.mp h
    obtain rfl := Except.ok.inj h
    exact .take hpop

lemma pushStep_effect {thread : Nat} (h : s.pushStep thread = .ok s') :
    s.Effect (.goOn thread) s' := by
  unfold pushStep at h
  cases hpush : s.pushes thread with
  | idle => simp [hpush] at h
  | allocated cur item =>
    rw [hpush] at h
    obtain rfl := Except.ok.inj h
    exact .exchange hpush
  | exchanged cur prev =>
    rw [hpush] at h
    obtain rfl := Except.ok.inj h
    exact .compare hpush
  | checked cur prev emptyAtInit =>
    rw [hpush] at h
    obtain ⟨node, hnode, h⟩ := bind_eq_ok.mp h
    obtain rfl := Except.ok.inj h
    exact .publish hpush hnode
  | published cur prev =>
    rw [hpush] at h
    obtain rfl := Except.ok.inj h
    exact .compareAgain hpush
  | returned cur wasEmpty => simp [hpush] at h

lemma step_effect (h : s.step a = .ok s') : s.Effect a s' := by
  cases a with
  | push thread item addr =>
    simp only [step, push] at h
    split_ifs at h with hguard
    obtain rfl := Except.ok.inj h
    exact .push hguard.1
  | goOn thread => exact pushStep_effect h
  | pop => exact popStep_effect h

end MpscQueue

/-! ### The base -/

namespace EventBase

variable {s s' : EventBase} {act : BaseAct} {addr : Nat} {acts : List BaseAct}

/-- `!defer && inLoopThread()`, at a call. -/
def isInline (s : EventBase) (c : Nat) : Bool :=
  !(s.calls c).kind.defer && s.inLoopThread (s.calls c).thread

/-- A step of the base, by what it does. -/
inductive Effect (s : EventBase) : BaseAct → EventBase → Prop
  | call {c thread : Nat} {kind : CallKind} (hplace : (s.calls c).place = .idle) :
    Effect s (.call c thread kind) { s with
      calls := Function.update s.calls c ⟨thread, kind, kind.first, false⟩ }
  | entered {c : Nat} (hplace : (s.calls c).place = .entered) :
    Effect s (.check c) (s.moveTo c (if s.isInline c then .running false false else .scheduling))
  | scheduling {c : Nat} (hplace : (s.calls c).place = .scheduling) :
    Effect s (.check c) (s.moveTo c
      (if s.isInline c then .running (s.calls c).kind.isWait false else .pushing))
  | startInline {c : Nat} {closure : Bool} (hplace : (s.calls c).place = .running closure false) :
    Effect s (.runOp c) ((s.startOp c).moveTo c (.running closure true))
  | finishInline {c : Nat} {closure : Bool} (hplace : (s.calls c).place = .running closure true) :
    Effect s (.runOp c) ((s.finishOp c closure).moveTo c
      (if (s.calls c).kind.isWait && !closure then .returned true
        else (s.calls c).kind.after true))
  | push {c addr : Nat} {queue : MpscQueue Nat} (hplace : (s.calls c).place = .pushing)
    (hqueue : s.queue.step (.push c c addr) = .ok queue) : Effect s (.push c addr) { s with queue }
  | goOn {c : Nat} {queue : MpscQueue Nat} (hplace : (s.calls c).place = .pushing)
    (hqueue : s.queue.step (.goOn c) = .ok queue)
    (hpush : ∀ cur wasEmpty, queue.pushes c ≠ .returned cur wasEmpty) :
    Effect s (.goOn c) { s with queue }
  | pushed {c : Nat} {queue : MpscQueue Nat} {cur : Ptr} {wasEmpty : Bool}
    (hplace : (s.calls c).place = .pushing) (hqueue : s.queue.step (.goOn c) = .ok queue)
    (hpush : queue.pushes c = .returned cur wasEmpty) :
    Effect s (.goOn c) ({ s with queue }.moveTo c
      (if wasEmpty then .signalling else (s.calls c).kind.after true))
  | signal {c : Nat} {written : Bool} (hplace : (s.calls c).place = .signalling) :
    Effect s (.signal c written)
      ({ s with pipe := if written then s.pipe + 1 else s.pipe }.moveTo c
        ((s.calls c).kind.after written))
  | await {c : Nat} (hplace : (s.calls c).place = .awaiting)
    (hdone : (if (s.calls c).kind = .stop then s.finished else (s.calls c).done) = true) :
    Effect s (.await c) (s.moveTo c (.returned true))
  | loop {thread : Nat} {mode : LoopMode} (hloop : s.loop = .idle) :
    Effect s (.loop thread mode) { s with loopThread := some thread, loop := .started mode }
  | started {mode : LoopMode} (hloop : s.loop = .started mode) :
    Effect s .goOnLoop { s with finished := false, loop := .popping mode }
  | pop {mode : LoopMode} {queue : MpscQueue Nat} (hloop : s.loop = .popping mode)
    (hqueue : s.queue.step .pop = .ok queue) (hpop : queue.pop ≠ .idle) :
    Effect s .goOnLoop { s with queue, loop := .popping mode }
  | popped {mode : LoopMode} {queue : MpscQueue Nat} {op : Nat} (hloop : s.loop = .popping mode)
    (hqueue : s.queue.step .pop = .ok queue) (hpop : queue.pop = .idle)
    (hlast : queue.trace.getLast? = some (.popped op)) :
    Effect s .goOnLoop { s with queue, loop := .running mode op false }
  | empty {mode : LoopMode} {queue : MpscQueue Nat} (hloop : s.loop = .popping mode)
    (hqueue : s.queue.step .pop = .ok queue) (hpop : queue.pop = .idle)
    (hlast : ∀ op, queue.trace.getLast? ≠ some (.popped op)) :
    Effect s .goOnLoop { s with queue, loop := .waiting mode }
  | startOp {mode : LoopMode} {op : Nat} (hloop : s.loop = .running mode op false) :
    Effect s .goOnLoop { s.startOp op with loop := .running mode op true }
  | finishOp {mode : LoopMode} {op : Nat} (hloop : s.loop = .running mode op true) :
    Effect s .goOnLoop
      { s.finishOp op (s.calls op).kind.isWait with loop := .popping mode }
  | again {mode : LoopMode} {empty : Bool} (hloop : s.loop = .polled mode empty)
    (hagain : s.again mode empty = true) : Effect s .goOnLoop { s with loop := .popping mode }
  | leave {mode : LoopMode} {empty : Bool} (hloop : s.loop = .polled mode empty)
    (hagain : s.again mode empty = false) : Effect s .goOnLoop { s with loop := .left }
  | reset (hloop : s.loop = .left) :
    Effect s .goOnLoop { s with terminate := false, loop := .reset }
  | clear (hloop : s.loop = .reset) :
    Effect s .goOnLoop { s with loopThread := none, loop := .cleared }
  | finish (hloop : s.loop = .cleared) :
    Effect s .goOnLoop { s with finished := true, loop := .idle }
  | notified {mode : LoopMode} {count : Nat} (hloop : s.loop = .waiting mode) :
    Effect s (.notified count) { s with pipe := s.pipe - count, loop := .popping mode }
  | polled {mode : LoopMode} {empty : Bool} (hloop : s.loop = .waiting mode) :
    Effect s (.polled empty) { s with loopExit := false, loop := .polled mode empty }

lemma check_effect {c : Nat} (h : s.check c = .ok s') : s.Effect (.check c) s' := by
  unfold check at h
  cases hplace : (s.calls c).place with
  | entered =>
    simp only [hplace] at h
    obtain rfl := Except.ok.inj h
    exact .entered hplace
  | scheduling =>
    simp only [hplace] at h
    obtain rfl := Except.ok.inj h
    exact .scheduling hplace
  | _ => simp [hplace] at h

lemma runOp_effect {c : Nat} (h : s.runOp c = .ok s') : s.Effect (.runOp c) s' := by
  unfold runOp at h
  cases hplace : (s.calls c).place with
  | running closure started =>
    cases started with
    | false =>
      simp only [hplace] at h
      obtain rfl := Except.ok.inj h
      exact .startInline hplace
    | true =>
      simp only [hplace] at h
      obtain rfl := Except.ok.inj h
      exact .finishInline hplace
  | _ => simp [hplace] at h

lemma goOn_effect {c : Nat} (h : s.goOn c = .ok s') : s.Effect (.goOn c) s' := by
  unfold goOn at h
  split_ifs at h with hplace
  obtain ⟨queue, hqueue, h⟩ := bind_eq_ok.mp h
  cases hpush : queue.pushes c with
  | returned cur wasEmpty =>
    cases wasEmpty with
    | false =>
      simp only [hpush] at h
      obtain rfl := Except.ok.inj h
      exact .pushed hplace hqueue hpush
    | true =>
      simp only [hpush] at h
      obtain rfl := Except.ok.inj h
      exact .pushed hplace hqueue hpush
  | _ =>
    simp only [hpush] at h
    obtain rfl := Except.ok.inj h
    exact .goOn hplace hqueue (by simp [hpush])

lemma goOnLoop_effect (h : s.goOnLoop = .ok s') : s.Effect .goOnLoop s' := by
  unfold goOnLoop at h
  cases hloop : s.loop with
  | idle => simp [hloop] at h
  | started mode =>
    rw [hloop] at h
    obtain rfl := Except.ok.inj h
    exact .started hloop
  | popping mode =>
    rw [hloop] at h
    obtain ⟨queue, hqueue, h⟩ := bind_eq_ok.mp h
    by_cases hpop : queue.pop = .idle
    · cases hlast : queue.trace.getLast? with
      | none =>
        simp only [hpop, hlast] at h
        obtain rfl := Except.ok.inj h
        exact .empty hloop hqueue hpop (by simp [hlast])
      | some e =>
        cases e with
        | popped op =>
          simp only [hpop, hlast] at h
          obtain rfl := Except.ok.inj h
          exact .popped hloop hqueue hpop hlast
        | _ =>
          simp only [hpop, hlast] at h
          obtain rfl := Except.ok.inj h
          exact .empty hloop hqueue hpop (by simp [hlast])
    · cases hplace : queue.pop with
      | idle => exact absurd hplace hpop
      | _ =>
        simp only [hplace] at h
        obtain rfl := Except.ok.inj h
        exact .pop hloop hqueue hpop
  | running mode op started =>
    cases started with
    | false =>
      rw [hloop] at h
      obtain rfl := Except.ok.inj h
      exact .startOp hloop
    | true =>
      rw [hloop] at h
      obtain rfl := Except.ok.inj h
      exact .finishOp hloop
  | waiting mode => simp [hloop] at h
  | polled mode empty =>
    rw [hloop] at h
    obtain rfl := Except.ok.inj h
    cases hagain : s.again mode empty with
    | false => exact .leave hloop hagain
    | true => exact .again hloop hagain
  | left =>
    rw [hloop] at h
    obtain rfl := Except.ok.inj h
    exact .reset hloop
  | reset =>
    rw [hloop] at h
    obtain rfl := Except.ok.inj h
    exact .clear hloop
  | cleared =>
    rw [hloop] at h
    obtain rfl := Except.ok.inj h
    exact .finish hloop

theorem step_effect (h : s.step act = .ok s') : s.Effect act s' := by
  cases act with
  | call c thread kind =>
    simp only [step] at h
    split_ifs at h with hplace
    obtain rfl := Except.ok.inj h
    exact .call hplace
  | check c => exact check_effect h
  | runOp c => exact runOp_effect h
  | push c addr =>
    simp only [step, push] at h
    split_ifs at h with hplace
    obtain ⟨queue, hqueue, h⟩ := bind_eq_ok.mp h
    obtain rfl := Except.ok.inj h
    exact .push hplace hqueue
  | goOn c => exact goOn_effect h
  | signal c written =>
    by_cases hplace : (s.calls c).place = .signalling
    · rw [step, signal, if_pos hplace] at h
      obtain rfl := Except.ok.inj h
      exact .signal hplace
    · rw [step, signal, if_neg hplace] at h
      cases h
  | await c =>
    by_cases hwaits : (s.calls c).place = .awaiting ∧
      (if (s.calls c).kind = .stop then s.finished else (s.calls c).done) = true
    · rw [step, EventBase.await, if_pos hwaits] at h
      obtain rfl := Except.ok.inj h
      exact .await hwaits.1 hwaits.2
    · rw [step, EventBase.await, if_neg hwaits] at h
      cases h
  | loop thread mode =>
    simp only [step] at h
    split_ifs at h with hloop
    obtain rfl := Except.ok.inj h
    exact .loop hloop
  | goOnLoop => exact goOnLoop_effect h
  | notified count =>
    simp only [step, notified] at h
    cases hloop : s.loop with
    | waiting mode =>
      simp only [hloop] at h
      split_ifs at h
      obtain rfl := Except.ok.inj h
      exact .notified hloop
    | _ => simp [hloop] at h
  | polled empty =>
    simp only [step] at h
    cases hloop : s.loop with
    | waiting mode =>
      simp only [hloop] at h
      obtain rfl := Except.ok.inj h
      exact .polled hloop
    | _ => simp [hloop] at h

/-! ### Calls -/

@[simp] lemma calls_moveTo_self {c : Nat} {place : CallPlace} :
    (s.moveTo c place).calls c = { s.calls c with place } := Function.update_self ..

lemma calls_moveTo_of_ne {c c' : Nat} {place : CallPlace} (hne : c' ≠ c) :
    (s.moveTo c place).calls c' = s.calls c' := Function.update_of_ne hne ..

lemma moveTo_eq_self (hplace : (s.calls c).place = place) : s.moveTo c place = s := by
  subst hplace
  simp [moveTo]

@[simp] lemma place_finishOp {c c' : Nat} {closure : Bool} :
    ((s.finishOp c closure).calls c').place = (s.calls c').place := by
  cases closure with
  | false => rfl
  | true =>
    by_cases heq : c' = c
    · subst heq
      simp [finishOp]
    · simp [finishOp, heq]

@[simp] lemma kind_finishOp {c c' : Nat} {closure : Bool} :
    ((s.finishOp c closure).calls c').kind = (s.calls c').kind := by
  cases closure with
  | false => rfl
  | true =>
    by_cases heq : c' = c
    · subst heq
      simp [finishOp]
    · simp [finishOp, heq]

lemma first_cases (kind : CallKind) : kind.first = .entered ∨ kind.first = .scheduling := by
  cases kind <;> simp [CallKind.first]

/-- The step takes the call to another place. -/
inductive Moves (s : EventBase) (c : Nat) : BaseAct → CallPlace → CallKind → Prop
  | call (thread : Nat) (kind : CallKind) (hplace : (s.calls c).place = .idle) :
    Moves s c (.call c thread kind) kind.first kind
  | entered (hplace : (s.calls c).place = .entered) :
    Moves s c (.check c) (if s.isInline c then .running false false else .scheduling)
      (s.calls c).kind
  | scheduling (hplace : (s.calls c).place = .scheduling) :
    Moves s c (.check c) (if s.isInline c then .running (s.calls c).kind.isWait false else .pushing)
      (s.calls c).kind
  | startInline (closure : Bool) (hplace : (s.calls c).place = .running closure false) :
    Moves s c (.runOp c) (.running closure true) (s.calls c).kind
  | finishInline (closure : Bool) (hplace : (s.calls c).place = .running closure true) :
    Moves s c (.runOp c) (if (s.calls c).kind.isWait && !closure then .returned true
      else (s.calls c).kind.after true) (s.calls c).kind
  | pushed (wasEmpty : Bool) (hplace : (s.calls c).place = .pushing) :
    Moves s c (.goOn c) (if wasEmpty then .signalling else (s.calls c).kind.after true)
      (s.calls c).kind
  | signal (written : Bool) (hplace : (s.calls c).place = .signalling) :
    Moves s c (.signal c written) ((s.calls c).kind.after written) (s.calls c).kind
  | await (hplace : (s.calls c).place = .awaiting)
    (hdone : (if (s.calls c).kind = .stop then s.finished else (s.calls c).done) = true) :
    Moves s c (.await c) (.returned true) (s.calls c).kind

/-- A call moves, and the others stay where they are. -/
lemma moves_moveTo {s₁ : EventBase} {c c' : Nat} {place : CallPlace}
    (hsame : ∀ c, (s₁.calls c).place = (s.calls c).place ∧ (s₁.calls c).kind = (s.calls c).kind)
    (hmoves : s.Moves c' act place (s.calls c').kind) :
    (((s₁.moveTo c' place).calls c).place = (s.calls c).place ∧
        ((s₁.moveTo c' place).calls c).kind = (s.calls c).kind) ∨
      s.Moves c act ((s₁.moveTo c' place).calls c).place ((s₁.moveTo c' place).calls c).kind := by
  rcases eq_or_ne c c' with rfl | hne
  · right
    rw [calls_moveTo_self]
    show s.Moves c act place (s₁.calls c).kind
    rw [(hsame c).2]
    exact hmoves
  · left
    rw [calls_moveTo_of_ne hne]
    exact hsame c

/-- A call stays where it is or moves. -/
lemma Effect.moves (h : s.Effect act s') (c : Nat) :
    ((s'.calls c).place = (s.calls c).place ∧ (s'.calls c).kind = (s.calls c).kind) ∨
      s.Moves c act (s'.calls c).place (s'.calls c).kind := by
  cases h with
  | @call c' thread kind hplace =>
    rcases eq_or_ne c c' with rfl | hne
    · right
      simpa using .call thread kind hplace
    · left
      simp [hne]
  | entered hplace => exact moves_moveTo (fun _ => ⟨rfl, rfl⟩) (.entered hplace)
  | scheduling hplace => exact moves_moveTo (fun _ => ⟨rfl, rfl⟩) (.scheduling hplace)
  | startInline hplace => exact moves_moveTo (fun _ => ⟨rfl, rfl⟩) (.startInline _ hplace)
  | finishInline hplace =>
    exact moves_moveTo (fun _ => ⟨place_finishOp, kind_finishOp⟩) (.finishInline _ hplace)
  | pushed hplace => exact moves_moveTo (fun _ => ⟨rfl, rfl⟩) (.pushed _ hplace)
  | signal hplace => exact moves_moveTo (fun _ => ⟨rfl, rfl⟩) (.signal _ hplace)
  | await hplace hdone => exact moves_moveTo (fun _ => ⟨rfl, rfl⟩) (.await hplace hdone)
  | finishOp => exact .inl ⟨place_finishOp, kind_finishOp⟩
  | _ => exact .inl ⟨rfl, rfl⟩

/-! ### The queue of the base -/

/-- The operation of the call was put into the queue and not taken out. -/
def Queued (s : EventBase) (c : Nat) : Prop :=
  (MpscQueue.popped s.queue.trace).count c <
    ((MpscQueue.exchanged s.queue.trace).map Prod.snd).count c

/-- A step leaves the queue alone or is a step of it. -/
lemma Effect.queue (h : s.Effect act s') :
    s'.queue = s.queue ∨ ∃ a, s.queue.step a = .ok s'.queue := by
  cases h with
  | push _ hqueue => exact .inr ⟨_, hqueue⟩
  | goOn _ hqueue => exact .inr ⟨_, hqueue⟩
  | pushed _ hqueue => exact .inr ⟨_, hqueue⟩
  | pop _ hqueue => exact .inr ⟨_, hqueue⟩
  | popped _ hqueue => exact .inr ⟨_, hqueue⟩
  | empty _ hqueue => exact .inr ⟨_, hqueue⟩
  | _ => exact .inl rfl

/-- The invariant of the queue is kept. -/
lemma Effect.sound (h : s.Effect act s') (hsound : s.queue.Sound) : s'.queue.Sound := by
  rcases h.queue with heq | ⟨a, hqueue⟩
  · rwa [heq]
  · rcases MpscQueue.sound_step hsound a with herr | ⟨queue, hok, hsound'⟩
    · rw [herr] at hqueue
      cases hqueue
    · obtain rfl := Except.ok.inj (hok.symm.trans hqueue)
      exact hsound'

lemma sound_exec (h : exec step (new addr) acts = .ok s) : s.queue.Sound :=
  exec_invariant (P := fun _ _ => True) (fun s => s.queue.Sound)
    (fun _ _ _ hsound _ hok => (step_effect hok).sound hsound) (MpscQueue.sound_new addr)
    (Along.of_forall fun _ _ => trivial) h

/-- `runOpsInQueue` finds the queue empty. -/
lemma findNothing_cases {queue : MpscQueue Nat}
    (hqueue : s.queue.step .pop = .ok queue) (hpop : queue.pop = .idle)
    (hlast : ∀ op, queue.trace.getLast? ≠ some (.popped op)) :
    ∃ tail node, s.queue.pop = .loadedTail tail ∧
      MpscQueue.deref s.queue.memory tail = .ok node ∧ node.next = none ∧
      queue = { s.queue with pop := .idle, trace := s.queue.trace ++ [.empty] } := by
  cases MpscQueue.step_effect hqueue with
  | findNothing hplace hnode hnext => exact ⟨_, _, hplace, hnode, hnext, rfl⟩
  | take => exact absurd List.getLast?_concat (hlast _)
  | loadTail => cases hpop
  | find => cases hpop
  | storeTail => cases hpop
  | freeTail => cases hpop

end EventBase

end WhatTheEvent
