import WhatTheEvent.EventLoop.BaseEffect

/-!
# No operation is stranded

While the thread in `loop` waits, an operation behind `tail_` has a byte in the pipe, or the call
that linked it has still to write one.
-/

namespace WhatTheEvent

open Exec

namespace EventBase

variable {s s' : EventBase} {act : BaseAct} {addr : Nat} {acts : List BaseAct} {c : Nat} {cur : Ptr}

/-- The node is linked behind `tail_`. -/
def Linked (s : EventBase) (cur : Ptr) : Prop :=
  ∃ node, MpscQueue.deref s.queue.memory s.queue.tail = .ok node ∧ node.next = some cur

/-- The call has linked the node, and has still to write its byte: its `push` has returned true or
will do so, as `tail_` is what it was before the node. -/
def Owes (s : EventBase) (c : Nat) (cur : Ptr) : Prop :=
  ((s.calls c).place = .pushing ∧ ∃ prev, s.queue.pushes c = .published cur prev ∧
    s.queue.tail.addr = prev.addr) ∨
  ((s.calls c).place = .signalling ∧ s.queue.pushes c = .returned cur true)

/-- What is linked behind `tail_` has a byte in the pipe or is owed one. -/
def Awake (s : EventBase) : Prop := ∀ cur, s.Linked cur → 0 < s.pipe ∨ ∃ c, s.Owes c cur

lemma Owes.place (h : s.Owes c cur) :
    (s.calls c).place = .pushing ∨ (s.calls c).place = .signalling :=
  h.imp And.left And.left

/-- Other calls, and other threads of the queue, do not matter. -/
lemma Owes.frame (h : s.Owes c cur) (hplace : (s'.calls c).place = (s.calls c).place)
    (hpush : s'.queue.pushes c = s.queue.pushes c) (htail : s'.queue.tail = s.queue.tail) :
    s'.Owes c cur := by
  unfold Owes
  rw [hplace, hpush, htail]
  exact h

lemma Awake.frame (h : s.Awake) (hqueue : s'.queue = s.queue) (hpipe : s.pipe ≤ s'.pipe)
    (hplace : ∀ c, (s.calls c).place = .pushing ∨ (s.calls c).place = .signalling →
      (s'.calls c).place = (s.calls c).place) : s'.Awake := by
  intro cur hlinked
  unfold Linked at hlinked
  rw [hqueue] at hlinked
  rcases h cur hlinked with hbyte | ⟨c, howes⟩
  · exact .inl (Nat.lt_of_lt_of_le hbyte hpipe)
  · exact .inr ⟨c, howes.frame (hplace c howes.place) (by rw [hqueue]) (by rw [hqueue])⟩

/-- A call that is not at the queue moves on. -/
lemma Awake.moveTo {place : CallPlace} (h : s.Awake) (hpushing : (s.calls c).place ≠ .pushing)
    (hsignalling : (s.calls c).place ≠ .signalling) : (s.moveTo c place).Awake := by
  refine h.frame rfl (Nat.le_refl _) fun c' hc' => ?_
  have hne : c' ≠ c := by
    rintro rfl
    exact hc'.elim hpushing hsignalling
  rw [calls_moveTo_of_ne hne]

/-- A thread goes on with its `push`, which changes nothing of what is linked. -/
lemma Awake.goOn {queue : MpscQueue Nat} (h : s.Awake) (hqueue : s'.queue = queue)
    (hpipe : s'.pipe = s.pipe) (hother : ∀ c', c' ≠ c → s'.calls c' = s.calls c')
    (hpushes : ∀ c', c' ≠ c → queue.pushes c' = s.queue.pushes c')
    (htail : queue.tail = s.queue.tail)
    (hlinked : ∀ cur, s'.Linked cur → s'.Owes c cur ∨ s.Linked cur ∧ ¬ s.Owes c cur) :
    s'.Awake := by
  subst hqueue
  intro cur hcur
  rcases hlinked cur hcur with howes | ⟨hcur, hnot⟩
  · exact .inr ⟨c, howes⟩
  · rcases h cur hcur with hbyte | ⟨c', howes⟩
    · exact .inl (hpipe ▸ hbyte)
    · have hne : c' ≠ c := by
        rintro rfl
        exact hnot howes
      exact .inr ⟨c', howes.frame (by rw [hother c' hne]) (hpushes c' hne) htail⟩

/-- What the store to `prev->next` links behind `tail_` is the node of the call, if it is anything
new. -/
lemma linked_publish {prev cur' : Ptr} {node : Node Nat} (hsound : s.queue.Sound)
    (hnode : MpscQueue.deref s.queue.memory prev = .ok node) (h : s'.Linked cur')
    (hmemory : s'.queue.memory = s.queue.memory.store prev.node { node with next := some cur })
    (htail : s'.queue.tail = s.queue.tail) : s.queue.tail = prev ∧ cur' = cur ∨ s.Linked cur' := by
  obtain ⟨first, hfirst, hnext⟩ := h
  rw [hmemory, htail] at hfirst
  by_cases heq : prev.node = s.queue.tail.node
  · left
    obtain ⟨⟨backlog, hrep⟩, -⟩ := hsound
    obtain ⟨last, hlast⟩ := hrep.chain.deref
    obtain ⟨hload, haddr⟩ := MpscQueue.deref_eq_ok.mp hlast
    obtain ⟨hload', haddr'⟩ := MpscQueue.deref_eq_ok.mp hnode
    rw [heq, hload] at hload'
    obtain rfl := Option.some.inj hload'
    -- the allocation is the same, so the pointers are
    have hptr : s.queue.tail = prev := by
      cases hprev : prev
      cases ht : s.queue.tail
      simp_all
    refine ⟨hptr, ?_⟩
    rw [hptr, MpscQueue.deref_store_self hnode] at hfirst
    obtain rfl := Except.ok.inj hfirst
    exact (Option.some.inj hnext).symm
  · right
    rw [MpscQueue.deref_store_of_ne heq] at hfirst
    exact ⟨first, hfirst, hnext⟩

lemma awake_goOn {queue : MpscQueue Nat} (hsound : s.queue.Sound) (h : s.Awake)
    (hplace : (s.calls c).place = .pushing) (hqueue : s.queue.step (.goOn c) = .ok queue)
    (hpush : ∀ cur wasEmpty, queue.pushes c ≠ .returned cur wasEmpty) :
    Awake { s with queue } := by
  cases MpscQueue.step_effect hqueue with
  | exchange hallocated =>
    refine h.goOn rfl rfl (fun _ _ => rfl) (fun c' hne => Function.update_of_ne hne ..) rfl
      fun cur hcur => .inr ⟨hcur, ?_⟩
    simp [Owes, hallocated]
  | compare hexchanged =>
    refine h.goOn rfl rfl (fun _ _ => rfl) (fun c' hne => Function.update_of_ne hne ..) rfl
      fun cur hcur => .inr ⟨hcur, ?_⟩
    simp [Owes, hexchanged]
  | publish hchecked hnode =>
    refine h.goOn rfl rfl (fun _ _ => rfl) (fun c' hne => Function.update_of_ne hne ..) rfl
      fun cur hcur => ?_
    rename_i mine prev emptyAtInit node
    rcases linked_publish hsound hnode hcur rfl rfl with ⟨rfl, rfl⟩ | hcur
    · cases emptyAtInit with
      | true => exact absurd (Function.update_self ..) (hpush cur true)
      | false => exact .inl (.inl ⟨hplace, s.queue.tail, Function.update_self .., rfl⟩)
    · exact .inr ⟨hcur, by simp [Owes, hchecked]⟩
  | compareAgain => exact absurd (Function.update_self ..) (hpush _ _)

lemma awake_pushed {queue : MpscQueue Nat} {wasEmpty : Bool} {place : CallPlace}
    (hsound : s.queue.Sound) (h : s.Awake) (hqueue : s.queue.step (.goOn c) = .ok queue)
    (hpush : queue.pushes c = .returned cur wasEmpty) :
    Awake ({ s with queue }.moveTo c (if wasEmpty then .signalling else place)) := by
  have hother : ∀ place c', c' ≠ c → ({ s with queue }.moveTo c place).calls c' = s.calls c' :=
    fun place c' hne => calls_moveTo_of_ne hne
  cases MpscQueue.step_effect hqueue with
  | exchange => simp at hpush
  | compare => simp at hpush
  | publish hchecked hnode =>
    refine h.goOn rfl rfl (hother _) (fun c' hne => Function.update_of_ne hne ..) rfl
      fun cur' hcur => ?_
    rename_i mine prev emptyAtInit node
    rcases linked_publish hsound hnode hcur rfl rfl with ⟨rfl, rfl⟩ | hcur
    · cases emptyAtInit with
      | false => simp at hpush
      | true =>
        simp only [Function.update_self, if_pos, Push.returned.injEq] at hpush
        obtain ⟨rfl, rfl⟩ := hpush
        exact .inl (.inr ⟨by simp, Function.update_self ..⟩)
    · exact .inr ⟨hcur, by simp [Owes, hchecked]⟩
  | compareAgain hpublished =>
    simp only [Function.update_self, Push.returned.injEq] at hpush
    obtain ⟨rfl, rfl⟩ := hpush
    refine h.goOn rfl rfl (hother _) (fun c' hne => Function.update_of_ne hne ..) rfl
      fun cur' hcur => ?_
    by_cases howes : s.Owes c cur'
    · rcases howes with ⟨-, prev, hprev, haddr⟩ | ⟨-, hreturned⟩
      · rw [hpublished] at hprev
        obtain ⟨rfl, rfl⟩ := Push.published.inj hprev
        refine .inl (.inr ⟨by simp [haddr], ?_⟩)
        exact (Function.update_self ..).trans (by simp [haddr])
      · rw [hpublished] at hreturned
        cases hreturned
    · exact .inr ⟨hcur, howes⟩

/-- The allocation in `push` comes before any node is linked. -/
lemma awake_push {queue : MpscQueue Nat} {addr : Nat} (hsound : s.queue.Sound) (h : s.Awake)
    (hplace : (s.calls c).place = .pushing) (hqueue : s.queue.step (.push c c addr) = .ok queue) :
    Awake { s with queue } := by
  cases MpscQueue.step_effect hqueue with
  | push hfinished =>
    refine h.goOn rfl rfl (fun _ _ => rfl) (fun c' hne => Function.update_of_ne hne ..) rfl
      fun cur hcur => .inr ⟨?_, ?_⟩
    · obtain ⟨⟨backlog, hrep⟩, -⟩ := hsound
      obtain ⟨first, hfirst, hnext⟩ := hcur
      obtain ⟨last, hlast⟩ := hrep.chain.deref
      obtain rfl := Except.ok.inj (hfirst.symm.trans (MpscQueue.deref_alloc hlast _))
      exact ⟨first, hlast, hnext⟩
    · rintro (⟨-, prev, hpublished, -⟩ | ⟨hsignalling, -⟩)
      · rw [hpublished] at hfinished
        cases hfinished
      · rw [hplace] at hsignalling
        cases hsignalling

/-- Nothing is linked when `runOpsInQueue` ends. -/
lemma not_linked_of_empty {queue : MpscQueue Nat} {loop : LoopPlace} (hsound : s.queue.Sound)
    (hqueue : s.queue.step .pop = .ok queue) (hpop : queue.pop = .idle)
    (hlast : ∀ op, queue.trace.getLast? ≠ some (.popped op)) :
    ¬ Linked { s with queue, loop } cur := by
  obtain ⟨tail, node, htail, hnode, hnext, rfl⟩ := findNothing_cases hqueue hpop hlast
  obtain ⟨⟨backlog, hrep⟩, -⟩ := hsound
  have hplace := hrep.place
  rw [MpscQueue.PopPlace, htail] at hplace
  rintro ⟨first, hfirst, hlinked⟩
  rw [← hplace] at hfirst
  obtain rfl := Except.ok.inj (hnode.symm.trans hfirst)
  rw [hnext] at hlinked
  cases hlinked

/-- The thread in `loop` waits only while everything is owed. -/
lemma awake_step (hsound : s.queue.Sound) (hwritten : ∀ c, act ≠ .signal c false)
    (h : ∀ mode, s.loop = .waiting mode → s.Awake) (heff : s.Effect act s') :
    ∀ mode, s'.loop = .waiting mode → s'.Awake := by
  intro mode hloop
  cases heff with
  | @call c thread kind hplace =>
    refine (h mode hloop).frame rfl (Nat.le_refl _) fun c' hc' => ?_
    have hne : c' ≠ c := by
      rintro rfl
      rw [hplace] at hc'
      exact hc'.elim nofun nofun
    exact congrArg BaseCall.place (Function.update_of_ne hne ..)
  | entered hplace => exact (h mode hloop).moveTo (by simp [hplace]) (by simp [hplace])
  | scheduling hplace => exact (h mode hloop).moveTo (by simp [hplace]) (by simp [hplace])
  | startInline hplace =>
    exact Awake.moveTo (s := s.startOp _) (h mode hloop) (by simp [startOp, hplace])
      (by simp [startOp, hplace])
  | @finishInline c closure hplace =>
    have hfinish : (s.finishOp c closure).Awake :=
      (h mode hloop).frame rfl (Nat.le_refl _) fun _ _ => place_finishOp
    exact hfinish.moveTo (by simp [hplace]) (by simp [hplace])
  | push hplace hqueue => exact awake_push hsound (h mode hloop) hplace hqueue
  | goOn hplace hqueue hpush => exact awake_goOn hsound (h mode hloop) hplace hqueue hpush
  | pushed _ hqueue hpush => exact awake_pushed hsound (h mode hloop) hqueue hpush
  | @signal c written hplace =>
    cases written with
    | false => exact absurd rfl (hwritten c)
    | true => exact fun cur _ => .inl (Nat.succ_pos s.pipe)
  | await hplace => exact (h mode hloop).moveTo (by simp [hplace]) (by simp [hplace])
  | empty hpopping hqueue hpop hlast =>
    exact fun cur hcur => absurd hcur (not_linked_of_empty hsound hqueue hpop hlast)
  | _ => cases hloop

/-! ### Runs -/

/-- In every interleaving in which all writes to the pipe succeed, whenever the thread in `loop` has
found the queue empty and waits, an operation that is linked behind `tail_` has an unread byte in
the pipe, or the call that linked it has still to write its byte. -/
theorem awake_of_exec (addr : Nat) (acts : List BaseAct) {s : EventBase} {mode : LoopMode}
    (hwritten : ∀ c, .signal c false ∉ acts) (h : exec step (new addr) acts = .ok s)
    (hloop : s.loop = .waiting mode) : s.Awake := by
  have hrun : s.queue.Sound ∧ ∀ mode, s.loop = .waiting mode → s.Awake := by
    refine exec_invariant (P := fun _ act => ∀ c, act ≠ .signal c false)
      (fun s => s.queue.Sound ∧ ∀ mode, s.loop = .waiting mode → s.Awake) ?_
      ⟨MpscQueue.sound_new addr, fun _ hidle => nomatch hidle⟩ (Along.of_mem ?_) h
    · rintro s act s' ⟨hsound, hawake⟩ hact hok
      exact ⟨(step_effect hok).sound hsound, awake_step hsound hact hawake (step_effect hok)⟩
    · rintro act hmem c rfl
      exact hwritten c hmem
  exact hrun.2 mode hloop

/-- A call pushes while the loop waits: the byte is owed. -/
theorem awake_pushing : ∃ s, exec step (new 0)
    [.loop 1 .forever, .goOnLoop, .goOnLoop, .goOnLoop, .call 0 2 (.runOnEventLoop true), .check 0,
      .push 0 8, .goOn 0, .goOn 0, .goOn 0] = .ok s ∧ s.loop = .waiting .forever ∧ s.pipe = 0 ∧
    s.Linked ⟨8, 1⟩ ∧ s.Awake :=
  ⟨_, rfl, rfl, rfl, ⟨_, rfl, rfl⟩, awake_of_exec 0 [.loop 1 .forever, .goOnLoop, .goOnLoop,
    .goOnLoop, .call 0 2 (.runOnEventLoop true), .check 0, .push 0 8, .goOn 0, .goOn 0, .goOn 0]
    (by simp) rfl rfl⟩

end EventBase

end WhatTheEvent
