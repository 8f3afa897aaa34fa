import Mathlib.Data.List.Perm.Subperm
import WhatTheEvent.EventLoop.Represents

/-!
# The law of the queue

Every step keeps the queue represented by a backlog, and only steps of calls that are not in
progress fail. The destructor takes the backlog off and frees the node that is left.
-/

namespace WhatTheEvent

open Exec

variable {α : Type}

namespace MpscQueue

variable {backlog rest : List (Entry α)} {e : Entry α} {node : Node α} {thread : Nat}
  {s s' : MpscQueue α} {tail next : Ptr} {trace : List (QueueEvent α)} {event : QueueEvent α}
  {a : QueueAct α} {acts : List (QueueAct α)}

/-! ### What `pop` finds -/

/-- At each `.empty` the next item was not published. -/
def EmptyLaw (trace : List (QueueEvent α)) : Prop :=
  ∀ pre post, trace = pre ++ .empty :: post →
    ∀ node item, (exchanged pre)[(popped pre).length]? = some (node, item) → .publish node ∉ pre

lemma EmptyLaw.concat (h : EmptyLaw trace)
    (hevent : event = .empty → ∀ node item,
      (exchanged trace)[(popped trace).length]? = some (node, item) → .publish node ∉ trace) :
    EmptyLaw (trace ++ [event]) := by
  intro pre post heq
  rcases List.eq_nil_or_concat post with rfl | ⟨post', last, rfl⟩
  · obtain ⟨rfl, hlast⟩ := List.append_inj' heq rfl
    exact hevent (List.cons.inj hlast).1
  · have heq : trace ++ [event] = (pre ++ .empty :: post') ++ [last] := by simpa using heq
    exact h pre post' (List.append_inj' heq rfl).1

namespace Represents

/-- The load of `tail_`. -/
lemma loadTail (h : s.Represents backlog) (hpop : s.pop = .idle) :
    s.popStep = .ok { s with pop := .loadedTail s.tail } ∧
      Represents { s with pop := .loadedTail s.tail } backlog := by
  constructor
  · rw [popStep, hpop]
  · have hlook : Represents { s with pop := .loadedTail s.tail, trace := s.trace ++ [] } backlog :=
      h.look (.inl rfl) rfl (fun items hin => by rwa [InFlight, hpop] at hin) rfl (by simp [hpop])
        (by simp)
    simpa using hlook

/-- The first entry of the backlog was not linked, if there is one. -/
lemma findNothing (h : s.Represents backlog) (hpop : s.pop = .loadedTail tail)
    (hfirst : ∀ e ∈ backlog.head?, e.linker ≠ none) :
    s.popStep = .ok { s with pop := .idle, trace := s.trace ++ [.empty] } ∧
      Represents { s with pop := .idle, trace := s.trace ++ [.empty] } backlog := by
  have hplace := h.place
  rw [PopPlace, hpop] at hplace
  obtain rfl : tail = s.tail := hplace
  constructor
  · have hnext : ∃ node, deref s.memory s.tail = .ok node ∧ node.next = none := by
      have hchain := h.chain
      cases backlog with
      | nil => exact hchain.2
      | cons e rest =>
        obtain ⟨⟨node, hnode, hnext⟩, -⟩ := hchain
        cases hl : e.linker with
        | none => exact absurd hl (hfirst e rfl)
        | some thread =>
          rw [hl] at hnext
          exact ⟨node, hnode, hnext.1⟩
    obtain ⟨node, hnode, hnext⟩ := hnext
    simp only [popStep, hpop, hnode, hnext, bind, Except.bind]
    rfl
  · exact h.look (.inr rfl) trivial (fun items hin => by rwa [InFlight, hpop] at hin) rfl
      (by simp [hpop]) (by simp)

/-- The first entry of the backlog was linked. -/
lemma find (h : s.Represents (e :: rest)) (hpop : s.pop = .loadedTail tail)
    (hlinker : e.linker = none) :
    s.popStep = .ok { s with pop := .loadedNext tail e.ptr } ∧
      Represents { s with pop := .loadedNext tail e.ptr } (e :: rest) := by
  have hplace := h.place
  rw [PopPlace, hpop] at hplace
  obtain rfl : tail = s.tail := hplace
  constructor
  · obtain ⟨⟨node, hnode, hnext⟩, -⟩ := h.chain
    rw [hlinker] at hnext
    simp only [popStep, hpop, hnode, hnext, bind, Except.bind]
    rfl
  · have hlook : Represents { s with pop := .loadedNext s.tail e.ptr, trace := s.trace ++ [] }
        (e :: rest) := h.look (.inl rfl)
      ⟨rfl, e, rest, rfl, hlinker, rfl⟩ (fun items hin => by rwa [InFlight, hpop] at hin) rfl
      (by simp [hpop]) (by simp)
    simpa using hlook

/-- The next item, if there is one, is the one of the first entry. -/
lemma next_not_published (h : s.Represents backlog) (hpop : s.pop = .loadedTail tail)
    (hfirst : ∀ e ∈ backlog.head?, e.linker ≠ none) (n : Nat) (item : α)
    (hn : (exchanged s.trace)[(popped s.trace).length]? = some (n, item)) :
    .publish n ∉ s.trace := by
  obtain ⟨out, hex, hout⟩ :=
    h.history_of_inFlight_nil fun items hin => by rwa [InFlight, hpop] at hin
  rw [hex, ← hout, List.length_map, List.getElem?_append_right (Nat.le_refl _), Nat.sub_self] at hn
  cases backlog with
  | nil => cases hn
  | cons e rest =>
    obtain ⟨rfl, rfl⟩ := Prod.mk.inj (Option.some.inj hn)
    exact h.unpublished e List.mem_cons_self (hfirst e rfl)

/-! ### Every step -/

/-- `pop` never fails. -/
lemma popStep (h : s.Represents backlog) (hempty : EmptyLaw s.trace) :
    ∃ s' backlog', s.popStep = .ok s' ∧ s'.Represents backlog' ∧ EmptyLaw s'.trace := by
  cases hpop : s.pop with
  | idle =>
    obtain ⟨hok, h'⟩ := h.loadTail hpop
    exact ⟨_, _, hok, h', hempty⟩
  | loadedTail tail =>
    by_cases hfirst : ∀ e ∈ backlog.head?, e.linker ≠ none
    · obtain ⟨hok, h'⟩ := h.findNothing hpop hfirst
      exact ⟨_, _, hok, h', hempty.concat fun _ => h.next_not_published hpop hfirst⟩
    · push Not at hfirst
      obtain ⟨e, he, hlinker⟩ := hfirst
      obtain ⟨rest, rfl⟩ := List.head?_eq_some_iff.mp he
      obtain ⟨hok, h'⟩ := h.find hpop hlinker
      exact ⟨_, _, hok, h', hempty⟩
  | loadedNext tail next =>
    exact ⟨_, _, by rw [MpscQueue.popStep, hpop], h.storeTail hpop, hempty⟩
  | storedTail tail next =>
    obtain ⟨node, hnode⟩ := h.retired tail next hpop
    refine ⟨_, _, ?_, h.freeTail hpop, hempty.concat fun heq => nomatch heq⟩
    simp only [MpscQueue.popStep, hpop, hnode, bind, Except.bind]
    rfl
  | freed next =>
    obtain ⟨node, hnode⟩ := h.chain.deref
    obtain ⟨-, items, -, -, hin⟩ := h.history
    rw [InFlight, hpop] at hin
    obtain ⟨rfl, -⟩ := hin
    refine ⟨_, _, ?_, h.take hpop hnode, hempty.concat fun heq => nomatch heq⟩
    simp only [MpscQueue.popStep, hpop, hnode, bind, Except.bind]
    rfl

/-- `push` fails only where no call is in progress. -/
lemma pushStep (h : s.Represents backlog) (hempty : EmptyLaw s.trace) (thread : Nat) :
    s.pushStep thread = .error .disabled ∨
      ∃ s' backlog', s.pushStep thread = .ok s' ∧ s'.Represents backlog' ∧ EmptyLaw s'.trace := by
  cases hpush : s.pushes thread with
  | idle => exact .inl (by rw [MpscQueue.pushStep, hpush])
  | returned => exact .inl (by rw [MpscQueue.pushStep, hpush])
  | allocated cur item =>
    refine .inr ⟨_, _, by rw [MpscQueue.pushStep, hpush], h.exchange hpush, ?_⟩
    exact hempty.concat fun heq => nomatch heq
  | exchanged cur prev =>
    refine .inr ⟨_, _, by rw [MpscQueue.pushStep, hpush], h.compared ?_ rfl ?_, hempty⟩
    · rw [hpush]
      rfl
    · intro cur' prev'
      rw [hpush]
      exact Iff.rfl
  | checked cur prev emptyAtInit =>
    have hl : (s.pushes thread).Linking cur prev := by
      rw [hpush]
      exact ⟨rfl, rfl⟩
    obtain ⟨e, -, -, -, ⟨node, hnode, -⟩, -⟩ := h.exists_prev hl
    have hpublish := h.publish
      (x := if emptyAtInit then .returned cur true else .published cur prev) hl hnode
      (by cases emptyAtInit <;> rfl) (by cases emptyAtInit <;> exact fun _ _ => id)
    refine .inr ⟨_, _, ?_, hpublish, hempty.concat fun heq => nomatch heq⟩
    · simp only [MpscQueue.pushStep, hpush, hnode, bind, Except.bind]
      rfl
  | published cur prev =>
    refine .inr ⟨_, _, by rw [MpscQueue.pushStep, hpush], h.compared ?_ rfl ?_, hempty⟩
    · rw [hpush]
      rfl
    · intro cur' prev'
      rw [hpush]
      exact Iff.rfl

end Represents

/-- The invariant of every run. -/
def Sound (s : MpscQueue α) : Prop := (∃ backlog, s.Represents backlog) ∧ EmptyLaw s.trace

lemma sound_new [Inhabited α] (addr : Nat) : (new addr : MpscQueue α).Sound := by
  refine ⟨⟨[], represents_new addr⟩, ?_⟩
  intro pre post heq
  cases pre <;> cases heq

/-- A step keeps the invariant or is not enabled. -/
lemma sound_step (h : s.Sound) (a : QueueAct α) :
    s.step a = .error .disabled ∨ ∃ s', s.step a = .ok s' ∧ s'.Sound := by
  obtain ⟨⟨backlog, hrep⟩, hempty⟩ := h
  cases a with
  | push thread item addr =>
    by_cases hguard : (s.pushes thread).isFinished ∧ isUnused s.memory addr
    · have hok : s.push thread item addr = .ok _ := if_pos hguard
      exact .inr ⟨_, hok, ⟨backlog, hrep.push hok⟩, hempty⟩
    · exact .inl (if_neg hguard)
  | goOn thread =>
    rcases hrep.pushStep hempty thread with herr | ⟨s', backlog', hok, h', hempty'⟩
    · exact .inl herr
    · exact .inr ⟨s', hok, ⟨backlog', h'⟩, hempty'⟩
  | pop =>
    obtain ⟨s', backlog', hok, h', hempty'⟩ := hrep.popStep hempty
    exact .inr ⟨s', hok, ⟨backlog', h'⟩, hempty'⟩

/-- A run keeps the invariant and stops only before a step that is not enabled. -/
lemma sound_exec (h : s.Sound) (acts : List (QueueAct α)) :
    exec step s acts = .error .disabled ∨ ∃ s', exec step s acts = .ok s' ∧ s'.Sound := by
  induction acts generalizing s with
  | nil => exact .inr ⟨s, rfl, h⟩
  | cons a acts ih =>
    rcases sound_step h a with herr | ⟨s₁, hok, h₁⟩
    · exact .inl (by rw [Exec.exec, herr])
    · rcases ih h₁ with herr | ⟨s₂, hok₂, h₂⟩
      · exact .inl ((exec_cons_ok hok).trans herr)
      · exact .inr ⟨s₂, (exec_cons_ok hok).trans hok₂, h₂⟩

/-! ### The destructor -/

/-- What is left after calls of `pop` with no call of `push` in progress. -/
structure Drained (s s' : MpscQueue α) (backlog : List (Entry α)) (freed : Nat) : Prop where
  represents : s'.Represents backlog
  idle : s'.pop = .idle
  pushes : s'.pushes = s.pushes
  fresh : s'.memory.fresh = s.memory.fresh
  frees : (MpscQueue.frees s'.trace).length = (MpscQueue.frees s.trace).length + freed

namespace Represents

/-- When no call of `push` is in progress every entry is linked. -/
lemma linker_eq_none (h : s.Represents backlog) (hfinished : ∀ thread, (s.pushes thread).isFinished)
    (he : e ∈ backlog) : e.linker = none := by
  by_contra hne
  obtain ⟨thread, hl⟩ := Option.ne_none_iff_exists'.mp hne
  obtain ⟨prev, -, -, -, hlinking, -⟩ := h.chain.exists_prev he hl
  exact Push.not_linking_of_isFinished (hfinished thread) hlinking


/-- A call of `pop` takes the first entry off. -/
lemma popCall (h : s.Represents backlog) (hpop : s.pop = .idle)
    (hfinished : ∀ thread, (s.pushes thread).isFinished) :
    ∃ s' backlog' found, s.popCall = .ok (s', found) ∧
      s.Drained s' backlog' (if found then 1 else 0) ∧ (found = false → backlog' = []) := by
  obtain ⟨hok₁, h₁⟩ := h.loadTail hpop
  cases backlog with
  | nil =>
    obtain ⟨hok₂, h₂⟩ := h₁.findNothing rfl (by simp)
    refine ⟨_, [], false, ?_, ⟨h₂, rfl, rfl, rfl, by simp [MpscQueue.frees]⟩, fun _ => rfl⟩
    simp only [MpscQueue.popCall, hok₁, hok₂, bind, Except.bind]
    rfl
  | cons e rest =>
    obtain ⟨hok₂, h₂⟩ := h₁.find rfl (h.linker_eq_none hfinished List.mem_cons_self)
    have h₃ := h₂.storeTail rfl
    have h₄ := h₃.freeTail rfl
    obtain ⟨node, hnode⟩ := h₃.retired _ _ rfl
    obtain ⟨d, hd⟩ := h₄.chain.deref
    have h₅ := h₄.take rfl hd
    refine ⟨_, rest, true, ?_, ⟨h₅, rfl, rfl, by simp, by simp [MpscQueue.frees]⟩,
      fun heq => by cases heq⟩
    have hok₄ : MpscQueue.popStep { s with
        tail := e.ptr
        pop := .storedTail s.tail e.ptr } = .ok _ := bind_eq_ok.mpr ⟨node, hnode, rfl⟩
    have hok₅ : MpscQueue.popStep { s with
        memory := s.memory.free s.tail.node
        tail := e.ptr
        pop := .freed e.ptr
        trace := s.trace ++ [.free s.tail.node] } = .ok _ := bind_eq_ok.mpr ⟨d, hd, rfl⟩
    exact bind_eq_ok.mpr ⟨_, hok₁, bind_eq_ok.mpr ⟨_, hok₂, bind_eq_ok.mpr ⟨_, rfl,
      bind_eq_ok.mpr ⟨_, hok₄, bind_eq_ok.mpr ⟨_, hok₅, rfl⟩⟩⟩⟩⟩

/-- No more nodes were freed than allocated. -/
lemma frees_length_le (h : s.Represents backlog) :
    (MpscQueue.frees s.trace).length ≤ s.memory.fresh := by
  have hsub : MpscQueue.frees s.trace ⊆ List.range s.memory.fresh := fun n hn =>
    List.mem_range.mpr ((h.freed n).mp hn).1
  simpa using (List.subperm_of_subset h.frees hsub).length_le

/-- The loop of the destructor takes everything off. -/
lemma popAll (h : s.Represents backlog) (hpop : s.pop = .idle)
    (hfinished : ∀ thread, (s.pushes thread).isFinished) :
    ∃ s', Loop.doWhile .diverges (fun r : MpscQueue α × Bool => r.2) (fun r => r.1.popCall)
        (s.memory.fresh + 1) (s, false) = .ok (s', false) ∧
      s'.Represents [] ∧ s'.pop = .idle ∧ s'.pushes = s.pushes := by
  obtain ⟨⟨s', found⟩, hok, ⟨backlog', h', hpop', hpushes, hnil⟩, rfl⟩ :
      ∃ r, Loop.doWhile .diverges (fun r : MpscQueue α × Bool => r.2) (fun r => r.1.popCall)
          (s.memory.fresh + 1) (s, false) = .ok r ∧
        (∃ backlog, r.1.Represents backlog ∧ r.1.pop = .idle ∧ r.1.pushes = s.pushes ∧
          (r.2 = false → backlog = [])) ∧ r.2 = false := Loop.doWhile_total (s := (s, false))
    (fun r : MpscQueue α × Bool => (∃ backlog, r.1.Represents backlog) ∧ r.1.pop = .idle ∧
      r.1.pushes = s.pushes)
    (fun r : MpscQueue α × Bool => ∃ backlog, r.1.Represents backlog ∧ r.1.pop = .idle ∧
      r.1.pushes = s.pushes ∧ (r.2 = false → backlog = []))
    (fun r : MpscQueue α × Bool => r.1.memory.fresh - (MpscQueue.frees r.1.trace).length)
    (by
      rintro ⟨r, b⟩ ⟨⟨backlog, hr⟩, hpop, hpushes⟩
      obtain ⟨r', backlog', found, hok, hdrained, hnil⟩ :=
        hr.popCall hpop fun thread => by rw [hpushes]; exact hfinished thread
      have hpushes' := hdrained.pushes.trans hpushes
      refine ⟨(r', found), hok, ⟨backlog', hdrained.represents, hdrained.idle, hpushes', hnil⟩, ?_⟩
      rintro rfl
      refine ⟨⟨⟨backlog', hdrained.represents⟩, hdrained.idle, hpushes'⟩, ?_⟩
      have hle := hdrained.represents.frees_length_le
      have hfrees : (MpscQueue.frees r'.trace).length = (MpscQueue.frees r.trace).length + 1 :=
        hdrained.frees
      have hfresh : r'.memory.fresh = r.memory.fresh := hdrained.fresh
      show r'.memory.fresh - (MpscQueue.frees r'.trace).length <
        r.memory.fresh - (MpscQueue.frees r.trace).length
      omega)
    ⟨⟨backlog, h⟩, hpop, rfl⟩ (Nat.lt_succ_of_le (Nat.sub_le _ _))
  obtain rfl := hnil rfl
  exact ⟨s', hok, h', hpop', hpushes⟩

end Represents

/-- When all calls have returned the destructor frees what was not freed. -/
lemma Represents.destroy (h : s.Represents backlog) (hquiescent : s.Quiescent) :
    ∃ s', s.destroy = .ok s' ∧
      ∀ node < s'.memory.fresh,
        s'.memory.load node = none ∧ (MpscQueue.frees s'.trace).count node = 1 := by
  obtain ⟨s', hok, h', hpop, hpushes⟩ := h.popAll hquiescent.2 hquiescent.1
  obtain ⟨hhead, node, hnode, -⟩ := h'.chain
  rw [hhead] at hnode
  have hload := (deref_eq_ok.mp hnode).1
  -- the head is the only node that is left
  have hleft : ∀ n, s'.memory.load n ≠ none → n = s'.head.node := by
    intro n hn
    rcases h'.live n hn with hmem | ⟨thread, hheld⟩ | ⟨old, next, hstored, -⟩
    · rw [← hhead]
      exact List.mem_singleton.mp hmem
    · rw [hpushes, Push.holds_of_isFinished (hquiescent.1 thread)] at hheld
      cases hheld
    · rw [hpop] at hstored
      cases hstored
  refine ⟨{ s' with
    memory := s'.memory.free s'.head.node
    trace := s'.trace ++ [.free s'.head.node] }, ?_, fun n hn => ?_⟩
  · exact bind_eq_ok.mpr ⟨_, hok, bind_eq_ok.mpr ⟨_, hnode, rfl⟩⟩
  · have hcount : (MpscQueue.frees [QueueEvent.free (α := α) s'.head.node]) = [s'.head.node] := rfl
    rw [Heap.fresh_free] at hn
    simp only [frees_append, hcount, List.count_append]
    by_cases heq : s'.head.node = n
    · subst heq
      have hnot : s'.head.node ∉ MpscQueue.frees s'.trace := fun hmem => by
        rw [((h'.freed _).mp hmem).2] at hload
        cases hload
      exact ⟨Heap.load_free_self, by simp [List.count_eq_zero_of_not_mem hnot]⟩
    · have hnone : s'.memory.load n = none := by
        by_contra hne
        exact heq (hleft n hne).symm
      have hmem : n ∈ MpscQueue.frees s'.trace := (h'.freed n).mpr ⟨hn, hnone⟩
      refine ⟨(Heap.load_free_of_ne heq).trans hnone, ?_⟩
      rw [List.count_eq_one_of_mem h'.frees hmem, List.count_eq_zero_of_not_mem (by
        simpa using Ne.symm heq)]

/-- The law holds in every state that the invariant holds in. -/
lemma Sound.queueLaw (h : s.Sound) : s.QueueLaw := by
  obtain ⟨⟨backlog, hrep⟩, hempty⟩ := h
  refine ⟨?_, hempty, hrep.destroy⟩
  obtain ⟨out, items, hex, hout, -⟩ := hrep.history
  rw [hex, List.map_append, hout, List.append_assoc]
  exact List.prefix_append _ _

/-- In every interleaving of the steps of any number of calls of `push` with those of `pop`, no
step accesses a node that was freed, and the law of the queue holds in every state reached. -/
theorem queueLaw_of_exec [Inhabited α] (addr : Nat) (acts : List (QueueAct α)) :
    (∀ fault, exec step (new addr) acts = .error fault → fault = .disabled) ∧
      ∀ s, exec step (new addr) acts = .ok s → s.QueueLaw := by
  rcases sound_exec (sound_new (α := α) addr) acts with herr | ⟨s', hok, h⟩
  · constructor
    · intro fault hfault
      exact (Except.error.inj (herr.symm.trans hfault)).symm
    · intro s hok
      rw [herr] at hok
      cases hok
  · constructor
    · intro fault hfault
      rw [hok] at hfault
      cases hfault
    · intro s hs
      obtain rfl := Except.ok.inj (hok.symm.trans hs)
      exact h.queueLaw

end MpscQueue

end WhatTheEvent
