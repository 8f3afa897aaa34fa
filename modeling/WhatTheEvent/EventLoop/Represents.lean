import Mathlib.Data.List.Nodup
import WhatTheEvent.EventLoop.Backlog

/-!
# What a queue represents

The invariant of the queue, one lemma for each step of `push` and of `pop`.
-/

namespace WhatTheEvent

variable {α : Type}

namespace Push

variable {x : Push α} {cur prev cur' prev' : Ptr} {n : Nat}

lemma not_linking_of_isFinished (h : x.isFinished = true) : ¬ x.Linking cur prev := by
  cases x <;> first | exact id | cases h

lemma holds_of_isFinished (h : x.isFinished = true) : x.holds = none := by
  cases x <;> first | rfl | cases h

/-- A call that has a node to link has exchanged it. -/
lemma Linking.holds (h : x.Linking cur prev) : x.holds = none := by
  cases x <;> first | rfl | exact absurd h id

lemma Linking.unique (h : x.Linking cur prev) (h' : x.Linking cur' prev') :
    cur' = cur ∧ prev' = prev := by
  cases x <;> first | exact absurd h id | exact ⟨h'.1.symm.trans h.1, h'.2.symm.trans h.2⟩

lemma holds_eq_some : x.holds = some n ↔ ∃ cur item, x = .allocated cur item ∧ cur.node = n := by
  cases x <;> simp [holds]

end Push

namespace MpscQueue

variable {memory memory' : Heap (Node α)} {pushes pushes' : Nat → Push α} {cur prev : Ptr}
  {backlog : List (Entry α)} {e : Entry α} {node : Node α} {thread : Nat} {item : α}
  {s s' : MpscQueue α} {addr : Nat} {x : Push α}

/-- The items taken off the backlog that `pop` has not returned. -/
def InFlight (s : MpscQueue α) (items : List α) : Prop :=
  match s.pop with
  | .storedTail _ next | .freed next =>
    next = s.tail ∧ ∃ node, deref s.memory s.tail = .ok node ∧ items = [node.data]
  | _ => items = []

/-- The local variables of `pop` agree with the queue. -/
def PopPlace (s : MpscQueue α) (backlog : List (Entry α)) : Prop :=
  match s.pop with
  | .loadedTail tail => tail = s.tail
  | .loadedNext tail next =>
    tail = s.tail ∧ ∃ e rest, backlog = e :: rest ∧ e.linker = none ∧ e.ptr = next
  | _ => True

/-- A live node that is not in the list: one that `push` has not exchanged, or that `pop` has taken
out and not freed. -/
def Loose (s : MpscQueue α) (n : Nat) : Prop :=
  (∃ thread, (s.pushes thread).holds = some n) ∨
    ∃ old next, s.pop = .storedTail old next ∧ old.node = n

/-- The list of nodes from `tail_` on is the backlog, what was exchanged is what was taken out and
the backlog, and every node that was allocated is live in one place or was freed once. -/
structure Represents (s : MpscQueue α) (backlog : List (Entry α)) : Prop where
  chain : Chain s.memory s.pushes s.head s.tail backlog
  nodup : (s.tail.node :: nodes backlog).Nodup
  linking : ∀ thread cur prev, (s.pushes thread).Linking cur prev →
    ∃ e ∈ backlog, e.linker = some thread
  allocated : ∀ thread cur item, s.pushes thread = .allocated cur item →
    deref s.memory cur = .ok ⟨cur.addr, item, none⟩
  retired : ∀ old next, s.pop = .storedTail old next → ∃ node, deref s.memory old = .ok node
  distinct : ∀ thread thread' n, (s.pushes thread).holds = some n →
    (s.pushes thread').holds = some n → thread = thread'
  place : s.PopPlace backlog
  history : ∃ out items, exchanged s.trace = out ++ backlog.map (fun e => (e.ptr.node, e.item)) ∧
    out.map Prod.snd = popped s.trace ++ items ∧ s.InFlight items
  unpublished : ∀ e ∈ backlog, e.linker ≠ none → .publish e.ptr.node ∉ s.trace
  unheld : ∀ thread n, (s.pushes thread).holds = some n → .publish n ∉ s.trace
  old : ∀ n, .publish n ∈ s.trace → n < s.memory.fresh
  loose : ∀ n, s.Loose n → n ∉ s.tail.node :: nodes backlog
  apart : ∀ thread old next, s.pop = .storedTail old next → (s.pushes thread).holds ≠ some old.node
  live : ∀ n, s.memory.load n ≠ none → n ∈ s.tail.node :: nodes backlog ∨ s.Loose n
  frees : (frees s.trace).Nodup
  freed : ∀ n, n ∈ MpscQueue.frees s.trace ↔ n < s.memory.fresh ∧ s.memory.load n = none

/-! ### Helper lemmas -/

@[simp] lemma exchanged_append (t t' : List (QueueEvent α)) :
    exchanged (t ++ t') = exchanged t ++ exchanged t' := List.filterMap_append

@[simp] lemma popped_append (t t' : List (QueueEvent α)) :
    popped (t ++ t') = popped t ++ popped t' := List.filterMap_append

@[simp] lemma frees_append (t t' : List (QueueEvent α)) :
    frees (t ++ t') = frees t ++ frees t' := List.filterMap_append

/-- A change of one call that links what the call before had to link. -/
lemma linking_update (himp : ∀ cur prev, (pushes thread).Linking cur prev → x.Linking cur prev)
    {other : Nat} (h : (pushes other).Linking cur prev) :
    (Function.update pushes thread x other).Linking cur prev := by
  by_cases heq : other = thread
  · subst heq
    rw [Function.update_self]
    exact himp _ _ h
  · rwa [Function.update_of_ne heq]

/-- A change of one call leaves the others. -/
lemma update_cases {P : Push α → Prop} {other : Nat}
    (h : P (Function.update pushes thread x other)) :
    other = thread ∧ P x ∨ other ≠ thread ∧ P (pushes other) := by
  by_cases heq : other = thread
  · subst heq
    rw [Function.update_self] at h
    exact .inl ⟨rfl, h⟩
  · rw [Function.update_of_ne heq] at h
    exact .inr ⟨heq, h⟩

/-- A call that holds no node leaves what the others hold. -/
lemma holds_update (hx : x.holds = none) {other n : Nat}
    (h : (Function.update pushes thread x other).holds = some n) :
    other ≠ thread ∧ (pushes other).holds = some n := by
  rcases update_cases (P := fun x => x.holds = some n) h with ⟨-, hn⟩ | hn
  · rw [hx] at hn
    cases hn
  · exact hn

/-- A change of a call that holds no node leaves what the others hold. -/
lemma holds_update_of_none (hnone : (pushes thread).holds = none) {other n : Nat}
    (h : (pushes other).holds = some n) :
    (Function.update pushes thread x other).holds = some n := by
  have hne : other ≠ thread := by
    rintro rfl
    rw [hnone] at h
    cases h
  rwa [Function.update_of_ne hne]

/-- A node stays out of the list where its place is kept. -/
lemma Loose.imp {n : Nat} (h : s.Loose n)
    (hholds : ∀ thread, (s.pushes thread).holds = some n → (s'.pushes thread).holds = some n)
    (hpop : ∀ old next, s.pop = .storedTail old next → old.node = n →
      s'.pop = .storedTail old next) : s'.Loose n := by
  rcases h with ⟨thread, hn⟩ | ⟨old, next, hstored, hn⟩
  · exact .inl ⟨thread, hholds thread hn⟩
  · exact .inr ⟨old, next, hpop old next hstored hn, hn⟩

/-- `pop` stays where it is when the first entry of the backlog stays, if it is linked. -/
lemma PopPlace.of_first {backlog' : List (Entry α)} (h : s.PopPlace backlog)
    (hpop : s'.pop = s.pop) (htail : s'.tail = s.tail)
    (hfirst : ∀ e rest, backlog = e :: rest → e.linker = none → ∃ rest', backlog' = e :: rest') :
    s'.PopPlace backlog' := by
  unfold PopPlace at h ⊢
  rw [hpop, htail]
  cases hp : s.pop with
  | loadedTail tail =>
    rw [hp] at h
    exact h
  | loadedNext tail next =>
    rw [hp] at h
    obtain ⟨htail, e, rest, hbacklog, hlinker, hptr⟩ := h
    obtain ⟨rest', hbacklog'⟩ := hfirst e rest hbacklog hlinker
    exact ⟨htail, e, rest', hbacklog', hlinker, hptr⟩
  | idle | storedTail | freed => trivial

/-- Nothing is taken off, and the data in front stays. -/
lemma InFlight.of_same {items : List α} (h : s.InFlight items) (hpop : s'.pop = s.pop)
    (htail : s'.tail = s.tail)
    (hdata : ∀ node, deref s.memory s.tail = .ok node →
      ∃ d, deref s'.memory s.tail = .ok d ∧ d.data = node.data) : s'.InFlight items := by
  unfold InFlight at h ⊢
  rw [hpop, htail]
  have hfront : ∀ {next : Ptr}, (next = s.tail ∧ ∃ node, deref s.memory s.tail = .ok node ∧
      items = [node.data]) → next = s.tail ∧ ∃ node, deref s'.memory s.tail = .ok node ∧
      items = [node.data] := by
    rintro next ⟨hnext, node, hnode, hitems⟩
    obtain ⟨d, hd, hdd⟩ := hdata node hnode
    exact ⟨hnext, d, hd, by rw [hitems, hdd]⟩
  cases hp : s.pop with
  | storedTail tail next =>
    rw [hp] at h
    exact hfront h
  | freed next =>
    rw [hp] at h
    exact hfront h
  | idle | loadedTail | loadedNext =>
    rw [hp] at h
    exact h

/-- The nodes of a chain are live. -/
lemma Chain.live {head p : Ptr} (h : Chain memory pushes head p backlog) {n : Nat}
    (hn : n ∈ p.node :: nodes backlog) : ∃ node, memory.load n = some node := by
  induction backlog generalizing p with
  | nil =>
    obtain ⟨node, hnode⟩ := h.deref
    obtain rfl := List.mem_singleton.mp hn
    exact ⟨node, (deref_eq_ok.mp hnode).1⟩
  | cons e backlog ih =>
    rcases List.mem_cons.mp hn with rfl | hn
    · obtain ⟨node, hnode⟩ := h.deref
      exact ⟨node, (deref_eq_ok.mp hnode).1⟩
    · exact ih h.2.2 hn

namespace Represents

/-- A node that a call of `push` has not exchanged is live. -/
lemma live_of_holds (h : s.Represents backlog) {n : Nat} (hn : (s.pushes thread).holds = some n) :
    ∃ node, s.memory.load n = some node := by
  obtain ⟨cur, item, hpush, rfl⟩ := Push.holds_eq_some.mp hn
  exact ⟨_, (deref_eq_ok.mp (h.allocated thread cur item hpush)).1⟩

lemma fresh_not_mem (h : s.Represents backlog) :
    s.memory.fresh ∉ s.tail.node :: nodes backlog := by
  intro hmem
  obtain ⟨node, hnode⟩ := h.chain.live hmem
  exact absurd (Heap.lt_fresh hnode) (Nat.lt_irrefl _)

/-- What `prev` points to is live until the call of `push` has stored to `prev->next`. -/
lemma exists_prev (h : s.Represents backlog) (hl : (s.pushes thread).Linking cur prev) :
    ∃ e ∈ backlog, e.linker = some thread ∧ e.ptr = cur ∧
      (∃ node, deref s.memory prev = .ok node ∧ node.next = none) ∧
      prev.node ∈ s.tail.node :: nodes backlog := by
  obtain ⟨e, he, hlinker⟩ := h.linking thread cur prev hl
  obtain ⟨q, node, hnode, hnext, hq, hmem⟩ := h.chain.exists_prev he hlinker
  obtain ⟨hcur, rfl⟩ := hl.unique hq
  exact ⟨e, he, hlinker, hcur, ⟨node, hnode, hnext⟩, hmem⟩

end Represents

lemma represents_new [Inhabited α] (addr : Nat) : (new addr : MpscQueue α).Represents [] where
  chain := ⟨rfl, ⟨addr, default, none⟩, deref_eq_ok.mpr ⟨rfl, rfl⟩, rfl⟩
  nodup := List.nodup_singleton _
  linking := fun _ _ _ h => absurd h id
  allocated := fun _ _ _ h => nomatch h
  retired := fun _ _ h => nomatch h
  distinct := fun _ _ _ h => nomatch h
  place := trivial
  history := ⟨[], [], rfl, rfl, rfl⟩
  unpublished := fun _ h => absurd h List.not_mem_nil
  unheld := fun _ _ h => nomatch h
  old := fun _ h => absurd h List.not_mem_nil
  loose := by
    rintro n (⟨thread, h⟩ | ⟨old, next, h, -⟩)
    · cases h
    · cases h
  apart := fun _ _ _ h => nomatch h
  live := by
    intro n h
    cases n with
    | zero => exact .inl List.mem_cons_self
    | succ n => exact absurd rfl h
  frees := List.nodup_nil
  freed := by
    intro n
    constructor
    · intro h
      exact absurd h List.not_mem_nil
    · rintro ⟨hlt, hload⟩
      obtain rfl : n = 0 := Nat.lt_one_iff.mp hlt
      cases hload

/-! ### The steps of `push` -/

namespace Represents

/-- The allocation of a node. -/
lemma push (h : s.Represents backlog) (hok : s.push thread item addr = .ok s') :
    s'.Represents backlog := by
  unfold MpscQueue.push at hok
  split_ifs at hok with hguard
  obtain rfl := Except.ok.inj hok
  have hfinished := hguard.1
  -- what was there before is not the new node
  have hold : ∀ {q node}, deref s.memory q = .ok node →
      deref (s.memory.alloc ⟨addr, item, none⟩) q = .ok node := fun hq => deref_alloc hq _
  have hholds : ∀ {other n}, (Function.update s.pushes thread
      (.allocated ⟨addr, s.memory.fresh⟩ item) other).holds = some n →
      other = thread ∧ n = s.memory.fresh ∨ other ≠ thread ∧ (s.pushes other).holds = some n := by
    intro other n hn
    rcases update_cases (P := fun x => x.holds = some n) hn with ⟨heq, hn⟩ | hn
    · exact .inl ⟨heq, (Option.some.inj hn).symm⟩
    · exact .inr hn
  have hfresh : ∀ {other}, (s.pushes other).holds ≠ some s.memory.fresh := by
    intro other hn
    obtain ⟨node, hnode⟩ := h.live_of_holds hn
    exact absurd (Heap.lt_fresh hnode) (Nat.lt_irrefl _)
  exact {
    chain := h.chain.frame (fun q node _ => hold) fun e he other q hl => linking_update
      fun cur prev hl => absurd hl (Push.not_linking_of_isFinished hfinished)
    nodup := h.nodup
    linking := by
      intro other cur prev hl
      rcases update_cases (P := Push.Linking cur prev) hl with ⟨-, hl⟩ | ⟨-, hl⟩
      · exact absurd hl id
      · exact h.linking other cur prev hl
    allocated := by
      intro other cur item' hpush
      rcases update_cases (P := fun x => x = .allocated cur item') hpush with ⟨-, hx⟩ | ⟨-, hpush⟩
      · obtain ⟨rfl, rfl⟩ := Push.allocated.inj hx
        exact deref_alloc_fresh addr
      · exact hold (h.allocated other cur item' hpush)
    retired := by
      intro old next hpop
      obtain ⟨node, hnode⟩ := h.retired old next hpop
      exact ⟨node, hold hnode⟩
    distinct := by
      intro other other' n hn hn'
      rcases hholds hn with ⟨hother, hnew⟩ | ⟨-, hold⟩ <;>
        rcases hholds hn' with ⟨hother', hnew'⟩ | ⟨-, hold'⟩
      · exact hother.trans hother'.symm
      · exact absurd (hold'.trans (congrArg some hnew)) hfresh
      · exact absurd (hold.trans (congrArg some hnew')) hfresh
      · exact h.distinct other other' n hold hold'
    place := h.place
    history := by
      obtain ⟨out, items, hex, hout, hin⟩ := h.history
      exact ⟨out, items, hex, hout, hin.of_same rfl rfl fun node hq => ⟨node, hold hq, rfl⟩⟩
    unpublished := h.unpublished
    unheld := by
      intro other n hn hmem
      rcases hholds hn with ⟨-, rfl⟩ | ⟨-, hn⟩
      · exact absurd (h.old _ hmem) (Nat.lt_irrefl _)
      · exact h.unheld other n hn hmem
    old := fun n hmem => by
      rw [Heap.fresh_alloc]
      exact Nat.lt_succ_of_lt (h.old n hmem)
    loose := by
      rintro n (⟨other, hn⟩ | hpop)
      · rcases hholds hn with ⟨-, rfl⟩ | ⟨-, hn⟩
        · exact h.fresh_not_mem
        · exact h.loose n (.inl ⟨other, hn⟩)
      · exact h.loose n (.inr hpop)
    apart := by
      intro other old next hpop hn
      rcases hholds hn with ⟨-, hn⟩ | ⟨-, hn⟩
      · obtain ⟨node, hnode⟩ := h.retired old next hpop
        exact absurd (Heap.lt_fresh (deref_eq_ok.mp hnode).1) (by rw [hn]; exact Nat.lt_irrefl _)
      · exact h.apart other old next hpop hn
    live := by
      intro n hn
      by_cases heq : n = s.memory.fresh
      · exact .inr (.inl ⟨thread, by simp [Push.holds, heq]⟩)
      · rw [Heap.load_alloc_of_ne heq] at hn
        exact (h.live n hn).imp_right fun hloose => hloose.imp
          (fun _ => holds_update_of_none (Push.holds_of_isFinished hfinished))
          fun _ _ hpop _ => hpop
    frees := h.frees
    freed := by
      intro n
      rw [h.freed n, Heap.fresh_alloc]
      by_cases heq : n = s.memory.fresh
      · simp [heq, Heap.load_alloc_fresh]
      · rw [Heap.load_alloc_of_ne heq]
        exact and_congr_left fun _ => ⟨Nat.lt_succ_of_lt, fun hlt =>
          Nat.lt_of_le_of_ne (Nat.le_of_lt_succ hlt) heq⟩ }

/-- The exchange of `head_`. -/
lemma exchange (h : s.Represents backlog) (hpush : s.pushes thread = .allocated cur item) :
    Represents { s with
      head := cur
      pushes := Function.update s.pushes thread (.exchanged cur s.head)
      trace := s.trace ++ [.exchange cur.node item] } (backlog ++ [⟨cur, item, some thread⟩]) := by
  have hcur : (s.pushes thread).holds = some cur.node := by rw [hpush]; rfl
  have hnode := h.allocated thread cur item hpush
  have hnot : cur.node ∉ s.tail.node :: nodes backlog := h.loose _ (.inl ⟨thread, hcur⟩)
  have hnodes : nodes (backlog ++ [⟨cur, item, some thread⟩]) = nodes backlog ++ [cur.node] := by
    simp [nodes]
  have hnew : Function.update s.pushes thread (.exchanged cur s.head) thread =
      .exchanged cur s.head := Function.update_self ..
  have hkept : ∀ {other q q'}, (s.pushes other).Linking q q' →
      (Function.update s.pushes thread (.exchanged cur s.head) other).Linking q q' :=
    linking_update fun q q' hl => absurd hl (by rw [hpush]; exact id)
  exact {
    chain := by
      have hchain : Chain s.memory (Function.update s.pushes thread (.exchanged cur s.head)) s.head
          s.tail backlog := h.chain.frame (fun q node _ hq => hq) fun e he other q hl => hkept
      exact hchain.concat hnode rfl (by rw [hnew]; exact ⟨rfl, rfl⟩)
    nodup := by
      rw [hnodes, ← List.cons_append, ← List.concat_eq_append]
      exact List.Nodup.concat hnot h.nodup
    linking := by
      intro other q q' hl
      rcases update_cases (P := Push.Linking q q') hl with ⟨rfl, -⟩ | ⟨-, hl⟩
      · exact ⟨_, List.mem_append_right _ (List.mem_singleton_self _), rfl⟩
      · obtain ⟨e, he, hlinker⟩ := h.linking other q q' hl
        exact ⟨e, List.mem_append_left _ he, hlinker⟩
    allocated := by
      intro other q item' hq
      rcases update_cases (P := fun x => x = .allocated q item') hq with ⟨-, hx⟩ | ⟨-, hq⟩
      · cases hx
      · exact h.allocated other q item' hq
    retired := h.retired
    distinct := by
      intro other other' n hn hn'
      exact h.distinct other other' n (holds_update rfl hn).2 (holds_update rfl hn').2
    place := h.place.of_first rfl rfl fun e rest hbacklog _ =>
      ⟨rest ++ [⟨cur, item, some thread⟩], by rw [hbacklog, List.cons_append]⟩
    history := by
      obtain ⟨out, items, hex, hout, hin⟩ := h.history
      refine ⟨out, items, ?_, ?_, hin⟩
      · rw [exchanged_append, hex, List.map_append, List.append_assoc]
        rfl
      · rw [popped_append, hout]
        simp [popped]
    unpublished := by
      intro e he hlinker hmem
      have hmem : .publish e.ptr.node ∈ s.trace := by simpa using hmem
      rcases List.mem_append.mp he with he | he
      · exact h.unpublished e he hlinker hmem
      · obtain rfl := List.mem_singleton.mp he
        exact h.unheld thread cur.node hcur hmem
    unheld := by
      intro other n hn hmem
      exact h.unheld other n (holds_update rfl hn).2 (by simpa using hmem)
    old := fun n hmem => h.old n (by simpa using hmem)
    loose := by
      have hother : ∀ n, s.Loose n → n ≠ cur.node → n ∉ s.tail.node :: nodes (backlog ++
          [⟨cur, item, some thread⟩]) := by
        intro n hn hne
        rw [hnodes, ← List.cons_append]
        exact fun hmem => (List.mem_append.mp hmem).elim (h.loose n hn)
          fun hmem => hne (List.mem_singleton.mp hmem)
      rintro n (⟨other, hn⟩ | ⟨old, next, hpop, rfl⟩)
      · obtain ⟨hne, hn⟩ := holds_update rfl hn
        exact hother n (.inl ⟨other, hn⟩) fun heq =>
          hne (h.distinct other thread n hn (heq ▸ hcur))
      · exact hother _ (.inr ⟨old, next, hpop, rfl⟩) fun heq =>
          h.apart thread old next hpop (heq ▸ hcur)
    apart := fun other old next hpop hn => h.apart other old next hpop (holds_update rfl hn).2
    live := by
      intro n hn
      rw [hnodes, ← List.cons_append]
      rcases h.live n hn with hmem | ⟨other, hother⟩ | hpop
      · exact .inl (List.mem_append_left _ hmem)
      · by_cases heq : other = thread
        · subst heq
          obtain rfl := Option.some.inj (hcur.symm.trans hother)
          exact .inl (List.mem_append_right _ (List.mem_singleton_self _))
        · exact .inr (.inl ⟨other, by simpa [heq] using hother⟩)
      · exact .inr (.inr hpop)
    frees := by simpa [MpscQueue.frees] using h.frees
    freed := fun n => by simpa [MpscQueue.frees] using h.freed n }

/-- The loads of `tail_` in `push`, after which the call has the same node to link or none. -/
lemma compared (h : s.Represents backlog) (hholds : (s.pushes thread).holds = none)
    (hx : x.holds = none) (hlinking : ∀ cur prev, (s.pushes thread).Linking cur prev ↔
      x.Linking cur prev) :
    Represents { s with pushes := Function.update s.pushes thread x } backlog where
  chain := h.chain.frame (fun _ _ _ hq => hq) fun _ _ _ _ _ =>
    linking_update fun cur prev => (hlinking cur prev).mp
  nodup := h.nodup
  linking := by
    intro other cur prev hl
    rcases update_cases (P := Push.Linking cur prev) hl with ⟨heq, hx⟩ | ⟨-, hl⟩
    · rw [heq]
      exact h.linking thread cur prev ((hlinking cur prev).mpr hx)
    · exact h.linking other cur prev hl
  allocated := by
    intro other cur item hpush
    rcases update_cases (P := fun x => x = .allocated cur item) hpush with ⟨-, rfl⟩ | ⟨-, hpush⟩
    · cases hx
    · exact h.allocated other cur item hpush
  retired := h.retired
  distinct := fun other other' n hn hn' =>
    h.distinct other other' n (holds_update hx hn).2 (holds_update hx hn').2
  place := h.place
  history := h.history
  unpublished := h.unpublished
  unheld := fun other n hn => h.unheld other n (holds_update hx hn).2
  old := h.old
  loose := fun n hn => h.loose n
    (hn.imp (fun _ hn => (holds_update hx hn).2) fun _ _ hpop _ => hpop)
  apart := fun other old next hpop hn => h.apart other old next hpop (holds_update hx hn).2
  live := fun n hn => (h.live n hn).imp_right fun hloose =>
    hloose.imp (fun _ => holds_update_of_none hholds) fun _ _ hpop _ => hpop
  frees := h.frees
  freed := h.freed

/-- The store to `prev->next`. -/
lemma publish (h : s.Represents backlog) (hl : (s.pushes thread).Linking cur prev)
    (hnode : deref s.memory prev = .ok node) (hx : x.holds = none)
    (hnot : ∀ cur prev, ¬ x.Linking cur prev) :
    Represents { s with
      memory := s.memory.store prev.node { node with next := some cur }
      pushes := Function.update s.pushes thread x
      trace := s.trace ++ [.publish cur.node] } (backlog.map (Entry.publish thread)) := by
  obtain ⟨e, he, hlinker, rfl, -, hprev⟩ := h.exists_prev hl
  have hload := (deref_eq_ok.mp hnode).1
  have hmem : e.ptr.node ∈ nodes backlog := List.mem_map_of_mem he
  -- the entries that are still to be linked are the ones of the other threads
  have hentry : ∀ e' ∈ backlog.map (Entry.publish thread), ∃ e'' ∈ backlog, e''.ptr = e'.ptr ∧
      (e'.linker ≠ none → e''.linker = e'.linker ∧ e'.linker ≠ some thread) := by
    intro e' he'
    obtain ⟨e'', he'', rfl⟩ := List.mem_map.mp he'
    unfold Entry.publish
    split_ifs with hthread
    · exact ⟨e'', he'', rfl, fun hne => absurd rfl hne⟩
    · exact ⟨e'', he'', rfl, fun _ => ⟨rfl, hthread⟩⟩
  exact {
    chain := h.chain.publish h.nodup ⟨e, he, hlinker⟩ (fun cur' prev' => hl.unique) hnode
      fun other hne => Function.update_of_ne hne ..
    nodup := by
      rw [nodes_publish]
      exact h.nodup
    linking := by
      intro other q q' hq
      rcases update_cases (P := Push.Linking q q') hq with ⟨-, hq⟩ | ⟨heq, hq⟩
      · exact absurd hq (hnot q q')
      · obtain ⟨e', he', hlinker'⟩ := h.linking other q q' hq
        refine ⟨_, List.mem_map_of_mem he', ?_⟩
        rw [Entry.publish, if_neg (by rw [hlinker']; exact fun hs => heq (Option.some.inj hs))]
        exact hlinker'
    allocated := by
      intro other q item hq
      rcases update_cases (P := fun x => x = .allocated q item) hq with ⟨-, rfl⟩ | ⟨-, hq⟩
      · cases hx
      · have hn := Push.holds_eq_some.mpr ⟨q, item, hq, rfl⟩
        have hne : prev.node ≠ q.node := fun heq => h.loose _ (.inl ⟨other, hn⟩) (heq ▸ hprev)
        exact (deref_store_of_ne hne).trans (h.allocated other q item hq)
    retired := by
      intro old next hpop
      obtain ⟨node', hnode'⟩ := h.retired old next hpop
      obtain ⟨d, hd, -⟩ := deref_store_data hnode' hnode (some e.ptr)
      exact ⟨d, hd⟩
    distinct := fun other other' n hn hn' =>
      h.distinct other other' n (holds_update hx hn).2 (holds_update hx hn').2
    place := by
      refine h.place.of_first rfl rfl fun e' rest hbacklog hlinker' =>
        ⟨rest.map (Entry.publish thread), ?_⟩
      rw [hbacklog, List.map_cons, Entry.publish,
        if_neg (by rw [hlinker']; exact fun hs => by cases hs)]
    history := by
      obtain ⟨out, items, hex, hout, hin⟩ := h.history
      refine ⟨out, items, ?_, ?_, hin.of_same rfl rfl fun d hd =>
        deref_store_data hd hnode (some e.ptr)⟩
      · rw [exchanged_append, hex, List.map_map, exchanged, List.filterMap_cons_none rfl,
          List.filterMap_nil, List.append_nil]
        refine congrArg _ (List.map_congr_left fun e' _ => ?_)
        unfold Function.comp Entry.publish
        split_ifs <;> rfl
      · rw [popped_append, hout]
        simp [popped]
    unpublished := by
      intro e' he' hlinker' hpub
      obtain ⟨e'', he'', hptr, hsame⟩ := hentry e' he'
      obtain ⟨hlinker'', hne⟩ := hsame hlinker'
      rw [← hptr] at hpub
      rcases List.mem_append.mp hpub with hpub | hpub
      · exact h.unpublished e'' he'' (hlinker'' ▸ hlinker') hpub
      · have hnodes : e''.ptr.node = e.ptr.node := by simpa using hpub
        obtain rfl := List.inj_on_of_nodup_map (List.nodup_cons.mp h.nodup).2 he'' he hnodes
        exact hne (hlinker''.symm.trans hlinker)
    unheld := by
      intro other n hn hpub
      have hn := (holds_update hx hn).2
      rcases List.mem_append.mp hpub with hpub | hpub
      · exact h.unheld other n hn hpub
      · obtain rfl : n = e.ptr.node := by simpa using hpub
        exact h.loose _ (.inl ⟨other, hn⟩) (List.mem_cons_of_mem _ hmem)
    old := by
      intro n hpub
      rw [Heap.fresh_store]
      rcases List.mem_append.mp hpub with hpub | hpub
      · exact h.old n hpub
      · obtain rfl : n = e.ptr.node := by simpa using hpub
        obtain ⟨node', hnode'⟩ := h.chain.live (List.mem_cons_of_mem _ hmem)
        exact Heap.lt_fresh hnode'
    loose := by
      rw [nodes_publish]
      exact fun n hn => h.loose n
        (hn.imp (fun _ hn => (holds_update hx hn).2) fun _ _ hpop _ => hpop)
    apart := fun other old next hpop hn => h.apart other old next hpop (holds_update hx hn).2
    live := by
      intro n hn
      rw [nodes_publish]
      rw [Ne, Heap.load_store_eq_none hload] at hn
      exact (h.live n hn).imp_right fun hloose =>
        hloose.imp (fun _ => holds_update_of_none hl.holds) fun _ _ hpop _ => hpop
    frees := by simpa [MpscQueue.frees] using h.frees
    freed := by
      intro n
      rw [Heap.fresh_store, Heap.load_store_eq_none hload, ← h.freed n]
      simp [MpscQueue.frees] }

end Represents

/-! ### The steps of `pop` -/

namespace Represents

/-- Nothing is in flight before `tail_` is stored to. -/
lemma history_of_inFlight_nil (h : s.Represents backlog)
    (hpop : ∀ items, s.InFlight items → items = []) : ∃ out,
    exchanged s.trace = out ++ backlog.map (fun e => (e.ptr.node, e.item)) ∧
      out.map Prod.snd = popped s.trace := by
  obtain ⟨out, items, hex, hout, hin⟩ := h.history
  obtain rfl := hpop items hin
  exact ⟨out, hex, hout.trans (List.append_nil _)⟩

/-- A step of `pop` that takes nothing off and frees nothing. -/
lemma look {place : Pop} {events : List (QueueEvent α)} (h : s.Represents backlog)
    (hevents : events = [] ∨ events = [.empty])
    (hplace : PopPlace { s with pop := place } backlog)
    (hin : ∀ items, s.InFlight items → items = [])
    (hin' : InFlight { s with pop := place } [])
    (hstored : ∀ old next, s.pop ≠ .storedTail old next)
    (hstored' : ∀ old next, place ≠ .storedTail old next) :
    Represents { s with pop := place, trace := s.trace ++ events } backlog := by
  have hpub : ∀ n, .publish n ∈ s.trace ++ events → .publish n ∈ s.trace := by
    intro n hn
    rcases hevents with rfl | rfl <;> simpa using hn
  have hsame : exchanged (s.trace ++ events) = exchanged s.trace ∧
      popped (s.trace ++ events) = popped s.trace ∧
      MpscQueue.frees (s.trace ++ events) = MpscQueue.frees s.trace := by
    rcases hevents with rfl | rfl <;> simp [exchanged, popped, MpscQueue.frees]
  exact {
    chain := h.chain
    nodup := h.nodup
    linking := h.linking
    allocated := h.allocated
    retired := fun old next hpop => absurd hpop (hstored' old next)
    distinct := h.distinct
    place := hplace
    history := by
      obtain ⟨out, hex, hout⟩ := h.history_of_inFlight_nil hin
      refine ⟨out, [], hsame.1.trans hex, ?_, hin'⟩
      rw [hout, List.append_nil, hsame.2.1]
    unpublished := fun e he hlinker hmem => h.unpublished e he hlinker (hpub _ hmem)
    unheld := fun other n hn hmem => h.unheld other n hn (hpub n hmem)
    old := fun n hmem => h.old n (hpub n hmem)
    loose := fun n hn => h.loose n
      (hn.imp (fun _ => id) fun old next hpop => absurd hpop (hstored' old next))
    apart := fun other old next hpop => absurd hpop (hstored' old next)
    live := fun n hn => (h.live n hn).imp_right fun hloose =>
      hloose.imp (fun _ => id) fun old next hpop => absurd hpop (hstored old next)
    frees := by rw [hsame.2.2]; exact h.frees
    freed := by rw [hsame.2.2]; exact h.freed }

/-- The store to `tail_`. -/
lemma storeTail {tail next : Ptr} (h : s.Represents backlog)
    (hpop : s.pop = .loadedNext tail next) :
    Represents { s with tail := next, pop := .storedTail tail next } backlog.tail := by
  have hplace := h.place
  unfold PopPlace at hplace
  rw [hpop] at hplace
  obtain ⟨rfl, e, rest, rfl, hlinker, rfl⟩ := hplace
  obtain ⟨node, hnode⟩ := h.chain.deref
  obtain ⟨-, ⟨data, hdata, hitem⟩, hrest⟩ := h.chain
  have hnodup := List.nodup_cons.mp h.nodup
  exact {
    chain := hrest
    nodup := hnodup.2
    linking := by
      intro thread cur prev hl
      obtain ⟨e', he', hlinker'⟩ := h.linking thread cur prev hl
      rcases List.mem_cons.mp he' with rfl | he'
      · rw [hlinker] at hlinker'
        cases hlinker'
      · exact ⟨e', he', hlinker'⟩
    allocated := h.allocated
    retired := by
      intro old next hstored
      obtain ⟨rfl, -⟩ := Pop.storedTail.inj hstored
      exact ⟨node, hnode⟩
    distinct := h.distinct
    place := trivial
    history := by
      have hin : ∀ items, s.InFlight items → items = [] := by
        intro items hin
        unfold InFlight at hin
        rwa [hpop] at hin
      obtain ⟨out, hex, hout⟩ := h.history_of_inFlight_nil hin
      refine ⟨out ++ [(e.ptr.node, e.item)], [e.item], ?_, ?_, rfl, data, hdata, by rw [hitem]⟩
      · rw [hex, List.map_cons, List.append_assoc]
        rfl
      · rw [List.map_append, hout]
        rfl
    unpublished := fun e' he' => h.unpublished e' (List.mem_cons_of_mem _ he')
    unheld := h.unheld
    old := h.old
    loose := by
      rintro n (hn | ⟨old, next, hstored, rfl⟩) hmem
      · exact h.loose n (.inl hn) (List.mem_cons_of_mem _ hmem)
      · obtain ⟨rfl, -⟩ := Pop.storedTail.inj hstored
        exact hnodup.1 hmem
    apart := by
      intro thread old next hstored hn
      obtain ⟨rfl, -⟩ := Pop.storedTail.inj hstored
      exact h.loose _ (.inl ⟨thread, hn⟩) List.mem_cons_self
    live := by
      intro n hn
      rcases h.live n hn with hmem | hheld | ⟨old, next, hstored, -⟩
      · rcases List.mem_cons.mp hmem with rfl | hmem
        · exact .inr (.inr ⟨s.tail, e.ptr, rfl, rfl⟩)
        · exact .inl hmem
      · exact .inr (.inl hheld)
      · rw [hpop] at hstored
        cases hstored
    frees := h.frees
    freed := h.freed }

/-- `freeAligned(tail)`. -/
lemma freeTail {tail next : Ptr} (h : s.Represents backlog) (hpop : s.pop = .storedTail tail next) :
    Represents { s with
      memory := s.memory.free tail.node
      pop := .freed next
      trace := s.trace ++ [.free tail.node] } backlog := by
  obtain ⟨node, hnode⟩ := h.retired tail next hpop
  have hload := (deref_eq_ok.mp hnode).1
  have htail : tail.node ∉ s.tail.node :: nodes backlog := h.loose _ (.inr ⟨tail, next, hpop, rfl⟩)
  have hkept : ∀ {q d}, q.node ∈ s.tail.node :: nodes backlog → deref s.memory q = .ok d →
      deref (s.memory.free tail.node) q = .ok d := by
    intro q d hmem hq
    have hne : tail.node ≠ q.node := fun heq => htail (by rwa [heq])
    exact (deref_free_of_ne hne).trans hq
  have hpub : ∀ n, .publish n ∈ s.trace ++ [.free tail.node] → .publish n ∈ s.trace := by
    intro n hn
    simpa using hn
  exact {
    chain := h.chain.frame (fun q d => hkept) fun _ _ _ _ _ hq => hq
    nodup := h.nodup
    linking := h.linking
    allocated := by
      intro thread cur item hpush
      have hheld := Push.holds_eq_some.mpr ⟨cur, item, hpush, rfl⟩
      have hne : tail.node ≠ cur.node := fun heq => h.apart thread tail next hpop (heq ▸ hheld)
      exact (deref_free_of_ne hne).trans (h.allocated thread cur item hpush)
    retired := fun old next hstored => nomatch hstored
    distinct := h.distinct
    place := trivial
    history := by
      obtain ⟨out, items, hex, hout, hin⟩ := h.history
      unfold InFlight at hin
      rw [hpop] at hin
      obtain ⟨hnext, d, hd, hitems⟩ := hin
      refine ⟨out, items, ?_, ?_, hnext, d, hkept List.mem_cons_self hd, hitems⟩
      · rw [exchanged_append, hex]
        exact List.append_nil _
      · rw [popped_append, hout]
        exact congrArg (· ++ items) (List.append_nil _).symm
    unpublished := fun e he hlinker hmem => h.unpublished e he hlinker (hpub _ hmem)
    unheld := fun thread n hn hmem => h.unheld thread n hn (hpub n hmem)
    old := fun n hmem => by
      rw [Heap.fresh_free]
      exact h.old n (hpub n hmem)
    loose := fun n hn => h.loose n (hn.imp (fun _ => id) fun _ _ hstored => by cases hstored)
    apart := fun thread old next hstored => nomatch hstored
    live := by
      intro n hn
      by_cases heq : tail.node = n
      · subst heq
        exact absurd Heap.load_free_self hn
      · rw [Heap.load_free_of_ne heq] at hn
        refine (h.live n hn).imp_right fun hloose => hloose.imp (fun _ => id) ?_
        intro old next' hstored hold
        obtain ⟨rfl, -⟩ := Pop.storedTail.inj (hpop.symm.trans hstored)
        exact absurd hold heq
    frees := by
      rw [frees_append]
      refine List.Nodup.append h.frees (List.nodup_singleton _) ?_
      intro n hn hnew
      obtain rfl := List.mem_singleton.mp hnew
      rw [((h.freed _).mp hn).2] at hload
      cases hload
    freed := by
      intro n
      rw [frees_append, List.mem_append, h.freed n, Heap.fresh_free]
      by_cases heq : tail.node = n
      · subst heq
        simp [MpscQueue.frees, Heap.lt_fresh hload]
      · rw [Heap.load_free_of_ne heq]
        simp [MpscQueue.frees, Ne.symm heq] }

/-- `next->data` is moved out. -/
lemma take {next : Ptr} {d : Node α} (h : s.Represents backlog) (hpop : s.pop = .freed next)
    (hd : deref s.memory next = .ok d) :
    Represents { s with pop := .idle, trace := s.trace ++ [.popped d.data] } backlog := by
  have hpub : ∀ n, .publish n ∈ s.trace ++ [.popped d.data] → .publish n ∈ s.trace := by
    intro n hn
    simpa using hn
  exact {
    chain := h.chain
    nodup := h.nodup
    linking := h.linking
    allocated := h.allocated
    retired := fun _ _ hstored => nomatch hstored
    distinct := h.distinct
    place := trivial
    history := by
      obtain ⟨out, items, hex, hout, hin⟩ := h.history
      unfold InFlight at hin
      rw [hpop] at hin
      obtain ⟨rfl, d', hd', rfl⟩ := hin
      obtain rfl := Except.ok.inj (hd.symm.trans hd')
      refine ⟨out, [], ?_, ?_, rfl⟩
      · rw [exchanged_append, hex]
        exact List.append_nil _
      · rw [popped_append, hout]
        exact (List.append_nil _).symm
    unpublished := fun e he hlinker hmem => h.unpublished e he hlinker (hpub _ hmem)
    unheld := fun thread n hn hmem => h.unheld thread n hn (hpub n hmem)
    old := fun n hmem => h.old n (hpub n hmem)
    loose := fun n hn => h.loose n (hn.imp (fun _ => id) fun _ _ hstored => by cases hstored)
    apart := fun _ _ _ hstored => nomatch hstored
    live := by
      intro n hn
      refine (h.live n hn).imp_right fun hloose => hloose.imp (fun _ => id) ?_
      intro old next' hstored
      rw [hpop] at hstored
      cases hstored
    frees := by simpa [MpscQueue.frees] using h.frees
    freed := fun n => by simpa [MpscQueue.frees] using h.freed n }

end Represents

end MpscQueue

end WhatTheEvent
