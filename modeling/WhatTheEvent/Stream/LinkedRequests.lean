import Mathlib.Data.List.Nodup
import Mathlib.Data.List.Perm.Subperm
import WhatTheEvent.Stream.RequestQueue

/-!
# Requests that are linked

What the operations on the list of requests do to the requests that can be reached. `append` links
the new request behind `tail`: where `tail` is the first request, what was linked behind it is
dropped.
-/

namespace WhatTheEvent

variable {ρ : Type}

namespace Requests

variable {q q' : Requests ρ} {request request' : ρ} {a : Nat} {items rest : List (Nat × ρ)}

/-- The requests linked to the first one are replaced by the new request. -/
lemma Linked.append_anchored (h : Linked q.heap q.head items) (htail : q.tail = q.head)
    (request : ρ) : ∃ q', q.append request = .ok q' ∧
      Linked q'.heap q'.head (items.take 1 ++ [(q.heap.fresh, request)]) ∧ q'.tail = q'.head := by
  cases items with
  | nil =>
    refine ⟨_, append_of_head_none h, ⟨rfl, none, Heap.load_alloc_fresh, rfl⟩, rfl⟩
  | cons item rest =>
    obtain ⟨a, r⟩ := item
    obtain ⟨hhead, next, hload, -⟩ := id h
    rw [hhead] at htail
    rw [← List.nil_append ((a, r) :: rest)] at h
    exact ⟨_, append_of_head_some hhead htail hload, h.relink List.not_mem_nil hload,
      htail.trans hhead.symm⟩

/-- A new request lies elsewhere than the first one. -/
lemma Linked.nodup_append (h : Linked q.heap q.head items) :
    ((items.take 1 ++ [(q.heap.fresh, request)]).map Prod.fst).Nodup := by
  cases items with
  | nil => exact List.nodup_singleton _
  | cons item rest =>
    obtain ⟨a, r⟩ := item
    obtain ⟨-, next, hload, -⟩ := h
    have hne : a ≠ q.heap.fresh := Nat.ne_of_lt (Heap.lt_fresh hload)
    simpa using hne

/-- The first request changes. -/
lemma Linked.put (h : Linked q.heap q.head ((a, request) :: rest))
    (hnodup : (((a, request) :: rest).map Prod.fst).Nodup) (hok : q.put a request' = .ok q') :
    Linked q'.heap q'.head ((a, request') :: rest) ∧ q'.head = q.head ∧ q'.tail = q.tail := by
  obtain ⟨hhead, next, hload, hrest⟩ := h
  obtain ⟨node, hnode, rfl⟩ := put_eq_ok hok
  obtain rfl := Option.some.inj (hload.symm.trans hnode)
  refine ⟨⟨hhead, next, Heap.load_store_self hload, hrest.frame fun b hb => ?_⟩, rfl, rfl⟩
  refine Heap.load_store_of_ne ?_
  rintro rfl
  exact (List.nodup_cons.mp hnodup).1 hb

/-- The first request is consumed, and the next one is returned. -/
lemma Linked.consumeFront (h : Linked q.heap q.head ((a, request) :: rest))
    (hnodup : (((a, request) :: rest).map Prod.fst).Nodup) :
    ∃ q', q.consumeFront = .ok (q', rest.head?.map Prod.fst) ∧ Linked q'.heap q'.head rest ∧
      (rest = [] → q'.tail = none) := by
  obtain ⟨hhead, next, hload, hrest⟩ := h
  have hnext : next = rest.head?.map Prod.fst := by
    cases rest with
    | nil => exact hrest
    | cons item rest => exact hrest.1
  refine ⟨⟨q.heap.free a, next, if next.isNone then none else q.tail⟩, ?_, ?_, ?_⟩
  · simp only [Requests.consumeFront, hhead, deref, hload, ok_bind, pure_eq_ok, hnext]
  · refine hrest.frame fun b hb => Heap.load_free_of_ne ?_
    rintro rfl
    exact (List.nodup_cons.mp hnodup).1 hb
  · rintro rfl
    rw [hnext]
    rfl

lemma Linked.head_eq (h : Linked q.heap q.head items) : q.head = items.head?.map Prod.fst := by
  cases items with
  | nil => exact h
  | cons item rest => exact h.1

lemma Linked.get (h : Linked q.heap q.head ((a, request) :: rest)) : q.get a = .ok request := by
  obtain ⟨-, next, hload, -⟩ := h
  exact get_eq_ok.mpr ⟨next, hload⟩

/-- The destructor of a stream consumes every request that it can reach. -/
lemma Linked.consumeAll {rounds : Nat} (returned : Option Nat)
    (h : Linked q.heap q.head items) (hnodup : (items.map Prod.fst).Nodup)
    (hrounds : items.length ≤ rounds) :
    ∃ q', Loop.doWhile .diverges (fun r : Requests ρ × Option Nat => r.2.isSome)
      (fun r => r.1.consumeFront) (rounds + 1) (q, returned) = .ok (q', none) := by
  induction items generalizing q rounds returned with
  | nil =>
    have hhead : q.head = none := h
    refine ⟨q, Loop.doWhile_of_not_guard (Nat.succ_pos _) ?_ rfl⟩
    rw [Requests.consumeFront, hhead]
  | cons item rest ih =>
    obtain ⟨a, request⟩ := item
    obtain ⟨q₁, hconsume, hlinked, -⟩ := h.consumeFront hnodup
    cases rest with
    | nil => exact ⟨q₁, Loop.doWhile_of_not_guard (Nat.succ_pos _) hconsume rfl⟩
    | cons item rest =>
      cases rounds with
      | zero => exact absurd hrounds (Nat.not_succ_le_zero _)
      | succ rounds =>
        obtain ⟨q', hloop⟩ := ih (some item.1) hlinked (List.nodup_cons.mp hnodup).2
          (Nat.le_of_succ_le_succ hrounds)
        exact ⟨q', (Loop.doWhile_of_guard hconsume rfl).trans hloop⟩

/-- There are no more requests than were ever allocated. -/
lemma Linked.length_le (h : Linked q.heap q.head items) (hnodup : (items.map Prod.fst).Nodup) :
    items.length ≤ q.heap.fresh := by
  have hlt : ∀ b ∈ items.map Prod.fst, b < q.heap.fresh := by
    intro b hb
    obtain ⟨⟨c, r⟩, hmem, rfl⟩ := List.mem_map.mp hb
    obtain ⟨front, back, rfl⟩ := List.append_of_mem hmem
    obtain ⟨next, hload⟩ := h.load_mem
    exact Heap.lt_fresh hload
  have hsub : items.map Prod.fst ⊆ List.range q.heap.fresh :=
    fun b hb => List.mem_range.mpr (hlt b hb)
  have hle := (hnodup.subperm hsub).length_le
  rwa [List.length_map, List.length_range] at hle

end Requests

end WhatTheEvent
