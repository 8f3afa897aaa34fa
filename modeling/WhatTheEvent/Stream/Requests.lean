import Mathlib.Data.List.Induction
import WhatTheEvent.Library.Exec
import WhatTheEvent.Library.Heap
import WhatTheEvent.Memory

/-!
# The list of write requests

`StreamImpl::Requests` keeps the requests of a stream in a list linked through `next_`. `Fifo` is
the queue that it is meant to be. The two agree as long as every request is appended to an empty
list.
-/

namespace WhatTheEvent

variable {ρ : Type}

/-- A request in memory, with the pointer `next_`. -/
structure RequestNode (ρ : Type) where
  request : ρ
  next : Option Nat
  deriving DecidableEq, Repr

/-- `StreamImpl::Requests` and the memory in which its requests lie. -/
structure Requests (ρ : Type) where
  heap : Heap (RequestNode ρ)
  head : Option Nat
  tail : Option Nat
  deriving DecidableEq, Repr

namespace Requests

def empty : Requests ρ := ⟨Heap.empty, none, none⟩

def deref (heap : Heap (RequestNode ρ)) (p : Nat) : Except Fault (RequestNode ρ) :=
  match heap.load p with
  | some node => .ok node
  | none => .error .useAfterFree

/-- `append(req)` of a request that was just allocated. The `assert` of the first branch is not
compiled in by default; it cannot fail. -/
def append (q : Requests ρ) (request : ρ) : Except Fault (Requests ρ) :=
  let req := q.heap.fresh
  let heap := q.heap.alloc ⟨request, none⟩
  match q.head, q.tail with
  | none, _ => .ok ⟨heap, some req, some req⟩
  | some _, none => .error .nullDereference
  | some _, some tail => do
    -- the tail is not moved to the new request
    let node ← deref heap tail
    pure { q with heap := heap.store tail { node with next := some req } }

/-- `consumeFront()`: the list after the call and the new head that it returns. -/
def consumeFront (q : Requests ρ) : Except Fault (Requests ρ × Option Nat) :=
  match q.head with
  | none => .ok (q, none)
  | some tmp => do
    let node ← deref q.heap tmp
    let tail := if node.next.isNone then none else q.tail
    pure (⟨q.heap.free tmp, node.next, tail⟩, node.next)

end Requests

/-- An operation on the list of requests. -/
inductive RequestOp (ρ : Type) where
  | append (request : ρ)
  | consumeFront
  deriving DecidableEq, Repr

def Requests.step (q : Requests ρ) : RequestOp ρ → Except Fault (Requests ρ)
  | .append request => q.append request
  | .consumeFront => q.consumeFront.map Prod.fst

/-! ### What the list is meant to be -/

/-- A queue of requests, each with the address that it was allocated at. -/
structure Fifo (ρ : Type) where
  fresh : Nat
  items : List (Nat × ρ)
  deriving DecidableEq, Repr

namespace Fifo

def empty : Fifo ρ := ⟨0, []⟩

def append (f : Fifo ρ) (request : ρ) : Fifo ρ :=
  ⟨f.fresh + 1, f.items ++ [(f.fresh, request)]⟩

def consumeFront (f : Fifo ρ) : Fifo ρ := { f with items := f.items.tail }

def apply (f : Fifo ρ) : RequestOp ρ → Fifo ρ
  | .append request => f.append request
  | .consumeFront => f.consumeFront

/-- The requests appended and not yet consumed by a history, in order. -/
def after (ops : List (RequestOp ρ)) : Fifo ρ := ops.foldl apply empty

end Fifo

/-! ### Linked requests -/

namespace Requests

variable {heap : Heap (RequestNode ρ)} {p : Option Nat} {a : Nat} {node : RequestNode ρ}
  {request : ρ} {items items' : List (Nat × ρ)} {q q' : Requests ρ} {f : Fifo ρ}
  {op : RequestOp ρ} {ops : List (RequestOp ρ)}

lemma deref_eq_ok : deref heap a = .ok node ↔ heap.load a = some node := by
  unfold deref
  cases heap.load a <;> simp

/-- From `p` on, exactly the given requests are reachable through `next_`. -/
def Linked (heap : Heap (RequestNode ρ)) : Option Nat → List (Nat × ρ) → Prop
  | p, [] => p = none
  | p, (a, request) :: rest =>
    p = some a ∧ ∃ next, heap.load a = some ⟨request, next⟩ ∧ Linked heap next rest

lemma linked_none (h : Linked heap none items) : items = [] := by
  cases items with
  | nil => rfl
  | cons item rest => exact absurd h.1 (by simp)

/-- The requests that are reachable are determined by the memory. -/
lemma Linked.unique (h : Linked heap p items) (h' : Linked heap p items') : items = items' := by
  induction items generalizing p items' with
  | nil =>
    obtain rfl : p = none := h
    exact (linked_none h').symm
  | cons item rest ih =>
    obtain ⟨a, request⟩ := item
    obtain ⟨rfl, next, hload, hrest⟩ := h
    cases items' with
    | nil => exact absurd h' (by simp [Linked])
    | cons item' rest' =>
      obtain ⟨a', request'⟩ := item'
      obtain ⟨ha, next', hload', hrest'⟩ := h'
      obtain rfl := Option.some.inj ha
      obtain ⟨rfl, rfl⟩ := RequestNode.mk.inj (Option.some.inj (hload.symm.trans hload'))
      rw [ih hrest hrest']

/-- Reachable requests are in memory. -/
lemma Linked.load_mem {front back : List (Nat × ρ)} {t : Nat} {r : ρ}
    (h : Linked heap p (front ++ (t, r) :: back)) : ∃ next, heap.load t = some ⟨r, next⟩ := by
  induction front generalizing p with
  | nil =>
    obtain ⟨-, next, hload, -⟩ := h
    exact ⟨next, hload⟩
  | cons item rest ih =>
    obtain ⟨-, next, -, hrest⟩ := h
    exact ih hrest

/-- What happens elsewhere in memory does not concern the list. -/
lemma Linked.frame {heap' : Heap (RequestNode ρ)} (h : Linked heap p items)
    (hsame : ∀ a ∈ items.map Prod.fst, heap'.load a = heap.load a) : Linked heap' p items := by
  induction items generalizing p with
  | nil => exact h
  | cons item rest ih =>
    obtain ⟨b, request⟩ := item
    obtain ⟨rfl, next, hload, hrest⟩ := h
    refine ⟨rfl, next, ?_, ih hrest fun a ha => hsame a (List.mem_cons_of_mem _ ha)⟩
    rw [hsame b List.mem_cons_self, hload]

/-- When `next_` of the request at `t` is set to a new request, the list ends there. -/
lemma Linked.relink {front back : List (Nat × ρ)} {t : Nat} {r : ρ} {next : Option Nat}
    (h : Linked heap p (front ++ (t, r) :: back)) (ht : t ∉ front.map Prod.fst)
    (hload : heap.load t = some ⟨r, next⟩) :
    Linked ((heap.alloc ⟨request, none⟩).store t ⟨r, some heap.fresh⟩) p
      (front ++ [(t, r), (heap.fresh, request)]) := by
  have hne : t ≠ heap.fresh := Nat.ne_of_lt (Heap.lt_fresh hload)
  induction front generalizing p with
  | nil =>
    obtain ⟨rfl, -⟩ := h
    refine ⟨rfl, _, Heap.load_store_self (Heap.load_alloc hload), rfl, none, ?_, rfl⟩
    rw [Heap.load_store_of_ne hne, Heap.load_alloc_fresh]
  | cons item rest ih =>
    obtain ⟨b, rb⟩ := item
    obtain ⟨rfl, nextb, hloadb, hrest⟩ := h
    rw [List.map_cons, List.mem_cons, not_or] at ht
    refine ⟨rfl, nextb, ?_, ih hrest ht.2⟩
    rw [Heap.load_store_of_ne ht.1, Heap.load_alloc hloadb]

/-- The list is that of the queue `f`: exactly its requests are reachable from `head`, in order,
and `tail` is the last of them. -/
structure Intact (q : Requests ρ) (f : Fifo ρ) : Prop where
  linked : Linked q.heap q.head f.items
  tail : q.tail = f.items.getLast?.map Prod.fst
  null : q.tail = none ↔ q.head = none

/-- The queue has given out as many addresses as the memory, and to different requests. -/
structure Matches (q : Requests ρ) (f : Fifo ρ) : Prop where
  fresh : q.heap.fresh = f.fresh
  lt_fresh : ∀ a ∈ f.items.map Prod.fst, a < f.fresh
  nodup : (f.items.map Prod.fst).Nodup
  tail_lt : ∀ t, q.tail = some t → t < q.heap.fresh

lemma head_eq_none_iff (h : Linked q.heap q.head f.items) : q.head = none ↔ f.items = [] := by
  constructor
  · intro hnone
    rw [hnone] at h
    exact linked_none h
  · intro hnil
    rw [hnil] at h
    exact h

/-- The second part of `Intact` has the third as a consequence. -/
lemma Intact.of_tail (h : Linked q.heap q.head f.items)
    (ht : q.tail = f.items.getLast?.map Prod.fst) : q.Intact f := by
  refine ⟨h, ht, ?_⟩
  rw [head_eq_none_iff h, ht, Option.map_eq_none_iff, List.getLast?_eq_none_iff]

lemma intact_empty : (empty : Requests ρ).Intact Fifo.empty := Intact.of_tail rfl rfl

lemma matches_empty : (empty : Requests ρ).Matches Fifo.empty :=
  ⟨rfl, fun _ h => absurd h List.not_mem_nil, List.nodup_nil, fun _ h => nomatch h⟩

/-! ### The two operations -/

lemma append_of_head_none (h : q.head = none) :
    q.append request =
      .ok ⟨q.heap.alloc ⟨request, none⟩, some q.heap.fresh, some q.heap.fresh⟩ := by
  simp only [append, h]

lemma append_of_head_some {t : Nat} (hh : q.head = some a) (ht : q.tail = some t)
    (hload : q.heap.load t = some node) :
    q.append request =
      .ok ⟨(q.heap.alloc ⟨request, none⟩).store t ⟨node.request, some q.heap.fresh⟩,
        q.head, q.tail⟩ := by
  simp only [append, hh, ht, deref, Heap.load_alloc hload, ok_bind, pure_eq_ok]

/-- A request appended to a list that is not empty leaves `tail` where it was. -/
lemma tail_append (hh : q.head = some a) (h : q.append request = .ok q') :
    q'.tail = q.tail ∧ q'.heap.fresh = q.heap.fresh + 1 := by
  unfold append at h
  rw [hh] at h
  cases ht : q.tail with
  | none =>
    rw [ht] at h
    cases h
  | some t =>
    rw [ht] at h
    obtain ⟨node, -, hok⟩ := bind_eq_ok.mp h
    obtain rfl := Except.ok.inj hok
    exact ⟨rfl, by simp⟩

lemma fresh_consumeFront {next : Option Nat} (h : q.consumeFront = .ok (q', next)) :
    q'.heap.fresh = q.heap.fresh ∧ (q'.tail = none ∨ q'.tail = q.tail) := by
  unfold consumeFront at h
  cases hh : q.head with
  | none =>
    rw [hh] at h
    obtain ⟨rfl, -⟩ := Prod.mk.inj (Except.ok.inj h)
    exact ⟨rfl, Or.inr rfl⟩
  | some a =>
    rw [hh] at h
    obtain ⟨node, -, hok⟩ := bind_eq_ok.mp h
    obtain ⟨rfl, -⟩ := Prod.mk.inj (Except.ok.inj hok)
    refine ⟨Heap.fresh_free, ?_⟩
    cases node.next with
    | none => exact Or.inl rfl
    | some b => exact Or.inr rfl

/-- The addresses stay in step whether or not the list is intact. -/
lemma Matches.step (h : q.Matches f) (hok : q.step op = .ok q') : q'.Matches (f.apply op) := by
  cases op with
  | append request =>
    have hq' : q'.heap.fresh = q.heap.fresh + 1 ∧
        (q'.tail = some q.heap.fresh ∨ q'.tail = q.tail) := by
      cases hh : q.head with
      | none =>
        obtain rfl := Except.ok.inj ((append_of_head_none hh).symm.trans hok)
        exact ⟨Heap.fresh_alloc, Or.inl rfl⟩
      | some a =>
        obtain ⟨htail, hfresh⟩ := tail_append hh hok
        exact ⟨hfresh, Or.inr htail⟩
    refine ⟨by rw [hq'.1, h.fresh]; rfl, ?_, ?_, ?_⟩
    · intro a ha
      rw [Fifo.apply, Fifo.append, List.map_append, List.mem_append] at ha
      rcases ha with ha | ha
      · exact Nat.lt_succ_of_lt (h.lt_fresh a ha)
      · rw [List.mem_singleton.mp ha]
        exact Nat.lt_succ_self _
    · rw [Fifo.apply, Fifo.append, List.map_append]
      refine List.nodup_append.mpr ⟨h.nodup, List.pairwise_singleton _ _, ?_⟩
      intro a ha b hb
      rw [List.mem_singleton.mp hb]
      exact Nat.ne_of_lt (h.lt_fresh a ha)
    · intro t ht
      rw [hq'.1]
      rcases hq'.2 with hnew | hsame
      · obtain rfl := Option.some.inj (hnew.symm.trans ht)
        exact Nat.lt_succ_self _
      · exact Nat.lt_succ_of_lt (h.tail_lt t (hsame ▸ ht))
  | consumeFront =>
    obtain ⟨⟨q₁, next⟩, hconsume, rfl⟩ := map_eq_ok.mp hok
    obtain ⟨hfresh, htail⟩ := fresh_consumeFront hconsume
    refine ⟨hfresh.trans h.fresh, ?_, ?_, ?_⟩
    · intro a ha
      rw [Fifo.apply, Fifo.consumeFront, List.map_tail] at ha
      exact h.lt_fresh a (List.mem_of_mem_tail ha)
    · rw [Fifo.apply, Fifo.consumeFront, List.map_tail]
      exact h.nodup.tail
    · intro t ht
      change t < q₁.heap.fresh
      rw [hfresh]
      rcases htail with hnone | hsame
      · exact absurd (hnone.symm.trans ht) (by simp)
      · exact h.tail_lt t (hsame ▸ ht)

/-- `append` to an empty list gives the list of the one request. -/
lemma Linked.append_nil (h : Linked q.heap q.head f.items) (hm : q.Matches f)
    (hnil : f.items = []) (request : ρ) :
    ∃ q', q.append request = .ok q' ∧ Linked q'.heap q'.head (f.append request).items := by
  refine ⟨_, append_of_head_none ((head_eq_none_iff h).mpr hnil), ?_⟩
  rw [Fifo.append, hnil, List.nil_append, ← hm.fresh]
  exact ⟨rfl, none, Heap.load_alloc_fresh, rfl⟩

lemma Intact.append_nil (h : q.Intact f) (hm : q.Matches f) (hnil : f.items = []) :
    ∃ q', q.append request = .ok q' ∧ q'.Intact (f.append request) := by
  obtain ⟨q', hok, hlinked⟩ := h.linked.append_nil hm hnil request
  refine ⟨q', hok, Intact.of_tail hlinked ?_⟩
  obtain rfl := Except.ok.inj
    (hok.symm.trans (append_of_head_none ((head_eq_none_iff h.linked).mpr hnil)))
  rw [Fifo.append, hnil, List.nil_append, ← hm.fresh]
  rfl

/-- `append` to any other list leaves a `tail` that is not the last request. -/
lemma Intact.not_append (h : q.Intact f) (hm : q.Matches f) (hne : f.items ≠ [])
    (hok : q.append request = .ok q') : ¬ q'.Intact (f.append request) := by
  intro h'
  obtain ⟨a, hhead⟩ := Option.ne_none_iff_exists'.mp fun hnone =>
    hne ((head_eq_none_iff h.linked).mp hnone)
  have htail : q.tail = some f.fresh := by
    rw [← (tail_append hhead hok).1, h'.tail, Fifo.append, List.getLast?_concat]
    rfl
  rw [h.tail, Option.map_eq_some_iff] at htail
  obtain ⟨last, hlast, heq⟩ := htail
  have hlt := hm.lt_fresh last.1 (List.mem_map_of_mem (List.mem_of_getLast? hlast))
  exact absurd hlt (heq ▸ Nat.lt_irrefl _)

/-- `consumeFront` takes the first request off. -/
lemma Intact.consumeFront (h : q.Intact f) (hm : q.Matches f) :
    ∃ q', q.consumeFront = .ok (q', q'.head) ∧ q'.Intact f.consumeFront := by
  obtain ⟨fresh, items⟩ := f
  cases items with
  | nil =>
    have hhead : q.head = none := h.linked
    refine ⟨q, ?_, h⟩
    rw [Requests.consumeFront, hhead]
  | cons item rest =>
    obtain ⟨a, request⟩ := item
    obtain ⟨hhead, next, hload, hrest⟩ := h.linked
    have hnodup := List.nodup_cons.mp hm.nodup
    refine ⟨⟨q.heap.free a, next, if next.isNone then none else q.tail⟩, ?_, Intact.of_tail ?_ ?_⟩
    · simp only [Requests.consumeFront, hhead, deref, hload, ok_bind, pure_eq_ok]
    · refine hrest.frame fun b hb => Heap.load_free_of_ne ?_
      rintro rfl
      exact hnodup.1 hb
    · cases next with
      | none =>
        rw [Fifo.consumeFront, List.tail_cons, linked_none hrest]
        rfl
      | some b =>
        have hne : rest ≠ [] := by
          rintro rfl
          exact absurd hrest (by simp [Linked])
        change q.tail = rest.getLast?.map Prod.fst
        rw [h.tail, List.getLast?_cons_of_ne_nil hne]

/-- The list with the request at `tail` relinked: what is reachable ends with the new request. -/
lemma Linked.append {front back : List (Nat × ρ)} {t : Nat} {r : ρ}
    (h : Linked q.heap q.head (front ++ (t, r) :: back)) (ht : q.tail = some t)
    (hnodup : ((front ++ (t, r) :: back).map Prod.fst).Nodup) (request : ρ) :
    ∃ q', q.append request = .ok q' ∧
      Linked q'.heap q'.head (front ++ [(t, r), (q.heap.fresh, request)]) := by
  have hne : q.head ≠ none := by
    intro hnone
    rw [hnone] at h
    exact absurd (linked_none h) (by simp)
  obtain ⟨a, hhead⟩ := Option.ne_none_iff_exists'.mp hne
  obtain ⟨next, hload⟩ := h.load_mem
  have hfront : t ∉ front.map Prod.fst := by
    intro hin
    rw [List.map_append, List.nodup_append] at hnodup
    exact hnodup.2.2 t hin t List.mem_cons_self rfl
  exact ⟨_, append_of_head_some hhead ht hload, h.relink hfront hload⟩

/-- Whether a request appended can be reached depends on `tail` alone: it has to be the last
request, unless there is none. -/
theorem append_linked_iff (h : Linked q.heap q.head f.items) (hm : q.Matches f) :
    (∃ q', q.append request = .ok q' ∧ Linked q'.heap q'.head (f.append request).items) ↔
      f.items = [] ∨ q.tail = f.items.getLast?.map Prod.fst := by
  constructor
  · rintro ⟨q', hok, hlinked⟩
    by_contra hnot
    obtain ⟨hne, htail⟩ := not_or.mp hnot
    obtain ⟨a, hhead⟩ := Option.ne_none_iff_exists'.mp fun hnone =>
      hne ((head_eq_none_iff h).mp hnone)
    cases ht : q.tail with
    | none =>
      simp only [append, hhead, ht] at hok
      cases hok
    | some t =>
      by_cases hmem : t ∈ f.items.map Prod.fst
      · -- the requests behind `tail` are cut off
        obtain ⟨⟨t, r⟩, hitem, rfl⟩ := List.mem_map.mp hmem
        obtain ⟨front, back, hsplit⟩ := List.append_of_mem hitem
        obtain ⟨q₁, hok₁, hlinked₁⟩ :=
          Linked.append (hsplit ▸ h) ht (hsplit ▸ hm.nodup) request
        obtain rfl := Except.ok.inj (hok.symm.trans hok₁)
        have hlen := congrArg List.length (hlinked.unique hlinked₁)
        rw [Fifo.append, hsplit] at hlen
        simp only [List.length_append, List.length_cons, List.length_nil] at hlen
        obtain rfl : back = [] := List.length_eq_zero_iff.mp (by omega)
        rw [ht, hsplit, List.getLast?_concat] at htail
        exact htail rfl
      · -- the new request is linked behind one that is not reachable
        have hne_fresh := Nat.ne_of_lt (hm.tail_lt t ht)
        cases hload : q.heap.load t with
        | none =>
          simp only [append, hhead, ht, deref, Heap.load_alloc_of_ne hne_fresh, hload] at hok
          cases hok
        | some node =>
          rw [append_of_head_some hhead ht hload] at hok
          obtain rfl := Except.ok.inj hok
          have hsame : Linked ((q.heap.alloc ⟨request, none⟩).store t
              ⟨node.request, some q.heap.fresh⟩) q.head f.items := by
            refine h.frame fun b hb => ?_
            obtain ⟨⟨b, r⟩, hitem, rfl⟩ := List.mem_map.mp hb
            obtain ⟨front, back, hsplit⟩ := List.append_of_mem hitem
            obtain ⟨next, hloadb⟩ := (hsplit ▸ h).load_mem
            have hne_b : t ≠ b := by
              rintro rfl
              exact hmem hb
            rw [Heap.load_store_of_ne hne_b, Heap.load_alloc hloadb, hloadb]
          have hlen := congrArg List.length (hsame.unique hlinked)
          rw [Fifo.append, List.length_append, List.length_singleton] at hlen
          omega
  · rintro (hnil | htail)
    · exact h.append_nil hm hnil request
    · rcases List.eq_nil_or_concat f.items with hnil | ⟨front, ⟨t, r⟩, hsplit⟩
      · exact h.append_nil hm hnil request
      · rw [List.concat_eq_append] at hsplit
        rw [hsplit, List.getLast?_concat] at htail
        obtain ⟨q', hok, hlinked⟩ :=
          Linked.append (hsplit ▸ h) htail (hsplit ▸ hm.nodup) request
        refine ⟨q', hok, ?_⟩
        rw [Fifo.append, hsplit, ← hm.fresh, List.append_assoc]
        exact hlinked

/-! ### Histories -/

/-- The operation is not an `append`, or the queue is empty. -/
def Alone (f : Fifo ρ) : RequestOp ρ → Prop
  | .append _ => f.items = []
  | .consumeFront => True

theorem Intact.step (h : q.Intact f) (hm : q.Matches f) (ha : Alone f op) :
    ∃ q', q.step op = .ok q' ∧ q'.Intact (f.apply op) := by
  cases op with
  | append request => exact h.append_nil hm ha
  | consumeFront =>
    obtain ⟨q', hok, h'⟩ := h.consumeFront hm
    exact ⟨q', by rw [Requests.step, hok, map_ok], h'⟩

lemma after_concat : Fifo.after (ops ++ [op]) = (Fifo.after ops).apply op := by
  rw [Fifo.after, List.foldl_append]
  rfl

lemma matches_after (h : Exec.exec step empty ops = .ok q) : q.Matches (Fifo.after ops) := by
  induction ops using List.reverseRecOn generalizing q with
  | nil =>
    obtain rfl := Except.ok.inj h
    exact matches_empty
  | append_singleton ops op ih =>
    obtain ⟨q₁, hrun, hstep⟩ := Exec.exec_concat_eq_ok.mp h
    rw [after_concat]
    exact (ih hrun).step hstep

/-- After every part of a history the list is that of the requests appended and not yet consumed,
if and only if every request of the history is appended when there is no such request. -/
theorem intact_iff_alone (ops : List (RequestOp ρ)) :
    (∀ pre, pre <+: ops →
      ∃ q, Exec.exec step empty pre = .ok q ∧ q.Intact (Fifo.after pre)) ↔
    ∀ pre request, pre ++ [.append request] <+: ops → (Fifo.after pre).items = [] := by
  constructor
  · intro h pre request hpre
    obtain ⟨q', hrun', h'⟩ := h _ hpre
    obtain ⟨q, hrun, hstep⟩ := Exec.exec_concat_eq_ok.mp hrun'
    obtain ⟨q₁, hrun₁, hintact⟩ := h pre ((List.prefix_append _ _).trans hpre)
    obtain rfl := Except.ok.inj (hrun.symm.trans hrun₁)
    rw [after_concat] at h'
    by_contra hne
    exact hintact.not_append (matches_after hrun) hne hstep h'
  · intro h pre hpre
    induction pre using List.reverseRecOn with
    | nil => exact ⟨empty, rfl, intact_empty⟩
    | append_singleton pre op ih =>
      obtain ⟨q, hrun, hintact⟩ := ih ((List.prefix_append _ _).trans hpre)
      have ha : Alone (Fifo.after pre) op := by
        cases op with
        | append request => exact h pre request hpre
        | consumeFront => trivial
      obtain ⟨q', hstep, h'⟩ := hintact.step (matches_after hrun) ha
      exact ⟨q', Exec.exec_concat_eq_ok.mpr ⟨q, hrun, hstep⟩, by rwa [after_concat]⟩

/-- Of three requests appended one after the other the second cannot be reached. -/
theorem not_intact : ¬ ∀ (ops : List (RequestOp Char)) (pre : List (RequestOp Char)), pre <+: ops →
    ∃ q, Exec.exec step empty pre = .ok q ∧ q.Intact (Fifo.after pre) := by
  intro h
  obtain ⟨q, hrun, hintact⟩ := h [.append 'a', .append 'b', .append 'c'] _ List.prefix_rfl
  have hrun' : Exec.exec step empty [.append 'a', .append 'b', .append 'c'] =
      .ok ⟨⟨[some ⟨'a', some 2⟩, some ⟨'b', none⟩, some ⟨'c', none⟩]⟩, some 0, some 0⟩ := by decide
  obtain rfl := Except.ok.inj (hrun.symm.trans hrun')
  have hreach : Linked ⟨[some ⟨'a', some 2⟩, some ⟨'b', none⟩, some ⟨'c', none⟩]⟩ (some 0)
      [(0, 'a'), (2, 'c')] := ⟨rfl, some 2, rfl, rfl, none, rfl, rfl⟩
  exact absurd (hreach.unique hintact.linked) (by decide)

end Requests

end WhatTheEvent
