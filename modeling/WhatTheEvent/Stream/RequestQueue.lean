import WhatTheEvent.Buffer.Basic
import WhatTheEvent.Stream.Requests

/-!
# Write requests

A write request and the operations that a stream needs of its list of them. They are those of
`Requests`, as in the source, and those of the queue `Fifo` that this list is meant to be.
-/

namespace WhatTheEvent

variable {β ρ : Type}

/-- `StreamImpl::WriteRequest`, without the link to the next one. -/
structure WriteRequest (β : Type) where
  buffer : BufferImpl β
  /-- `callback_`, which may be null. -/
  callback : Option Nat
  deriving DecidableEq, Repr

/-- A list of requests, which are named by their addresses. -/
class RequestQueue (Q : Type) (ρ : outParam Type) where
  /-- `{nullptr, nullptr}`. -/
  empty : Q
  /-- The address of the next request to be appended. -/
  fresh : Q → Nat
  append : Q → ρ → Except Fault Q
  head : Q → Option Nat
  get : Q → Nat → Except Fault ρ
  put : Q → Nat → ρ → Except Fault Q
  /-- The list after the call and the new head. -/
  consumeFront : Q → Except Fault (Q × Option Nat)

/-- How `head` changes. -/
class LawfulRequestQueue (Q : Type) {ρ : Type} [RequestQueue Q ρ] : Prop where
  head_append {q q' : Q} {request : ρ} {a : Nat} (h : RequestQueue.append q request = .ok q')
    (ha : RequestQueue.head q = some a) : RequestQueue.head q' = some a
  head_put {q q' : Q} {p : Nat} {request : ρ} (h : RequestQueue.put q p request = .ok q') :
    RequestQueue.head q' = RequestQueue.head q
  head_consumeFront {q q' : Q} {next : Option Nat}
    (h : RequestQueue.consumeFront q = .ok (q', next)) : next = RequestQueue.head q'

/-- When there is a head. -/
class HeadedRequestQueue (Q : Type) {ρ : Type} [RequestQueue Q ρ] : Prop extends
    LawfulRequestQueue Q where
  head_empty : RequestQueue.head (RequestQueue.empty : Q) = none
  head_append_ne_none {q q' : Q} {request : ρ} (h : RequestQueue.append q request = .ok q') :
    RequestQueue.head q' ≠ none

namespace Requests

variable {q q' : Requests ρ} {request : ρ} {a p : Nat}

def get (q : Requests ρ) (p : Nat) : Except Fault ρ := (deref q.heap p).map RequestNode.request

def put (q : Requests ρ) (p : Nat) (request : ρ) : Except Fault (Requests ρ) := do
  let node ← deref q.heap p
  pure { q with heap := q.heap.store p { node with request } }

instance : RequestQueue (Requests ρ) ρ where
  empty := empty
  fresh q := q.heap.fresh
  append := append
  head := head
  get := get
  put := put
  consumeFront := consumeFront

lemma head_append (h : q.append request = .ok q') (ha : q.head = some a) : q'.head = some a := by
  unfold append at h
  rw [ha] at h
  cases ht : q.tail with
  | none =>
    rw [ht] at h
    cases h
  | some t =>
    rw [ht] at h
    obtain ⟨node, -, hok⟩ := bind_eq_ok.mp h
    obtain rfl := Except.ok.inj hok
    rfl

lemma get_eq_ok : q.get p = .ok request ↔ ∃ next, q.heap.load p = some ⟨request, next⟩ := by
  rw [get, map_eq_ok]
  constructor
  · rintro ⟨⟨request, next⟩, hnode, rfl⟩
    exact ⟨next, deref_eq_ok.mp hnode⟩
  · rintro ⟨next, hload⟩
    exact ⟨_, deref_eq_ok.mpr hload, rfl⟩

lemma put_eq_ok (h : q.put p request = .ok q') :
    ∃ node, q.heap.load p = some node ∧
      q' = { q with heap := q.heap.store p { node with request } } := by
  obtain ⟨node, hnode, hok⟩ := bind_eq_ok.mp h
  exact ⟨node, deref_eq_ok.mp hnode, (Except.ok.inj hok).symm⟩

lemma consumeFront_eq_ok {next : Option Nat} (h : q.consumeFront = .ok (q', next)) :
    next = q'.head ∧ ((q.head = none ∧ q' = q) ∨
      ∃ a, q.head = some a ∧ q'.heap = q.heap.free a) := by
  unfold consumeFront at h
  cases hh : q.head with
  | none =>
    rw [hh] at h
    obtain ⟨rfl, rfl⟩ := Prod.mk.inj (Except.ok.inj h)
    exact ⟨hh.symm, Or.inl ⟨rfl, rfl⟩⟩
  | some a =>
    rw [hh] at h
    obtain ⟨node, -, hok⟩ := bind_eq_ok.mp h
    obtain ⟨rfl, rfl⟩ := Prod.mk.inj (Except.ok.inj hok)
    exact ⟨rfl, Or.inr ⟨a, rfl, rfl⟩⟩

instance : LawfulRequestQueue (Requests ρ) where
  head_append := head_append
  head_put h := by
    obtain ⟨node, -, rfl⟩ := put_eq_ok h
    rfl
  head_consumeFront h := (consumeFront_eq_ok h).1

instance : HeadedRequestQueue (Requests ρ) where
  head_empty := rfl
  head_append_ne_none {q q' request} h := by
    cases hh : q.head with
    | some a =>
      have ha : q'.head = some a := head_append h hh
      exact fun hnone => Option.some_ne_none a (ha.symm.trans hnone)
    | none =>
      rw [show RequestQueue.append q request = q.append request from rfl,
        append_of_head_none hh] at h
      obtain rfl := Except.ok.inj h
      exact Option.some_ne_none _

end Requests

namespace Fifo

def get (f : Fifo ρ) (p : Nat) : Except Fault ρ :=
  match f.items.lookup p with
  | some request => .ok request
  | none => .error .useAfterFree

def put (f : Fifo ρ) (p : Nat) (request : ρ) : Except Fault (Fifo ρ) := do
  let _ ← f.get p
  pure { f with items := f.items.map fun item => if item.1 = p then (p, request) else item }

def head (f : Fifo ρ) : Option Nat := f.items.head?.map Prod.fst

instance : RequestQueue (Fifo ρ) ρ where
  empty := empty
  fresh := fresh
  append f request := .ok (f.append request)
  head := head
  get := get
  put := put
  consumeFront f := .ok (f.consumeFront, f.consumeFront.head)

lemma head_map (f : Fifo ρ) (g : ρ → ρ) (p : Nat) :
    (f.items.map fun item => if item.1 = p then (p, g item.2) else item).map Prod.fst =
      f.items.map Prod.fst := by
  rw [List.map_map]
  refine List.map_congr_left fun item _ => ?_
  by_cases h : item.1 = p
  · simp [h]
  · simp [h]

instance : LawfulRequestQueue (Fifo ρ) where
  head_append {f f' request a} h ha := by
    obtain rfl := Except.ok.inj h
    change (f.items ++ [(f.fresh, request)]).head?.map Prod.fst = some a
    change f.items.head?.map Prod.fst = some a at ha
    cases hitems : f.items with
    | nil => simp [hitems] at ha
    | cons item rest =>
      rw [hitems] at ha
      exact ha
  head_put {f f' p request} h := by
    obtain ⟨_, -, hok⟩ := bind_eq_ok.mp h
    obtain rfl := Except.ok.inj hok
    have hmap := congrArg List.head? (head_map f (fun _ => request) p)
    change (List.map _ f.items).head?.map Prod.fst = f.items.head?.map Prod.fst
    simpa only [List.head?_map] using hmap
  head_consumeFront {f f' next} h := by
    obtain ⟨rfl, rfl⟩ := Prod.mk.inj (Except.ok.inj h)
    rfl

instance : HeadedRequestQueue (Fifo ρ) where
  head_empty := rfl
  head_append_ne_none {f f' request} h := by
    obtain rfl := Except.ok.inj h
    change (f.items ++ [(f.fresh, request)]).head?.map Prod.fst ≠ none
    cases f.items <;> exact Option.some_ne_none _

end Fifo

end WhatTheEvent
