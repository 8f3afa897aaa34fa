import Mathlib.Data.List.Basic
import Mathlib.Data.Option.Basic
import Mathlib.Tactic.Common

/-!
# Memory

What can go wrong in a run of the code, and blocks of memory as lists of cells. A cell is `none`
until it is first written, so that a read of uninitialised memory can be seen in its result.
-/

namespace WhatTheEvent

/-- Why a run of the code stops. -/
inductive Fault where
  /-- `memcpy` past the end of an allocation. -/
  | heapOverflow
  /-- `std::bad_alloc`. -/
  | badAlloc
  /-- A loop that does not end. -/
  | diverges
  /-- An access to an object that was deleted. -/
  | useAfterFree
  /-- An access through a null pointer. -/
  | nullDereference
  /-- A call that the caller may not make, or an event that cannot happen, in this state. -/
  | disabled
  deriving DecidableEq, Repr

@[simp] lemma ok_bind {ε α γ : Type} (a : α) (f : α → Except ε γ) : (.ok a >>= f) = f a := rfl

@[simp] lemma error_bind {ε α γ : Type} (e : ε) (f : α → Except ε γ) :
    (.error e >>= f) = .error e := rfl

@[simp] lemma map_ok {ε α γ : Type} (a : α) (f : α → γ) :
    (.ok a : Except ε α).map f = .ok (f a) := rfl

@[simp] lemma pure_eq_ok {ε α : Type} (a : α) : (pure a : Except ε α) = .ok a := rfl

lemma bind_eq_ok {ε α γ : Type} {x : Except ε α} {f : α → Except ε γ} {c : γ} :
    (x >>= f) = .ok c ↔ ∃ a, x = .ok a ∧ f a = .ok c := by
  cases x <;> simp

lemma map_eq_ok {ε α γ : Type} {x : Except ε α} {f : α → γ} {c : γ} :
    x.map f = .ok c ↔ ∃ a, x = .ok a ∧ f a = c := by
  cases x <;> simp [Except.map]

/-- A byte of allocated memory, `none` while it is uninitialised. -/
abbrev Cell (β : Type) := Option β

variable {β : Type}

/-- `memcpy(dst + offset, src, n)` with `n` the length of `src`. -/
def memcpy (dst : List (Cell β)) (offset : Nat) (src : List β) : Except Fault (List (Cell β)) :=
  if offset + src.length ≤ dst.length then
    .ok (dst.take offset ++ src.map some ++ dst.drop (offset + src.length))
  else .error .heapOverflow

lemma memcpy_append (front back : List (Cell β)) (src : List β) (h : src.length ≤ back.length) :
    memcpy (front ++ back) front.length src
      = .ok (front ++ src.map some ++ back.drop src.length) := by
  simp [memcpy, h]

lemma memcpy_overflow {dst : List (Cell β)} {offset : Nat} {src : List β}
    (h : dst.length < offset + src.length) :
    memcpy dst offset src = .error .heapOverflow := if_neg (by omega)

end WhatTheEvent
