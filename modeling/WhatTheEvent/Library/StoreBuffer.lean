import Mathlib.Data.List.Basic
import Mathlib.Logic.Function.Basic
import Mathlib.Tactic.Common

/-!
# Store buffers

A memory that threads store to through buffers of their own. A thread sees its own stores at once;
the others see them when they leave the buffer, the oldest one first.
-/

/-- The memory, and for each thread the stores that have not got there, oldest first. -/
structure StoreBuffers (ι L V : Type*) where
  memory : L → V
  buffers : ι → List (L × V)

namespace StoreBuffers

variable {ι L V : Type*}

def new (memory : L → V) : StoreBuffers ι L V := ⟨memory, fun _ => []⟩

/-! ### Loads -/

section Loads

variable [DecidableEq L] {m : StoreBuffers ι L V} {memory : L → V} {store : L × V}
  {stores : List (L × V)} {t : ι} {l k : L} {v : V}

/-- The memory once the stores have got there, one after the other. -/
def commit (memory : L → V) (stores : List (L × V)) : L → V :=
  stores.foldl (fun memory store => Function.update memory store.1 store.2) memory

/-- What the thread loads. -/
def view (m : StoreBuffers ι L V) (t : ι) : L → V := commit m.memory (m.buffers t)

lemma commit_cons :
    commit memory (store :: stores) = commit (Function.update memory store.1 store.2) stores := rfl

/-- What is found at a location was there before, or is one of the stores. -/
lemma eq_or_mem_of_commit (h : commit memory stores l = v) :
    memory l = v ∨ (l, v) ∈ stores := by
  induction stores generalizing memory with
  | nil => exact .inl h
  | cons store stores ih =>
    rw [commit_cons] at h
    rcases ih h with hmem | hmem
    · by_cases hl : l = store.1
      · subst hl
        rw [Function.update_self] at hmem
        exact .inr (hmem ▸ List.mem_cons_self)
      · rw [Function.update_of_ne hl] at hmem
        exact .inl hmem
    · exact .inr (List.mem_cons_of_mem _ hmem)

lemma commit_update_of_ne (h : k ≠ l) :
    commit (Function.update memory l v) stores k = commit memory stores k := by
  induction stores generalizing memory with
  | nil => exact Function.update_of_ne h _ _
  | cons store stores ih =>
    rw [commit_cons, commit_cons]
    by_cases hl : store.1 = l
    · rw [hl, Function.update_idem]
    · rw [Function.update_comm (Ne.symm hl), ih]

lemma eq_or_mem_of_view (h : m.view t l = v) : m.memory l = v ∨ (l, v) ∈ m.buffers t :=
  eq_or_mem_of_commit h

/-- A location that the thread has not stored to is as in the memory. -/
lemma view_of_not_mem (h : ∀ v, (l, v) ∉ m.buffers t) : m.view t l = m.memory l :=
  (eq_or_mem_of_view rfl).elim Eq.symm fun hmem => absurd hmem (h _)

end Loads

/-! ### Stores -/

section Stores

variable [DecidableEq ι] {m : StoreBuffers ι L V} {t u : ι} {l k : L} {v w : V}

def store (m : StoreBuffers ι L V) (t : ι) (l : L) (v : V) : StoreBuffers ι L V :=
  { m with buffers := Function.update m.buffers t (m.buffers t ++ [(l, v)]) }

lemma buffers_store_self : (m.store t l v).buffers t = m.buffers t ++ [(l, v)] :=
  Function.update_self _ _ _

lemma buffers_store_of_ne (h : u ≠ t) : (m.store t l v).buffers u = m.buffers u :=
  Function.update_of_ne h _ _

lemma mem_buffers_store : (k, w) ∈ (m.store t l v).buffers u ↔
    (k, w) ∈ m.buffers u ∨ (u = t ∧ k = l ∧ w = v) := by
  by_cases hu : u = t
  · subst hu
    rw [buffers_store_self, List.mem_append, List.mem_singleton, Prod.mk.injEq]
    simp
  · rw [buffers_store_of_ne hu]
    simp [hu]

variable [DecidableEq L]

/-- A thread sees its own store at once. -/
lemma view_store_self : (m.store t l v).view t = Function.update (m.view t) l v := by
  rw [view, buffers_store_self, commit, List.foldl_append]
  rfl

/-- The other threads do not. -/
lemma view_store_of_ne (h : u ≠ t) : (m.store t l v).view u = m.view u := by
  rw [view, buffers_store_of_ne h]
  rfl

/-- The oldest store of the thread, if there is one, gets to the memory. -/
def flush (m : StoreBuffers ι L V) (t : ι) : StoreBuffers ι L V :=
  match m.buffers t with
  | [] => m
  | (l, v) :: rest => ⟨Function.update m.memory l v, Function.update m.buffers t rest⟩

lemma flush_of_nil (h : m.buffers t = []) : m.flush t = m := by
  unfold flush
  rw [h]

section Flush

variable {rest : List (L × V)} (h : m.buffers t = (l, v) :: rest)
include h

lemma memory_flush : (m.flush t).memory = Function.update m.memory l v := by
  unfold flush
  rw [h]

lemma buffers_flush_self : (m.flush t).buffers t = rest := by
  unfold flush
  rw [h]
  exact Function.update_self _ _ _

lemma buffers_flush_of_ne (hu : u ≠ t) : (m.flush t).buffers u = m.buffers u := by
  unfold flush
  rw [h]
  exact Function.update_of_ne hu _ _

/-- The other threads see no change elsewhere. -/
lemma view_flush_of_ne (hu : u ≠ t) (hk : k ≠ l) : (m.flush t).view u k = m.view u k := by
  rw [view, memory_flush h, buffers_flush_of_ne h hu]
  exact commit_update_of_ne hk

/-- A store in a buffer stays there or gets to the memory. -/
lemma mem_buffers_flush (hmem : (k, w) ∈ m.buffers u) :
    (k, w) ∈ (m.flush t).buffers u ∨ (m.flush t).memory k = w := by
  by_cases hu : u = t
  · subst hu
    rw [h] at hmem
    rcases List.mem_cons.mp hmem with heq | hmem
    · obtain ⟨rfl, rfl⟩ := Prod.mk.inj heq
      rw [memory_flush h]
      exact .inr (Function.update_self _ _ _)
    · rw [buffers_flush_self h]
      exact .inl hmem
  · rw [buffers_flush_of_ne h hu]
    exact .inl hmem

/-- No store appears in a buffer when one leaves. -/
lemma mem_of_mem_buffers_flush (hmem : (k, w) ∈ (m.flush t).buffers u) :
    (k, w) ∈ m.buffers u := by
  by_cases hu : u = t
  · subst hu
    rw [buffers_flush_self h] at hmem
    rw [h]
    exact List.mem_cons_of_mem _ hmem
  · rwa [buffers_flush_of_ne h hu] at hmem

end Flush

/-- A thread does not see when its stores get to the memory. -/
lemma view_flush_self : (m.flush t).view t = m.view t := by
  cases h : m.buffers t with
  | nil => rw [flush_of_nil h]
  | cons store rest =>
    rw [view, view, memory_flush h, buffers_flush_self h, h]
    rfl

end Stores

end StoreBuffers
