import Mathlib.Data.List.Basic
import Mathlib.Tactic.Common

/-!
# Heaps

A heap hands out addresses one after the other and never the same one twice, so that an access to
a cell that was freed can be told from an access to another one.
-/

structure Heap (α : Type*) where
  /-- The cells by address, `none` once freed. -/
  cells : List (Option α)
  deriving DecidableEq, Repr

namespace Heap

variable {α : Type*} {h : Heap α} {a b : α} {p q : Nat}

def empty : Heap α := ⟨[]⟩

/-- The address of the next allocation. -/
def fresh (h : Heap α) : Nat := h.cells.length

def alloc (h : Heap α) (a : α) : Heap α := ⟨h.cells ++ [some a]⟩

def load (h : Heap α) (p : Nat) : Option α := h.cells[p]?.join

/-- Overwrites a cell that has not been freed. -/
def store (h : Heap α) (p : Nat) (a : α) : Heap α := ⟨h.cells.set p (some a)⟩

def free (h : Heap α) (p : Nat) : Heap α := ⟨h.cells.set p none⟩

@[simp] lemma fresh_alloc : (h.alloc a).fresh = h.fresh + 1 := by simp [alloc, fresh]

@[simp] lemma fresh_store : (h.store p a).fresh = h.fresh := by simp [store, fresh]

@[simp] lemma fresh_free : (h.free p).fresh = h.fresh := by simp [free, fresh]

/-- What can be loaded was allocated. -/
lemma lt_fresh (hp : h.load p = some a) : p < h.fresh := by
  unfold load at hp
  by_contra hge
  rw [List.getElem?_eq_none (Nat.le_of_not_lt hge)] at hp
  cases hp

lemma load_alloc_fresh : (h.alloc a).load h.fresh = some a := by simp [load, alloc, fresh]

lemma load_alloc_of_ne (hp : p ≠ h.fresh) : (h.alloc a).load p = h.load p := by
  unfold load alloc
  rcases Nat.lt_trichotomy p h.cells.length with hlt | heq | hgt
  · rw [List.getElem?_append_left hlt]
  · exact absurd heq hp
  · rw [List.getElem?_eq_none (by simp; omega), List.getElem?_eq_none (by omega)]

/-- An allocation leaves what was there. -/
lemma load_alloc (hp : h.load p = some b) : (h.alloc a).load p = some b := by
  rw [load_alloc_of_ne (Nat.ne_of_lt (lt_fresh hp)), hp]

lemma load_store_self (hp : h.load p = some b) : (h.store p a).load p = some a := by
  have hlt : p < h.cells.length := lt_fresh hp
  simp [load, store, hlt]

@[simp] lemma load_store_eq_none (hp : h.load p = some b) :
    (h.store p a).load q = none ↔ h.load q = none := by
  by_cases hne : p = q
  · subst hne
    simp [load_store_self hp, hp]
  · unfold load store
    rw [List.getElem?_set_ne hne]

lemma load_store_of_ne (hp : p ≠ q) : (h.store p a).load q = h.load q := by
  unfold load store
  rw [List.getElem?_set_ne hp]

@[simp] lemma load_free_self : (h.free p).load p = none := by
  unfold load free
  by_cases hlt : p < h.cells.length
  · simp [hlt]
  · rw [List.getElem?_eq_none (by simpa using hlt)]
    rfl

lemma load_free_of_ne (hp : p ≠ q) : (h.free p).load q = h.load q := by
  unfold load free
  rw [List.getElem?_set_ne hp]

end Heap
