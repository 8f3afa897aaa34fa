import Mathlib.Algebra.Ring.Nat
import Mathlib.Data.List.Forall2
import Mathlib.Data.List.ReduceOption
import Mathlib.Tactic.Common

/-!
# Lists related entry by entry

Lookups and updates in two lists whose entries are related one by one.
-/

namespace Pointwise

variable {α β : Type*} {R : α → β → Prop} {l : List α} {l' : List β} {i : Nat} {a : α} {b : β}

/-- An entry has a related one at the same place. -/
lemma exists_of_getElem? (h : List.Forall₂ R l l') (hi : l[i]? = some a) :
    ∃ b, l'[i]? = some b ∧ R a b := by
  induction h generalizing i with
  | nil => simp at hi
  | cons hab _ ih =>
    cases i with
    | zero =>
      simp only [List.getElem?_cons_zero, Option.some.injEq] at hi ⊢
      exact ⟨_, rfl, hi ▸ hab⟩
    | succ i =>
      rw [List.getElem?_cons_succ] at hi ⊢
      exact ih hi

/-- An entry has a related one at the same place. -/
lemma exists_of_getElem?' (h : List.Forall₂ R l l') (hi : l'[i]? = some b) :
    ∃ a, l[i]? = some a ∧ R a b := by
  obtain ⟨a, ha, hab⟩ := exists_of_getElem? h.flip hi
  exact ⟨a, ha, hab⟩

lemma forall₂_set (h : List.Forall₂ R l l') (hab : R a b) :
    List.Forall₂ R (l.set i a) (l'.set i b) := by
  induction h generalizing i with
  | nil => exact List.Forall₂.nil
  | cons hcd hrest ih =>
    cases i with
    | zero => exact List.Forall₂.cons hab hrest
    | succ i => exact List.Forall₂.cons hcd ih

lemma forall₂_concat (h : List.Forall₂ R l l') (hab : R a b) :
    List.Forall₂ R (l ++ [a]) (l' ++ [b]) :=
  List.rel_append h (List.Forall₂.cons hab List.Forall₂.nil)

/-- Writing an entry back changes nothing. -/
lemma set_eq_self (h : l[i]? = some a) : l.set i a = l := by
  obtain ⟨hlt, rfl⟩ := List.getElem?_eq_some_iff.mp h
  exact List.set_getElem_self hlt

/-- A change of one entry changes the total by as much. -/
lemma sum_map_set {f : α → Nat} {b : α} (h : l[i]? = some a) :
    ((l.set i b).map f).sum + f a = (l.map f).sum + f b := by
  induction l generalizing i with
  | nil => simp at h
  | cons c l ih =>
    cases i with
    | zero =>
      rw [List.getElem?_cons_zero, Option.some.injEq] at h
      simp only [List.set_cons_zero, List.map_cons, List.sum_cons, h]
      omega
    | succ i =>
      have hrest := ih (by simpa using h)
      simp only [List.set_cons_succ, List.map_cons, List.sum_cons]
      omega

/-! ### Slots -/

/-- A full slot and the others. -/
lemma perm_reduceOption {l : List (Option α)} {a : α} (h : l[i]? = some (some a)) :
    l.reduceOption.Perm (a :: (l.set i none).reduceOption) := by
  induction l generalizing i with
  | nil => simp at h
  | cons c l ih =>
    cases i with
    | zero =>
      rw [List.getElem?_cons_zero, Option.some.injEq] at h
      rw [h, List.set_cons_zero, List.reduceOption_cons_of_some, List.reduceOption_cons_of_none]
    | succ i =>
      have hrest := ih (by simpa using h)
      cases c with
      | none => simpa using hrest
      | some c =>
        rw [List.set_cons_succ, List.reduceOption_cons_of_some, List.reduceOption_cons_of_some]
        exact (hrest.cons c).trans (.swap a c _)

/-- A slot that is filled. -/
lemma perm_reduceOption_set {l : List (Option α)} {a : α} (h : i < l.length) :
    (l.set i (some a)).reduceOption.Perm (a :: (l.set i none).reduceOption) := by
  have hi : (l.set i (some a))[i]? = some (some a) := by simp [h]
  have hperm := perm_reduceOption hi
  rwa [List.set_set] at hperm

end Pointwise
