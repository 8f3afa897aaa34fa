import Mathlib.Data.List.Induction
import Mathlib.Data.List.Perm.Basic
import Mathlib.Tactic.Common

/-!
# Ledgers

A ledger is the history of what was acquired and what was released. It balances as long as nothing
is acquired that is held, and nothing is released that is not; it is settled when nothing is held.
-/

namespace Ledger

inductive Entry (ρ : Type*) where
  | acquire (r : ρ)
  | release (r : ρ)
  deriving DecidableEq, Repr

variable {ρ : Type*} [DecidableEq ρ] {entries : List (Entry ρ)} {held : List ρ} {r : ρ}

/-- What is held after one more entry, if the ledger still balances. -/
def post (held : List ρ) : Entry ρ → Option (List ρ)
  | .acquire r => if r ∈ held then none else some (r :: held)
  | .release r => if r ∈ held then some (held.erase r) else none

/-- What is held in the end, if the ledger balances. -/
def balance (entries : List (Entry ρ)) : Option (List ρ) := entries.foldlM post []

/-- The ledger balances, and nothing is held. -/
def Settled (entries : List (Entry ρ)) : Prop := balance entries = some []

instance : Decidable (Settled entries) := inferInstanceAs (Decidable (_ = _))

/-- The ledger balances, and these are held, in any order. -/
def Holds (entries : List (Entry ρ)) (held : List ρ) : Prop :=
  ∃ held', balance entries = some held' ∧ held'.Perm held

lemma balance_concat (h : balance entries = some held) (e : Entry ρ) :
    balance (entries ++ [e]) = post held e := by
  unfold balance at h ⊢
  rw [List.foldlM_append, h]
  simp

lemma balance_concat_eq_some {e : Entry ρ} {held' : List ρ} :
    balance (entries ++ [e]) = some held' ↔
      ∃ held, balance entries = some held ∧ post held e = some held' := by
  unfold balance
  rw [List.foldlM_append]
  simp [Option.bind_eq_some_iff]

/-- What was acquired is held or was released. -/
lemma count_of_balance (h : balance entries = some held) (r : ρ) :
    entries.count (.release r) + held.count r = entries.count (.acquire r) := by
  induction entries using List.reverseRecOn generalizing held with
  | nil =>
    obtain rfl := Option.some.inj h
    rfl
  | append_singleton entries e ih =>
    obtain ⟨held₁, h₁, hpost⟩ := balance_concat_eq_some.mp h
    have hcount := ih h₁
    rw [List.count_append, List.count_append]
    cases e with
    | acquire r' =>
      rw [post] at hpost
      split_ifs at hpost
      obtain rfl := Option.some.inj hpost
      by_cases hr : r' = r
      · subst hr
        simp [hcount.symm, Nat.add_assoc]
      · simp [hr, hcount]
    | release r' =>
      rw [post] at hpost
      split_ifs at hpost with hmem
      obtain rfl := Option.some.inj hpost
      have hcons := (List.perm_cons_erase hmem).count_eq r
      by_cases hr : r' = r
      · subst hr
        simp at hcons ⊢
        omega
      · simp [hr] at hcons ⊢
        omega

lemma holds_nil : Holds ([] : List (Entry ρ)) [] := ⟨[], rfl, .refl _⟩

lemma Holds.of_perm {held' : List ρ} (h : Holds entries held) (hperm : held.Perm held') :
    Holds entries held' := by
  obtain ⟨l, hl, hp⟩ := h
  exact ⟨l, hl, hp.trans hperm⟩

lemma Holds.acquire (h : Holds entries held) (hr : r ∉ held) :
    Holds (entries ++ [.acquire r]) (r :: held) := by
  obtain ⟨l, hl, hp⟩ := h
  refine ⟨r :: l, ?_, hp.cons r⟩
  rw [balance_concat hl, post, if_neg (fun hmem => hr (hp.mem_iff.mp hmem))]

lemma Holds.release (h : Holds entries (r :: held)) :
    Holds (entries ++ [.release r]) held := by
  obtain ⟨l, hl, hp⟩ := h
  refine ⟨l.erase r, ?_, ?_⟩
  · rw [balance_concat hl, post, if_pos (hp.mem_iff.mpr List.mem_cons_self)]
  · exact (hp.erase r).trans (by rw [List.erase_cons_head])

/-- What is held is settled only where there is nothing. -/
lemma Holds.settled_iff (h : Holds entries held) : Settled entries ↔ held = [] := by
  obtain ⟨l, hl, hp⟩ := h
  rw [Settled, hl, Option.some.injEq]
  constructor
  · rintro rfl
    exact List.perm_nil.mp hp.symm
  · rintro rfl
    exact List.perm_nil.mp hp

/-! ### Numbered resources -/

/-- The resources are numbers below `n`, and none of them was acquired twice. -/
def Numbered (entries : List (Entry Nat)) (n : Nat) : Prop :=
  ∀ i, entries.count (.acquire i) ≤ if i < n then 1 else 0

section Numbered

variable {numbers : List (Entry Nat)} {i n n' : Nat}

lemma numbered_nil : Numbered [] n := fun i => by simp

lemma Numbered.mono (h : Numbered numbers n) (hn : n ≤ n') : Numbered numbers n' := by
  intro i
  refine Nat.le_trans (h i) ?_
  split_ifs <;> omega

/-- The next number is acquired. -/
lemma Numbered.acquire (h : Numbered numbers n) :
    Numbered (numbers ++ [.acquire n]) (n + 1) := by
  intro i
  have hi := h i
  rw [List.count_append, List.count_singleton]
  by_cases hin : i = n
  · subst hin
    rw [if_neg (Nat.lt_irrefl i)] at hi
    rw [if_pos (Nat.lt_succ_self i)]
    split_ifs <;> omega
  · have hne : ((Entry.acquire n : Entry Nat) == .acquire i) = false := by
      simpa using Ne.symm hin
    rw [hne, if_neg Bool.false_ne_true, Nat.add_zero]
    refine Nat.le_trans hi ?_
    split_ifs <;> omega

lemma Numbered.release (h : Numbered numbers n) : Numbered (numbers ++ [.release i]) n := by
  intro j
  simpa [List.count_append] using h j

end Numbered

end Ledger
