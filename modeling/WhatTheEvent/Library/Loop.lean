import Mathlib.Tactic.Common

/-!
# Loops that may fail

`whileDo` and `doWhile` run the body of a loop on its local state. The body may fail, and so may
the loop itself: a bound on the number of rounds is part of the call, and using it up is reported
as the error `out`. The rules below bound the rounds by a variant.
-/

namespace Loop

variable {ε σ : Type*}

/-- `while (guard) body`, for at most `rounds` tests of the guard. -/
def whileDo (out : ε) (guard : σ → Bool) (body : σ → Except ε σ) : Nat → σ → Except ε σ
  | 0, _ => .error out
  | rounds + 1, s =>
    if guard s then
      match body s with
      | .ok s' => whileDo out guard body rounds s'
      | .error e => .error e
    else .ok s

/-- `do body while (guard)`, for at most `rounds` runs of the body. -/
def doWhile (out : ε) (guard : σ → Bool) (body : σ → Except ε σ) : Nat → σ → Except ε σ
  | 0, _ => .error out
  | rounds + 1, s =>
    match body s with
    | .ok s' => if guard s' then doWhile out guard body rounds s' else .ok s'
    | .error e => .error e

variable {out : ε} {guard : σ → Bool} {body : σ → Except ε σ} {rounds : Nat} {s s' : σ}

lemma whileDo_of_not_guard (hr : 0 < rounds) (h : guard s = false) :
    whileDo out guard body rounds s = .ok s := by
  cases rounds with
  | zero => exact absurd hr (Nat.lt_irrefl 0)
  | succ rounds => simp [whileDo, h]

lemma whileDo_of_guard (h : guard s = true) (hb : body s = .ok s') :
    whileDo out guard body (rounds + 1) s = whileDo out guard body rounds s' := by
  simp [whileDo, h, hb]

lemma doWhile_of_not_guard (hr : 0 < rounds) (hb : body s = .ok s') (h : guard s' = false) :
    doWhile out guard body rounds s = .ok s' := by
  cases rounds with
  | zero => exact absurd hr (Nat.lt_irrefl 0)
  | succ rounds => simp [doWhile, h, hb]

lemma doWhile_of_guard (hb : body s = .ok s') (h : guard s' = true) :
    doWhile out guard body (rounds + 1) s = doWhile out guard body rounds s' := by
  simp [doWhile, h, hb]

lemma doWhile_error {e : ε} (hb : body s = .error e) :
    doWhile out guard body (rounds + 1) s = .error e := by
  simp [doWhile, hb]

/-- The first round of a loop that ends well. -/
lemma doWhile_eq_ok : doWhile out guard body (rounds + 1) s = .ok s' ↔
    ∃ s₁, body s = .ok s₁ ∧ (guard s₁ = false ∧ s' = s₁ ∨
      guard s₁ = true ∧ doWhile out guard body rounds s₁ = .ok s') := by
  cases hb : body s with
  | error e => simp [doWhile_error hb]
  | ok s₁ =>
    cases hg : guard s₁ with
    | false => simp [doWhile_of_not_guard (Nat.succ_pos _) hb hg, hg, eq_comm (a := s')]
    | true => simp [doWhile_of_guard hb hg, hg]

/-- The total-correctness rule: if the body keeps the invariant and lowers the variant, a loop that
may test its guard more often than the variant says ends, with the invariant and a false guard. -/
theorem whileDo_total (I : σ → Prop) (variant : σ → Nat)
    (hbody : ∀ s, I s → guard s = true → ∃ s', body s = .ok s' ∧ I s' ∧ variant s' < variant s)
    (hs : I s) (hr : variant s < rounds) :
    ∃ s', whileDo out guard body rounds s = .ok s' ∧ I s' ∧ guard s' = false := by
  induction rounds generalizing s with
  | zero => omega
  | succ rounds ih =>
    cases hg : guard s with
    | false => exact ⟨s, whileDo_of_not_guard rounds.succ_pos hg, hs, hg⟩
    | true =>
      obtain ⟨s₁, hb, hI, hv⟩ := hbody s hs hg
      obtain ⟨s₂, h₂, hI₂, hg₂⟩ := ih hI (by omega)
      exact ⟨s₂, (whileDo_of_guard hg hb).trans h₂, hI₂, hg₂⟩

/-- The rule for a loop with its guard at the end: if the body leads from the invariant to the
result, and back to the invariant with a lower variant when the loop goes on, the loop ends with
the result. -/
theorem doWhile_total (I J : σ → Prop) (variant : σ → Nat)
    (hbody : ∀ s, I s → ∃ s', body s = .ok s' ∧ J s' ∧
      (guard s' = true → I s' ∧ variant s' < variant s))
    (hs : I s) (hr : variant s < rounds) :
    ∃ s', doWhile out guard body rounds s = .ok s' ∧ J s' ∧ guard s' = false := by
  induction rounds generalizing s with
  | zero => exact absurd hr (Nat.not_lt_zero _)
  | succ rounds ih =>
    obtain ⟨s₁, hb, hJ, hnext⟩ := hbody s hs
    cases hg : guard s₁ with
    | false => exact ⟨s₁, doWhile_of_not_guard rounds.succ_pos hb hg, hJ, hg⟩
    | true =>
      obtain ⟨hI, hv⟩ := hnext hg
      obtain ⟨s₂, h₂, hJ₂, hg₂⟩ := ih hI (Nat.lt_of_lt_of_le hv (Nat.le_of_lt_succ hr))
      exact ⟨s₂, (doWhile_of_guard hb hg).trans h₂, hJ₂, hg₂⟩

/-- What the body keeps, the loop keeps. -/
theorem whileDo_invariant (I : σ → Prop) (hbody : ∀ s s', I s → body s = .ok s' → I s')
    (hs : I s) (h : whileDo out guard body rounds s = .ok s') : I s' := by
  induction rounds generalizing s with
  | zero => cases h
  | succ rounds ih =>
    unfold whileDo at h
    split_ifs at h
    · cases hb : body s with
      | error e =>
        rw [hb] at h
        cases h
      | ok s₁ =>
        rw [hb] at h
        exact ih (hbody s s₁ hs hb) h
    · obtain rfl := Except.ok.inj h
      exact hs

/-- What the body keeps, the loop keeps. -/
theorem doWhile_invariant (I : σ → Prop) (hbody : ∀ s s', I s → body s = .ok s' → I s')
    (hs : I s) (h : doWhile out guard body rounds s = .ok s') : I s' := by
  induction rounds generalizing s with
  | zero => cases h
  | succ rounds ih =>
    obtain ⟨s₁, hb, hnext⟩ := doWhile_eq_ok.mp h
    have hI := hbody s s₁ hs hb
    rcases hnext with ⟨-, rfl⟩ | ⟨-, h⟩
    · exact hI
    · exact ih hI h

/-- What the first round establishes and the body keeps holds in the end. -/
theorem doWhile_invariant_of_first (I : σ → Prop) (hfirst : ∀ s', body s = .ok s' → I s')
    (hbody : ∀ s s', I s → body s = .ok s' → I s')
    (h : doWhile out guard body rounds s = .ok s') : I s' := by
  cases rounds with
  | zero => cases h
  | succ rounds =>
    obtain ⟨s₁, hb, hnext⟩ := doWhile_eq_ok.mp h
    have hI := hfirst s₁ hb
    rcases hnext with ⟨-, rfl⟩ | ⟨-, h⟩
    · exact hI
    · exact doWhile_invariant I hbody hI h

end Loop
