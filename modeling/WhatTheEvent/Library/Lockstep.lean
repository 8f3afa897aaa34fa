import WhatTheEvent.Library.Exec
import WhatTheEvent.Library.Loop

/-!
# Computations in lockstep

Two fallible computations are in lockstep if they end in related results, or fail in the same way.
The rules below follow the structure of computations up to whole runs.
-/

universe u v

variable {ε σ σ' ι : Type*} {α γ : Type u} {α' γ' : Type v}

/-- Related results, or the same failure. -/
inductive Lockstep (R : α → α' → Prop) : Except ε α → Except ε α' → Prop
  | ok {a : α} {a' : α'} (h : R a a') : Lockstep R (.ok a) (.ok a')
  | error {e : ε} : Lockstep R (.error e) (.error e)

namespace Lockstep

variable {R : α → α' → Prop} {S : γ → γ' → Prop} {x : Except ε α} {x' : Except ε α'}

lemma mono {R' : α → α' → Prop} (h : Lockstep R x x') (hR : ∀ a a', R a a' → R' a a') :
    Lockstep R' x x' := by
  cases h with
  | ok h => exact .ok (hR _ _ h)
  | error => exact .error

/-- Computations that go on from related results in lockstep. -/
lemma bind {f : α → Except ε γ} {f' : α' → Except ε γ'} (h : Lockstep R x x')
    (hf : ∀ a a', R a a' → Lockstep S (f a) (f' a')) : Lockstep S (x >>= f) (x' >>= f') := by
  cases h with
  | ok h => exact hf _ _ h
  | error => exact .error

lemma map {f : α → γ} {f' : α' → γ'} (h : Lockstep R x x')
    (hf : ∀ a a', R a a' → S (f a) (f' a')) : Lockstep S (x.map f) (x'.map f') := by
  cases h with
  | ok h => exact .ok (hf _ _ h)
  | error => exact .error

/-- The same computation on both sides. -/
lemma refl (x : Except ε α) : Lockstep Eq x x := by
  cases x with
  | ok a => exact .ok rfl
  | error e => exact .error

lemma ite {p : Prop} [Decidable p] {y : Except ε α} {y' : Except ε α'}
    (h : p → Lockstep R x x') (h' : ¬ p → Lockstep R y y') :
    Lockstep R (if p then x else y) (if p then x' else y') := by
  split_ifs with hp
  · exact h hp
  · exact h' hp

/-- What holds of the results on one side. -/
lemma and_left {P : α → Prop} (h : Lockstep R x x') (hP : ∀ a, x = .ok a → P a) :
    Lockstep (fun a a' => R a a' ∧ P a) x x' := by
  cases h with
  | ok h => exact .ok ⟨h, hP _ rfl⟩
  | error => exact .error

lemma exists_of_ok {a : α} (h : Lockstep R (.ok a) x') : ∃ a', x' = .ok a' ∧ R a a' := by
  cases h with
  | ok h => exact ⟨_, rfl, h⟩

/-- Loops whose bodies are in lockstep, and whose guards agree on related states. -/
theorem doWhile {R : σ → σ' → Prop} {out : ε} {guard : σ → Bool} {guard' : σ' → Bool}
    {body : σ → Except ε σ} {body' : σ' → Except ε σ'}
    (hbody : ∀ s s', R s s' → Lockstep R (body s) (body' s'))
    (hguard : ∀ s s', R s s' → guard s = guard' s') (rounds : Nat) {s : σ} {s' : σ'} (h : R s s') :
    Lockstep R (Loop.doWhile out guard body rounds s)
      (Loop.doWhile out guard' body' rounds s') := by
  induction rounds generalizing s s' with
  | zero => exact .error
  | succ rounds ih =>
    unfold Loop.doWhile
    have hround := hbody s s' h
    revert hround
    generalize body s = r, body' s' = r'
    intro hround
    cases hround with
    | error => exact .error
    | ok h =>
      dsimp only
      rw [hguard _ _ h]
      exact ite (fun _ => ih h) fun _ => .ok h

/-- Systems whose steps are in lockstep where `P` holds run in lockstep along `P`. -/
theorem exec {R : σ → σ' → Prop} {P : σ → ι → Prop} {step : σ → ι → Except ε σ}
    {step' : σ' → ι → Except ε σ'}
    (hstep : ∀ s s' a, R s s' → P s a → Lockstep R (step s a) (step' s' a))
    {s : σ} {s' : σ'} {as : List ι} (h : R s s') (hP : Exec.Along step P s as) :
    Lockstep R (Exec.exec step s as) (Exec.exec step' s' as) := by
  induction as generalizing s s' with
  | nil => exact .ok h
  | cons a as ih =>
    obtain ⟨hPa, hrest⟩ := hP
    have ha := hstep s s' a h hPa
    unfold Exec.exec
    revert ha hrest
    generalize step s a = r, step' s' a = r'
    intro hrest ha
    cases ha with
    | error => exact .error
    | ok h => exact ih h hrest

end Lockstep
