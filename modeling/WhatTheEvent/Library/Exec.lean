import Mathlib.Data.List.Basic
import Mathlib.Tactic.Common

/-!
# Runs of a fallible step function

A system is a step function `step : σ → α → Except ε σ`: from a state, an action either leads to
the next state or fails. `exec` runs a list of actions, `Along` states a condition on every step
of a run, and `Reachable` collects the states that runs from a given state end in.
-/

namespace Exec

variable {ε σ σ' α β ω : Type*}

/-- Runs the actions one after the other, stopping at the first failure. -/
def exec (step : σ → α → Except ε σ) (s : σ) : List α → Except ε σ
  | [] => .ok s
  | a :: as =>
    match step s a with
    | .ok s' => exec step s' as
    | .error e => .error e

/-- `P` holds of the state before each step of the run and of the action taken there. -/
def Along (step : σ → α → Except ε σ) (P : σ → α → Prop) (s : σ) : List α → Prop
  | [] => True
  | a :: as =>
    P s a ∧
      match step s a with
      | .ok s' => Along step P s' as
      | .error _ => True

instance Along.decidable (step : σ → α → Except ε σ) (P : σ → α → Prop)
    [∀ s a, Decidable (P s a)] : ∀ (s : σ) (as : List α), Decidable (Along step P s as)
  | _, [] => inferInstanceAs (Decidable True)
  | s, a :: as =>
    have : Decidable
        (match step s a with
        | .ok s' => Along step P s' as
        | .error _ => True) :=
      match step s a with
      | .ok s' => Along.decidable step P s' as
      | .error _ => inferInstanceAs (Decidable True)
    inferInstanceAs (Decidable (_ ∧ _))

/-- `P` holds of the state after the step. -/
def After (step : σ → α → Except ε σ) (P : σ → Prop) (s : σ) (a : α) : Prop :=
  ∀ s', step s a = .ok s' → P s'

/-- The states in which runs from `s` end. -/
def Reachable (step : σ → α → Except ε σ) (s s' : σ) : Prop :=
  ∃ as, exec step s as = .ok s'

section Exec

variable {step : σ → α → Except ε σ} {P Q : σ → α → Prop} {s s' s'' : σ} {a : α} {as bs : List α}

@[simp] lemma exec_nil : exec step s [] = .ok s := rfl

lemma exec_cons_ok (h : step s a = .ok s') : exec step s (a :: as) = exec step s' as := by
  simp [exec, h]

/-- A run that starts with `a` takes the step `a` first. -/
lemma exec_cons_eq_ok : exec step s (a :: as) = .ok s'' ↔
    ∃ s', step s a = .ok s' ∧ exec step s' as = .ok s'' := by
  cases h : step s a <;> simp [exec, h]

lemma exec_append_eq_ok : exec step s (as ++ bs) = .ok s'' ↔
    ∃ s', exec step s as = .ok s' ∧ exec step s' bs = .ok s'' := by
  induction as generalizing s with
  | nil => simp
  | cons a as ih =>
    simp only [List.cons_append, exec_cons_eq_ok, ih]
    constructor
    · rintro ⟨s₁, h₁, s₂, h₂, h₃⟩
      exact ⟨s₂, ⟨s₁, h₁, h₂⟩, h₃⟩
    · rintro ⟨s₂, ⟨s₁, h₁, h₂⟩, h₃⟩
      exact ⟨s₁, h₁, s₂, h₂, h₃⟩

lemma exec_append_ok (h : exec step s as = .ok s') :
    exec step s (as ++ bs) = exec step s' bs := by
  induction as generalizing s with
  | nil => rw [List.nil_append, Except.ok.inj h]
  | cons a as ih =>
    obtain ⟨s₁, h₁, h₂⟩ := exec_cons_eq_ok.mp h
    rw [List.cons_append, exec_cons_ok h₁, ih h₂]

lemma exec_concat_eq_ok : exec step s (as ++ [a]) = .ok s'' ↔
    ∃ s', exec step s as = .ok s' ∧ step s' a = .ok s'' := by
  simp [exec_append_eq_ok, exec_cons_eq_ok]

@[simp] lemma along_nil : Along step P s [] := trivial

lemma along_cons (h : step s a = .ok s') :
    Along step P s (a :: as) ↔ P s a ∧ Along step P s' as := by
  simp [Along, h]

lemma after_iff {I : σ → Prop} (h : step s a = .ok s') : After step I s a ↔ I s' := by
  simp [After, h]

lemma Along.head (h : Along step P s (a :: as)) : P s a := h.1

lemma along_append (h : exec step s as = .ok s') :
    Along step P s (as ++ bs) ↔ Along step P s as ∧ Along step P s' bs := by
  induction as generalizing s with
  | nil => simp_all
  | cons a as ih =>
    obtain ⟨s₁, h₁, h₂⟩ := exec_cons_eq_ok.mp h
    simp only [List.cons_append, along_cons h₁, ih h₂, and_assoc]

lemma along_concat (h : exec step s as = .ok s') :
    Along step P s (as ++ [a]) ↔ Along step P s as ∧ P s' a := by
  rw [along_append h]
  refine and_congr_right fun _ => ⟨Along.head, fun hP => ?_⟩
  unfold Along
  refine ⟨hP, ?_⟩
  cases step s' a <;> simp

lemma Along.and (hP : Along step P s as) (hQ : Along step Q s as) :
    Along step (fun s a => P s a ∧ Q s a) s as := by
  induction as generalizing s with
  | nil => trivial
  | cons a as ih =>
    unfold Along at hP hQ ⊢
    refine ⟨⟨hP.1, hQ.1⟩, ?_⟩
    cases hs : step s a with
    | ok s' => exact ih (by simpa [hs] using hP.2) (by simpa [hs] using hQ.2)
    | error e => trivial

lemma Along.imp (h : Along step P s as) (hPQ : ∀ s a, P s a → Q s a) : Along step Q s as := by
  induction as generalizing s with
  | nil => trivial
  | cons a as ih =>
    refine ⟨hPQ _ _ h.1, ?_⟩
    have hrest := h.2
    revert hrest
    cases step s a with
    | error e => exact id
    | ok s' => exact ih

/-- A condition along a run is one on each of its actions, in the state that the run up to there
leads to. -/
lemma along_iff_forall : Along step P s as ↔
    ∀ front a back s', as = front ++ a :: back → exec step s front = .ok s' → P s' a := by
  induction as generalizing s with
  | nil => simp
  | cons a as ih =>
    constructor
    · rintro ⟨hP, hrest⟩ front b back s' heq hrun
      cases front with
      | nil =>
        obtain ⟨rfl, rfl⟩ := List.cons.inj heq
        obtain rfl := Except.ok.inj hrun
        exact hP
      | cons b' front =>
        obtain ⟨rfl, rfl⟩ := List.cons.inj heq
        obtain ⟨s₁, h₁, h₂⟩ := exec_cons_eq_ok.mp hrun
        rw [h₁] at hrest
        exact ih.mp hrest front b back s' rfl h₂
    · intro h
      unfold Along
      refine ⟨h [] a as s rfl rfl, ?_⟩
      cases hs : step s a with
      | error e => trivial
      | ok s₁ =>
        refine ih.mpr fun front b back s' heq hrun => ?_
        rw [← exec_cons_ok hs] at hrun
        exact h (a :: front) b back s' (by rw [heq, List.cons_append]) hrun

/-- An invariant of the steps that meet `P` holds at the end of every run along `P`. -/
theorem exec_invariant (I : σ → Prop)
    (hstep : ∀ s a s', I s → P s a → step s a = .ok s' → I s')
    (hs : I s) (hP : Along step P s as) (h : exec step s as = .ok s') : I s' := by
  induction as generalizing s with
  | nil => simp_all
  | cons a as ih =>
    obtain ⟨s₁, h₁, h₂⟩ := exec_cons_eq_ok.mp h
    rw [along_cons h₁] at hP
    exact ih (hstep s a s₁ hs hP.1 h₁) hP.2 h₂

/-- Two conditions that agree at every step that meets `C` hold along the same runs. Once one of
them has failed the states reached need not meet the invariant. -/
theorem along_iff {C : σ → α → Prop} (I : σ → Prop)
    (hiff : ∀ s a, I s → C s a → (P s a ↔ Q s a))
    (hinv : ∀ s a s', I s → C s a → Q s a → step s a = .ok s' → I s')
    (hs : I s) (hC : Along step C s as) : Along step P s as ↔ Along step Q s as := by
  induction as generalizing s with
  | nil => exact Iff.rfl
  | cons a as ih =>
    unfold Along at hC ⊢
    rw [hiff s a hs hC.1]
    refine and_congr_right fun hQ => ?_
    cases h : step s a with
    | ok s' => exact ih (hinv s a s' hs hC.1 hQ h) (by simpa [h] using hC.2)
    | error e => exact Iff.rfl

/-- Where `P` and an invariant let a step go well, they let a whole run go well. -/
theorem exec_total (I : σ → Prop)
    (hstep : ∀ s a, I s → P s a → ∃ s', step s a = .ok s' ∧ I s' ∧ Q s a)
    (hs : I s) (hP : Along step P s as) :
    ∃ s', exec step s as = .ok s' ∧ I s' ∧ Along step Q s as := by
  induction as generalizing s with
  | nil => exact ⟨s, rfl, hs, trivial⟩
  | cons a as ih =>
    obtain ⟨s₁, h₁, hI, hQ⟩ := hstep s a hs hP.head
    obtain ⟨s₂, h₂, hI₂, hrest⟩ := ih hI ((along_cons h₁).mp hP).2
    exact ⟨s₂, (exec_cons_ok h₁).trans h₂, hI₂, (along_cons h₁).mpr ⟨hQ, hrest⟩⟩

/-- No step of a run to its end fails. -/
lemma along_of_exec (h : exec step s as = .ok s') :
    Along step (fun s a => ∃ s', step s a = .ok s') s as := by
  induction as generalizing s with
  | nil => trivial
  | cons a as ih =>
    obtain ⟨s₁, h₁, h₂⟩ := exec_cons_eq_ok.mp h
    exact (along_cons h₁).mpr ⟨⟨s₁, h₁⟩, ih h₂⟩

/-- In a run to its end the conditions need to agree only at steps that do not fail. -/
theorem along_congr {C : σ → α → Prop} (I : σ → Prop)
    (hstep : ∀ s a s', I s → C s a → step s a = .ok s' → (P s a ↔ Q s a) ∧ (Q s a → I s'))
    (hs : I s) (hC : Along step C s as) (h : exec step s as = .ok s') :
    Along step P s as ↔ Along step Q s as := by
  refine along_iff (C := fun s a => C s a ∧ ∃ s', step s a = .ok s') I ?_ ?_ hs
    (hC.and (along_of_exec h))
  · rintro s a hI ⟨hCa, s', hs'⟩
    exact (hstep s a s' hI hCa hs').1
  · rintro s a s' hI ⟨hCa, -⟩ hQ hs'
    exact (hstep s a s' hI hCa hs').2 hQ

lemma Along.of_forall (hP : ∀ s a, P s a) : Along step P s as := by
  induction as generalizing s with
  | nil => trivial
  | cons a as ih =>
    unfold Along
    refine ⟨hP s a, ?_⟩
    cases step s a <;> simp [ih]

/-- A condition on the actions alone. -/
lemma Along.of_mem {Q : α → Prop} (hQ : ∀ a ∈ as, Q a) : Along step (fun _ a => Q a) s as := by
  induction as generalizing s with
  | nil => trivial
  | cons a as ih =>
    rw [List.forall_mem_cons] at hQ
    unfold Along
    refine ⟨hQ.1, ?_⟩
    cases step s a <;> simp [ih hQ.2]

/-- A condition that each step keeps exactly if it meets `Q` holds at the end of those runs along
`Q`, as long as `L` holds, which a step does not restore. -/
theorem exec_iff_along {C : σ → α → Prop} {L R : σ → Prop} (I : σ → Prop)
    (hstep : ∀ s a s', I s → C s a → step s a = .ok s' →
      I s' ∧ (L s' → L s ∧ (R s' ↔ R s ∧ Q s a)))
    (hs : I s) (hC : Along step C s as) (h : exec step s as = .ok s') :
    I s' ∧ (L s' → L s ∧ (R s' ↔ R s ∧ Along step Q s as)) := by
  induction as generalizing s with
  | nil =>
    obtain rfl := Except.ok.inj h
    exact ⟨hs, fun hL => ⟨hL, (and_iff_left trivial).symm⟩⟩
  | cons a as ih =>
    obtain ⟨s₁, h₁, h₂⟩ := exec_cons_eq_ok.mp h
    rw [along_cons h₁] at hC
    obtain ⟨hI₁, hiff₁⟩ := hstep s a s₁ hs hC.1 h₁
    obtain ⟨hI, hiff⟩ := ih hI₁ hC.2 h₂
    refine ⟨hI, fun hL => ?_⟩
    obtain ⟨hL₁, hR⟩ := hiff hL
    obtain ⟨hL₀, hR₁⟩ := hiff₁ hL₁
    exact ⟨hL₀, by rw [hR, hR₁, along_cons h₁, and_assoc]⟩

/-- A run fails in a way exactly if one of its steps does. -/
theorem exec_ne_error_iff {e : ε} :
    exec step s as ≠ .error e ↔ Along step (fun s a => step s a ≠ .error e) s as := by
  induction as generalizing s with
  | nil => simp
  | cons a as ih =>
    unfold Along exec
    cases h : step s a with
    | ok s' => simpa using ih
    | error e' => simp

/-- An invariant of every step holds in every reachable state. -/
theorem Reachable.invariant (I : σ → Prop) (hstep : ∀ s a s', I s → step s a = .ok s' → I s')
    (hs : I s) (h : Reachable step s s') : I s' := by
  obtain ⟨as, has⟩ := h
  exact exec_invariant (P := fun _ _ => True) I (fun s a s' hI _ => hstep s a s' hI) hs
    (Along.of_forall fun _ _ => trivial) has

end Exec

/-! ### Simulation -/

section Simulation

variable {step : σ → α → Except ε σ} {step' : σ' → α → Except ε σ'} {s : σ} {s' t' : σ'}
  {as : List α}

/-- A forward simulation: every run of the abstract system over actions that meet `P` is matched by
a run of the concrete one, and the end states stay related. -/
theorem exec_simulates (R : σ → σ' → Prop) (P : α → Prop)
    (hstep : ∀ s s' a t', R s s' → P a → step' s' a = .ok t' → ∃ t, step s a = .ok t ∧ R t t')
    (hR : R s s') (hP : ∀ a ∈ as, P a) (h : exec step' s' as = .ok t') :
    ∃ t, exec step s as = .ok t ∧ R t t' := by
  induction as generalizing s s' with
  | nil =>
    simp only [exec_nil, Except.ok.injEq] at h
    exact ⟨s, rfl, h ▸ hR⟩
  | cons a as ih =>
    rw [List.forall_mem_cons] at hP
    obtain ⟨s₁', h₁, h₂⟩ := exec_cons_eq_ok.mp h
    obtain ⟨s₁, hs₁, hR₁⟩ := hstep s s' a s₁' hR hP.1 h₁
    obtain ⟨t, ht, hRt⟩ := ih hR₁ hP.2 h₂
    exact ⟨t, exec_cons_eq_ok.mpr ⟨s₁, hs₁, ht⟩, hRt⟩

end Simulation

end Exec
