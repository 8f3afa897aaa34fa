import Mathlib.Data.List.Induction
import Mathlib.Logic.Function.Basic
import Mathlib.Tactic.Common

/-!
# Alarms

An alarm is set to a value, or to none, or cancelled, and goes off at most once before it is set
again. What is armed is read off the log of all that happened.
-/

namespace Alarm

inductive Event (κ ν τ : Type*) where
  | set (k : κ) (v : Option ν)
  | cancel (k : κ)
  /-- The alarm goes off at the time. -/
  | ring (k : κ) (v : ν) (t : τ)
  deriving DecidableEq, Repr

def Event.key {κ ν τ : Type*} : Event κ ν τ → κ
  | set k _ => k
  | cancel k => k
  | ring k _ _ => k

variable {κ ν τ : Type*} [DecidableEq κ] {log : List (Event κ ν τ)} {e : Event κ ν τ} {k : κ}
  {v : ν} {t : τ} {due : ν → τ → Prop}

/-- What is armed after one more event. -/
def post (armed : κ → Option ν) : Event κ ν τ → κ → Option ν
  | .set k v => Function.update armed k v
  | .cancel k => Function.update armed k none
  | .ring k _ _ => Function.update armed k none

/-- The value of each alarm that is armed. -/
def armed (log : List (Event κ ν τ)) : κ → Option ν := log.foldl post fun _ => none

/-- An alarm goes off only if it is armed and due. -/
def Allowed (due : ν → τ → Prop) (armed : κ → Option ν) : Event κ ν τ → Prop
  | .ring k v t => armed k = some v ∧ due v t
  | _ => True

/-- Every alarm that has gone off was armed and due. -/
def Timely (due : ν → τ → Prop) (log : List (Event κ ν τ)) : Prop :=
  ∀ front e back, log = front ++ e :: back → Allowed due (armed front) e

lemma armed_concat : armed (log ++ [e]) = post (armed log) e := by
  rw [armed, List.foldl_append]
  rfl

lemma armed_concat_of_ne (h : e.key ≠ k) : armed (log ++ [e]) k = armed log k := by
  rw [armed_concat]
  cases e <;> exact Function.update_of_ne (Ne.symm h) _ _

@[simp] lemma armed_set {v : Option ν} : armed (log ++ [.set k v]) k = v := by
  rw [armed_concat]
  exact Function.update_self _ _ _

@[simp] lemma armed_cancel : armed (log ++ [.cancel k]) k = none := by
  rw [armed_concat]
  exact Function.update_self _ _ _

@[simp] lemma armed_ring : armed (log ++ [.ring k v t]) k = none := by
  rw [armed_concat]
  exact Function.update_self _ _ _

lemma timely_nil : Timely due ([] : List (Event κ ν τ)) := by
  intro front e back h
  simp at h

lemma Timely.concat (h : Timely due log) (he : Allowed due (armed log) e) :
    Timely due (log ++ [e]) := by
  intro front e' back heq
  cases back using List.reverseRecOn with
  | nil =>
    obtain ⟨rfl, h'⟩ := List.append_inj' heq rfl
    obtain rfl := List.singleton_inj.mp h'
    exact he
  | append_singleton back e'' =>
    rw [← List.cons_append, ← List.append_assoc] at heq
    obtain ⟨rfl, -⟩ := List.append_inj' heq rfl
    exact h front e' back rfl

/-- An alarm that is armed was set to its value, and nothing has happened to it since. -/
theorem set_of_armed (h : armed log k = some v) :
    ∃ front back, log = front ++ .set k (some v) :: back ∧ ∀ e ∈ back, e.key ≠ k := by
  induction log using List.reverseRecOn with
  | nil => cases h
  | append_singleton log e ih =>
    by_cases hk : e.key = k
    · obtain rfl : e = .set k (some v) := by
        cases e with
        | set k' v' =>
          obtain rfl : k' = k := hk
          rw [armed_set] at h
          rw [h]
        | cancel k' =>
          obtain rfl : k' = k := hk
          rw [armed_cancel] at h
          cases h
        | ring k' v' t =>
          obtain rfl : k' = k := hk
          rw [armed_ring] at h
          cases h
      exact ⟨log, [], rfl, by simp⟩
    · rw [armed_concat_of_ne hk] at h
      obtain ⟨front, back, rfl, hback⟩ := ih h
      refine ⟨front, back ++ [e], by simp, ?_⟩
      intro e' he'
      rcases List.mem_append.mp he' with he' | he'
      · exact hback e' he'
      · obtain rfl := List.mem_singleton.mp he'
        exact hk

/-- Between the setting that an alarm goes off for and its going off, nothing happens to it. -/
theorem Timely.set_of_ring (h : Timely due log) {front back : List (Event κ ν τ)}
    (hlog : log = front ++ .ring k v t :: back) :
    due v t ∧ ∃ front' mid, front = front' ++ .set k (some v) :: mid ∧ ∀ e ∈ mid, e.key ≠ k := by
  obtain ⟨harmed, hdue⟩ := h front _ back hlog
  exact ⟨hdue, set_of_armed harmed⟩

end Alarm
