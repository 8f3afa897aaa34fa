import Mathlib.Data.List.Forall2
import Mathlib.Data.List.Infix
import WhatTheEvent.Library.Exec

/-!
# Two systems on a connection

What a system passes to its end of a connection is under way until the system at the other end takes
it, in the same order. The systems run on their own otherwise, so that a run of both of them is a
run of each.
-/

namespace Duplex

variable {α γ ε ε' ι κ σ τ : Type*}

/-- A system, with what it has passed to its end of a connection and taken off it so far. -/
structure Endpoint (α γ ε ι σ : Type*) where
  step : σ → ι → Except ε σ
  sent : σ → List α
  got : σ → List γ
  sent_grows : ∀ s a s', step s a = .ok s' → sent s <+: sent s'
  got_grows : ∀ s a s', step s a = .ok s' → got s <+: got s'

/-- Both systems, and what is under way to each of them. -/
structure State (α σ τ : Type*) where
  left : σ
  right : τ
  toRight : List α
  toLeft : List α

/-- An action of one of the systems. -/
inductive Act (ι κ : Type*) where
  | left (a : ι)
  | right (a : κ)
  deriving DecidableEq, Repr

/-- Why both of them stop. -/
inductive Stop (ε ε' : Type*) where
  | left (e : ε)
  | right (e : ε')
  /-- Something is taken that is not under way. -/
  | undelivered
  deriving DecidableEq, Repr

def Act.left? : Act ι κ → Option ι
  | .left a => some a
  | .right _ => none

def Act.right? : Act ι κ → Option κ
  | .left _ => none
  | .right a => some a

/-! ### One direction -/

section Direction

variable (R : α → γ → Prop)

/-- What is still under way once values have been taken. -/
def take [∀ a b, Decidable (R a b)] : List α → List γ → Option (List α)
  | underWay, [] => some underWay
  | [], _ :: _ => none
  | a :: underWay, b :: taken => if R a b then take underWay taken else none

/-- What was sent is what was taken, followed by what is under way. -/
def Carries (sent underWay : List α) (got : List γ) : Prop :=
  ∃ front, sent = front ++ underWay ∧ List.Forall₂ R front got

variable {R} {sent underWay rest : List α} {got taken : List γ}

lemma take_eq_some [∀ a b, Decidable (R a b)] (h : take R underWay taken = some rest) :
    ∃ front, underWay = front ++ rest ∧ List.Forall₂ R front taken := by
  induction taken generalizing underWay with
  | nil =>
    obtain rfl : underWay = rest := by
      unfold take at h
      exact Option.some.inj h
    exact ⟨[], rfl, .nil⟩
  | cons b taken ih =>
    cases underWay with
    | nil => cases h
    | cons a underWay =>
      unfold take at h
      split_ifs at h with hR
      obtain ⟨front, rfl, hfront⟩ := ih h
      exact ⟨a :: front, rfl, .cons hR hfront⟩

lemma Carries.send (h : Carries R sent underWay got) (more : List α) :
    Carries R (sent ++ more) (underWay ++ more) got := by
  obtain ⟨front, rfl, hfront⟩ := h
  exact ⟨front, List.append_assoc _ _ _, hfront⟩

lemma Carries.take [∀ a b, Decidable (R a b)] (h : Carries R sent underWay got)
    (htake : Duplex.take R underWay taken = some rest) : Carries R sent rest (got ++ taken) := by
  obtain ⟨front, rfl, hfront⟩ := h
  obtain ⟨next, rfl, hnext⟩ := take_eq_some htake
  exact ⟨front ++ next, (List.append_assoc _ _ _).symm, List.rel_append hfront hnext⟩

/-- What was taken is a beginning of what was sent. -/
lemma Carries.front (h : Carries R sent underWay got) :
    ∃ front, front <+: sent ∧ List.Forall₂ R front got := by
  obtain ⟨front, rfl, hfront⟩ := h
  exact ⟨front, List.prefix_append _ _, hfront⟩

/-- The part of a list behind a beginning of it. -/
lemma append_drop_self {l l' : List α} (h : l <+: l') : l ++ l'.drop l.length = l' := by
  obtain ⟨more, rfl⟩ := h
  rw [List.drop_left]

/-- A beginning of a list is related to a beginning of a related list. -/
lemma exists_front_of_forall₂ {front : List α} {got' : List γ} (h : List.Forall₂ R front got)
    (hfirst : got' <+: got) : ∃ front', front' <+: front ∧ List.Forall₂ R front' got' := by
  refine ⟨front.take got'.length, List.take_prefix _ _, ?_⟩
  have htake := List.forall₂_take got'.length h
  rwa [List.prefix_iff_eq_take.mp hfirst, List.length_take,
    Nat.min_eq_left hfirst.length_le]

/-- A subsequence of a list is related to a subsequence of a related list. -/
lemma exists_sublist_of_forall₂ {front : List α} {got' : List γ} (hsub : got'.Sublist got)
    (h : List.Forall₂ R front got) :
    ∃ front', front'.Sublist front ∧ List.Forall₂ R front' got' := by
  induction hsub generalizing front with
  | slnil => exact ⟨[], List.nil_sublist _, .nil⟩
  | cons b _ ih =>
    cases h with
    | @cons a _ front _ _ hfront =>
      obtain ⟨front', hsub, hfront'⟩ := ih hfront
      exact ⟨front', hsub.cons a, hfront'⟩
  | cons_cons b _ ih =>
    cases h with
    | @cons a _ front _ hR hfront =>
      obtain ⟨front', hsub, hfront'⟩ := ih hfront
      exact ⟨a :: front', hsub.cons_cons a, .cons hR hfront'⟩

end Direction

/-! ### Both directions -/

variable (L : Endpoint α γ ε ι σ) (L' : Endpoint α γ ε' κ τ) (R : α → γ → Prop)

/-- One of the systems takes a step: what it takes comes off its end, and what it passes is under
way to the other one. -/
def step [∀ a b, Decidable (R a b)] (s : State α σ τ) :
    Act ι κ → Except (Stop ε ε') (State α σ τ)
  | .left a =>
    match L.step s.left a with
    | .error e => .error (.left e)
    | .ok left =>
      match take R s.toLeft ((L.got left).drop (L.got s.left).length) with
      | none => .error .undelivered
      | some toLeft =>
        .ok { s with left, toLeft, toRight :=
          s.toRight ++ (L.sent left).drop (L.sent s.left).length }
  | .right a =>
    match L'.step s.right a with
    | .error e => .error (.right e)
    | .ok right =>
      match take R s.toRight ((L'.got right).drop (L'.got s.right).length) with
      | none => .error .undelivered
      | some toRight =>
        .ok { s with right, toRight, toLeft :=
          s.toLeft ++ (L'.sent right).drop (L'.sent s.right).length }

/-- What each system has taken is what the other one has sent, up to what is under way. -/
structure Delivers (s : State α σ τ) : Prop where
  toRight : Carries R (L.sent s.left) s.toRight (L'.got s.right)
  toLeft : Carries R (L'.sent s.right) s.toLeft (L.got s.left)

variable {L L' R} [∀ a b, Decidable (R a b)] {s s' : State α σ τ} {act : Act ι κ}
  {acts : List (Act ι κ)}

/-- What a step does to the systems. -/
inductive Effect (L : Endpoint α γ ε ι σ) (L' : Endpoint α γ ε' κ τ) (R : α → γ → Prop)
    [∀ a b, Decidable (R a b)] (s : State α σ τ) : Act ι κ → State α σ τ → Prop
  | left {a : ι} {left : σ} {toLeft : List α} (hstep : L.step s.left a = .ok left)
    (htake : take R s.toLeft ((L.got left).drop (L.got s.left).length) = some toLeft) :
    Effect L L' R s (.left a)
      ⟨left, s.right, s.toRight ++ (L.sent left).drop (L.sent s.left).length, toLeft⟩
  | right {a : κ} {right : τ} {toRight : List α} (hstep : L'.step s.right a = .ok right)
    (htake : take R s.toRight ((L'.got right).drop (L'.got s.right).length) = some toRight) :
    Effect L L' R s (.right a)
      ⟨s.left, right, toRight, s.toLeft ++ (L'.sent right).drop (L'.sent s.right).length⟩

lemma step_effect (h : step L L' R s act = .ok s') : Effect L L' R s act s' := by
  cases act with
  | left a =>
    cases hstep : L.step s.left a with
    | error e =>
      simp only [step, hstep] at h
      cases h
    | ok left =>
      cases htake : take R s.toLeft ((L.got left).drop (L.got s.left).length) with
      | none =>
        simp only [step, hstep, htake] at h
        cases h
      | some toLeft =>
        simp only [step, hstep, htake] at h
        obtain rfl := Except.ok.inj h
        exact .left hstep htake
  | right a =>
    cases hstep : L'.step s.right a with
    | error e =>
      simp only [step, hstep] at h
      cases h
    | ok right =>
      cases htake : take R s.toRight ((L'.got right).drop (L'.got s.right).length) with
      | none =>
        simp only [step, hstep, htake] at h
        cases h
      | some toRight =>
        simp only [step, hstep, htake] at h
        obtain rfl := Except.ok.inj h
        exact .right hstep htake

lemma Delivers.step (hs : Delivers L L' R s) (h : step L L' R s act = .ok s') :
    Delivers L L' R s' := by
  cases step_effect h with
  | @left a left toLeft hstep htake =>
    have hsend := hs.toRight.send ((L.sent left).drop (L.sent s.left).length)
    have hgot := hs.toLeft.take htake
    rw [append_drop_self (L.sent_grows _ _ _ hstep)] at hsend
    rw [append_drop_self (L.got_grows _ _ _ hstep)] at hgot
    exact ⟨hsend, hgot⟩
  | @right a right toRight hstep htake =>
    have hgot := hs.toRight.take htake
    have hsend := hs.toLeft.send ((L'.sent right).drop (L'.sent s.right).length)
    rw [append_drop_self (L'.got_grows _ _ _ hstep)] at hgot
    rw [append_drop_self (L'.sent_grows _ _ _ hstep)] at hsend
    exact ⟨hgot, hsend⟩

/-- However the steps of both systems interleave, what one of them sends gets to the other one. -/
theorem delivers_of_exec (hs : Delivers L L' R s)
    (h : Exec.exec (step L L' R) s acts = .ok s') : Delivers L L' R s' :=
  Exec.exec_invariant (P := fun _ _ => True) (Delivers L L' R)
    (fun _ _ _ hs _ hstep => hs.step hstep) hs (.of_forall fun _ _ => trivial) h

/-- A run of both systems is one of the left one. -/
theorem exec_left (h : Exec.exec (step L L' R) s acts = .ok s') :
    Exec.exec L.step s.left (acts.filterMap Act.left?) = .ok s'.left := by
  induction acts generalizing s with
  | nil =>
    obtain rfl := Except.ok.inj h
    rfl
  | cons act acts ih =>
    obtain ⟨s₁, h₁, h₂⟩ := Exec.exec_cons_eq_ok.mp h
    cases step_effect h₁ with
    | left hstep =>
      exact (Exec.exec_cons_ok hstep).trans (ih h₂)
    | right =>
      have hrest := ih h₂
      exact hrest

/-- A run of both systems is one of the right one. -/
theorem exec_right (h : Exec.exec (step L L' R) s acts = .ok s') :
    Exec.exec L'.step s.right (acts.filterMap Act.right?) = .ok s'.right := by
  induction acts generalizing s with
  | nil =>
    obtain rfl := Except.ok.inj h
    rfl
  | cons act acts ih =>
    obtain ⟨s₁, h₁, h₂⟩ := Exec.exec_cons_eq_ok.mp h
    cases step_effect h₁ with
    | left =>
      have hrest := ih h₂
      exact hrest
    | right hstep => exact (Exec.exec_cons_ok hstep).trans (ih h₂)

omit [∀ a b, Decidable (R a b)] in
/-- What is related to values that are sent back is those values. -/
lemma eq_of_forall₂_map {back : γ → α} (hback : ∀ b b', R (back b) b' → b = b') {sent got : List γ}
    (h : List.Forall₂ R (sent.map back) got) : sent = got := by
  rw [List.forall₂_map_left_iff] at h
  exact List.forall₂_eq_eq_eq ▸ h.imp hback

omit [∀ a b, Decidable (R a b)] in
/-- Where the right system sends back a beginning of what it has taken, the left one takes a
beginning of what it has sent. -/
theorem Delivers.echo_front (hs : Delivers L L' R s) {back : γ → α}
    (hback : ∀ b b', R (back b) b' → b = b')
    (hecho : L'.sent s.right <+: (L'.got s.right).map back) :
    ∃ front, front <+: L.sent s.left ∧ List.Forall₂ R front (L.got s.left) := by
  obtain ⟨front, hfirst, hfront⟩ := hs.toRight.front
  obtain ⟨front', hfirst', hfront'⟩ := hs.toLeft.front
  have htake : front' = ((L'.got s.right).take front'.length).map back := by
    rw [List.map_take]
    exact List.prefix_iff_eq_take.mp (hfirst'.trans hecho)
  rw [htake] at hfront'
  have hgot : L.got s.left <+: L'.got s.right :=
    eq_of_forall₂_map hback hfront' ▸ List.take_prefix _ _
  obtain ⟨front'', hfirst'', hfront''⟩ := exists_front_of_forall₂ hfront hgot
  exact ⟨front'', hfirst''.trans hfirst, hfront''⟩

omit [∀ a b, Decidable (R a b)] in
/-- Where the right system sends back a subsequence of what it has taken, the left one takes a
subsequence of what it has sent. -/
theorem Delivers.echo_sublist (hs : Delivers L L' R s) {back : γ → α}
    (hback : ∀ b b', R (back b) b' → b = b')
    (hecho : (L'.sent s.right).Sublist ((L'.got s.right).map back)) :
    ∃ front, front.Sublist (L.sent s.left) ∧ List.Forall₂ R front (L.got s.left) := by
  obtain ⟨front, hfirst, hfront⟩ := hs.toRight.front
  obtain ⟨front', hfirst', hfront'⟩ := hs.toLeft.front
  obtain ⟨sent, hsent, rfl⟩ := List.sublist_map_iff.mp (hfirst'.sublist.trans hecho)
  obtain rfl := eq_of_forall₂_map hback hfront'
  obtain ⟨front'', hsub, hfront''⟩ := exists_sublist_of_forall₂ hsent hfront
  exact ⟨front'', hsub.trans hfirst.sublist, hfront''⟩

end Duplex
