import Mathlib.Data.List.Perm.Basic
import WhatTheEvent.Library.Alarm
import WhatTheEvent.Library.Exec

/-!
# Timeouts

Timeouts that are registered with event bases, and the timers of libevent that stand for them. As
with handlers, the base that a timeout was registered with first is not forgotten. Calls are made on
the thread of the event loop, which calls `expired` as well.
-/

namespace WhatTheEvent

/-! ### Timers of libevent -/

/-- A `struct event` that is pending for its timeout alone. -/
structure TimerEvent where
  /-- The `event_base` that belongs to this base. -/
  base : Nat
  deadline : Nat
  deriving DecidableEq, Repr

/-- The part of libevent that timeouts need: the timers that are pending in any base, each with the
timeout that its `struct event` belongs to. -/
class LibeventTimers (L : Type) where
  pending : L → List (Nat × TimerEvent)
  /-- `event_add` of an event of the base, without a deadline where there is no duration. -/
  add : L → Nat → Nat → Option Nat → L
  /-- `event_del`. -/
  del : L → Nat → L
  /-- What `event_base_loop` does before it calls the callback of an event. -/
  expire : L → Nat → L

/-- `event_add` makes a timer pending that is not, if there is a deadline, `event_del` makes it
non-pending, and so does the loop before the callback. -/
class LawfulLibeventTimers (L : Type) [LibeventTimers L] : Prop where
  pending_add (l : L) {timeout base : Nat} {deadline : Option Nat}
    (h : ∀ e ∈ LibeventTimers.pending l, e.1 ≠ timeout) :
    (LibeventTimers.pending (LibeventTimers.add l timeout base deadline)).Perm
      (deadline.toList.map (fun d => (timeout, ⟨base, d⟩)) ++ LibeventTimers.pending l)
  pending_del (l : L) (timeout : Nat) :
    (LibeventTimers.pending (LibeventTimers.del l timeout)).Perm
      ((LibeventTimers.pending l).filter fun e => e.1 ≠ timeout)
  pending_expire (l : L) (timeout : Nat) :
    (LibeventTimers.pending (LibeventTimers.expire l timeout)).Perm
      ((LibeventTimers.pending l).filter fun e => e.1 ≠ timeout)

/-- The pending timers themselves. -/
instance : LibeventTimers (List (Nat × TimerEvent)) where
  pending l := l
  add l timeout base deadline := deadline.toList.map (fun d => (timeout, ⟨base, d⟩)) ++ l
  del l timeout := l.filter fun e => e.1 ≠ timeout
  expire l timeout := l.filter fun e => e.1 ≠ timeout

instance : LawfulLibeventTimers (List (Nat × TimerEvent)) where
  pending_add _ _ _ _ _ := .refl _
  pending_del _ _ := .refl _
  pending_expire _ _ := .refl _

/-! ### Timeouts -/

/-- `LibeventTimeout`. -/
structure LibeventTimeout where
  /-- `base_`, the base that created it. -/
  base : Nat
  registered : Bool
  deriving DecidableEq, Repr

/-- `Timeout`. -/
structure Timeout where
  impl : Option LibeventTimeout
  /-- Whether the timeout was not deleted. -/
  alive : Bool
  deriving DecidableEq, Repr

namespace Timeout

def base (timeout : Timeout) : Option Nat := timeout.impl.map LibeventTimeout.base

def registered (timeout : Timeout) : Bool := timeout.impl.any LibeventTimeout.registered

end Timeout

/-- A call that concerns a timeout, or an event of the loop. -/
inductive TimeoutAct where
  /-- `registerTimeout`, whose duration may be a null pointer. -/
  | registerTimeout (base timeout : Nat) (duration : Option Nat)
  | unregisterTimeout (base timeout : Nat)
  /-- `~Timeout`. -/
  | destroy (timeout : Nat)
  | elapse (time : Nat)
  /-- The loop of the base calls `libeventTimeout`. -/
  | expire (base timeout : Nat)
  deriving DecidableEq, Repr

/-- Why a run stops. -/
inductive TimeoutStop where
  | disabled
  /-- `impl->base() == this` fails. -/
  | otherBase
  | useAfterFree
  deriving DecidableEq, Repr

/-- The timeouts, libevent and the time. -/
structure Timeouts (L : Type) where
  timeouts : Nat → Timeout
  libevent : L
  now : Nat
  /-- The calls so far that were made for timeouts, and the calls of `expired`. -/
  trace : List (Alarm.Event Nat TimerEvent Nat)

namespace Timeouts

variable {L : Type}

/-- Timeouts that were just constructed. -/
def new (libevent : L) : Timeouts L := ⟨fun _ => ⟨none, true⟩, libevent, 0, []⟩

/-- One timeout changes, and libevent. -/
def set (s : Timeouts L) (t : Nat) (timeout : Timeout) (libevent : L) : Timeouts L :=
  { s with timeouts := Function.update s.timeouts t timeout, libevent }

def log (s : Timeouts L) (e : Alarm.Event Nat TimerEvent Nat) : Timeouts L :=
  { s with trace := s.trace ++ [e] }

variable [LibeventTimers L]

def registerTimeout (s : Timeouts L) (this t : Nat) (duration : Option Nat) : Timeouts L :=
  let timeout := s.timeouts t
  let libevent := if timeout.registered then LibeventTimers.del s.libevent t else s.libevent
  let impl := timeout.impl.getD ⟨this, false⟩
  let deadline := duration.map (s.now + ·)
  (s.set t { timeout with impl := some { impl with registered := true } }
    (LibeventTimers.add libevent t this deadline)).log (.set t (deadline.map (⟨this, ·⟩)))

def unregisterTimeout (s : Timeouts L) (this t : Nat) : Except TimeoutStop (Timeouts L) :=
  match (s.timeouts t).impl with
  | none => .ok (s.log (.cancel t))
  | some impl =>
    if impl.base ≠ this then .error .otherBase
    else if !impl.registered then .ok (s.log (.cancel t))
    else
      .ok ((s.set t { s.timeouts t with impl := some { impl with registered := false } }
        (LibeventTimers.del s.libevent t)).log (.cancel t))

/-- `~Timeout`, which deletes the implementation and leaves libevent as it is. -/
def destroy (s : Timeouts L) (t : Nat) : Timeouts L := s.set t ⟨none, false⟩ s.libevent

/-- The timer is pending in the base, and its deadline has passed. -/
def isDue (s : Timeouts L) (base t : Nat) (e : Nat × TimerEvent) : Bool :=
  e.1 = t ∧ e.2.base = base ∧ e.2.deadline ≤ s.now

/-- `libeventTimeout`, which accesses the timeout. -/
def expire (s : Timeouts L) (base t : Nat) : Except TimeoutStop (Timeouts L) :=
  match (LibeventTimers.pending s.libevent).find? (s.isDue base t) with
  | none => .error .disabled
  | some e =>
    if (s.timeouts t).alive then
      .ok ({ s with libevent := LibeventTimers.expire s.libevent t }.log (.ring t e.2 s.now))
    else .error .useAfterFree

def step (s : Timeouts L) : TimeoutAct → Except TimeoutStop (Timeouts L)
  | .registerTimeout base t duration =>
    if (s.timeouts t).alive then .ok (s.registerTimeout base t duration) else .error .disabled
  | .unregisterTimeout base t =>
    if (s.timeouts t).alive then s.unregisterTimeout base t else .error .disabled
  | .destroy t => if (s.timeouts t).alive then .ok (s.destroy t) else .error .disabled
  | .elapse time => .ok { s with now := s.now + time }
  | .expire base t => s.expire base t

/-! ### Pending timers -/

variable {s s' : Timeouts L} {act : TimeoutAct} {acts : List TimeoutAct} {l : L}
  {t t' this : Nat} {duration : Option Nat}

/-- The pending timers of the timeout. -/
def pendingOf (l : L) (t : Nat) : List (Nat × TimerEvent) :=
  (LibeventTimers.pending l).filter fun e => e.1 = t

/-- The timer of the timeout, where it is armed. -/
def timerOf (t : Nat) (timer : Option TimerEvent) : List (Nat × TimerEvent) :=
  timer.toList.map (t, ·)

lemma filter_erased {l l' : List (Nat × TimerEvent)}
    (h : l'.Perm (l.filter fun e => e.1 ≠ t)) :
    (l'.filter fun e => e.1 = t').Perm (if t' = t then [] else l.filter fun e => e.1 = t') := by
  refine (h.filter _).trans ?_
  rw [List.filter_filter]
  split_ifs with ht
  · subst ht
    rw [List.filter_eq_nil_iff.mpr (by simp)]
  · refine .of_eq (List.filter_congr fun e _ => ?_)
    by_cases he : e.1 = t'
    · simp [he, ht]
    · simp [he]

section Pending

variable [LawfulLibeventTimers L]

lemma pendingOf_del : (pendingOf (LibeventTimers.del l t) t').Perm
    (if t' = t then [] else pendingOf l t') :=
  filter_erased (LawfulLibeventTimers.pending_del l t)

lemma pendingOf_expire : (pendingOf (LibeventTimers.expire l t) t').Perm
    (if t' = t then [] else pendingOf l t') :=
  filter_erased (LawfulLibeventTimers.pending_expire l t)

lemma pendingOf_add {base : Nat} {deadline : Option Nat} (hnone : pendingOf l t = []) :
    (pendingOf (LibeventTimers.add l t base deadline) t').Perm
      (if t' = t then timerOf t (deadline.map (⟨base, ·⟩)) else pendingOf l t') := by
  have hne : ∀ e ∈ LibeventTimers.pending l, e.1 ≠ t := fun e he => by
    simpa using List.filter_eq_nil_iff.mp hnone e he
  refine ((LawfulLibeventTimers.pending_add l hne).filter _).trans ?_
  rw [List.filter_append]
  split_ifs with ht
  · subst ht
    rw [show (LibeventTimers.pending l).filter (fun e => e.1 = t') = [] from hnone, List.append_nil]
    cases deadline <;> simp [timerOf]
  · rw [List.filter_eq_nil_iff.mpr (by simp [Ne.symm ht]), List.nil_append]
    exact .refl _

end Pending

/-! ### What is kept -/

/-- The deadline of the timer has passed. -/
def Due (timer : TimerEvent) (now : Nat) : Prop := timer.deadline ≤ now

/-- Of each timeout exactly the timer is pending that was armed last, and `expired` was called only
for timers that were armed and due. -/
structure Agrees (s : Timeouts L) : Prop where
  pending : ∀ t, (pendingOf s.libevent t).Perm (timerOf t (Alarm.armed s.trace t))
  idle : ∀ t, (s.timeouts t).alive = true → (s.timeouts t).registered = false →
    Alarm.armed s.trace t = none
  timely : Alarm.Timely Due s.trace

omit [LibeventTimers L] in
@[simp] lemma timeouts_set_self {timeout : Timeout} :
    (s.set t timeout l).timeouts t = timeout := Function.update_self _ _ _

omit [LibeventTimers L] in
lemma timeouts_set_of_ne {timeout : Timeout} (h : t' ≠ t) :
    (s.set t timeout l).timeouts t' = s.timeouts t' := Function.update_of_ne h _ _

lemma agrees_new (hl : ∀ t, pendingOf l t = []) : (new l).Agrees where
  pending t := .of_eq (hl t)
  idle _ _ _ := rfl
  timely := Alarm.timely_nil

/-- Something happens to one timeout. -/
lemma Agrees.concat {timeout : Timeout} {e : Alarm.Event Nat TimerEvent Nat} (hs : s.Agrees)
    (hkey : e.key = t) (hallowed : Alarm.Allowed Due (Alarm.armed s.trace) e)
    (hpending : ∀ t', (pendingOf l t').Perm (if t' = t
      then timerOf t (Alarm.armed (s.trace ++ [e]) t) else pendingOf s.libevent t'))
    (hidle : timeout.alive = true → timeout.registered = false →
      Alarm.armed (s.trace ++ [e]) t = none) : ((s.set t timeout l).log e).Agrees := by
  refine ⟨fun t' => (hpending t').trans ?_, fun t' => ?_, hs.timely.concat hallowed⟩
  · split_ifs with ht
    · rw [ht]
      exact .refl _
    · change (pendingOf s.libevent t').Perm (timerOf t' (Alarm.armed (s.trace ++ [e]) t'))
      rw [Alarm.armed_concat_of_ne (hkey.trans_ne (Ne.symm ht))]
      exact hs.pending t'
  · by_cases ht : t' = t
    · subst ht
      change ((s.set t' timeout l).timeouts t').alive = true →
        ((s.set t' timeout l).timeouts t').registered = false → _
      rw [timeouts_set_self]
      exact hidle
    · change ((s.set t timeout l).timeouts t').alive = true →
        ((s.set t timeout l).timeouts t').registered = false →
        Alarm.armed (s.trace ++ [e]) t' = none
      rw [timeouts_set_of_ne ht, Alarm.armed_concat_of_ne (hkey.trans_ne (Ne.symm ht))]
      exact hs.idle t'

omit [LibeventTimers L] in
lemma set_self (s : Timeouts L) (t : Nat) :
    s.set t (s.timeouts t) l = { s with libevent := l } := by
  rw [set, Function.update_eq_self]

/-- `Agrees.concat` where the timeout stays as it is. -/
lemma Agrees.concat_self {e : Alarm.Event Nat TimerEvent Nat} (hs : s.Agrees) (hkey : e.key = t)
    (hallowed : Alarm.Allowed Due (Alarm.armed s.trace) e)
    (hpending : ∀ t', (pendingOf l t').Perm (if t' = t then [] else pendingOf s.libevent t'))
    (hnone : Alarm.armed (s.trace ++ [e]) t = none) :
    ({ s with libevent := l }.log e).Agrees := by
  rw [← set_self s t]
  refine hs.concat hkey hallowed (fun t' => ?_) fun _ _ => hnone
  rw [hnone]
  exact hpending t'

lemma Agrees.pendingOf_eq (hs : s.Agrees) (t : Nat) :
    pendingOf s.libevent t = timerOf t (Alarm.armed s.trace t) := by
  have hperm := hs.pending t
  cases harmed : Alarm.armed s.trace t with
  | none =>
    rw [harmed] at hperm
    exact List.perm_nil.mp hperm
  | some timer =>
    rw [harmed] at hperm
    exact List.perm_singleton.mp hperm

lemma Agrees.perm_of_none (hs : s.Agrees) (h : Alarm.armed s.trace t = none) (t' : Nat) :
    (pendingOf s.libevent t').Perm (if t' = t then [] else pendingOf s.libevent t') := by
  split_ifs with ht
  · rw [ht, hs.pendingOf_eq, h]
    exact .refl _
  · exact .refl _

section Steps

variable [LawfulLibeventTimers L]

/-- The timer of a timeout is deleted if it was registered, and added with the new deadline. -/
lemma Agrees.registerTimeout (hs : s.Agrees) (halive : (s.timeouts t).alive = true) :
    (s.registerTimeout this t duration).Agrees := by
  -- nothing is pending for the timeout when its timer is added
  have hdel : ∀ t', (pendingOf (if (s.timeouts t).registered
      then LibeventTimers.del s.libevent t else s.libevent) t').Perm
      (if t' = t then [] else pendingOf s.libevent t') := by
    cases hr : (s.timeouts t).registered with
    | true => exact fun _ => pendingOf_del
    | false => exact hs.perm_of_none (hs.idle t halive hr)
  have hnone := List.perm_nil.mp ((hdel t).trans (.of_eq (if_pos rfl)))
  refine hs.concat rfl trivial (fun t' => (pendingOf_add hnone).trans ?_) ?_
  · rw [Alarm.armed_set]
    by_cases ht : t' = t
    · rw [if_pos ht, if_pos ht]
    · rw [if_neg ht, if_neg ht]
      exact (hdel t').trans (.of_eq (if_neg ht))
  · intro _ hr
    cases hr

lemma Agrees.unregisterTimeout (hs : s.Agrees) (halive : (s.timeouts t).alive = true)
    (hok : s.unregisterTimeout this t = .ok s') : s'.Agrees := by
  have hidle : (s.timeouts t).registered = false → (s.log (.cancel t)).Agrees := fun hr =>
    hs.concat_self rfl trivial (hs.perm_of_none (hs.idle t halive hr)) Alarm.armed_cancel
  unfold Timeouts.unregisterTimeout at hok
  cases himpl : (s.timeouts t).impl with
  | none =>
    rw [himpl] at hok
    obtain rfl := Except.ok.inj hok
    exact hidle (by rw [Timeout.registered, himpl]; rfl)
  | some impl =>
    rw [himpl] at hok
    simp only at hok
    split_ifs at hok with hbase hregistered
    · obtain rfl := Except.ok.inj hok
      refine hidle ?_
      rw [Timeout.registered, himpl]
      simpa using hregistered
    · obtain rfl := Except.ok.inj hok
      refine hs.concat rfl trivial (fun t' => ?_) fun _ _ => Alarm.armed_cancel
      rw [Alarm.armed_cancel]
      exact pendingOf_del

omit [LawfulLibeventTimers L] in
lemma Agrees.destroy (hs : s.Agrees) : (s.destroy t).Agrees where
  pending := hs.pending
  idle t' := by
    by_cases ht : t' = t
    · subst ht
      rw [Timeouts.destroy, timeouts_set_self]
      intro halive
      cases halive
    · rw [Timeouts.destroy, timeouts_set_of_ne ht]
      exact hs.idle t'
  timely := hs.timely

omit [LawfulLibeventTimers L] in
/-- The timer that is due is the one that is armed. -/
lemma Agrees.find?_isDue (hs : s.Agrees) :
    (LibeventTimers.pending s.libevent).find? (s.isDue this t) =
      ((Alarm.armed s.trace t).filter fun e => e.base = this ∧ e.deadline ≤ s.now).map (t, ·) := by
  have hfilter : (LibeventTimers.pending s.libevent).find? (s.isDue this t) =
      (pendingOf s.libevent t).find? (s.isDue this t) := by
    rw [pendingOf, List.find?_filter]
    refine congrArg (List.find? · _) (funext fun e => ?_)
    simp only [isDue]
    grind
  rw [hfilter, hs.pendingOf_eq]
  cases Alarm.armed s.trace t with
  | none => rfl
  | some timer =>
    have hdue : s.isDue this t (t, timer) =
        decide (timer.base = this ∧ timer.deadline ≤ s.now) := by simp [isDue]
    simp only [timerOf, Option.toList_some, List.map_cons, List.map_nil, List.find?_singleton, hdue,
      Option.filter_some, decide_eq_true_eq]
    split_ifs <;> rfl

lemma Agrees.expire (hs : s.Agrees) (hok : s.expire this t = .ok s') : s'.Agrees := by
  unfold Timeouts.expire at hok
  rw [hs.find?_isDue] at hok
  cases harmed : (Alarm.armed s.trace t).filter fun e => e.base = this ∧ e.deadline ≤ s.now with
  | none =>
    rw [harmed] at hok
    cases hok
  | some timer =>
    rw [harmed] at hok
    simp only [Option.map_some] at hok
    split_ifs at hok
    obtain rfl := Except.ok.inj hok
    obtain ⟨harmed, hdue⟩ := Option.filter_eq_some_iff.mp harmed
    exact hs.concat_self rfl ⟨harmed, (of_decide_eq_true hdue).2⟩ (fun _ => pendingOf_expire)
      Alarm.armed_ring

/-- Every step keeps this. -/
theorem agrees_step (hs : s.Agrees) (hok : s.step act = .ok s') : s'.Agrees := by
  cases act with
  | registerTimeout base t duration =>
    simp only [step] at hok
    split_ifs at hok with halive
    obtain rfl := Except.ok.inj hok
    exact hs.registerTimeout halive
  | unregisterTimeout base t =>
    simp only [step] at hok
    split_ifs at hok with halive
    exact hs.unregisterTimeout halive hok
  | destroy t =>
    simp only [step] at hok
    split_ifs at hok
    obtain rfl := Except.ok.inj hok
    exact hs.destroy
  | elapse time =>
    obtain rfl := Except.ok.inj hok
    exact ⟨hs.pending, hs.idle, hs.timely⟩
  | expire base t => exact hs.expire hok

end Steps

/-! ### What a step does to one timeout -/

/-- The base that the timeout is registered with. -/
def registers (t : Nat) : TimeoutAct → Option Nat
  | .registerTimeout base t' _ => if t' = t then some base else none
  | _ => none

/-- The base that the timeout was registered with first. -/
def firstBase (acts : List TimeoutAct) (t : Nat) : Option Nat := acts.findSome? (registers t)

/-- Something happens to a timeout that is not deleted, one is deleted, or time passes. -/
inductive Effect (s : Timeouts L) : TimeoutAct → Timeouts L → Prop
  | called {act : TimeoutAct} {t : Nat} {timeout : Timeout} {l : L}
    {e : Alarm.Event Nat TimerEvent Nat} (halive : (s.timeouts t).alive = true)
    (halive' : timeout.alive = true) (hkey : e.key = t)
    (hbase : timeout.base = (s.timeouts t).base.or (registers t act))
    (hothers : ∀ t', t' ≠ t → registers t' act = none)
    (hact : ∀ t', act ≠ .destroy t') : Effect s act ((s.set t timeout l).log e)
  | destroyed {t : Nat} (halive : (s.timeouts t).alive = true) :
    Effect s (.destroy t) (s.set t ⟨none, false⟩ s.libevent)
  | elapsed {time : Nat} : Effect s (.elapse time) { s with now := s.now + time }

omit [LibeventTimers L] in
/-- Something happens to a timeout that stays as it is. -/
lemma Effect.of_same {e : Alarm.Event Nat TimerEvent Nat} (halive : (s.timeouts t).alive = true)
    (hkey : e.key = t) (hothers : ∀ t', registers t' act = none)
    (hact : ∀ t', act ≠ .destroy t') : s.Effect act ({ s with libevent := l }.log e) := by
  rw [← set_self s t]
  refine .called halive halive hkey ?_ (fun t' _ => hothers t') hact
  rw [hothers, Option.or_none]

theorem step_effect (hok : s.step act = .ok s') : s.Effect act s' := by
  cases act with
  | registerTimeout base t duration =>
    simp only [step] at hok
    split_ifs at hok with halive
    obtain rfl := Except.ok.inj hok
    refine .called halive halive rfl ?_ (fun t' ht => if_neg (Ne.symm ht)) fun _ heq => by cases heq
    rw [registers, if_pos rfl, Timeout.base, Timeout.base]
    cases (s.timeouts t).impl <;> rfl
  | unregisterTimeout base t =>
    simp only [step] at hok
    split_ifs at hok with halive
    have hsame : s.Effect (.unregisterTimeout base t) (s.log (.cancel t)) :=
      Effect.of_same halive rfl (fun _ => rfl) fun _ heq => by cases heq
    unfold unregisterTimeout at hok
    cases himpl : (s.timeouts t).impl with
    | none =>
      rw [himpl] at hok
      obtain rfl := Except.ok.inj hok
      exact hsame
    | some impl =>
      rw [himpl] at hok
      simp only at hok
      split_ifs at hok
      · obtain rfl := Except.ok.inj hok
        exact hsame
      · obtain rfl := Except.ok.inj hok
        refine .called halive halive rfl ?_ (fun _ _ => rfl) fun _ heq => by cases heq
        rw [Timeout.base, Timeout.base, himpl]
        rfl
  | destroy t =>
    simp only [step] at hok
    split_ifs at hok with halive
    obtain rfl := Except.ok.inj hok
    exact .destroyed halive
  | elapse time =>
    obtain rfl := Except.ok.inj hok
    exact .elapsed
  | expire base t =>
    change s.expire base t = .ok s' at hok
    unfold expire at hok
    split at hok
    · cases hok
    · split_ifs at hok with halive
      obtain rfl := Except.ok.inj hok
      exact .of_same halive rfl (fun _ => rfl) fun _ heq => by cases heq

/-! ### What holds of every run -/

/-- Every timer that is pending belongs to a timeout that is not deleted. -/
def Intact (s : Timeouts L) : Prop :=
  ∀ t, (s.timeouts t).alive = false → pendingOf s.libevent t = []

/-- A timeout is deleted while it is armed. -/
def DestroysArmed (s : Timeouts L) : TimeoutAct → Prop
  | .destroy t => Alarm.armed s.trace t ≠ none
  | _ => False

omit [LibeventTimers L] in
instance (s : Timeouts L) : ∀ act, Decidable (s.DestroysArmed act)
  | .destroy t => inferInstanceAs (Decidable (Alarm.armed s.trace t ≠ none))
  | .registerTimeout _ _ _ | .unregisterTimeout _ _ | .elapse _ | .expire _ _ =>
    inferInstanceAs (Decidable False)

lemma Agrees.intact_iff (hs : s.Agrees) :
    s.Intact ↔ ∀ t, (s.timeouts t).alive = false → Alarm.armed s.trace t = none := by
  refine forall₂_congr fun t _ => ?_
  rw [hs.pendingOf_eq]
  cases Alarm.armed s.trace t <;> simp [timerOf]

section Runs

variable [LawfulLibeventTimers L]

lemma intact_step_iff (hs : s.Agrees) (hok : s.step act = .ok s') :
    s'.Intact ↔ s.Intact ∧ ¬ s.DestroysArmed act := by
  rw [hs.intact_iff, (agrees_step hs hok).intact_iff]
  cases step_effect hok with
  | @called _ t timeout l e halive halive' hkey _ _ hact =>
    have hnot : ¬ s.DestroysArmed act := by
      cases act with
      | destroy t => exact absurd rfl (hact t)
      | _ => exact id
    rw [and_iff_left hnot]
    refine forall_congr' fun t' => ?_
    by_cases ht : t' = t
    · subst ht
      refine iff_of_true (fun hdead => ?_) fun hdead => ?_
      · change ((s.set t' timeout l).timeouts t').alive = false at hdead
        rw [timeouts_set_self, halive'] at hdead
        cases hdead
      · rw [halive] at hdead
        cases hdead
    · change ((s.set t timeout l).timeouts t').alive = false →
        Alarm.armed (s.trace ++ [e]) t' = none ↔ _
      rw [timeouts_set_of_ne ht, Alarm.armed_concat_of_ne (hkey.trans_ne (Ne.symm ht))]
  | @destroyed t halive =>
    constructor
    · intro h
      refine ⟨fun t' hdead => ?_, not_not.mpr ?_⟩
      · have ht : t' ≠ t := by
          rintro rfl
          rw [halive] at hdead
          cases hdead
        exact h t' (by rwa [timeouts_set_of_ne ht])
      · exact h t (by rw [timeouts_set_self])
    · rintro ⟨h, hunarmed⟩ t' hdead
      by_cases ht : t' = t
      · rw [ht]
        exact not_not.mp hunarmed
      · rw [timeouts_set_of_ne ht] at hdead
        exact h t' hdead
  | elapsed => exact (and_iff_left id).symm

lemma agrees_exec (hl : ∀ t, pendingOf l t = []) (h : Exec.exec step (new l) acts = .ok s) :
    s.Agrees :=
  Exec.Reachable.invariant Agrees (fun _ _ _ hs hok => agrees_step hs hok) (agrees_new hl)
    ⟨acts, h⟩

/-- Of each timeout at most one timer is pending, for the base, the time and the duration that it
was registered with last, and none if it was unregistered or has expired since; `expired` can be
called exactly if this timer is due. -/
theorem pending_of_exec (hl : ∀ t, pendingOf l t = [])
    (h : Exec.exec step (new l) acts = .ok s) (t : Nat) :
    pendingOf s.libevent t = timerOf t (Alarm.armed s.trace t) ∧
      ((s.timeouts t).alive = true → ∀ base, (∃ s', s.step (.expire base t) = .ok s') ↔
        ∃ deadline ≤ s.now, Alarm.armed s.trace t = some ⟨base, deadline⟩) := by
  have hs := agrees_exec hl h
  refine ⟨hs.pendingOf_eq t, fun halive base => ?_⟩
  change (∃ s', s.expire base t = .ok s') ↔ _
  unfold expire
  rw [hs.find?_isDue]
  cases harmed : Alarm.armed s.trace t with
  | none => simp
  | some timer =>
    obtain ⟨base', deadline⟩ := timer
    by_cases hdue : base' = base ∧ deadline ≤ s.now
    · obtain ⟨rfl, hle⟩ := hdue
      simp [Option.filter, hle, halive]
    · refine iff_of_false ?_ ?_
      · rintro ⟨s', hok⟩
        simp [Option.filter, hdue] at hok
      · rintro ⟨d, hle, heq⟩
        cases heq
        exact hdue ⟨rfl, hle⟩

/-- A timeout whose duration is updated before it has expired. -/
theorem pending_updated : ∃ s : Timeouts (List (Nat × TimerEvent)),
    Exec.exec step (new []) [.registerTimeout 0 1 (some 5), .elapse 3,
      .registerTimeout 0 1 (some 5), .elapse 3] = .ok s ∧
    pendingOf s.libevent 1 = timerOf 1 (Alarm.armed s.trace 1) ∧
      ((s.timeouts 1).alive = true → ∀ base, (∃ s', s.step (.expire base 1) = .ok s') ↔
        ∃ deadline ≤ s.now, Alarm.armed s.trace 1 = some ⟨base, deadline⟩) := by
  refine ⟨?_, ?hrun, pending_of_exec (fun _ => rfl) ?hrun 1⟩
  case hrun => rfl

/-- A call of `expired` comes after the deadline of the last registration of its timeout, and
nothing has happened to the timeout since then: it has not expired, and was not unregistered. -/
theorem expired_of_exec (hl : ∀ t, pendingOf l t = [])
    (h : Exec.exec step (new l) acts = .ok s) {front back : List (Alarm.Event Nat TimerEvent Nat)}
    {timer : TimerEvent} {now : Nat} (htrace : s.trace = front ++ .ring t timer now :: back) :
    timer.deadline ≤ now ∧ ∃ front' mid, front = front' ++ .set t (some timer) :: mid ∧
      ∀ e ∈ mid, e.key ≠ t :=
  (agrees_exec hl h).timely.set_of_ring htrace

/-- A timeout that has expired once. -/
theorem expired_once : ∃ s : Timeouts (List (Nat × TimerEvent)),
    Exec.exec step (new []) [.registerTimeout 0 1 (some 5), .elapse 6, .expire 0 1] = .ok s ∧
    s.trace = [.set 1 (some ⟨0, 5⟩)] ++ .ring 1 ⟨0, 5⟩ 6 :: [] ∧
    (⟨0, 5⟩ : TimerEvent).deadline ≤ 6 ∧
      ∃ front' mid, ([.set 1 (some ⟨0, 5⟩)] : List (Alarm.Event Nat TimerEvent Nat)) =
        front' ++ .set 1 (some ⟨0, 5⟩) :: mid ∧ ∀ e ∈ mid, e.key ≠ 1 := by
  refine ⟨?_, ?hrun, ?htrace, expired_of_exec (fun _ => rfl) ?hrun ?htrace⟩
  case hrun | htrace => rfl

/-- No timer of a deleted timeout is pending if and only if no timeout was deleted while it was
armed. -/
theorem intact_iff_not_destroysArmed (hl : ∀ t, pendingOf l t = [])
    (h : Exec.exec step (new l) acts = .ok s) :
    s.Intact ↔ Exec.Along step (fun s act => ¬ s.DestroysArmed act) (new l) acts := by
  have hrun := (Exec.exec_iff_along (C := fun _ _ => True) (L := fun _ => True) (R := Intact) Agrees
    (fun s act s' hs _ hok => ⟨agrees_step hs hok, fun _ => ⟨trivial, intact_step_iff hs hok⟩⟩)
    (agrees_new hl) (.of_forall fun _ _ => trivial) h).2 trivial
  rw [hrun.2, and_iff_right]
  exact fun t _ => hl t

/-- A timeout that is unregistered before it is deleted. -/
theorem intact_unregistered : ∃ s : Timeouts (List (Nat × TimerEvent)),
    Exec.exec step (new []) [.registerTimeout 0 1 (some 5), .unregisterTimeout 0 1, .destroy 1] =
      .ok s ∧ s.Intact := by
  refine ⟨?_, ?hrun, (intact_iff_not_destroysArmed (fun _ => rfl) ?hrun).mpr ?_⟩
  case hrun => rfl
  decide

omit [LawfulLibeventTimers L] in
/-- The base of a timeout is the one that it was registered with first. -/
lemma base_exec (h : Exec.exec step (new l) acts = .ok s) :
    ∀ t, (s.timeouts t).alive = true → (s.timeouts t).base = firstBase acts t := by
  induction acts using List.reverseRecOn generalizing s with
  | nil =>
    obtain rfl := Except.ok.inj h
    exact fun _ _ => rfl
  | append_singleton acts act ih =>
    obtain ⟨s₁, hrun, hok⟩ := Exec.exec_concat_eq_ok.mp h
    have hbase := ih hrun
    have hfirst : ∀ t, firstBase (acts ++ [act]) t = (firstBase acts t).or (registers t act) := by
      intro t
      rw [firstBase, List.findSome?_append, List.findSome?_singleton]
      rfl
    intro t' halive'
    rw [hfirst]
    cases step_effect hok with
    | @called _ t timeout l e halive _ hkey hbase' hothers =>
      by_cases ht : t' = t
      · subst ht
        change ((s₁.set t' timeout l).timeouts t').base = _
        rw [timeouts_set_self, hbase', hbase t' halive]
      · change ((s₁.set t timeout l).timeouts t').alive = true at halive'
        change ((s₁.set t timeout l).timeouts t').base = _
        rw [timeouts_set_of_ne ht] at halive' ⊢
        rw [hothers t' ht, Option.or_none, hbase t' halive']
    | @destroyed t halive =>
      by_cases ht : t' = t
      · subst ht
        rw [timeouts_set_self] at halive'
        cases halive'
      · rw [timeouts_set_of_ne ht] at halive' ⊢
        rw [hbase t' halive']
        exact Option.or_none.symm
    | elapsed =>
      rw [hbase t' halive']
      exact Option.or_none.symm

omit [LawfulLibeventTimers L] in
lemma unregisterTimeout_ne_otherBase_iff : s.unregisterTimeout this t ≠ .error .otherBase ↔
    ∀ b, (s.timeouts t).base = some b → b = this := by
  unfold unregisterTimeout Timeout.base
  cases (s.timeouts t).impl with
  | none => simp
  | some impl =>
    by_cases hbase : impl.base = this
    · simp only [ne_eq, hbase, not_true_eq_false, if_false]
      split_ifs <;> simp [hbase]
    · simp [hbase]

omit [LawfulLibeventTimers L] in
/-- Only `unregisterTimeout` has an assertion, which fails where another base is remembered. -/
lemma step_ne_otherBase_iff : s.step act ≠ .error .otherBase ↔
    ∀ base t, act = .unregisterTimeout base t → (s.timeouts t).alive = true →
      ∀ b, (s.timeouts t).base = some b → b = base := by
  have hother : ∀ {r : Except TimeoutStop (Timeouts L)}, r ≠ .error .otherBase →
      (∀ base t, act ≠ .unregisterTimeout base t) → (r ≠ .error .otherBase ↔
        ∀ base t, act = .unregisterTimeout base t → (s.timeouts t).alive = true →
          ∀ b, (s.timeouts t).base = some b → b = base) := fun hr hact =>
    iff_of_true hr fun base t heq => absurd heq (hact base t)
  cases act with
  | unregisterTimeout base t =>
    simp only [step, TimeoutAct.unregisterTimeout.injEq, and_imp]
    split_ifs with halive
    · rw [unregisterTimeout_ne_otherBase_iff]
      constructor
      · rintro h base t rfl rfl -
        exact h
      · exact fun h => h base t rfl rfl halive
    · refine iff_of_true (by simp) ?_
      rintro base t rfl rfl halive'
      exact absurd halive' halive
  | registerTimeout base t duration =>
    refine hother ?_ fun _ _ heq => by cases heq
    simp only [step]
    split_ifs <;> simp
  | destroy t =>
    refine hother ?_ fun _ _ heq => by cases heq
    simp only [step]
    split_ifs <;> simp
  | elapse time => exact hother (by simp [step]) fun _ _ heq => by cases heq
  | expire base t =>
    refine hother ?_ fun _ _ heq => by cases heq
    simp only [step, expire]
    split
    · simp
    · split_ifs <;> simp

omit [LawfulLibeventTimers L] in
/-- No assertion fails in a run if and only if no timeout is unregistered from another base than the
one that it was registered with first. -/
theorem asserts_iff_firstBase (l : L) (acts : List TimeoutAct) :
    Exec.exec step (new l) acts ≠ .error .otherBase ↔
      ∀ front base t back s, acts = front ++ .unregisterTimeout base t :: back →
        Exec.exec step (new l) front = .ok s → (s.timeouts t).alive = true →
          ∀ b, firstBase front t = some b → b = base := by
  rw [Exec.exec_ne_error_iff, Exec.along_iff_forall]
  constructor
  · intro h front base t back s hacts hrun halive b hb
    rw [← base_exec hrun t halive] at hb
    exact step_ne_otherBase_iff.mp (h front _ back s hacts hrun) base t rfl halive b hb
  · intro h front act back s hacts hrun
    refine step_ne_otherBase_iff.mpr ?_
    rintro base t rfl halive b hb
    rw [base_exec hrun t halive] at hb
    exact h front base t back s hacts hrun halive b hb

end Runs

end Timeouts

end WhatTheEvent
