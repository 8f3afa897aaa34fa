import Mathlib.Data.List.Perm.Basic
import Mathlib.Logic.Function.Basic
import WhatTheEvent.Library.Exec
import WhatTheEvent.Stream.Handler

/-!
# Registering handlers

Handlers that are registered with event bases, and the events of libevent that stand for them. Which
base a handler is registered with is remembered when it is registered for the first time, and not
forgotten when it is unregistered.
-/

namespace WhatTheEvent

/-! ### Events of libevent -/

def evRead : BitVec 16 := 0x02

def evWrite : BitVec 16 := 0x04

def evPersist : BitVec 16 := 0x10

def toFlags : What → BitVec 16
  | .none => 0
  | .read => evRead
  | .write => evWrite
  | .readWrite => evRead ||| evWrite

def allBitsSet (value bits : BitVec 16) : Bool := bits = value &&& bits

def fromFlags (flags : BitVec 16) : What :=
  if allBitsSet flags (evRead ||| evWrite) then .readWrite
  else if allBitsSet flags evRead then .read
  else if allBitsSet flags evWrite then .write
  else .none

lemma fromFlags_toFlags (what : What) : fromFlags (toFlags what ||| evPersist) = what := by
  cases what <;> decide

/-- What `event_assign` stores in a `struct event`, and whether `EVLIST_INTERNAL` was set. -/
structure AssignedEvent where
  /-- The `event_base` that belongs to this base. -/
  base : Nat
  fd : Int
  events : BitVec 16
  internal : Bool
  deriving DecidableEq, Repr

/-- The part of libevent that handlers need: the events of handlers that are pending in any base,
each with the handler that its `struct event` belongs to. -/
class Libevent (L : Type) where
  pending : L → List (Nat × AssignedEvent)
  /-- `event_add`, which succeeds. -/
  add : L → Nat → AssignedEvent → L
  /-- `event_del`. -/
  del : L → Nat → L

/-- `event_add` makes an event pending that is not, and `event_del` makes it non-pending. -/
class LawfulLibevent (L : Type) [Libevent L] : Prop where
  pending_add (l : L) {handler : Nat} {event : AssignedEvent}
    (h : ∀ e ∈ Libevent.pending l, e.1 ≠ handler) :
    (Libevent.pending (Libevent.add l handler event)).Perm
      ((handler, event) :: Libevent.pending l)
  pending_del (l : L) (handler : Nat) :
    (Libevent.pending (Libevent.del l handler)).Perm
      ((Libevent.pending l).filter fun e => e.1 ≠ handler)

/-- The pending events themselves. -/
instance : Libevent (List (Nat × AssignedEvent)) where
  pending l := l
  add l handler event := (handler, event) :: l
  del l handler := l.filter fun e => e.1 ≠ handler

instance : LawfulLibevent (List (Nat × AssignedEvent)) where
  pending_add _ _ _ _ := .refl _
  pending_del _ _ := .refl _

/-! ### Handlers -/

/-- `LibeventEventHandler`. -/
structure LibeventEventHandler where
  /-- `base_`, the base that created it. -/
  base : Nat
  registered : Bool
  /-- `event_`, once it was assigned. -/
  event : Option AssignedEvent
  deriving DecidableEq, Repr

/-- `EventHandler`. -/
structure EventHandler where
  fd : Int
  impl : Option LibeventEventHandler
  deriving DecidableEq, Repr

namespace EventHandler

def base (handler : EventHandler) : Option Nat := handler.impl.map LibeventEventHandler.base

def registered (handler : EventHandler) : Bool := handler.impl.any LibeventEventHandler.registered

def watched (handler : EventHandler) : What :=
  match handler.impl with
  | some ⟨_, true, some event⟩ => fromFlags event.events
  | _ => .none

end EventHandler

/-- An assertion that fails. -/
inductive AssertionFailed where
  /-- `handler->base() == this`. -/
  | otherBase
  /-- `!registered()`. -/
  | registered
  deriving DecidableEq, Repr

/-- A call that concerns the registration of a handler, made on the thread of the event loop. -/
inductive HandlerCall where
  | registerHandler (base handler : Nat) (what : What)
  | unregisterHandler (base handler : Nat)
  | unregister (handler : Nat)
  | setFd (handler : Nat) (fd : Int)
  deriving DecidableEq, Repr

/-- The handlers, and libevent. -/
structure Registry (L : Type) where
  handlers : Nat → EventHandler
  libevent : L

namespace Registry

variable {L : Type} {s : Registry L} {h h' : Nat} {handler : EventHandler} {libevent : L}

/-- Handlers that were just constructed. -/
def new (fds : Nat → Int) (libevent : L) : Registry L := ⟨fun h => ⟨fds h, none⟩, libevent⟩

/-- One handler changes, and libevent. -/
def set (s : Registry L) (h : Nat) (handler : EventHandler) (libevent : L) : Registry L :=
  ⟨Function.update s.handlers h handler, libevent⟩

@[simp] lemma handlers_set_self : (s.set h handler libevent).handlers h = handler :=
  Function.update_self _ _ _

lemma handlers_set_of_ne (hh : h' ≠ h) : (s.set h handler libevent).handlers h' = s.handlers h' :=
  Function.update_of_ne hh _ _

variable [Libevent L]

def unregisterHandler (s : Registry L) (this h : Nat) : Except AssertionFailed (Registry L) :=
  match (s.handlers h).impl with
  | none => .ok s
  | some impl =>
    if impl.base ≠ this then .error .otherBase
    else if !impl.registered then .ok s
    else
      .ok (s.set h { s.handlers h with impl := some { impl with registered := false } }
        (Libevent.del s.libevent h))

/-- The end of `registerHandlerInternal`, from the lookup of the implementation on. -/
def assignEvent (s : Registry L) (this h : Nat) (what : What) (internal : Bool) : Registry L :=
  let handler := s.handlers h
  let libevent := if handler.registered then Libevent.del s.libevent h else s.libevent
  let impl := handler.impl.getD ⟨this, false, none⟩
  let event : AssignedEvent := ⟨this, handler.fd, toFlags what ||| evPersist, internal⟩
  s.set h { handler with impl := some { impl with registered := true, event := some event } }
    (Libevent.add libevent h event)

def registerHandlerInternal (s : Registry L) (this h : Nat) (what : What) (internal : Bool) :
    Except AssertionFailed (Registry L) :=
  if (s.handlers h).base ≠ none ∧ internal = false ∧ (s.handlers h).base ≠ some this then
    .error .otherBase
  else if (s.handlers h).base ≠ none ∧ internal = false ∧ what = (s.handlers h).watched then .ok s
  else if what = .none then s.unregisterHandler this h
  else .ok (s.assignEvent this h what internal)

def registerHandler (s : Registry L) (this h : Nat) (what : What) :
    Except AssertionFailed (Registry L) := s.registerHandlerInternal this h what false

/-- `EventHandler::unregister`. -/
def unregister (s : Registry L) (h : Nat) : Except AssertionFailed (Registry L) :=
  match (s.handlers h).base with
  | some base => s.unregisterHandler base h
  | none => .ok s

/-- `EventHandler::setFd`. -/
def setFd (s : Registry L) (h : Nat) (fd : Int) : Except AssertionFailed (Registry L) :=
  if (s.handlers h).registered then .error .registered
  else .ok (s.set h { s.handlers h with fd } s.libevent)

def step (s : Registry L) : HandlerCall → Except AssertionFailed (Registry L)
  | .registerHandler base h what => s.registerHandler base h what
  | .unregisterHandler base h => s.unregisterHandler base h
  | .unregister h => s.unregister h
  | .setFd h fd => s.setFd h fd

end Registry

/-! ### What the registrations should be -/

/-- The base and the events that each handler is registered with, and its descriptor. -/
structure Registrations where
  registered : Nat → Option (Nat × What)
  fd : Nat → Int

namespace Registrations

/-- No handler is registered. -/
def new (fds : Nat → Int) : Registrations := ⟨fun _ => none, fds⟩

/-- One handler is registered in another way, or not any more. -/
def register (i : Registrations) (h : Nat) (r : Option (Nat × What)) : Registrations :=
  { i with registered := Function.update i.registered h r }

def apply (i : Registrations) : HandlerCall → Registrations
  | .registerHandler base h what => i.register h (if what = .none then none else some (base, what))
  | .unregisterHandler _ h => i.register h none
  | .unregister h => i.register h none
  | .setFd h fd => { i with fd := Function.update i.fd h fd }

/-- The documented preconditions: a handler is not registered on one base while it is registered on
another, and its descriptor is changed only while it is not registered. -/
def Respects (i : Registrations) : HandlerCall → Prop
  | .registerHandler base h _ => ∀ r, i.registered h = some r → r.1 = base
  | .setFd h _ => i.registered h = none
  | _ => True

instance (i : Registrations) : ∀ call, Decidable (i.Respects call)
  | .registerHandler base h _ => inferInstanceAs (Decidable (∀ r ∈ i.registered h, r.1 = base))
  | .unregisterHandler _ _ => inferInstanceAs (Decidable True)
  | .unregister _ => inferInstanceAs (Decidable True)
  | .setFd h _ => inferInstanceAs (Decidable (i.registered h = none))

/-- The call unregisters a handler that is registered. -/
def Unregisters (i : Registrations) : HandlerCall → Prop
  | .registerHandler _ h what => what = .none ∧ i.registered h ≠ none
  | .unregisterHandler _ h => i.registered h ≠ none
  | .unregister h => i.registered h ≠ none
  | .setFd _ _ => False

instance (i : Registrations) : ∀ call, Decidable (i.Unregisters call)
  | .registerHandler _ h what => inferInstanceAs (Decidable (what = .none ∧ i.registered h ≠ none))
  | .unregisterHandler _ h => inferInstanceAs (Decidable (i.registered h ≠ none))
  | .unregister h => inferInstanceAs (Decidable (i.registered h ≠ none))
  | .setFd _ _ => inferInstanceAs (Decidable False)

def watched (i : Registrations) (h : Nat) : What := (i.registered h).elim .none Prod.snd

def base (i : Registrations) (h : Nat) : Option Nat := (i.registered h).map Prod.fst

/-- The events of the handler that should be pending. -/
def events (i : Registrations) (h : Nat) : List (Nat × AssignedEvent) :=
  (i.registered h).toList.map fun r => (h, ⟨r.1, i.fd h, toFlags r.2 ||| evPersist, false⟩)

variable {i : Registrations} {h h' : Nat} {r : Option (Nat × What)}

@[simp] lemma registered_register_self : (i.register h r).registered h = r :=
  Function.update_self _ _ _

lemma registered_register_of_ne (hh : h' ≠ h) : (i.register h r).registered h' = i.registered h' :=
  Function.update_of_ne hh _ _

/-- Registering a handler as it is already registered changes nothing. -/
lemma register_eq_self (hr : i.registered h = r) : i.register h r = i := by
  rw [register, ← hr, Function.update_eq_self]

end Registrations

namespace Registry

variable {L : Type} [Libevent L]

/-- The pending events of the handler. -/
def pendingOf (l : L) (h : Nat) : List (Nat × AssignedEvent) :=
  (Libevent.pending l).filter fun e => e.1 = h

/-- Each handler watches what it was registered for last, its base is the one that it is registered
with, and exactly one event is pending for it, with its descriptor and flags; for a handler that is
not registered there is no base and no event. -/
structure RegistrationLaw (s : Registry L) (i : Registrations) : Prop where
  fd : ∀ h, (s.handlers h).fd = i.fd h
  registered : ∀ h, (s.handlers h).registered = (i.registered h).isSome
  watched : ∀ h, (s.handlers h).watched = i.watched h
  base : ∀ h, (s.handlers h).base = i.base h
  events : ∀ h, (pendingOf s.libevent h).Perm (i.events h)

/-! ### What calls do -/

variable {s s' : Registry L} {i : Registrations} {this h h' : Nat} {what : What}
  {call : HandlerCall}

lemma unregisterHandler_of_none (himpl : (s.handlers h).impl = none) :
    s.unregisterHandler this h = .ok s := by
  unfold unregisterHandler
  rw [himpl]

/-- A handler that is not registered stays as it is; the event of one that is registered is
deleted. -/
lemma unregisterHandler_cases (hok : s.unregisterHandler this h = .ok s') :
    ((s.handlers h).registered = false ∧ s' = s) ∨
      ∃ impl, (s.handlers h).impl = some impl ∧ impl.base = this ∧
        s' = s.set h { s.handlers h with impl := some { impl with registered := false } }
          (Libevent.del s.libevent h) := by
  unfold unregisterHandler at hok
  cases himpl : (s.handlers h).impl with
  | none =>
    rw [himpl] at hok
    obtain rfl := Except.ok.inj hok
    exact .inl ⟨by rw [EventHandler.registered, himpl]; rfl, rfl⟩
  | some impl =>
    rw [himpl] at hok
    simp only at hok
    split_ifs at hok with hbase hregistered
    · obtain rfl := Except.ok.inj hok
      refine .inl ⟨?_, rfl⟩
      rw [EventHandler.registered, himpl]
      simpa using hregistered
    · exact .inr ⟨impl, rfl, not_not.mp hbase, (Except.ok.inj hok).symm⟩

/-- A handler that already watches the events stays as it is; it is unregistered where there are
none to watch, and its event is assigned otherwise. -/
lemma registerHandler_cases (hok : s.registerHandler this h what = .ok s') :
    ((s.handlers h).base = none ∨ (s.handlers h).base = some this) ∧
      (((s.handlers h).base ≠ none ∧ what = (s.handlers h).watched ∧ s' = s) ∨
        (what = .none ∧ s.unregisterHandler this h = .ok s') ∨
        (what ≠ .none ∧ s' = s.assignEvent this h what false)) := by
  have hbase : ∀ {other : Prop}, ¬ ((s.handlers h).base ≠ none ∧ other ∧
      (s.handlers h).base ≠ some this) → other →
      (s.handlers h).base = none ∨ (s.handlers h).base = some this := by
    intro other hno hother
    by_contra hne
    rw [not_or] at hne
    exact hno ⟨hne.1, hother, hne.2⟩
  unfold registerHandler registerHandlerInternal at hok
  split_ifs at hok with hother hsame hnone
  · exact ⟨hbase hother rfl, .inl ⟨hsame.1, hsame.2.2, (Except.ok.inj hok).symm⟩⟩
  · exact ⟨hbase hother rfl, .inr (.inl ⟨hnone, hok⟩)⟩
  · exact ⟨hbase hother rfl, .inr (.inr ⟨hnone, (Except.ok.inj hok).symm⟩)⟩

/-- The base of a handler is not forgotten. -/
lemma base_step {b : Nat} (hok : s.step call = .ok s') (hbase : (s.handlers h).base = some b) :
    (s'.handlers h).base = some b := by
  have hunregister : ∀ {this h'}, s.unregisterHandler this h' = .ok s' →
      (s'.handlers h).base = some b := by
    intro this h' hok
    rcases unregisterHandler_cases hok with ⟨-, rfl⟩ | ⟨impl, himpl, -, rfl⟩
    · exact hbase
    · by_cases hh : h = h'
      · subst hh
        rw [EventHandler.base, himpl] at hbase
        rw [handlers_set_self]
        exact hbase
      · rwa [handlers_set_of_ne hh]
  cases call with
  | registerHandler this h' what =>
    rcases (registerHandler_cases hok).2 with ⟨-, -, rfl⟩ | ⟨-, hok⟩ | ⟨-, rfl⟩
    · exact hbase
    · exact hunregister hok
    · by_cases hh : h = h'
      · subst hh
        obtain ⟨impl, himpl, rfl⟩ := Option.map_eq_some_iff.mp hbase
        rw [assignEvent, handlers_set_self, himpl]
        rfl
      · rwa [assignEvent, handlers_set_of_ne hh]
  | unregisterHandler this h' => exact hunregister hok
  | unregister h' =>
    simp only [step, unregister] at hok
    split at hok
    · exact hunregister hok
    · obtain rfl := Except.ok.inj hok
      exact hbase
  | setFd h' fd =>
    simp only [step, setFd] at hok
    split_ifs at hok
    obtain rfl := Except.ok.inj hok
    by_cases hh : h = h'
    · subst hh
      rw [handlers_set_self]
      exact hbase
    · rwa [handlers_set_of_ne hh]

/-- The descriptor of a handler changes only in `setFd`. -/
lemma fd_step (hok : s.step call = .ok s') (hcall : ∀ fd, call ≠ .setFd h fd) :
    (s'.handlers h).fd = (s.handlers h).fd := by
  have hset : ∀ {h' handler libevent}, handler.fd = (s.handlers h').fd →
      ((s.set h' handler libevent).handlers h).fd = (s.handlers h).fd := by
    intro h' handler libevent hfd
    by_cases hh : h = h'
    · subst hh
      rwa [handlers_set_self]
    · rw [handlers_set_of_ne hh]
  have hunregister : ∀ {this h'}, s.unregisterHandler this h' = .ok s' →
      (s'.handlers h).fd = (s.handlers h).fd := by
    intro this h' hok
    rcases unregisterHandler_cases hok with ⟨-, rfl⟩ | ⟨impl, -, -, rfl⟩
    · rfl
    · exact hset rfl
  cases call with
  | registerHandler this h' what =>
    rcases (registerHandler_cases hok).2 with ⟨-, -, rfl⟩ | ⟨-, hok⟩ | ⟨-, rfl⟩
    · rfl
    · exact hunregister hok
    · exact hset rfl
  | unregisterHandler this h' => exact hunregister hok
  | unregister h' =>
    simp only [step, unregister] at hok
    split at hok
    · exact hunregister hok
    · obtain rfl := Except.ok.inj hok
      rfl
  | setFd h' fd =>
    have hh : h ≠ h' := by
      rintro rfl
      exact hcall fd rfl
    simp only [step, setFd] at hok
    split_ifs at hok
    obtain rfl := Except.ok.inj hok
    rw [handlers_set_of_ne hh]

/-! ### Pending events -/

section Pending

variable [LawfulLibevent L] {l : L} {event : AssignedEvent}

lemma pendingOf_del : (pendingOf (Libevent.del l h) h').Perm
    (if h' = h then [] else pendingOf l h') := by
  refine ((LawfulLibevent.pending_del l h).filter _).trans ?_
  rw [List.filter_filter]
  split_ifs with hh
  · subst hh
    rw [List.filter_eq_nil_iff.mpr (by simp)]
  · refine .of_eq (List.filter_congr fun e _ => ?_)
    by_cases he : e.1 = h'
    · simp [he, hh]
    · simp [he]

lemma pendingOf_add (hnone : pendingOf l h = []) : (pendingOf (Libevent.add l h event) h').Perm
    (if h' = h then [(h, event)] else pendingOf l h') := by
  have hne : ∀ e ∈ Libevent.pending l, e.1 ≠ h := fun e he => by
    simpa using List.filter_eq_nil_iff.mp hnone e he
  refine ((LawfulLibevent.pending_add l hne).filter _).trans ?_
  split_ifs with hh
  · subst hh
    rw [List.filter_cons_of_pos (by simp)]
    exact .of_eq (congrArg _ hnone)
  · rw [List.filter_cons_of_neg (by simpa using Ne.symm hh)]
    exact .refl _

/-! ### What is kept -/

/-- The handler is as it should be, up to the base of one that is not registered. -/
structure Agrees (s : Registry L) (i : Registrations) (h : Nat) : Prop where
  fd : (s.handlers h).fd = i.fd h
  registered : (s.handlers h).registered = (i.registered h).isSome
  watched : (s.handlers h).watched = i.watched h
  base : ∀ r, i.registered h = some r → (s.handlers h).base = some r.1
  what : ∀ r, i.registered h = some r → r.2 ≠ .none
  events : (pendingOf s.libevent h).Perm (i.events h)

omit [LawfulLibevent L] in
lemma agrees_new (fds : Nat → Int) (hl : ∀ h, pendingOf l h = []) :
    ∀ h, (new fds l).Agrees (.new fds) h := fun h =>
  ⟨rfl, rfl, rfl, nofun, nofun, .of_eq (hl h)⟩

omit [LawfulLibevent L] in
/-- Other handlers are unaffected. -/
lemma Agrees.of_same {i' : Registrations} (hs : s.Agrees i h)
    (hhandler : s'.handlers h = s.handlers h) (hfd : i'.fd h = i.fd h)
    (hregistered : i'.registered h = i.registered h)
    (hpending : (pendingOf s'.libevent h).Perm (pendingOf s.libevent h)) : s'.Agrees i' h := by
  have hevents : i'.events h = i.events h := by
    rw [Registrations.events, Registrations.events, hregistered, hfd]
  refine ⟨?_, ?_, ?_, ?_, ?_, ?_⟩
  · rw [hhandler, hfd, hs.fd]
  · rw [hhandler, hregistered, hs.registered]
  · rw [hhandler, hs.watched, Registrations.watched, Registrations.watched, hregistered]
  · rw [hhandler, hregistered]
    exact hs.base
  · rw [hregistered]
    exact hs.what
  · rw [hevents]
    exact hpending.trans hs.events

omit [LawfulLibevent L] in
lemma Agrees.registered_eq_none (hs : s.Agrees i h) (hr : (s.handlers h).registered = false) :
    i.registered h = none := by
  rw [hs.registered] at hr
  exact Option.isNone_iff_eq_none.mp (Option.isSome_eq_false_iff.mp hr)

omit [LawfulLibevent L] in
/-- A handler that already watches the events is registered for them. -/
lemma Agrees.registered_eq (hs : s.Agrees i h) (hbase : (s.handlers h).base = some this)
    (hsame : what = (s.handlers h).watched) :
    i.registered h = if what = .none then none else some (this, what) := by
  rw [hs.watched, Registrations.watched] at hsame
  cases hr : i.registered h with
  | none =>
    rw [hr] at hsame
    exact (if_pos hsame).symm
  | some r =>
    obtain ⟨b, w⟩ := r
    rw [hr] at hsame
    obtain rfl : what = w := hsame
    rw [hs.base _ hr] at hbase
    obtain rfl := Option.some.inj hbase
    rw [if_neg (hs.what _ hr)]

omit [LawfulLibevent L] in
lemma Agrees.registered_eq_none_of_base (hs : s.Agrees i h) (hbase : (s.handlers h).base = none) :
    i.registered h = none := by
  cases hr : i.registered h with
  | none => rfl
  | some r =>
    rw [hs.base r hr] at hbase
    cases hbase

lemma agrees_unregisterHandler (hs : ∀ h, s.Agrees i h)
    (hok : s.unregisterHandler this h = .ok s') : ∀ h', s'.Agrees (i.register h none) h' := by
  rcases unregisterHandler_cases hok with ⟨hr, rfl⟩ | ⟨impl, himpl, -, rfl⟩
  · rw [Registrations.register_eq_self ((hs h).registered_eq_none hr)]
    exact hs
  · intro h'
    by_cases hh : h' = h
    · subst hh
      have hnone : (i.register h' none).registered h' = none :=
        Registrations.registered_register_self
      refine ⟨?_, ?_, ?_, ?_, ?_, ?_⟩
      · rw [handlers_set_self]
        exact (hs h').fd
      · rw [handlers_set_self, hnone]
        rfl
      · rw [handlers_set_self, Registrations.watched, hnone]
        rfl
      · rw [hnone]
        exact nofun
      · rw [hnone]
        exact nofun
      · rw [Registrations.events, hnone]
        exact pendingOf_del.trans (.of_eq (if_pos rfl))
    · refine (hs h').of_same (handlers_set_of_ne hh) rfl
        (Registrations.registered_register_of_ne hh) ?_
      exact pendingOf_del.trans (.of_eq (if_neg hh))

/-- The event of a handler is deleted if it is pending, and added with the new flags. -/
lemma agrees_assignEvent (hs : ∀ h, s.Agrees i h)
    (hbase : (s.handlers h).base = none ∨ (s.handlers h).base = some this)
    (hwhat : what ≠ .none) :
    ∀ h', (s.assignEvent this h what false).Agrees (i.register h (some (this, what))) h' := by
  -- nothing is pending for the handler when its event is added
  have hdel : ∀ h', (pendingOf (if (s.handlers h).registered then Libevent.del s.libevent h
      else s.libevent) h').Perm (if h' = h then [] else pendingOf s.libevent h') := by
    intro h'
    cases hr : (s.handlers h).registered with
    | true => exact pendingOf_del
    | false =>
      by_cases hh : h' = h
      · subst hh
        rw [if_pos rfl]
        refine (hs h').events.trans (.of_eq ?_)
        rw [Registrations.events, (hs h').registered_eq_none hr]
        rfl
      · rw [if_neg hh]
        exact .refl _
  have hnone := List.perm_nil.mp ((hdel h).trans (.of_eq (if_pos rfl)))
  intro h'
  by_cases hh : h' = h
  · subst hh
    have hsome : (i.register h' (some (this, what))).registered h' = some (this, what) :=
      Registrations.registered_register_self
    refine ⟨?_, ?_, ?_, ?_, ?_, ?_⟩
    · rw [assignEvent, handlers_set_self]
      exact (hs h').fd
    · rw [assignEvent, handlers_set_self, hsome]
      rfl
    · rw [assignEvent, handlers_set_self, Registrations.watched, hsome]
      exact fromFlags_toFlags what
    · rw [hsome]
      rintro r hr
      obtain rfl := Option.some.inj hr
      rw [assignEvent, handlers_set_self, EventHandler.base]
      cases himpl : (s.handlers h').impl with
      | none => rfl
      | some impl =>
        rw [EventHandler.base, himpl] at hbase
        exact hbase.resolve_left (Option.some_ne_none _)
    · rw [hsome]
      rintro r hr
      obtain rfl := Option.some.inj hr
      exact hwhat
    · rw [Registrations.events, hsome]
      refine (pendingOf_add hnone).trans (.of_eq ?_)
      rw [if_pos rfl, (hs h').fd]
      rfl
  · refine (hs h').of_same (handlers_set_of_ne hh) rfl
      (Registrations.registered_register_of_ne hh) ?_
    refine (pendingOf_add hnone).trans ?_
    rw [if_neg hh]
    exact (hdel h').trans (.of_eq (if_neg hh))

omit [LawfulLibevent L] in
lemma agrees_setFd (hs : ∀ h, s.Agrees i h) (hr : (s.handlers h).registered = false) {fd : Int} :
    ∀ h', (s.set h { s.handlers h with fd } s.libevent).Agrees (i.apply (.setFd h fd)) h' := by
  have hnone := (hs h).registered_eq_none hr
  intro h'
  by_cases hh : h' = h
  · subst hh
    have hsame := hs h'
    refine ⟨?_, ?_, ?_, ?_, hsame.what, ?_⟩
    · rw [handlers_set_self]
      exact (Function.update_self (f := i.fd) ..).symm
    · rw [handlers_set_self]
      exact hsame.registered
    · rw [handlers_set_self]
      exact hsame.watched
    · rw [handlers_set_self]
      exact hsame.base
    · have hevents := hsame.events
      rw [Registrations.events, hnone] at hevents
      rw [Registrations.events, show (i.apply (.setFd h' fd)).registered h' = none from hnone]
      exact hevents
  · exact (hs h').of_same (handlers_set_of_ne hh) (Function.update_of_ne hh _ _) rfl (.refl _)

/-- A call that fails no assertion keeps the handlers as they should be, up to the base of those
that are not registered. -/
theorem agrees_step (hs : ∀ h, s.Agrees i h) (hok : s.step call = .ok s') :
    ∀ h, s'.Agrees (i.apply call) h := by
  cases call with
  | registerHandler this h what =>
    obtain ⟨hbase, ⟨hne, hsame, rfl⟩ | ⟨rfl, hunregister⟩ | ⟨hwhat, rfl⟩⟩ :=
      registerHandler_cases hok
    · rw [Registrations.apply, Registrations.register_eq_self
        ((hs h).registered_eq (hbase.resolve_left hne) hsame)]
      exact hs
    · exact agrees_unregisterHandler hs hunregister
    · rw [Registrations.apply, if_neg hwhat]
      exact agrees_assignEvent hs hbase hwhat
  | unregisterHandler this h => exact agrees_unregisterHandler hs hok
  | unregister h =>
    simp only [step, unregister] at hok
    cases hb : (s.handlers h).base with
    | some b =>
      rw [hb] at hok
      exact agrees_unregisterHandler hs hok
    | none =>
      rw [hb] at hok
      obtain rfl := Except.ok.inj hok
      rw [Registrations.apply,
        Registrations.register_eq_self ((hs h).registered_eq_none_of_base hb)]
      exact hs
  | setFd h fd =>
    simp only [step, setFd] at hok
    split_ifs at hok with hr
    obtain rfl := Except.ok.inj hok
    exact agrees_setFd hs (Bool.eq_false_iff.mpr hr)

/-! ### Calls that unregister nothing -/

omit [LawfulLibevent L] in
lemma RegistrationLaw.impl_eq_none (hs : s.RegistrationLaw i) (hr : i.registered h = none) :
    (s.handlers h).impl = none := by
  have hbase := hs.base h
  rw [Registrations.base, hr] at hbase
  exact Option.map_eq_none_iff.mp hbase

omit [LawfulLibevent L] in
lemma RegistrationLaw.of_agrees (hs : ∀ h, s.Agrees i h)
    (hnone : ∀ h, i.registered h = none → (s.handlers h).impl = none) : s.RegistrationLaw i := by
  refine ⟨fun h => (hs h).fd, fun h => (hs h).registered, fun h => (hs h).watched, fun h => ?_,
    fun h => (hs h).events⟩
  rw [Registrations.base]
  cases hr : i.registered h with
  | none =>
    rw [EventHandler.base, hnone h hr]
    rfl
  | some r => exact (hs h).base r hr

omit [LawfulLibevent L] in
/-- No assertion fails in a call that unregisters nothing. -/
lemma step_of_not_unregisters (hlaw : s.RegistrationLaw i)
    (hpre : i.Respects call) (hno : ¬ i.Unregisters call) : ∃ s', s.step call = .ok s' := by
  cases call with
  | registerHandler this h what =>
    have hbase : (s.handlers h).base = none ∨ (s.handlers h).base = some this := by
      rw [hlaw.base, Registrations.base]
      cases hr : i.registered h with
      | none => exact .inl rfl
      | some r => exact .inr (congrArg some (hpre r hr))
    simp only [step, registerHandler, registerHandlerInternal]
    split_ifs with hother hsame hnone
    · exact absurd (hbase.resolve_left hother.1) hother.2.2
    · exact ⟨s, rfl⟩
    · have hr : i.registered h = none := not_not.mp fun hr => hno ⟨hnone, hr⟩
      exact ⟨s, unregisterHandler_of_none (hlaw.impl_eq_none hr)⟩
    · exact ⟨_, rfl⟩
  | unregisterHandler this h =>
    exact ⟨s, unregisterHandler_of_none (hlaw.impl_eq_none (not_not.mp hno))⟩
  | unregister h =>
    refine ⟨s, ?_⟩
    have hbase := hlaw.base h
    rw [Registrations.base, not_not.mp hno] at hbase
    simp only [step, unregister]
    rw [hbase]
    rfl
  | setFd h fd =>
    have hregistered := hlaw.registered h
    rw [show i.registered h = none from hpre] at hregistered
    refine ⟨_, if_neg ?_⟩
    rw [hregistered]
    exact Bool.false_ne_true

omit [LawfulLibevent L] in
/-- A handler that was never registered stays as it was constructed, up to its descriptor. -/
lemma impl_eq_none_step (hlaw : s.RegistrationLaw i) (hno : ¬ i.Unregisters call)
    (hok : s.step call = .ok s') (hr : (i.apply call).registered h = none) :
    (s'.handlers h).impl = none := by
  have hunregister : ∀ {this h'}, i.registered h' = none → s.unregisterHandler this h' = .ok s' →
      (i.register h' none).registered h = none → (s'.handlers h).impl = none := by
    intro this h' hr' hok hr
    rw [unregisterHandler_of_none (hlaw.impl_eq_none hr')] at hok
    obtain rfl := Except.ok.inj hok
    rw [Registrations.register_eq_self hr'] at hr
    exact hlaw.impl_eq_none hr
  cases call with
  | registerHandler this h' what =>
    rw [Registrations.apply] at hr
    by_cases hwhat : what = .none
    · have hr' : i.registered h' = none := not_not.mp fun hr' => hno ⟨hwhat, hr'⟩
      rw [if_pos hwhat] at hr
      obtain ⟨-, ⟨hne, -, -⟩ | ⟨-, hok⟩ | ⟨hwhat', -⟩⟩ := registerHandler_cases hok
      · rw [hlaw.base, Registrations.base, hr'] at hne
        exact absurd rfl hne
      · exact hunregister hr' hok hr
      · exact absurd hwhat hwhat'
    · rw [if_neg hwhat] at hr
      have hh : h ≠ h' := by
        rintro rfl
        rw [Registrations.registered_register_self] at hr
        cases hr
      rw [Registrations.registered_register_of_ne hh] at hr
      obtain ⟨-, ⟨-, -, rfl⟩ | ⟨hwhat', -⟩ | ⟨-, rfl⟩⟩ := registerHandler_cases hok
      · exact hlaw.impl_eq_none hr
      · exact absurd hwhat' hwhat
      · rw [assignEvent, handlers_set_of_ne hh]
        exact hlaw.impl_eq_none hr
  | unregisterHandler this h' => exact hunregister (not_not.mp hno) hok hr
  | unregister h' =>
    simp only [step, unregister] at hok
    rw [hlaw.base, Registrations.base, not_not.mp hno] at hok
    obtain rfl := Except.ok.inj hok
    rw [Registrations.apply, Registrations.register_eq_self (not_not.mp hno)] at hr
    exact hlaw.impl_eq_none hr
  | setFd h' fd =>
    simp only [step, setFd] at hok
    split_ifs at hok
    obtain rfl := Except.ok.inj hok
    have himpl := hlaw.impl_eq_none (show i.registered h = none from hr)
    by_cases hh : h = h'
    · subst hh
      rw [handlers_set_self]
      exact himpl
    · rwa [handlers_set_of_ne hh]

end Pending

end Registry

/-! ### The law -/

/-- The handlers, and the registrations that the calls made so far ask for. -/
structure Tracked (L : Type) where
  registry : Registry L
  intended : Registrations

namespace Tracked

variable {L : Type} [Libevent L] {t t' : Tracked L} {call : HandlerCall}

def new (fds : Nat → Int) (l : L) : Tracked L := ⟨.new fds l, .new fds⟩

def step (t : Tracked L) (call : HandlerCall) : Except AssertionFailed (Tracked L) :=
  (t.registry.step call).map fun s => ⟨s, t.intended.apply call⟩

/-- The call respects the documented preconditions. -/
def Respects (t : Tracked L) (call : HandlerCall) : Prop := t.intended.Respects call

instance (t : Tracked L) (call : HandlerCall) : Decidable (t.Respects call) :=
  inferInstanceAs (Decidable (t.intended.Respects call))

/-- No assertion fails in the call, and everything is as it should be afterwards. -/
def Lawful (t : Tracked L) (call : HandlerCall) : Prop :=
  ∃ s, t.registry.step call = .ok s ∧ s.RegistrationLaw (t.intended.apply call)

/-- No registered handler is unregistered by the call. -/
def Retains (t : Tracked L) (call : HandlerCall) : Prop := ¬ t.intended.Unregisters call

instance (t : Tracked L) (call : HandlerCall) : Decidable (t.Retains call) :=
  inferInstanceAs (Decidable (¬ t.intended.Unregisters call))

lemma step_eq_ok : t.step call = .ok t' ↔
    t.registry.step call = .ok t'.registry ∧ t.intended.apply call = t'.intended := by
  rw [step, map_eq_ok]
  constructor
  · rintro ⟨s, hok, rfl⟩
    exact ⟨hok, rfl⟩
  · rintro ⟨hok, hi⟩
    exact ⟨_, hok, by rw [hi]⟩

/-- A handler that is unregistered keeps its base, so that the law fails. -/
lemma retains_of_lawful (ht : t.registry.RegistrationLaw t.intended) (h : t.Lawful call) :
    t.Retains call := by
  obtain ⟨s, hok, hs⟩ := h
  have hgone : ∀ h, t.intended.registered h ≠ none →
      (t.intended.apply call).registered h ≠ none := by
    intro h hr hnone
    obtain ⟨r, hr⟩ := Option.ne_none_iff_exists'.mp hr
    have hbase : (t.registry.handlers h).base = some r.1 := by
      rw [ht.base, Registrations.base, hr]
      rfl
    have hbase' := hs.base h
    rw [Registrations.base, hnone, Registry.base_step hok hbase] at hbase'
    cases hbase'
  intro hun
  cases call with
  | registerHandler this h what =>
    refine hgone h hun.2 ?_
    rw [Registrations.apply, if_pos hun.1, Registrations.registered_register_self]
  | unregisterHandler this h => exact hgone h hun Registrations.registered_register_self
  | unregister h => exact hgone h hun Registrations.registered_register_self
  | setFd h fd => exact hun

variable [LawfulLibevent L]

/-- What holds as long as no registered handler is unregistered. -/
structure Kept (t : Tracked L) : Prop where
  agrees : ∀ h, t.registry.Agrees t.intended h
  law : t.registry.RegistrationLaw t.intended

omit [LawfulLibevent L] in
lemma kept_new (fds : Nat → Int) {l : L} (hl : ∀ h, Registry.pendingOf l h = []) :
    (new fds l).Kept :=
  ⟨Registry.agrees_new fds hl, .of_agrees (Registry.agrees_new fds hl) fun _ _ => rfl⟩

lemma Kept.after {s : Registry L} (ht : t.Kept) (hno : t.Retains call)
    (hok : t.registry.step call = .ok s) : Kept ⟨s, t.intended.apply call⟩ := by
  have hs := Registry.agrees_step ht.agrees hok
  exact ⟨hs, .of_agrees hs fun _ => Registry.impl_eq_none_step ht.law hno hok⟩

lemma Kept.lawful_iff (ht : t.Kept) (hpre : t.Respects call) :
    t.Lawful call ↔ t.Retains call := by
  refine ⟨retains_of_lawful ht.law, fun hno => ?_⟩
  obtain ⟨s, hok⟩ := Registry.step_of_not_unregisters ht.law hpre hno
  exact ⟨s, hok, (ht.after hno hok).law⟩

/-- In every run, also where handlers are unregistered, everything but the base of the handlers that
are not registered is as it should be. -/
theorem agrees_of_reachable (fds : Nat → Int) {l : L} (hl : ∀ h, Registry.pendingOf l h = [])
    (ht : Exec.Reachable step (new fds l) t) : ∀ h, t.registry.Agrees t.intended h := by
  refine ht.invariant (fun t => ∀ h, t.registry.Agrees t.intended h) ?_
    (Registry.agrees_new fds hl)
  intro t call t' hs hok
  obtain ⟨hok, hi⟩ := step_eq_ok.mp hok
  rw [← hi]
  exact Registry.agrees_step hs hok

/-- A handler is unregistered, gets another descriptor and is registered again. -/
theorem agrees_after_unregister :
    let calls : List HandlerCall := [.registerHandler 0 7 .read, .registerHandler 0 8 .write,
      .unregisterHandler 0 7, .setFd 7 5, .registerHandler 0 7 .readWrite]
    ∃ t, Exec.exec step (new (fun h => h) ([] : List (Nat × AssignedEvent))) calls = .ok t ∧
      ∀ h, t.registry.Agrees t.intended h := by
  intro calls
  exact ⟨_, rfl, agrees_of_reachable (l := []) _ (fun _ => rfl) ⟨calls, rfl⟩⟩

/-- In a sequence of calls that respect the documented preconditions, every call obeys the law
exactly if no call unregisters a registered handler. -/
theorem lawful_iff_retains (fds : Nat → Int) {l : L} (hl : ∀ h, Registry.pendingOf l h = [])
    {calls : List HandlerCall} (hpre : Exec.Along step Respects (new fds l) calls) :
    Exec.Along step Lawful (new fds l) calls ↔ Exec.Along step Retains (new fds l) calls := by
  refine Exec.along_iff Kept (fun t call ht hpre => ht.lawful_iff hpre) ?_ (kept_new fds hl) hpre
  intro t call t' ht _ hno hok
  obtain ⟨hok, hi⟩ := step_eq_ok.mp hok
  have hkept := ht.after hno hok
  rwa [hi] at hkept

/-- The descriptor of one handler is changed before it is registered on a second base. -/
theorem lawful_registered : Exec.Along step Lawful
    (new (fun h => h) ([] : List (Nat × AssignedEvent)))
    [.registerHandler 0 7 .read, .registerHandler 0 7 .write, .setFd 8 5,
      .registerHandler 1 8 .readWrite] :=
  (lawful_iff_retains _ (fun _ => rfl) (by decide)).mpr (by decide)

/-- A handler that was unregistered still has its base, and cannot be registered on another. -/
theorem not_lawful_moved :
    ¬ ∀ (fds : Nat → Int) (calls : List HandlerCall),
      Exec.Along step Respects (new fds ([] : List (Nat × AssignedEvent))) calls →
        Exec.Along step Lawful (new fds ([] : List (Nat × AssignedEvent))) calls := by
  intro h
  have hlaw := h (fun h => h)
    [.registerHandler 0 7 .read, .unregisterHandler 0 7, .registerHandler 1 7 .read] (by decide)
  obtain ⟨-, -, ⟨s, hok, -⟩, -⟩ := hlaw
  cases hok

end Tracked

end WhatTheEvent
