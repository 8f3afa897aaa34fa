import WhatTheEvent.Stream.Registered

/-!
# Streams on event loops

Any number of streams, each on an event base of its own choice, with other handlers registered and
unregistered in between. What a stream watches is what libevent watches for it.
-/

namespace WhatTheEvent

variable {L β : Type}

/-- The handlers, and the streams by the handler that they have. -/
structure Streams (L β : Type) where
  registry : Registry L
  streams : Nat → Option (Stream (Requests (WriteRequest β)) β)

/-- A step of a stream, or a call about a handler that no stream has. -/
inductive StreamsAct (β : Type) where
  | stream (h : Nat) (act : Act β)
  | handler (call : HandlerCall)
  deriving DecidableEq, Repr

/-- Why a run of the streams stops. -/
inductive StreamsStop where
  | disabled
  | fault (fault : Fault)
  | assertion (failed : AssertionFailed)
  deriving DecidableEq, Repr

namespace Streams

/-- Streams and handlers that were just constructed; `owned` tells the handlers of streams from the
other ones. -/
def new (fds : Nat → Int) (owned : Nat → Bool) (l : L) : Streams L β :=
  ⟨.new fds l, fun h => if owned h then some (.new (fds h)) else none⟩

variable [Libevent L]

/-- The stream at `h` takes a step, in which it makes calls about its handler. -/
def stream (base : Nat → Nat) (t : Streams L β) (h : Nat) (act : Act β) :
    Except StreamsStop (Streams L β) :=
  match t.streams h with
  | none => .error .disabled
  | some s =>
    match s.step act with
    | .error fault => .error (.fault fault)
    | .ok s' =>
      match Exec.exec Registry.step t.registry (s.handlerCalls (base h) h s' act) with
      | .error failed => .error (.assertion failed)
      | .ok registry => .ok ⟨registry, Function.update t.streams h (some s')⟩

/-- A step, with `base` for the event base that each stream was constructed with. -/
def step (base : Nat → Nat) (t : Streams L β) : StreamsAct β → Except StreamsStop (Streams L β)
  | .stream h act => t.stream base h act
  | .handler call =>
    if t.streams call.handler = none then
      match t.registry.step call with
      | .error failed => .error (.assertion failed)
      | .ok registry => .ok { t with registry }
    else .error .disabled

/-- An event that libevent has pending for the handler may be dispatched. -/
def Dispatches (t : Streams L β) (h : Nat) (event : What) : Prop :=
  ∃ e ∈ Libevent.pending t.registry.libevent, e.1 = h ∧ event.Among (fromFlags e.2.events)

/-- The handler of the stream has its descriptor and watches what the stream watches. Exactly one
event is pending for it if that is anything, on the base of the stream and with the flags of what is
watched, and none otherwise. -/
structure Mirrors (t : Streams L β) (base h : Nat) (s : Stream (Requests (WriteRequest β)) β) :
    Prop where
  fd : (t.registry.handlers h).fd = s.fd
  watched : (t.registry.handlers h).watched = s.watched
  events : (Registry.pendingOf t.registry.libevent h).Perm
    (if s.watched = .none then []
      else [(h, ⟨base, s.fd, toFlags s.watched ||| evPersist, false⟩)])

variable {base : Nat → Nat} {t t' : Streams L β} {act : StreamsAct β} {a : Act β} {h : Nat}
  {s s' : Stream (Requests (WriteRequest β)) β}

/-! ### Steps -/

/-- What a step does. -/
inductive Effect (base : Nat → Nat) (t : Streams L β) : StreamsAct β → Streams L β → Prop
  | stream {h : Nat} {a : Act β} {s s' : Stream (Requests (WriteRequest β)) β}
    {registry : Registry L} (hs : t.streams h = some s) (hstep : s.step a = .ok s')
    (hcalls : Exec.exec Registry.step t.registry (s.handlerCalls (base h) h s' a) = .ok registry) :
    Effect base t (.stream h a) ⟨registry, Function.update t.streams h (some s')⟩
  | handler {call : HandlerCall} {registry : Registry L} (hfree : t.streams call.handler = none)
    (hcall : t.registry.step call = .ok registry) :
    Effect base t (.handler call) { t with registry }

lemma stream_of_ok {registry : Registry L} (hs : t.streams h = some s) (hstep : s.step a = .ok s')
    (hcalls : Exec.exec Registry.step t.registry (s.handlerCalls (base h) h s' a) = .ok registry) :
    t.step base (.stream h a) = .ok ⟨registry, Function.update t.streams h (some s')⟩ := by
  simp only [step, stream, hs, hstep, hcalls]

lemma step_effect (hok : t.step base act = .ok t') : Effect base t act t' := by
  cases act with
  | stream h a =>
    simp only [step, stream] at hok
    cases hs : t.streams h with
    | none =>
      simp only [hs] at hok
      cases hok
    | some s =>
      cases hstep : s.step a with
      | error fault =>
        simp only [hs, hstep] at hok
        cases hok
      | ok s' =>
        cases hcalls : Exec.exec Registry.step t.registry
            (s.handlerCalls (base h) h s' a) with
        | error failed =>
          simp only [hs, hstep, hcalls] at hok
          cases hok
        | ok registry =>
          simp only [hs, hstep, hcalls] at hok
          obtain rfl := Except.ok.inj hok
          exact .stream hs hstep hcalls
  | handler call =>
    simp only [step] at hok
    split_ifs at hok with hfree
    cases hcall : t.registry.step call with
    | error failed =>
      simp only [hcall] at hok
      cases hok
    | ok registry =>
      simp only [hcall] at hok
      obtain rfl := Except.ok.inj hok
      exact .handler hfree hcall

/-! ### What is kept -/

/-- A stream, and its handler as the registrations have it. -/
structure Matches (base h : Nat) (registry : Registry L) (i : Registrations)
    (s : Stream (Requests (WriteRequest β)) β) : Prop where
  intends : i.Intends base h s.fd s.watched
  belongs : registry.BelongsTo base h
  onHead : s.OnHead
  dead : s.alive = false → s.watched = .none

/-- The handlers are as the registrations ask for, and these are what the streams watch. -/
structure Kept (base : Nat → Nat) (t : Streams L β) (i : Registrations) : Prop where
  agrees : ∀ h, t.registry.Agrees i h
  streams : ∀ h s, t.streams h = some s → Matches (base h) h t.registry i s

variable {i i' : Registrations} {registry : Registry L}

omit [Libevent L] in
/-- Calls about other handlers do not concern the stream. -/
lemma Matches.of_same {b : Nat} (hs : Matches b h t.registry i s)
    (hhandler : registry.handlers h = t.registry.handlers h) (hfd : i'.fd h = i.fd h)
    (hregistered : i'.registered h = i.registered h) : Matches b h registry i' s := by
  refine ⟨⟨hfd.trans hs.intends.fd, hregistered.trans hs.intends.registered⟩, ?_, hs.onHead,
    hs.dead⟩
  unfold Registry.BelongsTo
  rw [hhandler]
  exact hs.belongs

lemma kept_new (fds : Nat → Int) (owned : Nat → Bool) {l : L}
    (hl : ∀ h, Registry.pendingOf l h = []) :
    (new fds owned l : Streams L β).Kept base (.new fds) := by
  refine ⟨Registry.agrees_new fds hl, fun h s hs => ?_⟩
  simp only [new] at hs
  split_ifs at hs
  obtain rfl := Option.some.inj hs
  exact ⟨⟨rfl, rfl⟩, .inl rfl, Stream.onHead_new _, fun ha => by cases ha⟩

variable [LawfulLibevent L]

/-- The calls of a step of a stream fail no assertion, and its handler follows. -/
lemma Kept.exists_calls (ht : t.Kept base i) (hs : t.streams h = some s)
    (hstep : s.step a = .ok s') : ∃ registry i',
      Exec.exec Registry.step t.registry (s.handlerCalls (base h) h s' a) = .ok registry ∧
      Kept base ⟨registry, Function.update t.streams h (some s')⟩ i' := by
  obtain ⟨hintends, hbelongs, hhead, hdead⟩ := ht.streams h s hs
  obtain ⟨hown, hintends'⟩ := Stream.leads_handlerCalls hhead hstep hintends
  obtain ⟨registry, hcalls, hafter⟩ := Registry.exists_exec ht.agrees hbelongs hown
  refine ⟨registry, _, hcalls, hafter.agrees, fun h' s'' hs'' => ?_⟩
  by_cases hh : h' = h
  · subst hh
    obtain rfl : s' = s'' := by simpa using hs''
    exact ⟨hintends', hafter.belongs, hhead.step hstep, Stream.watched_of_dead hdead hstep⟩
  · have hs₀ : t.streams h' = some s'' := by
      simpa [Function.update_of_ne hh] using hs''
    exact (ht.streams h' s'' hs₀).of_same (hafter.handlers h' hh) (hafter.fd h' hh)
      (hafter.registered h' hh)

lemma Kept.step (ht : t.Kept base i) (hok : t.step base act = .ok t') :
    ∃ i', t'.Kept base i' := by
  cases step_effect hok with
  | stream hs hstep hcalls =>
    obtain ⟨registry, i', hcalls', hkept⟩ := ht.exists_calls hs hstep
    obtain rfl := Except.ok.inj (hcalls'.symm.trans hcalls)
    exact ⟨i', hkept⟩
  | @handler call registry hfree hcall =>
    refine ⟨i.apply call, Registry.agrees_step ht.agrees hcall, fun h s hs => ?_⟩
    have hne : h ≠ call.handler := by
      rintro rfl
      rw [hfree] at hs
      cases hs
    exact (ht.streams h s hs).of_same (Registry.handlers_step_of_ne hcall hne)
      (Registrations.apply_of_ne hne).1 (Registrations.apply_of_ne hne).2

lemma kept_of_exec {fds : Nat → Int} {owned : Nat → Bool} {l : L}
    (hl : ∀ h, Registry.pendingOf l h = []) {acts : List (StreamsAct β)}
    (hok : Exec.exec (step base) (new fds owned l) acts = .ok t) : ∃ i, t.Kept base i := by
  refine Exec.Reachable.invariant (fun t => ∃ i, t.Kept base i) ?_ ⟨_, kept_new fds owned hl⟩
    ⟨acts, hok⟩
  rintro t act t' ⟨i, ht⟩ hok
  exact ht.step hok

omit [LawfulLibevent L] in
lemma Kept.mirrors (ht : t.Kept base i) (hs : t.streams h = some s) :
    t.Mirrors (base h) h s := by
  obtain ⟨⟨hfd, hregistered⟩, -, -, -⟩ := ht.streams h s hs
  have hagrees := ht.agrees h
  refine ⟨hagrees.fd.trans hfd, ?_, ?_⟩
  · rw [hagrees.watched, Registrations.watched, hregistered]
    split_ifs with hnone
    · exact hnone.symm
    · rfl
  · refine hagrees.events.trans (.of_eq ?_)
    rw [Registrations.events, hregistered, hfd]
    split_ifs <;> rfl

lemma not_among_none {event : What} (hevent : event ≠ .none) : ¬ event.Among .none := by
  intro hamong
  cases event with
  | none => exact hevent rfl
  | read | readWrite => exact Bool.false_ne_true (hamong.1 rfl)
  | write => exact Bool.false_ne_true (hamong.2 rfl)

omit [LawfulLibevent L] in
/-- An event that libevent may dispatch to the handler of a stream is one that the stream watches
for. -/
lemma Mirrors.dispatches_iff_among {b : Nat} (hm : t.Mirrors b h s) {event : What}
    (hevent : event ≠ .none) : t.Dispatches h event ↔ event.Among s.watched := by
  have hpending : t.Dispatches h event ↔ ∃ e ∈ Registry.pendingOf t.registry.libevent h,
      event.Among (fromFlags e.2.events) := by
    simp only [Dispatches, Registry.pendingOf, List.mem_filter, decide_eq_true_eq, and_assoc]
  rw [hpending]
  simp only [hm.events.mem_iff]
  split_ifs with hnone
  · rw [hnone]
    exact ⟨fun ⟨_, he, _⟩ => absurd he List.not_mem_nil,
      fun hamong => absurd hamong (not_among_none hevent)⟩
  · constructor
    · rintro ⟨e, he, hamong⟩
      rwa [List.mem_singleton.mp he, fromFlags_toFlags] at hamong
    · intro hamong
      refine ⟨_, List.mem_singleton_self _, ?_⟩
      rwa [fromFlags_toFlags]

/-! ### Runs -/

section Runs

variable (base : Nat → Nat) {fds : Nat → Int} {owned : Nat → Bool} {l : L}
  {acts : List (StreamsAct β)}

/-- In every run of any number of streams the handler of each of them and libevent have what the
stream watches, and no step of a stream fails an assertion about handlers. -/
theorem mirrors_of_exec (hl : ∀ h, Registry.pendingOf l h = [])
    (hok : Exec.exec (step base) (new fds owned l) acts = .ok t) (hs : t.streams h = some s) :
    t.Mirrors (base h) h s ∧
      ∀ a s', s.step a = .ok s' → ∃ t', t.step base (.stream h a) = .ok t' := by
  obtain ⟨i, ht⟩ := kept_of_exec hl hok
  refine ⟨ht.mirrors hs, fun a s' hstep => ?_⟩
  obtain ⟨registry, -, hcalls, -⟩ := ht.exists_calls hs hstep
  exact ⟨_, stream_of_ok hs hstep hcalls⟩

/-- Two streams on two bases, one of which reads while the other one writes, and a handler that is
none of a stream's. -/
theorem mirrors_two_streams : ∃ (t : Streams (List (Nat × AssignedEvent)) Nat)
      (s : Stream (Requests (WriteRequest Nat)) Nat),
    Exec.exec (step id) (new (fun h => h + 3) (· < 2) [])
      [.stream 0 (.startRead (some 9)), .handler (.registerHandler 0 7 .read),
        .stream 1 (.write [5] none)] = .ok t ∧
    t.streams 1 = some s ∧ t.Mirrors 1 1 s ∧
      ∀ a s', s.step a = .ok s' → ∃ t', t.step id (.stream 1 a) = .ok t' := by
  refine ⟨?_, ?_, ?hrun, ?hs, mirrors_of_exec id (fun _ => rfl) ?hrun ?hs⟩
  case hrun | hs => rfl

/-- In every run libevent may dispatch an event to the handler of a stream exactly if the stream is
not destroyed and watches for it. -/
theorem dispatches_iff (hl : ∀ h, Registry.pendingOf l h = [])
    (hok : Exec.exec (step base) (new fds owned l) acts = .ok t) (hs : t.streams h = some s)
    {event : What} (hevent : event ≠ .none) :
    t.Dispatches h event ↔ s.alive = true ∧ event.Among s.watched := by
  obtain ⟨i, ht⟩ := kept_of_exec hl hok
  rw [(ht.mirrors hs).dispatches_iff_among hevent]
  refine (and_iff_right_of_imp fun hamong => ?_).symm
  by_contra hdead
  rw [(ht.streams h s hs).dead (Bool.eq_false_iff.mpr hdead)] at hamong
  exact not_among_none hevent hamong

/-- The events of a stream that reads and writes are both dispatched, and those of the other one
are not after it is destroyed. -/
theorem dispatches_two_streams : ∃ (t : Streams (List (Nat × AssignedEvent)) Nat)
      (s s' : Stream (Requests (WriteRequest Nat)) Nat),
    Exec.exec (step id) (new (fun h => h + 3) (· < 2) [])
      [.stream 0 (.startRead (some 9)), .stream 1 (.write [5] none), .stream 0 (.write [6] none),
        .stream 1 .destroy] = .ok t ∧
    t.streams 0 = some s ∧ t.streams 1 = some s' ∧
      (t.Dispatches 0 .readWrite ↔ s.alive = true ∧ What.Among .readWrite s.watched) ∧
      (t.Dispatches 1 .write ↔ s'.alive = true ∧ What.Among .write s'.watched) := by
  refine ⟨?_, ?_, ?_, ?hrun, ?hs, ?hs', dispatches_iff id (fun _ => rfl) ?hrun ?hs ?hevent,
    dispatches_iff id (fun _ => rfl) ?hrun ?hs' ?hevent'⟩
  case hrun | hs | hs' => rfl
  case hevent | hevent' => decide

end Runs

end Streams

end WhatTheEvent
