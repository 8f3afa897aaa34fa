import Mathlib.Data.List.Nodup
import WhatTheEvent.Stream.Received

/-!
# The byte stream of the write side

What the socket has accepted, followed by what the queued requests hold, is what was written, and
the requests that were completed are those that the socket accepted to the end. With the list of
requests a queue, this holds as long as no byte is accepted behind a short count.
-/

namespace WhatTheEvent

variable {β : Type}

/-- How many bytes were accepted. -/
def WriteResult.accepted : WriteResult → Nat
  | .count n => n
  | .error _ => 0

/-- The cells that the event passes to the socket. -/
def Event.accepted : Event β → List (Cell β)
  | .xwrite _ _ data result => data.take result.accepted
  | _ => []

/-- The cells that the event adds to the queue. -/
def Event.written : Event β → List (Cell β)
  | .write _ contents _ => contents
  | _ => []

/-- The request that the event is about. -/
def Event.request : Event β → Option Nat
  | .write req _ _ => some req
  | .xwrite _ req _ _ => some req
  | .writeComplete req _ => some req
  | .writeError req _ _ => some req
  | _ => none

/-- The event passes data of the request `req` or reports that this failed. -/
def Event.Tries (req : Nat) : Event β → Prop
  | .xwrite _ req' _ _ => req' = req
  | .writeError req' _ _ => req' = req
  | _ => False

/-- The cells accepted by the socket. -/
def accepted (trace : List (Event β)) : List (Cell β) := trace.flatMap Event.accepted

/-- The cells accepted of the request `req`. -/
def acceptedOf (req : Nat) (trace : List (Event β)) : List (Cell β) :=
  accepted (trace.filter fun e => e.request = some req)

/-- The cells written, in the order of the calls. -/
def written (trace : List (Event β)) : List (Cell β) := trace.flatMap Event.written

/-! ### Traces -/

section Trace

variable {trace events : List (Event β)} {req : Nat}

lemma accepted_append : accepted (trace ++ events) = accepted trace ++ accepted events :=
  List.flatMap_append

lemma written_append : written (trace ++ events) = written trace ++ written events :=
  List.flatMap_append

lemma acceptedOf_append :
    acceptedOf req (trace ++ events) = acceptedOf req trace ++ acceptedOf req events := by
  rw [acceptedOf, List.filter_append, accepted_append]
  rfl

lemma acceptedOf_eq_accepted (h : ∀ e ∈ events, e.request = some req) :
    acceptedOf req events = accepted events := by
  rw [acceptedOf, List.filter_eq_self.mpr fun e he => decide_eq_true (h e he)]

lemma acceptedOf_eq_nil (h : ∀ e ∈ events, e.request ≠ some req) :
    acceptedOf req events = [] := by
  rw [acceptedOf, List.filter_eq_nil_iff.mpr fun e he => by simpa using h e he]
  rfl

/-- Events that pass nothing change nothing of what was accepted. -/
lemma accepted_append_of_nil (h : ∀ e ∈ events, e.accepted = []) :
    accepted (trace ++ events) = accepted trace := by
  rw [accepted_append, accepted, accepted, List.flatMap_eq_nil_iff.mpr h, List.append_nil]

lemma acceptedOf_append_of_nil (h : ∀ e ∈ events, e.accepted = []) :
    acceptedOf req (trace ++ events) = acceptedOf req trace := by
  rw [acceptedOf, List.filter_append]
  exact accepted_append_of_nil fun e he => h e (List.mem_of_mem_filter he)

lemma Event.of_not_onWriteSide {e : Event β} (h : e.onWriteSide = false) :
    e.request = none ∧ e.accepted = [] ∧ e.written = [] := by
  cases e <;> first | exact ⟨rfl, rfl, rfl⟩ | cases h

lemma Event.Tries.request_eq {e : Event β} (h : e.Tries req) :
    e.request = some req ∧ e.written = [] := by
  cases e with
  | xwrite fd r data result => exact ⟨congrArg some h, rfl⟩
  | writeError r cb message => exact ⟨congrArg some h, rfl⟩
  | _ => exact absurd h id

end Trace

namespace Stream

/-! ### A round of the write loop -/

section Round

variable {fd : Int} {req : Nat} {extents : List (List (Cell β))} {results : List WriteResult}
  {pass : WritePass β}

/-- Once an extent was not accepted to the end, nothing is accepted of those behind it. -/
def InOrder : List (List (Cell β)) → List WriteResult → Prop
  | data :: extents, .count n :: results =>
    if n < data.length then ∀ r ∈ results, r.accepted = 0 else InOrder extents results
  | _, _ => True

instance InOrder.decidable : ∀ (extents : List (List (Cell β))) (results : List WriteResult),
    Decidable (InOrder extents results)
  | [], _ | _ :: _, [] | _ :: _, .error _ :: _ => .isTrue (by simp only [InOrder])
  | data :: extents, .count n :: results =>
    have := InOrder.decidable extents results
    inferInstanceAs (Decidable
      (if n < data.length then ∀ r ∈ results, r.accepted = 0 else InOrder extents results))

/-- Where nothing more is accepted the loop over the extents counts nothing. -/
lemma writeExtents_zero (hzero : ∀ r ∈ results, r.accepted = 0)
    (h : writeExtents fd req extents results = .ok pass) :
    pass.totalWritten = 0 ∧ accepted pass.events = [] := by
  induction extents generalizing results pass with
  | nil =>
    obtain rfl := writeExtents_nil h
    exact ⟨rfl, rfl⟩
  | cons data extents ih =>
    cases results with
    | nil => cases h
    | cons r results =>
      rw [List.forall_mem_cons] at hzero
      cases r with
      | count n =>
        simp only [writeExtents] at h
        split_ifs at h
        obtain ⟨rest, hrest, hok⟩ := bind_eq_ok.mp h
        obtain rfl := Except.ok.inj hok
        obtain ⟨htotal, haccepted⟩ := ih hzero.2 hrest
        obtain rfl : n = 0 := hzero.1
        exact ⟨by rw [htotal], haccepted⟩
      | error er =>
        cases results with
        | nil =>
          obtain rfl := Except.ok.inj h
          exact ⟨rfl, rfl⟩
        | cons r' results => cases h

/-- The loop stops if and only if not all of the extents were counted. -/
theorem writeExtents_total (hne : ∀ data ∈ extents, data ≠ [])
    (h : writeExtents fd req extents results = .ok pass) :
    pass.totalWritten ≤ extents.flatten.length ∧
      ((pass.blocked || pass.failed) = true ↔ pass.totalWritten < extents.flatten.length) := by
  induction extents generalizing results pass with
  | nil =>
    obtain rfl := writeExtents_nil h
    exact ⟨Nat.le_refl 0, by simp⟩
  | cons data extents ih =>
    rw [List.forall_mem_cons] at hne
    have hpos : 0 < data.length := List.length_pos_iff.mpr hne.1
    rw [List.flatten_cons, List.length_append]
    cases results with
    | nil => cases h
    | cons r results =>
      cases r with
      | count n =>
        simp only [writeExtents] at h
        split_ifs at h with hn
        obtain ⟨rest, hrest, hok⟩ := bind_eq_ok.mp h
        obtain rfl := Except.ok.inj hok
        obtain ⟨hle, hstop⟩ := ih hne.2 hrest
        refine ⟨Nat.add_le_add hn hle, ?_⟩
        change (decide (n < data.length) || rest.blocked || rest.failed) = true ↔
          n + rest.totalWritten < data.length + extents.flatten.length
        rw [Bool.or_assoc, Bool.or_eq_true_iff, decide_eq_true_iff, hstop]
        omega
      | error er =>
        cases results with
        | nil =>
          obtain rfl := Except.ok.inj h
          exact ⟨Nat.zero_le _, fun _ => Nat.add_pos_left hpos _, fun _ => rfl⟩
        | cons r' results => cases h

/-- In order, what is accepted is the front of the extents that the total counts. -/
theorem writeExtents_accepted (hin : InOrder extents results)
    (h : writeExtents fd req extents results = .ok pass) :
    accepted pass.events = extents.flatten.take pass.totalWritten := by
  induction extents generalizing results pass with
  | nil =>
    obtain rfl := writeExtents_nil h
    rfl
  | cons data extents ih =>
    cases results with
    | nil => cases h
    | cons r results =>
      cases r with
      | count n =>
        simp only [writeExtents] at h
        split_ifs at h with hn
        obtain ⟨rest, hrest, hok⟩ := bind_eq_ok.mp h
        obtain rfl := Except.ok.inj hok
        rw [List.flatten_cons]
        change data.take n ++ accepted rest.events =
          (data ++ extents.flatten).take (n + rest.totalWritten)
        simp only [InOrder] at hin
        split_ifs at hin with hshort
        · obtain ⟨htotal, haccepted⟩ := writeExtents_zero hin hrest
          rw [htotal, haccepted, Nat.add_zero, List.append_nil,
            List.take_append_of_le_length (Nat.le_of_lt hshort)]
        · obtain rfl : n = data.length := Nat.le_antisymm hn (Nat.le_of_not_lt hshort)
          rw [List.take_length, List.take_length_add_append, ih hin hrest]
      | error er =>
        cases results with
        | nil =>
          obtain rfl := Except.ok.inj h
          rfl
        | cons r' results => cases h

/-- The pass fails if and only if a call of `xwrite` does. -/
lemma writeExtents_failed_iff (h : writeExtents fd req extents results = .ok pass) :
    pass.failed = true ↔ ∃ e, WriteResult.error e ∈ results := by
  induction extents generalizing results pass with
  | nil =>
    cases results with
    | cons r results => cases h
    | nil =>
      obtain rfl := Except.ok.inj h
      simp
  | cons data extents ih =>
    cases results with
    | nil => cases h
    | cons r results =>
      cases r with
      | count n =>
        simp only [writeExtents] at h
        split_ifs at h
        obtain ⟨rest, hrest, hok⟩ := bind_eq_ok.mp h
        obtain rfl := Except.ok.inj hok
        simpa using ih hrest
      | error er =>
        cases results with
        | nil =>
          obtain rfl := Except.ok.inj h
          simp
        | cons r' results => cases h

/-- The loop over the extents tries to pass data of the one request only. -/
lemma tries_of_mem_events (h : writeExtents fd req extents results = .ok pass) :
    ∀ e ∈ pass.events, e.Tries req := by
  intro e he
  have hp := passes_of_mem_events h he
  cases e with
  | xwrite fd r data result => exact hp
  | _ => exact absurd hp id

/-- So does a round that stops. -/
lemma tries_of_mem_stopped {callback : Option Nat}
    (h : writeExtents fd req extents results = .ok pass) :
    ∀ e ∈ pass.events ++ (if pass.failed then errorEvents req callback else []), e.Tries req := by
  refine List.forall_mem_append.mpr ⟨tries_of_mem_events h, ?_⟩
  split_ifs
  · cases callback <;> simp [errorEvents, Event.Tries]
  · simp

/-- A call of `error()` passes nothing. -/
lemma accepted_stopped {callback : Option Nat} :
    accepted (pass.events ++ (if pass.failed then errorEvents req callback else [])) =
      accepted pass.events := by
  rw [accepted_append_of_nil]
  split_ifs
  · cases callback <;> simp [errorEvents, Event.accepted]
  · simp

end Round

end Stream

/-! ### What is conserved -/

namespace Fifo

def ids {ρ : Type} (f : Fifo ρ) : List Nat := f.items.map Prod.fst

/-- The cells that the requests of the queue hold. -/
def queued (f : Fifo (WriteRequest β)) : List (Cell β) :=
  f.items.flatMap fun item => item.2.buffer.contents

end Fifo

/-- A request of the queue: what was accepted of it and what it holds is what was written. -/
structure Pending (trace : List (Event β)) (item : Nat × WriteRequest β) : Prop where
  sound : item.2.buffer.Sound
  length : item.2.buffer.contents.length ≤ SizeT.max
  written :
    .write item.1 (acceptedOf item.1 trace ++ item.2.buffer.contents) item.2.callback ∈ trace

/-- The requests of the trace are those of the queue, which hold what was not accepted, and those
that were accepted to the end and completed. -/
structure Conserved (f : Fifo (WriteRequest β)) (trace : List (Event β)) : Prop where
  nodup : f.ids.Nodup
  old : ∀ e ∈ trace, ∀ req, e.request = some req → req < f.fresh
  unique : ∀ req contents callback contents' callback', .write req contents callback ∈ trace →
    .write req contents' callback' ∈ trace → contents = contents' ∧ callback = callback'
  bytes : accepted trace ++ f.queued = written trace
  queued : ∀ item ∈ f.items, Pending trace item
  gone : ∀ req contents callback, .write req contents callback ∈ trace → req ∉ f.ids →
    acceptedOf req trace = contents ∧ ∀ cb, callback = some cb → .writeComplete req cb ∈ trace
  completed : ∀ req cb, .writeComplete req cb ∈ trace →
    req ∉ f.ids ∧ ∃ contents, .write req contents (some cb) ∈ trace

section Conserved

variable {f : Fifo (WriteRequest β)} {trace events : List (Event β)} {req : Nat}
  {request : WriteRequest β} {rest : List (Nat × WriteRequest β)} {buffer : BufferImpl β}
  {callback : Option Nat}

lemma Pending.append {item : Nat × WriteRequest β} (h : Pending trace item)
    (hevents : ∀ e ∈ events, e.accepted = []) : Pending (trace ++ events) item := by
  refine ⟨h.sound, h.length, ?_⟩
  rw [acceptedOf_append_of_nil hevents]
  exact List.mem_append_left _ h.written

lemma conserved_empty : Conserved (Fifo.empty : Fifo (WriteRequest β)) [] where
  nodup := List.nodup_nil
  old := fun _ h => absurd h List.not_mem_nil
  unique := fun _ _ _ _ _ h => absurd h List.not_mem_nil
  bytes := rfl
  queued := fun _ h => absurd h List.not_mem_nil
  gone := fun _ _ _ h => absurd h List.not_mem_nil
  completed := fun _ _ h => absurd h List.not_mem_nil

lemma Conserved.lt_fresh (h : Conserved f trace) (hreq : req ∈ f.ids) : req < f.fresh := by
  obtain ⟨item, hitem, rfl⟩ := List.mem_map.mp hreq
  exact h.old _ (h.queued item hitem).written _ rfl

/-- Events that are not about requests change nothing. -/
lemma Conserved.of_neutral (h : Conserved f trace)
    (hevents : ∀ e ∈ events, e.onWriteSide = false) : Conserved f (trace ++ events) := by
  have hreq : ∀ e ∈ events, e.request = none := fun e he =>
    (Event.of_not_onWriteSide (hevents e he)).1
  have haccepted : ∀ e ∈ events, e.accepted = [] := fun e he =>
    (Event.of_not_onWriteSide (hevents e he)).2.1
  have hwritten : written events = [] := List.flatMap_eq_nil_iff.mpr fun e he =>
    (Event.of_not_onWriteSide (hevents e he)).2.2
  have hmem : ∀ {e : Event β}, e.request ≠ none → e ∈ trace ++ events → e ∈ trace := by
    intro e he hmem
    exact (List.mem_append.mp hmem).resolve_right fun hm => he (hreq e hm)
  refine ⟨h.nodup, fun e he req her => ?_, fun req _ _ _ _ hw hw' => ?_, ?_, fun item hitem => ?_,
    fun req contents callback hw hgone => ?_, fun req cb hc => ?_⟩
  · exact h.old e (hmem (by rw [her]; exact nofun) he) req her
  · exact h.unique req _ _ _ _ (hmem nofun hw) (hmem nofun hw')
  · rw [accepted_append_of_nil haccepted, written_append, hwritten, List.append_nil]
    exact h.bytes
  · exact (h.queued item hitem).append haccepted
  · obtain ⟨hall, hcomplete⟩ := h.gone req contents callback (hmem nofun hw) hgone
    exact ⟨(acceptedOf_append_of_nil haccepted).trans hall,
      fun cb hcb => List.mem_append_left _ (hcomplete cb hcb)⟩
  · obtain ⟨hgone, contents, hw⟩ := h.completed req cb (hmem nofun hc)
    exact ⟨hgone, contents, List.mem_append_left _ hw⟩

lemma Conserved.append (h : Conserved f trace) (hsound : buffer.Sound)
    (hlen : buffer.contents.length ≤ SizeT.max) :
    Conserved (f.append ⟨buffer, callback⟩)
      (trace ++ [.write f.fresh buffer.contents callback]) := by
  have haccepted : ∀ e ∈ [Event.write f.fresh buffer.contents callback], e.accepted = [] := by
    simp [Event.accepted]
  have hnew : ∀ e ∈ trace, e.request ≠ some f.fresh := fun e he hreq =>
    Nat.lt_irrefl _ (h.old e he _ hreq)
  have hids : (f.append ⟨buffer, callback⟩).ids = f.ids ++ [f.fresh] := List.map_append
  have hmem : ∀ {r contents callback'}, .write r contents callback' ∈
      trace ++ [Event.write f.fresh buffer.contents callback] →
      .write r contents callback' ∈ trace ∧ r ≠ f.fresh ∨
        r = f.fresh ∧ contents = buffer.contents ∧ callback' = callback := by
    intro r contents callback' hm
    rcases List.mem_append.mp hm with hm | hm
    · exact Or.inl ⟨hm, fun hr => hnew _ hm (congrArg some hr)⟩
    · exact Or.inr (Event.write.inj (List.mem_singleton.mp hm))
  refine ⟨?_, fun e he req her => ?_, fun req _ _ _ _ hw hw' => ?_, ?_, ?_,
    fun req contents callback' hw hgone => ?_, fun req cb hc => ?_⟩
  · rw [hids, ← List.concat_eq_append]
    exact List.Nodup.concat (fun hm => Nat.lt_irrefl _ (h.lt_fresh hm)) h.nodup
  · rcases List.mem_append.mp he with he | he
    · exact Nat.lt_succ_of_lt (h.old e he req her)
    · obtain rfl := List.mem_singleton.mp he
      obtain rfl := Option.some.inj her
      exact Nat.lt_succ_self _
  · rcases hmem hw with ⟨hw, hne⟩ | ⟨rfl, rfl, rfl⟩
    · rcases hmem hw' with ⟨hw', -⟩ | ⟨heq, -⟩
      · exact h.unique req _ _ _ _ hw hw'
      · exact absurd heq hne
    · rcases hmem hw' with ⟨-, hne⟩ | ⟨-, rfl, rfl⟩
      · exact absurd rfl hne
      · exact ⟨rfl, rfl⟩
  · have hqueued : (f.append ⟨buffer, callback⟩).queued = f.queued ++ buffer.contents := by
      rw [Fifo.queued, Fifo.append, List.flatMap_append, List.flatMap_singleton]
      rfl
    rw [accepted_append_of_nil haccepted, hqueued, ← List.append_assoc, h.bytes, written_append]
    exact congrArg (written trace ++ ·) (List.append_nil _).symm
  · refine List.forall_mem_append.mpr ⟨fun item hitem => (h.queued item hitem).append haccepted, ?_⟩
    refine List.forall_mem_singleton.mpr ⟨hsound, hlen, ?_⟩
    rw [acceptedOf_append_of_nil haccepted, acceptedOf_eq_nil hnew]
    exact List.mem_append_right _ List.mem_cons_self
  · rw [hids, List.mem_append, List.mem_singleton, not_or] at hgone
    rcases hmem hw with ⟨hw, -⟩ | ⟨heq, -⟩
    · obtain ⟨hall, hcomplete⟩ := h.gone req contents callback' hw hgone.1
      exact ⟨(acceptedOf_append_of_nil haccepted).trans hall,
        fun cb hcb => List.mem_append_left _ (hcomplete cb hcb)⟩
    · exact absurd heq hgone.2
  · rcases List.mem_append.mp hc with hc | hc
    · obtain ⟨hgone, contents, hw⟩ := h.completed req cb hc
      refine ⟨?_, contents, List.mem_append_left _ hw⟩
      rw [hids, List.mem_append, List.mem_singleton, not_or]
      exact ⟨hgone, fun hreq => hnew _ hc (congrArg some hreq)⟩
    · cases List.mem_singleton.mp hc

/-- Data of the first request is passed, and taken out of its buffer. -/
lemma Conserved.pass (h : Conserved f trace) (hitems : f.items = (req, request) :: rest)
    (hevents : ∀ e ∈ events, e.Tries req) (hsound : buffer.Sound)
    (hcontents : accepted events ++ buffer.contents = request.buffer.contents) :
    Conserved { f with items := (req, { request with buffer }) :: rest } (trace ++ events) := by
  have hids : Fifo.ids { f with items := (req, { request with buffer }) :: rest } = f.ids := by
    rw [Fifo.ids, Fifo.ids, hitems]
    rfl
  have hreq : req ∈ f.ids := by
    rw [Fifo.ids, hitems]
    exact List.mem_cons_self
  have hof : acceptedOf req (trace ++ events) = acceptedOf req trace ++ accepted events := by
    rw [acceptedOf_append, acceptedOf_eq_accepted fun e he => (hevents e he).request_eq.1]
  have hother : ∀ {r}, r ≠ req → acceptedOf r (trace ++ events) = acceptedOf r trace := by
    intro r hr
    have hnil : acceptedOf r events = [] := acceptedOf_eq_nil fun e he heq =>
      hr (Option.some.inj (heq.symm.trans (hevents e he).request_eq.1))
    rw [acceptedOf_append, hnil, List.append_nil]
  have hmem : ∀ {e}, ¬ Event.Tries req e → e ∈ trace ++ events → e ∈ trace := by
    intro e hne he
    exact (List.mem_append.mp he).resolve_right fun hm => hne (hevents e hm)
  have hnodup : (req :: rest.map Prod.fst).Nodup := by
    have hn := h.nodup
    rwa [Fifo.ids, hitems] at hn
  refine ⟨hids ▸ h.nodup, fun e he r her => ?_, fun r _ _ _ _ hw hw' => ?_, ?_, ?_,
    fun r contents callback hw hgone => ?_, fun r cb hc => ?_⟩
  · rcases List.mem_append.mp he with he | he
    · exact h.old e he r her
    · obtain rfl := Option.some.inj (her.symm.trans (hevents e he).request_eq.1)
      exact h.lt_fresh hreq
  · exact h.unique r _ _ _ _ (hmem id hw) (hmem id hw')
  · have hbytes := h.bytes
    have hwritten : written events = [] :=
      List.flatMap_eq_nil_iff.mpr fun e he => (hevents e he).request_eq.2
    rw [Fifo.queued, hitems, List.flatMap_cons, ← hcontents, List.append_assoc] at hbytes
    rw [accepted_append, written_append, hwritten, List.append_nil, List.append_assoc]
    exact hbytes
  · have hqueued := h.queued
    rw [hitems, List.forall_mem_cons] at hqueued
    refine List.forall_mem_cons.mpr ⟨⟨hsound, ?_, ?_⟩, fun item hitem => ?_⟩
    · refine Nat.le_trans ?_ hqueued.1.length
      rw [← hcontents, List.length_append]
      exact Nat.le_add_left _ _
    · rw [hof, List.append_assoc, hcontents]
      exact List.mem_append_left _ hqueued.1.written
    · obtain ⟨hs, hl, hw⟩ := hqueued.2 item hitem
      refine ⟨hs, hl, ?_⟩
      rw [hother fun heq => (List.nodup_cons.mp hnodup).1 (heq ▸ List.mem_map_of_mem hitem)]
      exact List.mem_append_left _ hw
  · rw [hids] at hgone
    obtain ⟨hall, hcomplete⟩ := h.gone r contents callback (hmem id hw) hgone
    rw [hother fun heq => hgone (by rwa [heq])]
    exact ⟨hall, fun cb hcb => List.mem_append_left _ (hcomplete cb hcb)⟩
  · obtain ⟨hgone, contents, hw⟩ := h.completed r cb (hmem id hc)
    exact ⟨hids ▸ hgone, contents, List.mem_append_left _ hw⟩

/-- The first request holds nothing any more; it is consumed and completed. -/
lemma Conserved.consume (h : Conserved f trace) (hitems : f.items = (req, request) :: rest)
    (hnil : request.buffer.contents = []) :
    Conserved { f with items := rest } (trace ++ Stream.completeEvents req request.callback) := by
  have hevents : ∀ e ∈ (Stream.completeEvents req request.callback : List (Event β)),
      e.accepted = [] ∧ e.written = [] ∧
        ∃ cb, request.callback = some cb ∧ e = .writeComplete req cb := by
    intro e he
    cases hcb : request.callback with
    | none =>
      rw [hcb] at he
      exact absurd he List.not_mem_nil
    | some cb =>
      rw [hcb] at he
      obtain rfl := List.mem_singleton.mp he
      exact ⟨rfl, rfl, cb, rfl, rfl⟩
  have hids : f.ids = req :: Fifo.ids { f with items := rest } := by
    rw [Fifo.ids, hitems]
    rfl
  have hnodup := h.nodup
  rw [hids, List.nodup_cons] at hnodup
  have hhead := (h.queued (req, request) (hitems ▸ List.mem_cons_self)).written
  rw [hnil, List.append_nil] at hhead
  have haccepted := fun e he => (hevents e he).1
  have hwrite : ∀ {r contents callback}, .write r contents callback ∈
      trace ++ Stream.completeEvents req request.callback → .write r contents callback ∈ trace := by
    intro r contents callback hm
    refine (List.mem_append.mp hm).resolve_right fun hm => ?_
    obtain ⟨-, -, cb, -, heq⟩ := hevents _ hm
    cases heq
  refine ⟨hnodup.2, fun e he r her => ?_, fun r _ _ _ _ hw hw' => ?_, ?_, fun item hitem => ?_,
    fun r contents callback hw hgone => ?_, fun r cb hc => ?_⟩
  · rcases List.mem_append.mp he with he | he
    · exact h.old e he r her
    · obtain ⟨-, -, cb, -, rfl⟩ := hevents e he
      obtain rfl := Option.some.inj her
      exact h.lt_fresh (hids ▸ List.mem_cons_self)
  · exact h.unique r _ _ _ _ (hwrite hw) (hwrite hw')
  · have hbytes := h.bytes
    have hwritten : written (Stream.completeEvents req request.callback : List (Event β)) = [] :=
      List.flatMap_eq_nil_iff.mpr fun e he => (hevents e he).2.1
    rw [Fifo.queued, hitems, List.flatMap_cons, hnil, List.nil_append] at hbytes
    rw [accepted_append_of_nil haccepted, written_append, hwritten, List.append_nil]
    exact hbytes
  · exact (h.queued item (hitems ▸ List.mem_cons_of_mem _ hitem)).append haccepted
  · rw [acceptedOf_append_of_nil haccepted]
    by_cases hr : r = req
    · subst hr
      obtain ⟨rfl, rfl⟩ := h.unique r _ _ _ _ (hwrite hw) hhead
      refine ⟨rfl, fun cb hcb => List.mem_append_right _ ?_⟩
      rw [hcb]
      exact List.mem_cons_self
    · obtain ⟨hall, hcomplete⟩ := h.gone r contents callback (hwrite hw) fun hm =>
        hgone ((List.mem_cons.mp (hids ▸ hm)).resolve_left hr)
      exact ⟨hall, fun cb hcb => List.mem_append_left _ (hcomplete cb hcb)⟩
  · rcases List.mem_append.mp hc with hc | hc
    · obtain ⟨hgone, contents, hw⟩ := h.completed r cb hc
      exact ⟨fun hm => hgone (hids ▸ List.mem_cons_of_mem _ hm), contents,
        List.mem_append_left _ hw⟩
    · obtain ⟨-, -, cb', hcb, heq⟩ := hevents _ hc
      obtain ⟨rfl, rfl⟩ := Event.writeComplete.inj heq
      exact ⟨hnodup.1, _, List.mem_append_left _ (hcb ▸ hhead)⟩

end Conserved

/-! ### The first request -/

namespace Fifo

variable {ρ : Type} {f f' : Fifo ρ} {req : Nat} {request r : ρ} {rest : List (Nat × ρ)}

lemma items_of_head (h : f.head = some req) : ∃ request rest, f.items = (req, request) :: rest := by
  unfold head at h
  cases hitems : f.items with
  | nil =>
    rw [hitems] at h
    cases h
  | cons item rest =>
    rw [hitems] at h
    obtain rfl := Option.some.inj h
    exact ⟨item.2, rest, rfl⟩

lemma get_first (hitems : f.items = (req, request) :: rest) : f.get req = .ok request := by
  rw [get, hitems, List.lookup_cons_self]

lemma put_first (hitems : f.items = (req, request) :: rest) (hnodup : f.ids.Nodup)
    (h : f.put req r = .ok f') : f' = { f with items := (req, r) :: rest } := by
  rw [ids, hitems, List.map_cons, List.nodup_cons] at hnodup
  obtain ⟨_, -, hok⟩ := bind_eq_ok.mp h
  obtain rfl := Except.ok.inj hok
  have hrest : (rest.map fun item => if item.1 = req then (req, r) else item) = rest.map id := by
    refine List.map_congr_left fun item hitem => if_neg fun heq => ?_
    have hmem : item.1 ∈ rest.map Prod.fst := List.mem_map_of_mem hitem
    exact hnodup.1 (heq ▸ hmem)
  rw [hitems, List.map_cons, if_pos rfl, hrest, List.map_id]

end Fifo

namespace Stream

variable {s s' : Stream (Fifo (WriteRequest β)) β} {act : Act β} {event : What} {req : Nat}
  {results : List WriteResult} {buffer : BufferImpl β} {callback : Option Nat}

/-- The bytes accepted by the socket and those queued are those written, and exactly the requests
accepted to the end have been completed. A request of no bytes is completed when the write loop
gets to it. -/
structure ByteStreamLaw (s : Stream (Fifo (WriteRequest β)) β) : Prop where
  bytes : accepted s.trace ++ s.requests.queued = written s.trace
  completed : ∀ req cb, .writeComplete req cb ∈ s.trace ↔
    ∃ contents, .write req contents (some cb) ∈ s.trace ∧ acceptedOf req s.trace = contents ∧
      (contents = [] → req ∉ s.requests.ids)

/-- What is written is a buffer that is sound and whose cells a `size_t` can count. -/
def Fits (s : Stream (Fifo (WriteRequest β)) β) : Act β → Prop
  | .writeBuffer source _ => source.Sound ∧ source.contents.length ≤ SizeT.max
  | .writeReadBuffer _ => s.readBuffer.contents.length ≤ SizeT.max
  | _ => True

/-- No byte of a request is accepted behind a short count in the same round. -/
def Orderly (s : Stream (Fifo (WriteRequest β)) β) : Act β → Prop
  | .xwrites results => ∀ event req request, s.dispatch = some (.writeHelper event req) →
    s.requests.get req = .ok request → InOrder (request.buffer.peekExtents SizeT.max) results
  | _ => True

/-- The requests are conserved, and one that holds nothing was written so. -/
structure WriteSide (s : Stream (Fifo (WriteRequest β)) β) : Prop where
  conserved : Conserved s.requests s.trace
  unfinished : ∀ item ∈ s.requests.items, item.2.buffer.contents = [] →
    .write item.1 [] item.2.callback ∈ s.trace

lemma WriteSide.law (h : s.WriteSide) : s.ByteStreamLaw := by
  refine ⟨h.conserved.bytes, fun req cb => ⟨fun hc => ?_, ?_⟩⟩
  · obtain ⟨hgone, contents, hw⟩ := h.conserved.completed req cb hc
    exact ⟨contents, hw, (h.conserved.gone req contents _ hw hgone).1, fun _ => hgone⟩
  · rintro ⟨contents, hw, hall, hempty⟩
    have hgone : req ∉ s.requests.ids := by
      intro hreq
      obtain ⟨item, hitem, rfl⟩ := List.mem_map.mp hreq
      obtain ⟨hcontents, -⟩ :=
        h.conserved.unique _ _ _ _ _ hw (h.conserved.queued item hitem).written
      rw [hall] at hcontents
      have hnil : item.2.buffer.contents = [] := List.self_eq_append_right.mp hcontents
      obtain ⟨rfl, -⟩ := h.conserved.unique _ _ _ _ _ hw (h.unfinished item hitem hnil)
      exact hempty rfl hreq
    exact (h.conserved.gone req contents _ hw hgone).2 cb rfl

lemma WriteSide.of_neutral (h : s.WriteSide) {events : List (Event β)}
    (hreq : s'.requests = s.requests) (htrace : s'.trace = s.trace ++ events)
    (hevents : ∀ e ∈ events, e.onWriteSide = false) : s'.WriteSide := by
  refine ⟨?_, fun item hitem hnil => ?_⟩
  · rw [hreq, htrace]
    exact h.conserved.of_neutral hevents
  · rw [hreq] at hitem
    rw [htrace]
    exact List.mem_append_left _ (h.unfinished item hitem hnil)

lemma WriteSide.queueWrite (h : s.WriteSide) (hsound : buffer.Sound)
    (hlen : buffer.contents.length ≤ SizeT.max) (hok : s.queueWrite buffer callback = .ok s') :
    s'.WriteSide := by
  obtain ⟨happend, htrace, -⟩ := queueWrite_eq_ok hok
  obtain hreq := (Except.ok.inj happend).symm
  refine ⟨?_, ?_⟩
  · rw [hreq, htrace]
    exact h.conserved.append hsound hlen
  · rw [hreq, htrace]
    refine List.forall_mem_append.mpr ⟨fun item hitem hnil => ?_, ?_⟩
    · exact List.mem_append_left _ (h.unfinished item hitem hnil)
    · refine List.forall_mem_singleton.mpr fun hnil => List.mem_append_right _ ?_
      change buffer.contents = [] at hnil
      rw [hnil]
      exact List.mem_cons_self

/-- A round of the write loop in which nothing is accepted behind a short count. -/
lemma WriteSide.xwrites (h : s.WriteSide) (hhead : s.OnHead) (ha : s.alive = true)
    (hd : s.dispatch = some (.writeHelper event req))
    (hin : s.Orderly (.xwrites results)) (hx : s.xwrites event req results = .ok s') :
    s'.WriteSide := by
  obtain ⟨request, pass, buffer, requests, hget, hpass, hdrain, hput, hends, -⟩ := xwrites_cases hx
  obtain ⟨request', rest, hitems⟩ := Fifo.items_of_head (hhead ha _ req hd rfl)
  obtain rfl : request' = request := Except.ok.inj ((Fifo.get_first hitems).symm.trans hget)
  obtain ⟨hsound, hlen, -⟩ : Pending s.trace (req, request') :=
    h.conserved.queued _ (hitems ▸ List.mem_cons_self)
  change request'.buffer.Sound at hsound
  change request'.buffer.contents.length ≤ SizeT.max at hlen
  obtain ⟨hne, hflatten⟩ := BufferImpl.peekExtents_spec (n := SizeT.max) hsound
  rw [List.take_of_length_le hlen] at hflatten
  have haccepted := writeExtents_accepted (hin event req request' hd hget) hpass
  obtain ⟨hle, hstop⟩ := writeExtents_total hne hpass
  rw [hflatten] at haccepted hle hstop
  obtain ⟨b', hb', hsound', hrest⟩ := BufferImpl.drain_contents hsound
  obtain rfl : b' = buffer := Except.ok.inj (hb'.symm.trans hdrain)
  obtain rfl := Fifo.put_first hitems h.conserved.nodup hput
  have htries := tries_of_mem_events hpass
  have hcontents : accepted pass.events ++ b'.contents = request'.buffer.contents := by
    rw [haccepted, hrest, List.take_append_drop]
  cases hends with
  | stopped hstopped hreq htrace _ =>
    -- the data left shows that the request was not accepted to the end
    have hall : accepted (pass.events ++
        (if pass.failed then errorEvents req request'.callback else [])) ++ b'.contents =
        request'.buffer.contents := by
      rw [accepted_stopped, hcontents]
    refine ⟨?_, ?_⟩
    · rw [hreq, htrace]
      exact h.conserved.pass hitems (tries_of_mem_stopped hpass) hsound' hall
    · rw [hreq, htrace]
      refine List.forall_mem_cons.mpr ⟨fun hnil => ?_, fun item hitem hnil => ?_⟩
      · have hlt := hstop.mp hstopped
        rw [hrest, List.drop_eq_nil_iff] at hnil
        exact absurd hlt (Nat.not_lt.mpr hnil)
      · exact List.mem_append_left _
          (h.unfinished item (hitems ▸ List.mem_cons_of_mem _ hitem) hnil)
  | completed hgo hconsume htrace _ =>
    have hnil : b'.contents = [] := by
      rw [hrest, List.drop_eq_nil_iff]
      exact Nat.le_of_not_lt fun hlt => Bool.false_ne_true (hgo.symm.trans (hstop.mpr hlt))
    obtain ⟨hreq, -⟩ := Prod.mk.inj (Except.ok.inj hconsume)
    have hconserved := (h.conserved.pass hitems htries hsound' hcontents).consume rfl hnil
    rw [List.append_assoc] at hconserved
    refine ⟨?_, ?_⟩
    · rw [← hreq, htrace]
      exact hconserved
    · rw [← hreq, htrace]
      exact fun item hitem hnil => List.mem_append_left _
        (h.unfinished item (hitems ▸ List.mem_cons_of_mem _ hitem) hnil)

/-- An extent of the size of what is copied was allocated. -/
lemma length_lt_of_append_empty {buf : List β} (h : BufferImpl.empty.append buf = .ok buffer) :
    buf.length < SizeT.objectLimit := by
  by_contra hge
  have hnew := InternalExtent.new_of_le (β := β) (Nat.le_of_not_lt hge)
  have herror : BufferImpl.empty.append buf = .error .badAlloc := by
    rw [BufferImpl.append, Loop.doWhile_error (e := Fault.badAlloc)]
    · rfl
    · simp [BufferImpl.appendRound, BufferImpl.appendTarget, BufferImpl.empty, hnew, Except.map]
  rw [herror] at h
  cases h

/-- What is copied for `write(buf, size)`. -/
lemma append_empty_spec {buf : List β} (h : BufferImpl.empty.append buf = .ok buffer) :
    buffer.Sound ∧ buffer.contents.length ≤ SizeT.max := by
  have hn := length_lt_of_append_empty h
  have hspec := BufferImpl.append_of_spare_eq_zero (b := (BufferImpl.empty : BufferImpl β)) rfl hn
  obtain rfl := Except.ok.inj (hspec.symm.trans h)
  refine ⟨List.forall_mem_singleton.mpr InternalExtent.sound_of, ?_⟩
  have hlen : (BufferImpl.unreadCells [InternalExtent.of [] buf []]).length = buf.length := by
    simp [BufferImpl.unreadCells]
  exact Nat.le_trans (Nat.le_of_eq hlen) (Nat.le_trans (Nat.le_of_lt hn) (by decide))

/-- What is moved for `write(Buffer*)`. -/
lemma splice_empty_spec {o : BufferImpl β} (h : o.Sound) (hlen : o.contents.length ≤ SizeT.max) :
    (BufferImpl.empty.appendBuffer o).1.Sound ∧
      (BufferImpl.empty.appendBuffer o).1.contents.length ≤ SizeT.max := by
  refine ⟨BufferImpl.tight_empty.sound.appendBuffer h, ?_⟩
  rw [BufferImpl.contents_appendBuffer]
  exact hlen

theorem WriteSide.step (h : s.WriteSide) (hread : s.ReadSide) (hhead : s.OnHead)
    (hs : s.step act = .ok s') (hfits : s.Fits act) (hin : s.Orderly act)
    (ha : s'.alive = true) : s'.WriteSide := by
  have hsame : s.trace = s.trace ++ [] := (List.append_nil _).symm
  have hnone : ∀ e ∈ ([] : List (Event β)), e.onWriteSide = false := fun _ he =>
    absurd he List.not_mem_nil
  cases step_cases hs with
  | quiet hq =>
    obtain ⟨events, htrace, hevents⟩ := hq.trace
    exact h.of_neutral hq.requests htrace fun e he => (hevents e he).1
  | write hbuffer hqueue =>
    obtain ⟨hsound, hlen⟩ := append_empty_spec hbuffer
    exact h.queueWrite hsound hlen hqueue
  | writeBuffer hqueue =>
    obtain ⟨hsound, hlen⟩ := splice_empty_spec hfits.1 hfits.2
    exact h.queueWrite hsound hlen hqueue
  | writeReadBuffer _ hqueue =>
    have hside : WriteSide { s with
        readBuffer := (BufferImpl.empty.appendBuffer s.readBuffer).2 } :=
      h.of_neutral rfl hsame hnone
    obtain ⟨hsound, hlen⟩ := splice_empty_spec hread.tight.sound hfits
    exact hside.queueWrite hsound hlen hqueue
  | readBuffer => exact h.of_neutral rfl hsame hnone
  | moveReadBuffer => exact h.of_neutral rfl hsame hnone
  | xwrites halive hd hx => exact h.xwrites hhead halive hd hin hx
  | xread _ _ hx =>
    obtain ⟨hreq, -, -, events, htrace, hevents⟩ := xread_writeSide hx
    exact h.of_neutral hreq htrace hevents
  | destroy hdestroy =>
    obtain ⟨⟨requests, r⟩, -, hok⟩ := bind_eq_ok.mp hdestroy
    obtain rfl := Except.ok.inj hok
    cases ha

lemma writeSide_new (fd : Int) : (new fd : Stream (Fifo (WriteRequest β)) β).WriteSide :=
  ⟨conserved_empty, fun _ hitem => absurd hitem List.not_mem_nil⟩

/-- In a run in which no byte of a request is accepted behind a short count, the stream obeys the
law of the byte stream until it is destroyed. -/
theorem byteStreamLaw (fd : Int) (acts : List (Act β))
    (h : Exec.exec step (new fd : Stream (Fifo (WriteRequest β)) β) acts = .ok s)
    (ha : s.alive = true)
    (hfits : Exec.Along step Fits (new fd : Stream (Fifo (WriteRequest β)) β) acts)
    (hin : Exec.Along step Orderly (new fd : Stream (Fifo (WriteRequest β)) β) acts) :
    s.ByteStreamLaw := by
  have hrun : s.ReadSide ∧ s.OnHead ∧ (s.alive = true → s.WriteSide) := by
    refine Exec.exec_invariant (fun s => s.ReadSide ∧ s.OnHead ∧ (s.alive = true → s.WriteSide))
      ?_ ⟨readSide_new fd, onHead_new fd, fun _ => writeSide_new fd⟩ (hfits.and hin) h
    rintro s act s' ⟨hread, hhead, hwrite⟩ ⟨hfit, horder⟩ hs
    refine ⟨(hread.step hs).1, hhead.step hs, fun ha => ?_⟩
    exact (hwrite (alive_of_step hs ha)).step hread hhead hs hfit horder ha
  exact (hrun.2.2 ha).law

/-- A buffer of two extents, as a splice leaves it. -/
def twoExtents : BufferImpl Char :=
  ⟨[InternalExtent.of [] ['a', 'b'] [], InternalExtent.of [] ['c', 'd'] []], 4⟩

lemma tight_twoExtents : twoExtents.Tight :=
  List.forall_mem_cons.mpr ⟨InternalExtent.full_of,
    List.forall_mem_singleton.mpr InternalExtent.full_of⟩

/-- The second extent is accepted in two pieces. -/
theorem byteStreamLaw_twoExtents : ∃ s : Stream (Fifo (WriteRequest Char)) Char,
    Exec.exec step (new 3) [.writeBuffer twoExtents (some 7), .ready .write,
      .xwrites [.count 2, .count 1], .ready .write, .xwrites [.count 1]] = .ok s ∧
    s.ByteStreamLaw := by
  refine ⟨_, rfl, byteStreamLaw 3 [.writeBuffer twoExtents (some 7), .ready .write,
      .xwrites [.count 2, .count 1], .ready .write, .xwrites [.count 1]] rfl rfl ?_ ?_⟩
  · exact ⟨⟨tight_twoExtents.sound, by decide⟩, trivial, trivial, trivial, trivial, trivial⟩
  · refine ⟨trivial, trivial, ?_, trivial, ?_, trivial⟩
    · intro event req request hd hget
      have hd' : some (Dispatch.writeHelper .write 0) = some (.writeHelper event req) := hd
      obtain ⟨rfl, rfl⟩ := Dispatch.writeHelper.inj (Option.some.inj hd')
      have hget' : Except.ok ⟨twoExtents, some 7⟩ = (.ok request : Except Fault _) := hget
      obtain rfl := Except.ok.inj hget'
      decide
    · intro event req request hd hget
      have hd' : some (Dispatch.writeHelper .write 0) = some (.writeHelper event req) := hd
      obtain ⟨rfl, rfl⟩ := Dispatch.writeHelper.inj (Option.some.inj hd')
      obtain ⟨rest, hrest, rfl⟩ :
          ∃ rest, twoExtents.drain 3 = .ok rest ∧ request = ⟨rest, some 7⟩ :=
        ⟨_, rfl, (Except.ok.inj hget).symm⟩
      obtain rfl := Except.ok.inj hrest
      decide

/-- After a short count for the first of two extents, bytes of the second one are accepted. -/
theorem not_byteStreamLaw : ¬ ∀ (fd : Int) (acts : List (Act Char))
    (s : Stream (Fifo (WriteRequest Char)) Char),
    (∀ source callback, .writeBuffer source callback ∈ acts → source.Tight) →
    (∀ results, .xwrites results ∈ acts → ∀ r ∈ results, ∃ n, r = .count n) →
    Exec.exec step (new fd) acts = .ok s → s.alive = true → s.ByteStreamLaw := by
  intro h
  have hrun := h 3
    [.writeBuffer twoExtents (some 7), .ready .write, .xwrites [.count 1, .count 2]] _
    (fun source callback hmem => ?_) (fun results hmem => ?_) rfl rfl
  · exact absurd hrun.bytes (by decide)
  · obtain ⟨rfl, -⟩ : source = twoExtents ∧ callback = some 7 := by simpa using hmem
    exact tight_twoExtents
  · obtain rfl : results = [.count 1, .count 2] := by simpa using hmem
    simp

end Stream

end WhatTheEvent
