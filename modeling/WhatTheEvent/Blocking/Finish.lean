import WhatTheEvent.Blocking.Write
import WhatTheEvent.Stream.Outcomes

/-!
# The end of a blocking write

A call of `write` can return at the end of the dispatch that tells it its outcome if `read` has not
been called before and the outcome is not an error.
-/

namespace WhatTheEvent

variable {β : Type}

namespace Session

variable {m m' : Session β} {act : SessionAct β} {start : List (Event β)} {buf : List β}

/-- A call of `write` has been told its outcome by one of the events. -/
def Told (events : List (Event β)) : Prop := ∃ e ∈ events, ∃ req, e.IsOutcome req

/-- A call of `xwrite` fails. -/
def Fails (acts : List (SessionAct β)) : Prop :=
  ∃ results, .xwrites results ∈ acts ∧ ∃ e, WriteResult.error e ∈ results

/-- What a dispatch that began in `m₀` and went on with the steps `acts` has come to. -/
structure Outcome (m₀ : Session β) (acts : List (SessionAct β)) (m : Session β) : Prop where
  told : Told (m₀.stream.emitted m.stream) → (Fails acts ↔ m.stream.watched.isWrite = true) ∧
    ∃ callback cb, m.call = some (.write callback cb)
  untold : ∀ event req, m.stream.dispatch = some (.writeHelper event req) →
    ¬ Told (m₀.stream.emitted m.stream) ∧ ¬ Fails acts
  trace : ∃ events, m.stream.trace = m₀.stream.trace ++ events

lemma told_append {events events' : List (Event β)} :
    Told (events ++ events') ↔ Told events ∨ Told events' := by
  simp [Told, or_and_right, exists_or]

lemma fails_concat {acts : List (SessionAct β)} :
    Fails (acts ++ [act]) ↔ Fails acts ∨ Fails [act] := by
  simp only [Fails, List.mem_append, or_and_right, exists_or]

lemma not_fails_singleton (hact : ∀ results, act ≠ .xwrites results) : ¬ Fails [act] := by
  rintro ⟨results, hmem, -⟩
  exact hact results (List.mem_singleton.mp hmem).symm

/-- A step of a dispatch in which no request is worked on. -/
lemma Outcome.of_quiet {m₀ : Session β} {acts : List (SessionAct β)} {events : List (Event β)}
    {call call' : BlockingCall β} (h : m₀.Outcome acts m) (hact : ∀ results, act ≠ .xwrites results)
    (hcall : m.call = some call) (hcall' : m'.call = some call') (halike : call.Alike call')
    (htrace : m'.stream.trace = m.stream.trace ++ events)
    (hevents : ∀ e ∈ events, ∀ req, ¬ e.IsOutcome req)
    (hwatched : m'.stream.watched = m.stream.watched)
    (hd : ∀ d, m'.stream.dispatch = some d → d.onReadSide = true) :
    m₀.Outcome (acts ++ [act]) m' := by
  obtain ⟨before, hbefore⟩ := h.trace
  have hafter : m'.stream.trace = m₀.stream.trace ++ (before ++ events) := by
    rw [htrace, hbefore, List.append_assoc]
  have hnone : ¬ Told events := fun ⟨e, he, req, hout⟩ => hevents e he req hout
  have hiff : Fails (acts ++ [act]) ↔ Fails acts := by
    rw [fails_concat, or_iff_left (not_fails_singleton hact)]
  have htold : Told (m₀.stream.emitted m'.stream) ↔ Told (m₀.stream.emitted m.stream) := by
    rw [Stream.emitted_eq hafter, Stream.emitted_eq hbefore, told_append, or_iff_left hnone]
  refine ⟨fun ht => ?_, fun event req hhelper => ?_, _, hafter⟩
  · obtain ⟨hfails, callback, cb, hwrite⟩ := h.told (htold.mp ht)
    obtain rfl := Option.some.inj (hcall.symm.trans hwrite)
    rw [hiff, hwatched]
    refine ⟨hfails, ?_⟩
    cases call' with
    | read => exact absurd halike id
    | write callback' cb' => exact ⟨callback', cb', hcall'⟩
  · cases hd _ hhelper

/-- The round of a dispatch that works on the request. -/
lemma Outcome.xwrites {m₀ : Session β} {acts : List (SessionAct β)} {event : What} {req : Nat}
    {results : List WriteResult} {stream : Stream (Requests (WriteRequest β)) β}
    (h : m₀.Outcome acts m) (hphase : m.Phase start buf)
    (hd : m.stream.dispatch = some (.writeHelper event req))
    (hx : m.stream.xwrites event req results = .ok stream) :
    m₀.Outcome (acts ++ [.xwrites results]) { m with stream } := by
  obtain ⟨callback, cb, request, _, hcall, hsole, hrequest, hbuffer, -, -, hwrite⟩ :=
    hphase.of_writeHelper hd
  obtain ⟨before, hbefore⟩ := h.trace
  obtain ⟨huntold, hfails⟩ := h.untold event req hd
  have hiff : Fails (acts ++ [.xwrites results]) ↔ ∃ e, WriteResult.error e ∈ results := by
    rw [fails_concat, or_iff_right hfails]
    simp [Fails]
  have hafter : ∀ events, m.stream.trace ++ events = m₀.stream.trace ++ (before ++ events) := by
    intro events
    rw [hbefore, List.append_assoc]
  cases Stream.soleRound_of_xwrites hsole hbuffer hrequest hx with
  | @blocked requests buffer events' _ _ _ hpasses =>
    have hnone : ¬ Told (before ++ events') := by
      rw [told_append, not_or]
      refine ⟨?_, fun ⟨e, he, req', hout⟩ => Stream.not_isOutcome_of_passes (hpasses e he) hout⟩
      rwa [Stream.emitted_eq hbefore] at huntold
    refine ⟨fun htold => absurd ?_ hnone, fun event' req' hhelper => ?_, _, hafter events'⟩
    · rwa [Stream.emitted_eq (hafter events')] at htold
    · cases Stream.readyRead_onReadSide (s := m.stream) _ hhelper
  | @failed requests buffer events' _ _ _ hresults =>
    refine ⟨fun _ => ⟨?_, callback, cb, hcall⟩, (fun event' req' hhelper => nomatch hhelper),
      before ++ (events' ++ [.writeError req callback "Write failed"]), ?_⟩
    · rw [hiff]
      exact iff_of_true hresults hwrite
    · rw [← hafter, List.append_assoc]
  | @completed requests events' _ _ hresults =>
    refine ⟨fun _ => ⟨?_, callback, cb, hcall⟩, (fun event' req' hhelper => nomatch hhelper),
      before ++ (events' ++ [.writeComplete req callback]), ?_⟩
    · rw [hiff]
      exact iff_of_false hresults (by simp)
    · rw [← hafter, List.append_assoc]

/-- The steps of a dispatch. -/
lemma Outcome.step {m₀ : Session β} {acts : List (SessionAct β)} (h : m₀.Outcome acts m)
    (hsane : m.Sane) (hphase : m.Phase start buf) (hok : m.step act = .ok m')
    (hd : m.stream.dispatch ≠ none) : m₀.Outcome (acts ++ [act]) m' ∧ act.isRead = false := by
  have hidle : m.call ≠ none := fun hnone => hd (hphase.isWrite_of_call_none hnone).2.2
  cases step_effect hsane.calls hok with
  | read _ _ hnone => exact absurd hnone hidle
  | write _ _ hnone => exact absurd hnone hidle
  | ready _ _ hnone => exact absurd hnone hd
  | wake _ hnone => exact absurd hnone hd
  | ret _ _ hnone => exact absurd hnone hd
  | xwrites hhelper hx => exact ⟨h.xwrites hphase hhelper hx, rfl⟩
  | xread _ hx =>
    obtain ⟨call, hcall⟩ := Option.ne_none_iff_exists'.mp hidle
    obtain ⟨events, htrace, hevents⟩ := Stream.xread_trace hx
    refine ⟨h.of_quiet (fun _ heq => nomatch heq) hcall hcall (BlockingCall.alike_refl call) htrace
      ?_ ?_ (xread_onReadSide hx), rfl⟩
    · intro e he req hout
      have hside := hevents e he
      cases e with
      | writeComplete | writeError => cases hside
      | _ => exact hout
    · rw [Stream.xread_eq hx]
  | @callback call call' _ d _ stream hcall _ hreceive hd' hresume =>
    have htrace : stream.trace = m.stream.trace ++ [] := by
      rw [Stream.resumeDispatch_eq hresume, List.append_nil]
    refine ⟨h.of_quiet (fun _ heq => nomatch heq) hcall rfl (BlockingCall.alike_of_receive hreceive)
      htrace (fun _ he => absurd he List.not_mem_nil) ?_
      (resumeDispatch_onReadSide (hphase.callback_side hcall hd' hresume) hresume), rfl⟩
    rw [Stream.resumeDispatch_eq hresume]

lemma outcome_ready {event : What} (hcalls : m.stream.calls = [])
    (hok : m.step (.ready event) = .ok m') : m.Outcome [] m' := by
  cases step_effect hcalls hok with
  | ready =>
    have htrace : (m.stream.ready event).trace = m.stream.trace ++ [] := by
      rw [Stream.ready_eq, List.append_nil]
    have hnone : ¬ Told (m.stream.emitted (m.stream.ready event)) := by
      rw [Stream.emitted_eq htrace]
      rintro ⟨e, he, -⟩
      exact absurd he List.not_mem_nil
    refine ⟨fun htold => absurd htold hnone, fun _ _ _ => ⟨hnone, ?_⟩, [], htrace⟩
    rintro ⟨results, hmem, -⟩
    exact absurd hmem List.not_mem_nil

/-- A whole dispatch. -/
lemma outcome_of_exec {m₀ m₁ : Session β} {acts : List (SessionAct β)} (h : m₀.Outcome [] m₁)
    (hsane : m₁.Sane) (hphase : m₁.Phase start buf) (hrun : Exec.exec step m₁ acts = .ok m)
    (hdispatch : Exec.Along step (fun m _ => m.stream.dispatch ≠ none) m₁ acts) :
    m₀.Outcome acts m ∧ m.Sane ∧ m.Phase start buf ∧ ∀ act ∈ acts, act.isRead = false := by
  induction acts using List.reverseRecOn generalizing m with
  | nil =>
    obtain rfl := Except.ok.inj hrun
    exact ⟨h, hsane, hphase, fun _ hmem => absurd hmem List.not_mem_nil⟩
  | append_singleton acts act ih =>
    obtain ⟨m₂, hacts, hok⟩ := Exec.exec_concat_eq_ok.mp hrun
    obtain ⟨hdispatch, hd⟩ := (Exec.along_concat hacts).mp hdispatch
    obtain ⟨hout, hsane₂, hphase₂, hreads⟩ := ih hacts hdispatch
    obtain ⟨hout', hread⟩ := hout.step hsane₂ hphase₂ hok hd
    have hcall : ∀ callback buf', act ≠ .write callback buf' := by
      rintro callback buf' rfl
      cases step_effect hsane₂.calls hok with
      | write _ _ hnone => exact hd (hphase₂.isWrite_of_call_none hnone).2.2
    refine ⟨hout', sane_step hsane₂ hphase₂ hok, phase_step hsane₂ hphase₂ hok hcall, ?_⟩
    exact List.forall_mem_append.mpr ⟨hreads, List.forall_mem_singleton.mpr hread⟩

lemma watched_eq_none_iff {what : What} :
    what = .none ↔ what.isRead = false ∧ what.isWrite = false := by
  cases what <;> decide

/-- A dispatch that tells a call of `write` its outcome leaves nothing registered, so that the call
returns, if and only if `read` has not been called before and no call of `xwrite` of the dispatch
failed. -/
theorem finished_iff (fd : Int) (pre acts : List (SessionAct β)) (event : What)
    (m₀ m₁ m : Session β) (hpre : Exec.exec step (new fd) pre = .ok m₀)
    (hready : m₀.step (.ready event) = .ok m₁) (hrun : Exec.exec step m₁ acts = .ok m)
    (hdispatch : Exec.Along step (fun m _ => m.stream.dispatch ≠ none) m₁ acts)
    (hend : m.stream.dispatch = none) (htold : Told (m₀.stream.emitted m.stream)) :
    (m.stream.watched = .none ∧ ∃ m', m.step .ret = .ok m') ↔
      (∀ act ∈ pre, act.isRead = false) ∧ ¬ Fails acts := by
  obtain ⟨hsane₀, start, buf, hphase₀⟩ := phase_of_exec hpre
  have hsane₁ := sane_step hsane₀ hphase₀ hready
  have hphase₁ := phase_step hsane₀ hphase₀ hready fun _ _ heq => nomatch heq
  obtain ⟨hout, hsane, -, hreads⟩ := outcome_of_exec (outcome_ready hsane₀.calls hready) hsane₁
    hphase₁ hrun hdispatch
  obtain ⟨hfails, callback, cb, hcall⟩ := hout.told htold
  have hread : m.stream.watched.isRead = false ↔ ∀ act ∈ pre, act.isRead = false := by
    have hwhole : Exec.exec step (new fd : Session β) (pre ++ .ready event :: acts) = .ok m :=
      Exec.exec_append_eq_ok.mpr ⟨m₀, hpre, Exec.exec_cons_eq_ok.mpr ⟨m₁, hready, hrun⟩⟩
    rw [hsane.reading, readCallback_of_exec hwhole, List.any_eq_false]
    constructor
    · intro h act hact
      exact Bool.eq_false_iff.mpr (h act (List.mem_append_left _ hact))
    · intro h act hact
      rcases List.mem_append.mp hact with hact | hact
      · exact Bool.eq_false_iff.mp (h act hact)
      · rcases List.mem_cons.mp hact with rfl | hact
        · exact Bool.false_ne_true
        · exact Bool.eq_false_iff.mp (hreads act hact)
  rw [hfails, Bool.not_eq_true, ← hread, ← watched_eq_none_iff]
  refine ⟨And.left, fun hnone => ⟨hnone, ?_⟩⟩
  simp [step, hcall, BlockingCall.goesOn, hnone, hend]

/-- A call of `write` that is told its outcome in its second dispatch. -/
theorem finished_write : ∃ m₀ m₁ m : Session Char,
    Exec.exec step (new 3) [.write 7 ['a', 'b'], .ready .write, .xwrites [.count 1]] = .ok m₀ ∧
    m₀.step (.ready .write) = .ok m₁ ∧
    Exec.exec step m₁ [.xwrites [.count 1], .callback] = .ok m ∧
    ((m.stream.watched = .none ∧ ∃ m', m.step .ret = .ok m') ↔
      (∀ act ∈ [SessionAct.write 7 ['a', 'b'], .ready .write, .xwrites [.count 1]],
        act.isRead = false) ∧
      ¬ Fails [SessionAct.xwrites [.count 1], (.callback : SessionAct Char)]) :=
  ⟨_, _, _, rfl, rfl, rfl, finished_iff 3 [.write 7 ['a', 'b'], .ready .write, .xwrites [.count 1]]
    [.xwrites [.count 1], .callback] .write _ _ _ rfl rfl rfl
    ⟨Option.some_ne_none _, Option.some_ne_none _, trivial⟩ rfl
    ⟨.writeComplete 0 7, by decide, 0, rfl⟩⟩

/-- The `READ` that an earlier call of `read` registered is still there when `write` is told that it
is complete. -/
theorem not_finished : ¬ ∀ (fd : Int) (pre acts : List (SessionAct Char)) (event : What)
    (m₀ m₁ m : Session Char), Exec.exec step (new fd) pre = .ok m₀ →
    m₀.step (.ready event) = .ok m₁ → Exec.exec step m₁ acts = .ok m →
    Exec.Along step (fun m _ => m.stream.dispatch ≠ none) m₁ acts → m.stream.dispatch = none →
    Told (m₀.stream.emitted m.stream) →
    m.stream.watched = .none ∧ ∃ m', m.step .ret = .ok m' := by
  intro h
  have hend := h 3 [.read 5 1, .ready .read, .xread (.data ['x']), .callback, .ret, .write 7 ['a']]
    [.xwrites [.count 1], .callback] .write _ _ _ rfl rfl rfl
    ⟨Option.some_ne_none _, Option.some_ne_none _, trivial⟩ rfl
    ⟨.writeComplete 0 7, by decide, 0, rfl⟩
  exact absurd hend.1 (by decide)

end Session

end WhatTheEvent
