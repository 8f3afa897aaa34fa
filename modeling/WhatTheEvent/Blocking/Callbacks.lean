import WhatTheEvent.Blocking.Write

/-!
# The lifetime of blocking callbacks

A call of `read` returns without uninstalling its callback. Up to the first return of a `read`, the
stream calls only the callback of the call in progress, and holds none that is gone.
-/

namespace WhatTheEvent

variable {β : Type}

/-- The stream holds a pointer to the callback of the call, as its read callback or in a queued
request. -/
def Stream.Holds (s : Stream (Requests (WriteRequest β)) β) : BlockingCall β → Prop
  | .read callback _ _ => s.readCallback = some callback
  | .write callback _ => ∃ items, Requests.Linked s.requests.heap s.requests.head items ∧
    ∃ item ∈ items, item.2.callback = some callback

namespace Session

variable {m m' : Session β} {act : SessionAct β} {start : List (Event β)} {buf : List β}

/-- If the stream has called a method of a callback, it is that of the call in progress. -/
def Current (m : Session β) : Prop :=
  m.inCallback = true → ∃ call e call', m.call = some call ∧
    m.stream.trace.getLast? = some e ∧ call.receive e = some call'

/-- No callback outlives its call: those called are current, and when a call returns or throws the
stream holds no pointer to its callback. -/
def Confined (m : Session β) (act : SessionAct β) : Prop :=
  m.Current ∧ (act = .ret → ∀ call m', m.call = some call → m.step act = .ok m' →
    ¬ m'.stream.Holds call)

/-- A call of `read` returns or throws. -/
def ReadReturns (m : Session β) (act : SessionAct β) : Prop :=
  act = .ret ∧ ∃ callback cb looped, m.call = some (.read callback cb looped)

/-- The read callback of the stream, if there is one, is that of a call of `read` in progress. -/
def Fresh (m : Session β) : Prop :=
  m.stream.readCallback = none ∨ ∃ callback cb looped, m.call = some (.read callback cb looped)

lemma current_of_readHelper (h : ∀ d, m.stream.dispatch = some d → d.isCallback = false) :
    m.Current := by
  intro hin
  unfold inCallback at hin
  split at hin
  · rename_i d hd
    rw [h d hd] at hin
    cases hin
  · cases hin

lemma current_of_dispatch_none (h : m.stream.dispatch = none) : m.Current := by
  refine current_of_readHelper fun d hd => ?_
  rw [h] at hd
  cases hd

/-- A call of `read` that returns leaves its callback installed. -/
lemma holds_of_readReturns (hphase : m.Phase start buf) (hreturns : m.ReadReturns act)
    (hok : m.step act = .ok m') : ¬ m.Confined act := by
  rintro ⟨-, hconfined⟩
  obtain ⟨rfl, callback, cb, looped, hcall⟩ := hreturns
  refine hconfined rfl _ m' hcall hok ?_
  have hsame : m'.stream = m.stream := by
    simp only [step, hcall] at hok
    split_ifs at hok
    obtain rfl := Except.ok.inj hok
    rfl
  cases hphase with
  | reading hcall' hcb =>
    obtain ⟨rfl, -⟩ := BlockingCall.read.inj (Option.some.inj (hcall.symm.trans hcall'))
    rw [hsame]
    exact hcb
  | idle hcall' | writing hcall' | written hcall' =>
    rw [hcall] at hcall'
    cases hcall'

lemma fresh_step (h : m.Fresh) (hsane : m.Sane) (hphase : m.Phase start buf)
    (hok : m.step act = .ok m') (hreturns : ¬ m.ReadReturns act) : m'.Fresh := by
  rcases h with hnone | ⟨callback, cb, looped, hcall⟩
  · cases hact : act.isRead with
    | true =>
      -- the read callback is that of the new call
      cases step_effect hsane.calls hok with
      | read callback size => exact .inr ⟨_, _, _, rfl⟩
      | _ => cases hact
    | false =>
      have hsome := readCallback_step hsane.calls hphase hok
      rw [hnone, hact] at hsome
      exact .inl (Option.not_isSome_iff_eq_none.mp (Bool.eq_false_iff.mp hsome))
  · have hret : act ≠ .ret := fun heq => hreturns ⟨heq, callback, cb, looped, hcall⟩
    obtain ⟨call', hcall', halike⟩ := alike_of_step hsane.calls hcall hok hret
    cases call' with
    | read callback' cb' looped' => exact .inr ⟨_, _, _, hcall'⟩
    | write => exact absurd halike id

/-- What the stream calls in a round of the write loop is the callback of the request. -/
lemma current_xwrites {event : What} {req : Nat} {results : List WriteResult}
    {stream : Stream (Requests (WriteRequest β)) β} (hphase : m.Phase start buf)
    (hd : m.stream.dispatch = some (.writeHelper event req))
    (hx : m.stream.xwrites event req results = .ok stream) : Current { m with stream } := by
  obtain ⟨callback, cb, request, _, hcall, hsole, hrequest, hbuffer, -⟩ := hphase.of_writeHelper hd
  cases Stream.soleRound_of_xwrites hsole hbuffer hrequest hx with
  | blocked =>
    refine current_of_readHelper fun d hd' => ?_
    rw [Stream.readyRead_readHelper (s := m.stream) d hd']
    rfl
  | failed =>
    refine fun _ => ⟨_, _, .write callback { cb with error := some "Write failed" }, hcall,
      List.getLast?_concat, ?_⟩
    simp [BlockingCall.receive]
  | completed =>
    refine fun _ => ⟨_, _, .write callback { cb with complete := true }, hcall,
      List.getLast?_concat, ?_⟩
    simp [BlockingCall.receive]

/-- What the stream calls after `xread` is its read callback. -/
lemma current_xread {result : ReadResult β} {stream : Stream (Requests (WriteRequest β)) β}
    (h : m.Fresh) (hphase : m.Phase start buf) (hx : m.stream.xread result = .ok stream) :
    Current { m with stream } := by
  have hread : ∀ {callback : Nat}, m.stream.readCallback = some callback →
      ∃ cb looped, m.call = some (.read callback cb looped) := by
    intro callback hcb
    rcases h with hnone | ⟨callback', cb, looped, hcall⟩
    · rw [hcb] at hnone
      cases hnone
    · cases hphase with
      | reading hcall' hcb' =>
        obtain rfl := Option.some.inj (hcb.symm.trans hcb')
        exact ⟨_, _, hcall'⟩
      | idle hcall' | writing hcall' | written hcall' =>
        rw [hcall] at hcall'
        cases hcall'
  cases Stream.xread_cases hx with
  | ended => exact current_of_dispatch_none rfl
  | kept =>
    refine current_of_readHelper fun d hd => ?_
    simp only at hd
    split_ifs at hd
    obtain rfl := Option.some.inj hd
    rfl
  | @failed _ callback hcb =>
    obtain ⟨cb, looped, hcall⟩ := hread hcb
    refine fun _ => ⟨_, _, .read callback { cb with error := some "Read failed" } looped, hcall,
      List.getLast?_concat, ?_⟩
    simp [BlockingCall.receive]
  | @eof callback hcb =>
    obtain ⟨cb, looped, hcall⟩ := hread hcb
    refine fun _ => ⟨_, _, .read callback { cb with eof := true } looped, hcall,
      List.getLast?_concat, ?_⟩
    simp [BlockingCall.receive]
  | @available _ callback buffer _ _ hcb =>
    obtain ⟨cb, looped, hcall⟩ := hread hcb
    refine fun _ => ⟨_, _, .read callback (cb.available buffer) looped, hcall,
      List.getLast?_concat, ?_⟩
    simp [BlockingCall.receive]

lemma current_step (h : m.Fresh) (hsane : m.Sane) (hphase : m.Phase start buf)
    (hok : m.step act = .ok m') : m'.Current := by
  cases step_effect hsane.calls hok with
  | read callback size hcall =>
    refine current_of_dispatch_none ?_
    have hd := (hphase.isWrite_of_call_none hcall).2.2
    rw [Stream.startRead]
    split_ifs <;> exact hd
  | write callback buf' hcall =>
    exact current_of_dispatch_none (hphase.isWrite_of_call_none hcall).2.2
  | ready event =>
    refine current_of_readHelper fun d hd => ?_
    simp only [hsane.ready event] at hd
    split_ifs at hd
    · cases hhead : RequestQueue.head m.stream.requests with
      | none =>
        rw [Stream.writeHelper, hhead] at hd
        rw [Stream.readyRead_readHelper (s := m.stream) d hd]
        rfl
      | some req =>
        rw [Stream.writeHelper, hhead] at hd
        obtain rfl := Option.some.inj hd
        rfl
    · rw [Stream.readyRead_readHelper (s := m.stream) d hd]
      rfl
  | wake _ hd => exact current_of_dispatch_none hd
  | xwrites hd hx => exact current_xwrites hphase hd hx
  | xread _ hx => exact current_xread h hphase hx
  | callback _ hcall _ _ hd hresume =>
    refine current_of_readHelper fun d hd' => ?_
    rw [resumeDispatch_readHelper (hphase.callback_side hcall hd hresume) hresume d hd']
    rfl
  | ret _ _ hd => exact current_of_dispatch_none hd

/-- A call of `write` that returns leaves nothing queued. -/
lemma not_holds_of_ret {call : BlockingCall β} (hsane : m.Sane) (hphase : m.Phase start buf)
    (hreturns : ¬ m.ReadReturns .ret) (hcall : m.call = some call) (hok : m.step .ret = .ok m') :
    ¬ m'.stream.Holds call := by
  cases step_effect hsane.calls hok with
  | ret hcall' hends =>
    obtain rfl := Option.some.inj (hcall.symm.trans hcall')
    cases call with
    | read callback cb looped => exact absurd ⟨rfl, callback, cb, looped, hcall⟩ hreturns
    | write callback cb =>
      rintro ⟨items, hlinked, item, hitem, -⟩
      have hnone : m.stream.watched = .none := by simpa [BlockingCall.goesOn] using hends
      have hvacant : m.stream.requests.Vacant := by
        cases hphase with
        | idle _ hvacant | reading _ _ hvacant | written _ hvacant => exact hvacant
        | writing _ _ _ _ _ _ hwrite =>
          rw [hnone] at hwrite
          cases hwrite
      have hlinked' : Requests.Linked m.stream.requests.heap m.stream.requests.head items := hlinked
      rw [hvacant.head] at hlinked'
      rw [Requests.linked_none hlinked'] at hitem
      exact absurd hitem List.not_mem_nil

/-- In a session the stream calls only the callbacks of calls in progress, and holds no pointer to
the callback of a call that returns or throws, if and only if no call of `read` returns or
throws. -/
theorem confined_iff (fd : Int) (acts : List (SessionAct β)) (m : Session β)
    (h : Exec.exec step (new fd) acts = .ok m) :
    (Exec.Along step Confined (new fd : Session β) acts ∧ m.Current) ↔
      Exec.Along step (fun m act => ¬ m.ReadReturns act) (new fd : Session β) acts := by
  have hrun : (Exec.Along step Confined (new fd : Session β) acts →
      Exec.Along step (fun m act => ¬ m.ReadReturns act) (new fd : Session β) acts) ∧
      (Exec.Along step (fun m act => ¬ m.ReadReturns act) (new fd : Session β) acts →
        m.Fresh ∧ m.Current ∧ Exec.Along step Confined (new fd : Session β) acts) := by
    induction acts using List.reverseRecOn generalizing m with
    | nil =>
      obtain rfl := Except.ok.inj h
      exact ⟨fun _ => Exec.along_nil,
        fun _ => ⟨.inl rfl, current_of_dispatch_none rfl, Exec.along_nil⟩⟩
    | append_singleton acts act ih =>
      obtain ⟨m₁, hacts, hok⟩ := Exec.exec_concat_eq_ok.mp h
      obtain ⟨hsane, start, buf, hphase⟩ := phase_of_exec hacts
      obtain ⟨hforth, hback⟩ := ih m₁ hacts
      rw [Exec.along_concat hacts, Exec.along_concat hacts]
      constructor
      · rintro ⟨hconfined, hact⟩
        exact ⟨hforth hconfined, fun hreturns => holds_of_readReturns hphase hreturns hok hact⟩
      · rintro ⟨hnone, hact⟩
        obtain ⟨hfresh, hcurrent, hconfined⟩ := hback hnone
        refine ⟨fresh_step hfresh hsane hphase hok hact, current_step hfresh hsane hphase hok,
          hconfined, hcurrent, ?_⟩
        rintro rfl call m' hcall hok'
        exact not_holds_of_ret hsane hphase hact hcall hok'
  constructor
  · exact fun hconfined => hrun.1 hconfined.1
  · intro hnone
    obtain ⟨-, hcurrent, hconfined⟩ := hrun.2 hnone
    exact ⟨hconfined, hcurrent⟩

/-- Two calls of `write`. -/
theorem confined_writes : ∃ m : Session Char,
    Exec.exec step (new 3) [.write 7 ['a'], .ready .write, .xwrites [.count 1], .callback, .ret,
      .write 8 ['b'], .ready .write, .xwrites [.count 1]] = .ok m ∧
    ((Exec.Along step Confined (new 3 : Session Char) [.write 7 ['a'], .ready .write,
      .xwrites [.count 1], .callback, .ret, .write 8 ['b'], .ready .write, .xwrites [.count 1]] ∧
        m.Current) ↔
      Exec.Along step (fun m act => ¬ m.ReadReturns act) (new 3 : Session Char) [.write 7 ['a'],
        .ready .write, .xwrites [.count 1], .callback, .ret, .write 8 ['b'], .ready .write,
        .xwrites [.count 1]]) :=
  ⟨_, rfl, confined_iff 3 _ _ rfl⟩

/-- After a call of `read` has returned, data arrives while `write` runs the loop, and its callback
is called. -/
theorem not_confined : ¬ ∀ (fd : Int) (acts : List (SessionAct Char)) (m : Session Char),
    Exec.exec step (new fd) acts = .ok m →
    Exec.Along step Confined (new fd : Session Char) acts ∧ m.Current := by
  intro h
  have hrun := h 3 [.read 5 1, .ready .read, .xread (.data ['x']), .callback, .ret, .write 7 ['a'],
    .ready .read, .xread (.data ['y'])] _ rfl
  obtain ⟨call, e, call', hcall, hlast, hreceive⟩ := hrun.2 rfl
  obtain rfl := Option.some.inj hcall
  obtain rfl := Option.some.inj hlast
  cases hreceive

end Session

end WhatTheEvent
