import WhatTheEvent.Blocking.Write
import WhatTheEvent.Stream.Outgoing
import WhatTheEvent.Stream.Silence

/-!
# What a session exchanges

The bytes that the calls of `write` are given and the cells that the calls of `read` store, over a
whole session. A run of a session is a run of its stream in which no request is replaced, so that
nothing is lost on the write side; on the read side nothing is lost either, but a read may store
more than it was asked for.
-/

namespace WhatTheEvent

variable {β : Type}

namespace BlockingCall

/-- The cells that a call of `read` has stored so far. -/
def stored : BlockingCall β → List (Cell β)
  | .read _ cb _ => cb.buffer
  | .write _ _ => []

variable {call call' : BlockingCall β} {e : Event β}

@[simp] lemma stored_loop : call.loop.stored = call.stored := by
  cases call <;> rfl

/-- Only `available()` stores anything. -/
lemma stored_of_receive (h : call.receive e = some call') (he : e.isAvailable = false) :
    call'.stored = call.stored := by
  unfold receive at h
  split at h
  · cases he
  all_goals
    first
    | split_ifs at h
      obtain rfl := Option.some.inj h
      rfl
    | cases h

end BlockingCall

/-- The bytes that a call of `write` is given. -/
def SessionAct.given : SessionAct β → List β
  | .write _ buf => buf
  | _ => []

namespace Session

variable {m m' : Session β} {act : SessionAct β} {fd : Int} {acts : List (SessionAct β)}

/-! ### The run of the stream -/

/-- The calls and events of the stream in a step. -/
def streamActs (m : Session β) : SessionAct β → List (Act β)
  | .read callback _ => [.startRead (some callback)]
  | .write callback buf => [.write buf (some callback)]
  | .ready event => [.ready event]
  | .wake => []
  | .xwrites results => [.xwrites results]
  | .xread result => [.xread result]
  | .callback =>
    match m.call, m.stream.trace.getLast? with
    | some (.read _ cb _), some (.available _ _) => [.readBuffer (.read cb.wanted), .ret]
    | _, _ => [.ret]
  | .ret => []

lemma exec_single {s s' : Stream (Requests (WriteRequest β)) β} {a : Act β}
    (h : s.step a = .ok s') : Exec.exec Stream.step s [a] = .ok s' :=
  Exec.exec_cons_ok h

/-- What the callback of the call does: that of a `read` takes what it wants off the buffer that
`available` is passed, and no other method uses the stream. -/
inductive Runs (m : Session β) : Session β → Prop
  | available {callback callback' : Nat} {cb : BlockingReadCallback β} {looped : Bool}
    {buf : BufferImpl β} {stream : Stream (Requests (WriteRequest β)) β}
    (hcall : m.call = some (.read callback cb looped))
    (hlast : m.stream.trace.getLast? = some (.available callback' buf))
    (hstream : Exec.exec Stream.step m.stream [.readBuffer (.read cb.wanted), .ret] = .ok stream) :
    Runs m { m with stream, call := some (.read callback (cb.available buf) looped) }
  | other {call call' : BlockingCall β} {e : Event β}
    {stream : Stream (Requests (WriteRequest β)) β} (hcall : m.call = some call)
    (hlast : m.stream.trace.getLast? = some e) (hreceive : call.receive e = some call')
    (hnot : e.isAvailable = false) (hstream : m.stream.step .ret = .ok stream) :
    Runs m { m with stream, call := some call' }

lemma runs_of_runCallback (h : m.runCallback = .ok m') : m.Runs m' := by
  unfold runCallback at h
  split at h
  · rename_i call e hcall hlast
    split at h
    · rename_i call' hreceive
      obtain ⟨stream, htake, h⟩ := bind_eq_ok.mp h
      obtain ⟨stream', hret, h⟩ := bind_eq_ok.mp h
      obtain rfl := Except.ok.inj h
      cases e with
      | available callback' buf =>
        cases call with
        | write => cases htake
        | read callback cb looped =>
          simp only [BlockingCall.receive] at hreceive
          split_ifs at hreceive
          obtain rfl := Option.some.inj hreceive
          have hread : m.stream.step (.readBuffer (.read cb.wanted)) = .ok stream := htake
          exact .available hcall hlast ((Exec.exec_cons_ok hread).trans (exec_single hret))
      | _ =>
        obtain rfl := Except.ok.inj htake
        exact .other hcall hlast hreceive rfl hret
    · cases h
  · cases h

lemma exec_runCallback (h : m.runCallback = .ok m') :
    Exec.exec Stream.step m.stream (m.streamActs .callback) = .ok m'.stream := by
  cases runs_of_runCallback h with
  | available hcall hlast hstream =>
    simp only [streamActs, hcall, hlast]
    exact hstream
  | @other call call' e stream hcall hlast hreceive hnot hstream =>
    have hacts : m.streamActs .callback = [.ret] := by
      simp only [streamActs, hcall, hlast]
      cases e with
      | available => cases hnot
      | _ => cases call <;> rfl
    rw [hacts]
    exact exec_single hstream

/-- A step of a session is made of steps of its stream. -/
lemma exec_streamActs (h : m.step act = .ok m') :
    Exec.exec Stream.step m.stream (m.streamActs act) = .ok m'.stream := by
  cases act with
  | read callback size =>
    cases hcall : m.call with
    | some call => simp [step, hcall] at h
    | none =>
      simp only [step, hcall] at h
      obtain ⟨stream, hstream, h⟩ := bind_eq_ok.mp h
      obtain rfl := Except.ok.inj h
      exact exec_single hstream
  | write callback buf =>
    cases hcall : m.call with
    | some call => simp [step, hcall] at h
    | none =>
      simp only [step, hcall] at h
      obtain ⟨stream, hstream, h⟩ := bind_eq_ok.mp h
      obtain rfl := Except.ok.inj h
      exact exec_single hstream
  | ready event =>
    cases hcall : m.call with
    | none => simp [step, hcall] at h
    | some call =>
      simp only [step, hcall] at h
      split_ifs at h
      obtain ⟨stream, hstream, h⟩ := bind_eq_ok.mp h
      obtain rfl := Except.ok.inj h
      exact exec_single hstream
  | wake =>
    cases hcall : m.call with
    | none => simp [step, hcall] at h
    | some call =>
      simp only [step, hcall] at h
      split_ifs at h
      obtain rfl := Except.ok.inj h
      rfl
  | xwrites results =>
    obtain ⟨stream, hstream, h⟩ := bind_eq_ok.mp h
    obtain rfl := Except.ok.inj h
    exact exec_single hstream
  | xread result =>
    obtain ⟨stream, hstream, h⟩ := bind_eq_ok.mp h
    obtain rfl := Except.ok.inj h
    exact exec_single hstream
  | callback =>
    simp only [step] at h
    split_ifs at h
    exact exec_runCallback h
  | ret =>
    cases hcall : m.call with
    | none => simp [step, hcall] at h
    | some call =>
      simp only [step, hcall] at h
      split_ifs at h
      obtain rfl := Except.ok.inj h
      rfl

/-- Buffers are sound, nothing is accepted behind a short count and no request is replaced. -/
def Orderly (s : Stream (Requests (WriteRequest β)) β) (a : Act β) : Prop :=
  s.Regular a ∧ ¬ s.Replaces a

/-- Neither a call of `write` nor a round of the write loop. -/
def Aside (a : Act β) : Prop := a.isWrite = false ∧ ∀ results, a ≠ .xwrites results

lemma along_of_aside {s : Stream (Requests (WriteRequest β)) β} {as : List (Act β)}
    (h : ∀ a ∈ as, Aside a) : Exec.Along Stream.step Orderly s as := by
  induction as generalizing s with
  | nil => trivial
  | cons a as ih =>
    obtain ⟨⟨hwrite, hxwrites⟩, hrest⟩ := List.forall_mem_cons.mp h
    have hordered : s.Ordered a := by
      cases a with
      | xwrites results => exact absurd rfl (hxwrites results)
      | _ => trivial
    have hmeasured : s.Measured a := by
      cases a with
      | writeBuffer | writeReadBuffer => cases hwrite
      | _ => trivial
    refine ⟨⟨⟨hmeasured, hordered⟩, fun hreplaces => ?_⟩, ?_⟩
    · exact Bool.false_ne_true (hwrite.symm.trans hreplaces.1)
    · split
      · exact ih hrest
      · trivial

lemma aside_callback : ∀ a ∈ m.streamActs .callback, Aside a := by
  intro a ha
  simp only [streamActs] at ha
  split at ha
  · rcases List.mem_cons.mp ha with rfl | ha
    · exact ⟨rfl, nofun⟩
    · rw [List.mem_singleton.mp ha]
      exact ⟨rfl, nofun⟩
  · rw [List.mem_singleton.mp ha]
    exact ⟨rfl, nofun⟩

/-- What a session does to its stream is orderly: a request lies in one extent, and there is none
before the call of `write` that queues it. -/
lemma along_streamActs {start : List (Event β)} {buf : List β} (hsane : m.Sane)
    (hphase : m.Phase start buf) (h : m.step act = .ok m') :
    Exec.Along Stream.step Orderly m.stream (m.streamActs act) := by
  have hsingle : ∀ {a : Act β}, Orderly m.stream a → Exec.Along Stream.step Orderly m.stream [a] :=
    fun ha => ⟨ha, by split <;> trivial⟩
  cases act with
  | read | ready | xread =>
    exact along_of_aside (List.forall_mem_singleton.mpr ⟨rfl, nofun⟩)
  | wake | ret => trivial
  | callback => exact along_of_aside aside_callback
  | write callback buf' =>
    obtain ⟨hvacant, -⟩ := phase_write hsane hphase h
    refine hsingle ⟨⟨trivial, trivial⟩, fun hreplaces => ?_⟩
    obtain ⟨-, request, hsecond, -⟩ := hreplaces
    simp [Requests.second, hvacant.head] at hsecond
  | xwrites results =>
    refine hsingle ⟨⟨trivial, fun request hrequest => ?_⟩, fun hreplaces => ?_⟩
    · cases step_effect hsane.calls h with
      | xwrites hd hx =>
        obtain ⟨_, _, request', _, -, hsole, -, hbuffer, -⟩ := hphase.of_writeHelper hd
        obtain ⟨request'', pass, _, _, hget, hpass, -⟩ := Stream.xwrites_cases hx
        rw [Stream.writing, hd] at hrequest
        simp only [hsole.get, Except.toOption] at hrequest
        obtain rfl := Option.some.inj hrequest
        obtain rfl := Except.ok.inj (hsole.get.symm.trans hget)
        exact Stream.inOrder_of_length_le_one hbuffer.length_peekExtents hpass
    · cases hreplaces.1

/-- A run of a session is a run of its stream. -/
theorem exec_stream (h : Exec.exec step (new fd : Session β) acts = .ok m) : ∃ acts',
    Exec.exec Stream.step (Stream.new fd) acts' = .ok m.stream ∧
      Exec.Along Stream.step Orderly (Stream.new fd) acts' := by
  induction acts using List.reverseRecOn generalizing m with
  | nil =>
    obtain rfl := Except.ok.inj h
    exact ⟨[], rfl, trivial⟩
  | append_singleton acts act ih =>
    obtain ⟨m₁, hacts, hok⟩ := Exec.exec_concat_eq_ok.mp h
    obtain ⟨acts', hrun, horderly⟩ := ih hacts
    obtain ⟨hsane, start, buf, hphase⟩ := phase_of_exec hacts
    refine ⟨acts' ++ m₁.streamActs act, ?_, ?_⟩
    · exact (Exec.exec_append_ok hrun).trans (exec_streamActs hok)
    · exact (Exec.along_append hrun).mpr ⟨horderly, along_streamActs hsane hphase hok⟩

/-- What was accepted is a beginning of what was written, and the requests hold the rest. -/
lemma conserves_of_exec (h : Exec.exec step (new fd : Session β) acts = .ok m) :
    (m.stream.alive = true → m.stream.Conserves) ∧
      accepted m.stream.trace <+: written m.stream.trace := by
  obtain ⟨acts', hrun, horderly⟩ := exec_stream h
  exact Stream.prefix_of_exec hrun (horderly.imp fun _ _ ho => ho.1)
    (horderly.imp fun _ _ ho => ho.2)

lemma startRead_eq {s : Stream (Requests (WriteRequest β)) β} {callback : Option Nat} :
    s.startRead callback = { s with
      readCallback := (s.startRead callback).readCallback
      watched := (s.startRead callback).watched } := by
  unfold Stream.startRead
  split_ifs <;> rfl

/-! ### What is written -/

/-- What a call of `write` queues is the bytes that it was given, and nothing else is queued. -/
lemma written_step (hsane : m.Sane) (hok : m.step act = .ok m') :
    written m'.stream.trace = written m.stream.trace ++ act.given.map some := by
  cases step_effect hsane.calls hok with
  | write callback buf _ hbuffer =>
    have hcontents := (BufferImpl.oneExtent_append hbuffer).2
    rw [written_append, SessionAct.given, ← hcontents]
    exact congrArg _ (List.append_nil _)
  | read =>
    rw [startRead_eq]
    exact (List.append_nil _).symm
  | ready =>
    rw [Stream.ready_eq]
    exact (List.append_nil _).symm
  | wake | ret => exact (List.append_nil _).symm
  | xwrites _ hx => exact (Stream.written_xwrites hx).trans (List.append_nil _).symm
  | xread _ hx =>
    obtain ⟨-, -, -, events, htrace, hevents⟩ := Stream.xread_writeSide hx
    exact (Stream.same_of_neutral htrace hevents).2.trans (List.append_nil _).symm
  | callback readBuffer _ _ _ _ hresume =>
    rw [Stream.resumeDispatch_eq hresume]
    exact (List.append_nil _).symm

/-- No step destroys the stream. -/
lemma alive_step (hsane : m.Sane) (hok : m.step act = .ok m') :
    m'.stream.alive = m.stream.alive := by
  cases step_effect hsane.calls hok with
  | read => rw [startRead_eq]
  | write | wake | ret => rfl
  | ready => rw [Stream.ready_eq]
  | xwrites _ hx => rw [Stream.xwrites_frame hx]
  | xread _ hx => rw [Stream.xread_eq hx]
  | callback readBuffer _ _ _ _ hresume => rw [Stream.resumeDispatch_eq hresume]

/-! ### What is stored -/

/-- What the call of `read` in progress has stored so far. -/
def storing (m : Session β) : List (Cell β) :=
  match m.call with
  | some call => call.stored
  | none => []

/-- What was received has been stored, by the calls that have returned or the one in progress, or is
held in the read buffer, which is what `available()` is passed. -/
structure Stores (m : Session β) (returned : List (Cell β)) : Prop where
  tight : m.stream.readBuffer.Tight
  shown : ∀ nread, m.stream.dispatch = some (.readAvailable nread) →
    ∃ callback, m.stream.trace.getLast? = some (.available callback m.stream.readBuffer)
  law : (received m.stream.trace).map some =
    returned ++ m.storing ++ m.stream.readBuffer.contents

lemma stores_new (fd : Int) : (new fd : Session β).Stores [] :=
  ⟨BufferImpl.tight_empty, (fun _ h => by cases h), rfl⟩

/-- Nothing is received or stored. -/
lemma Stores.of_same {returned returned' : List (Cell β)} (h : m.Stores returned)
    (hbuf : m'.stream.readBuffer = m.stream.readBuffer)
    (hreceived : received m'.stream.trace = received m.stream.trace)
    (hstoring : returned' ++ m'.storing = returned ++ m.storing)
    (hnot : m'.stream.NotInAvailable) : m'.Stores returned' := by
  refine ⟨hbuf ▸ h.tight, fun nread hd => absurd hd (hnot nread), ?_⟩
  rw [hreceived, hstoring, hbuf]
  exact h.law

/-- A chunk goes to the end of the read buffer, which `available()` is then passed. -/
lemma Stores.xread {returned : List (Cell β)} {result : ReadResult β}
    {stream : Stream (Requests (WriteRequest β)) β} (h : m.Stores returned)
    (hx : m.stream.xread result = .ok stream) : Stores { m with stream } returned := by
  obtain ⟨htight, hbytes, -⟩ := Stream.readBuffer_step_of_xread hx h.tight
  have hreceived : received stream.trace =
      received m.stream.trace ++ (Act.xread result).taken := by
    cases Stream.xread_cases hx with
    | @ended result hdata =>
      cases result with
      | data bytes => exact absurd rfl (hdata bytes)
      | _ => exact received_append
    | failed | eof | available | kept => simp [received, Event.received, Act.taken]
  refine ⟨htight, fun nread hd => ?_, ?_⟩
  · cases Stream.xread_cases hx with
    | available => exact ⟨_, List.getLast?_concat⟩
    | ended | failed | eof => cases hd
    | kept =>
      simp only at hd
      split_ifs at hd
      cases hd
  · have hstoring : Session.storing { m with stream } = m.storing := rfl
    rw [hreceived, List.map_append, h.law, hstoring, h.tight.contents_eq, htight.contents_eq,
      hbytes, List.map_append, List.append_assoc]

/-- A dispatch that goes on after a callback calls `available()` only when `xread` has returned. -/
lemma resumeDispatch_notInAvailable {s s' : Stream (Requests (WriteRequest β)) β} {d : Dispatch}
    (h : s.resumeDispatch d = .ok s') : s'.NotInAvailable := by
  have hread : ∀ {event : What}, s.resumeRead event = .ok s' → s'.NotInAvailable := by
    intro event hresume
    unfold Stream.resumeRead at hresume
    split_ifs at hresume
    · obtain ⟨-, rfl⟩ := Stream.access_map_eq_ok.mp hresume
      exact Stream.readyRead_notInAvailable
    · obtain rfl := Except.ok.inj hresume
      exact Stream.readyRead_notInAvailable
  cases d with
  | connectDone event =>
    obtain ⟨-, rfl⟩ := Stream.access_map_eq_ok.mp h
    exact Stream.writeLoop_notInAvailable
  | writeDone event next =>
    cases next with
    | none => exact hread h
    | some next =>
      obtain ⟨-, rfl⟩ := Stream.access_map_eq_ok.mp h
      exact Stream.writeLoop_notInAvailable
  | writeFailed event => exact hread h
  | readAvailable nread =>
    simp only [Stream.resumeDispatch] at h
    intro nread' hd
    split_ifs at h
    · obtain rfl := Except.ok.inj h
      cases hd
    · obtain ⟨-, rfl⟩ := Stream.access_map_eq_ok.mp h
      cases hd
  | readEnded =>
    obtain rfl := Except.ok.inj h
    intro nread hd
    cases hd
  | connectHelper | writeHelper | readHelper => cases h

/-- A callback of the call in progress returns. -/
lemma stream_of_ret {s s' : Stream (Requests (WriteRequest β)) β} (hcalls : s.calls = [])
    (h : s.step .ret = .ok s') :
    s' = { s with dispatch := s'.dispatch } ∧ s'.NotInAvailable := by
  cases Stream.step_effect h with
  | resumed _ hd hresume =>
    exact ⟨Stream.resumeDispatch_eq hresume, resumeDispatch_notInAvailable hresume⟩
  | returned hcons => exact absurd (hcalls.symm.trans hcons) (List.cons_ne_nil _ _).symm
  | queue _ _ hact => cases hact
  | useBuffer _ _ hact => cases hact

lemma received_of_onWriteSide {events : List (Event β)}
    (h : ∀ e ∈ events, e.onWriteSide = true) : received events = [] := by
  refine List.flatMap_eq_nil_iff.mpr fun e he => ?_
  have hside := h e he
  cases e with
  | xread => cases hside
  | _ => rfl

/-- `available()` takes what it stores off the buffer that it is passed. -/
lemma Stores.available {returned : List (Cell β)} {callback callback' : Nat}
    {cb : BlockingReadCallback β} {looped : Bool} {buf : BufferImpl β}
    {stream : Stream (Requests (WriteRequest β)) β} (h : m.Stores returned) (hsane : m.Sane)
    (hcall : m.call = some (.read callback cb looped))
    (hlast : m.stream.trace.getLast? = some (.available callback' buf))
    (hstream : Exec.exec Stream.step m.stream [.readBuffer (.read cb.wanted), .ret] =
      .ok stream) :
    Stores { m with stream, call := some (.read callback (cb.available buf) looped) } returned := by
  obtain ⟨s, hread, hrun⟩ := Exec.exec_cons_eq_ok.mp hstream
  obtain ⟨s', hret, hnil⟩ := Exec.exec_cons_eq_ok.mp hrun
  obtain rfl := Except.ok.inj hnil
  -- the stream reads from the same buffer that its trace ends with
  simp only [Stream.step] at hread
  split_ifs at hread with hin
  obtain ⟨-, nread, hd⟩ := Stream.exists_of_inAvailable hin
  obtain ⟨callback'', hshown⟩ := h.shown nread hd
  obtain ⟨-, rfl⟩ := Event.available.inj (Option.some.inj (hlast.symm.trans hshown))
  simp only [Stream.useReadBuffer] at hread
  split_ifs at hread
  obtain ⟨⟨b, results⟩, hb, rfl⟩ := map_eq_ok.mp hread
  obtain rfl := BufferImpl.eq_of_call rfl hb
  obtain ⟨hsame, hnot⟩ := stream_of_ret
    (s := { m.stream with readBuffer := (m.stream.readBuffer.read cb.wanted).1 }) hsane.calls hret
  have htrace : s'.trace = m.stream.trace := by rw [hsame]
  have hbuf : s'.readBuffer = (m.stream.readBuffer.read cb.wanted).1 := by rw [hsame]
  refine ⟨hbuf ▸ h.tight.read, fun nread' hd' => absurd hd' (hnot nread'), ?_⟩
  have hstoring : m.storing = cb.buffer := by
    rw [storing, hcall]
    rfl
  change (received s'.trace).map some =
    returned ++ (cb.buffer ++ (m.stream.readBuffer.read cb.wanted).2) ++ s'.readBuffer.contents
  rw [htrace, hbuf, h.law, hstoring,
    ← BufferImpl.read_append_contents (n := cb.wanted) h.tight.sound]
  simp only [List.append_assoc]

/-- What a call in progress has stored. -/
@[simp] lemma storing_of_call {call : BlockingCall β}
    {stream : Stream (Requests (WriteRequest β)) β} {results : List BlockingResult} :
    (⟨stream, some call, results⟩ : Session β).storing = call.stored := rfl

/-- What the call of `read` that returns in the step has stored. -/
def finished (m : Session β) : SessionAct β → List (Cell β)
  | .ret => m.storing
  | _ => []

/-- What is received is stored, or is held for the next call of `available()`. -/
lemma stores_step {returned : List (Cell β)} {start : List (Event β)} {buf : List β}
    (h : m.Stores returned) (hsane : m.Sane) (hphase : m.Phase start buf)
    (hok : m.step act = .ok m') : m'.Stores (returned ++ m.finished act) := by
  by_cases hret : act = .ret
  · subst hret
    cases step_effect hsane.calls hok with
    | ret hcall hends hd =>
      refine h.of_same rfl rfl (List.append_nil _) fun nread hn => ?_
      rw [hd] at hn
      cases hn
  have hfinished : m.finished act = [] := by
    cases act with
    | ret => exact absurd rfl hret
    | _ => rfl
  rw [hfinished, List.append_nil]
  by_cases hcallback : act = .callback
  · subst hcallback
    simp only [step] at hok
    split_ifs at hok
    cases runs_of_runCallback hok with
    | available hcall hlast hstream => exact h.available hsane hcall hlast hstream
    | @other call call' e stream hcall hlast hreceive hnot hstream =>
      obtain ⟨hsame, hnone⟩ := stream_of_ret hsane.calls hstream
      have htrace : stream.trace = m.stream.trace := by rw [hsame]
      have hbuf : stream.readBuffer = m.stream.readBuffer := by rw [hsame]
      refine h.of_same hbuf (congrArg received htrace) ?_ hnone
      rw [storing_of_call, BlockingCall.stored_of_receive hreceive hnot, storing, hcall]
  have hidle : m.stream.dispatch = none → m.stream.NotInAvailable := by
    intro hd nread hn
    rw [hd] at hn
    cases hn
  cases step_effect hsane.calls hok with
  | read callback size hcall =>
    obtain ⟨-, -, hd⟩ := hphase.isWrite_of_call_none hcall
    rw [startRead_eq]
    exact h.of_same rfl rfl (by rw [storing, storing, hcall]; rfl) (hidle hd)
  | write callback buf' hcall =>
    obtain ⟨-, -, hd⟩ := hphase.isWrite_of_call_none hcall
    refine h.of_same rfl ?_ (by rw [storing, storing, hcall]; rfl) (hidle hd)
    exact received_append.trans (List.append_nil _)
  | ready event hcall hd =>
    refine h.of_same ?_ ?_ ?_ ?_
    · rw [Stream.ready_eq]
    · rw [Stream.ready_eq]
    · rw [storing_of_call, BlockingCall.stored_loop, storing, hcall]
    · have hready := hsane.ready event
      split_ifs at hready
      · exact hready ▸ Stream.writeLoop_notInAvailable
      · exact hready ▸ Stream.readyRead_notInAvailable
  | wake hcall hd =>
    refine h.of_same rfl rfl ?_ (hidle hd)
    rw [storing_of_call, BlockingCall.stored_loop, storing, hcall]
  | xwrites hd hx =>
    obtain ⟨_, _, _, _, -, -, -, -, -, -, hbuf, hnot⟩ := Stream.xwrites_cases hx
    obtain ⟨events, htrace, hevents⟩ := Stream.xwrites_trace hx
    refine h.of_same hbuf ?_ rfl hnot
    rw [htrace, received_append, received_of_onWriteSide hevents, List.append_nil]
  | xread hd hx => exact h.xread hx
  | callback => exact absurd rfl hcallback
  | ret => exact absurd rfl hret

end Session

/-! ### The journal of a session -/

/-- A session, with what its calls of `write` were given and what its calls of `read` that have
returned have stored. -/
structure Journal (β : Type) where
  session : Session β
  given : List β
  returned : List (Cell β)

namespace Journal

variable {j j' : Journal β} {act : SessionAct β} {fd : Int} {acts : List (SessionAct β)}

def new (fd : Int) : Journal β := ⟨.new fd, [], []⟩

def step (j : Journal β) (act : SessionAct β) : Except Fault (Journal β) := do
  let session ← j.session.step act
  pure ⟨session, j.given ++ act.given, j.returned ++ j.session.finished act⟩

/-- What the calls of `read` have stored, with the one in progress. -/
def delivered (j : Journal β) : List (Cell β) := j.returned ++ j.session.storing

lemma step_eq_ok : j.step act = .ok j' ↔ j.session.step act = .ok j'.session ∧
    j'.given = j.given ++ act.given ∧ j'.returned = j.returned ++ j.session.finished act := by
  constructor
  · intro h
    obtain ⟨session, hsession, hok⟩ := bind_eq_ok.mp h
    obtain rfl := Except.ok.inj hok
    exact ⟨hsession, rfl, rfl⟩
  · rintro ⟨hsession, hgiven, hreturned⟩
    simp only [step, hsession, ← hgiven, ← hreturned]
    rfl

/-- A run of a session with its journal is a run of the session. -/
lemma exec_session (h : Exec.exec step j acts = .ok j') :
    Exec.exec Session.step j.session acts = .ok j'.session := by
  induction acts generalizing j with
  | nil =>
    obtain rfl := Except.ok.inj h
    rfl
  | cons act acts ih =>
    obtain ⟨j₁, h₁, hrest⟩ := Exec.exec_cons_eq_ok.mp h
    exact (Exec.exec_cons_ok (step_eq_ok.mp h₁).1).trans (ih hrest)

/-- What was given is what the stream was to write, and what was received has been stored or is
held. -/
structure Faithful (j : Journal β) : Prop where
  alive : j.session.stream.alive = true
  sane : j.session.Sane
  phase : ∃ start buf, j.session.Phase start buf
  written : written j.session.stream.trace = j.given.map some
  stores : j.session.Stores j.returned

lemma faithful_of_exec (h : Exec.exec step (new fd : Journal β) acts = .ok j) : j.Faithful := by
  induction acts using List.reverseRecOn generalizing j with
  | nil =>
    obtain rfl := Except.ok.inj h
    exact ⟨rfl, Session.sane_new fd, ⟨[], [], Session.phase_new fd⟩, rfl, Session.stores_new fd⟩
  | append_singleton acts act ih =>
    obtain ⟨j₁, hacts, hstep⟩ := Exec.exec_concat_eq_ok.mp h
    have hj₁ := ih hacts
    obtain ⟨start, buf, hphase⟩ := hj₁.phase
    obtain ⟨hsane', hphase'⟩ := Session.phase_of_exec (exec_session h)
    obtain ⟨hok, hgiven, hreturned⟩ := step_eq_ok.mp hstep
    refine ⟨(Session.alive_step hj₁.sane hok).trans hj₁.alive, hsane', hphase', ?_, ?_⟩
    · rw [Session.written_step hj₁.sane hok, hj₁.written, hgiven, List.map_append]
    · rw [hreturned]
      exact Session.stores_step hj₁.stores hj₁.sane hphase hok

end Journal

end WhatTheEvent
