import WhatTheEvent.EchoServer.Connection
import WhatTheEvent.Stream.Closing
import WhatTheEvent.Stream.Freeing

/-!
# What a step of a connection does

A live connection waits for an event or for a system call, and its list of requests has at most two.
It stops to watch for data when a chunk arrives while another one is pending. A step fails with an
access to freed memory where a write fails in a dispatch that goes on to read.
-/

namespace WhatTheEvent

variable {β : Type}

namespace Connection

variable {s s' : Connection β} {act : ConnectionAct β} {event : What} {d : Dispatch}
  {items : List (Nat × WriteRequest β)} {listening : Bool}

/-- The events watched by a connection that listens or not, where requests are pending or not. -/
def interest : Bool → Bool → What
  | true, true => .readWrite
  | true, false => .read
  | false, true => .write
  | false, false => .none

@[simp] lemma isRead_interest {pending : Bool} :
    (interest listening pending).isRead = listening := by
  cases listening <;> cases pending <;> rfl

lemma ensureWrite_interest {pending : Bool} :
    (interest listening pending).ensureWrite = interest (listening && !pending) true := by
  cases listening <;> cases pending <;> rfl

lemma removeWrite_interest {pending : Bool} :
    (interest listening pending).removeWrite = interest listening false := by
  cases listening <;> cases pending <;> rfl

/-- Where the dispatch of a live connection waits, which watches for data or not. -/
def Waits (s : Connection β) (listening : Bool) (items : List (Nat × WriteRequest β)) :
    Option Dispatch → Prop
  | none => True
  | some .readHelper =>
    (listening = true ∨ items ≠ []) ∧ s.requests.tail = s.requests.head
  | some (.writeHelper event req) =>
    s.requests.head = some req ∧ (listening = true ∨ event = .write)
  | _ => False

/-- A live connection with the requests that are pending, which watches for data or not. -/
structure Open (s : Connection β) (listening : Bool) (items : List (Nat × WriteRequest β)) :
    Prop where
  alive : s.alive = true
  calls : s.calls = []
  readCallback : s.readCallback = some readCb
  connectCallback : s.connectCallback = none
  readBuffer : s.readBuffer = BufferImpl.empty
  linked : Requests.Linked s.requests.heap s.requests.head items
  nodup : (items.map Prod.fst).Nodup
  requests : ∀ item ∈ items, item.2.buffer.OneExtent ∧ item.2.callback = some writeCb
  next : ∀ item ∈ items.tail, item.2.buffer.contents ≠ []
  length : items.length ≤ if listening then 1 else 2
  watched : s.watched = interest listening !items.isEmpty
  anchored : listening = true → s.requests.tail = s.requests.head
  waits : s.Waits listening items s.dispatch

/-- The connection was deleted and the dispatch has ended. -/
structure Deleted (s : Connection β) : Prop where
  alive : s.alive = false
  calls : s.calls = []
  dispatch : s.dispatch = none

/-- The trace goes on with events in which these cells are accepted, these bytes are received and
these descriptors are closed. -/
structure Grows (s s' : Connection β) (cells : List (Cell β)) (bytes : List β) (fds : List Int) :
    Prop where
  fd : s'.fd = s.fd
  cells : accepted s'.trace = accepted s.trace ++ cells
  bytes : received s'.trace = received s.trace ++ bytes
  fds : closed s'.trace = closed s.trace ++ fds

lemma Grows.of_append (events : List (Event β)) (hfd : s'.fd = s.fd)
    (htrace : s'.trace = s.trace ++ events) :
    s.Grows s' (accepted events) (received events) (closed events) where
  fd := hfd
  cells := by rw [htrace, accepted_append]
  bytes := by rw [htrace, received_append]
  fds := by rw [htrace, closed_append]

lemma open_acceptCb (fd : Int) : (acceptCb fd : Connection β).Open true [] where
  alive := rfl
  calls := rfl
  readCallback := rfl
  connectCallback := rfl
  readBuffer := rfl
  linked := rfl
  nodup := List.nodup_nil
  requests := fun _ hitem => absurd hitem List.not_mem_nil
  next := fun _ hitem => absurd hitem List.not_mem_nil
  length := Nat.zero_le _
  watched := rfl
  anchored := fun _ => rfl
  waits := trivial

/-! ### The destructor -/

lemma stopRead_eq (s : Connection β) :
    s.stopRead = { s with readCallback := none, watched := s.stopRead.watched } := by
  unfold Stream.stopRead
  split_ifs with hnone
  · rw [Option.isNone_iff_eq_none] at hnone
    rw [← hnone]
  · rfl
  · rfl
  · rfl

/-- The descriptor is closed, if there is one. -/
def closing (s : Connection β) : List (Event β) := if s.fd ≠ -1 then [.xclose s.fd] else []

lemma close_eq (hread : s.readCallback = none) (hconnect : s.connectCallback = none) :
    s.close = { s with watched := .none, trace := s.trace ++ s.closing } := by
  rw [Stream.close_of_none hread, Stream.closeConnect_of_none hconnect, Stream.closeFinish_eq]
  rfl

lemma callable_of_callback (halive : s.alive = true) (hcalls : s.calls = [])
    (hd : s.dispatch = some d) (hcallback : d.isCallback = true) : s.callable = true := by
  rw [Stream.callable, halive, hcalls, hd]
  exact hcallback

/-- The destructor calls no callback, and every method in progress stays where it is. -/
lemma exec_destructor (halive : s.alive = true) (hcalls : s.calls = [])
    (hd : s.dispatch = some d) (hcallback : d.isCallback = true)
    (hconnect : s.connectCallback = none)
    (hlinked : Requests.Linked s.requests.heap s.requests.head items)
    (hnodup : (items.map Prod.fst).Nodup) :
    ∃ requests, Exec.exec Stream.step s destructor = .ok { s with
      alive := false
      readCallback := none
      watched := .none
      requests
      readBuffer := BufferImpl.empty
      trace := s.trace ++ s.closing } := by
  obtain ⟨requests, hloop⟩ :=
    hlinked.consumeAll none hnodup (hlinked.length_le hnodup)
  have hstop : Stream.step s .stopRead =
      .ok { s with readCallback := none, watched := s.stopRead.watched } :=
    (if_pos (callable_of_callback halive hcalls hd hcallback)).trans
      (congrArg Except.ok (stopRead_eq s))
  have hclose : Stream.step
      ({ s with readCallback := none, watched := s.stopRead.watched } : Connection β) .close =
      .ok { s with
        readCallback := none
        watched := .none
        trace := s.trace ++ s.closing } := by
    exact (if_pos (callable_of_callback halive hcalls hd hcallback)).trans
      (congrArg Except.ok (close_eq rfl hconnect))
  refine ⟨requests, ?_⟩
  rw [destructor, Exec.exec_cons_ok hstop, Exec.exec_cons_ok hclose]
  refine Exec.exec_cons_ok ((if_pos (callable_of_callback halive hcalls hd hcallback)).trans ?_)
  exact bind_eq_ok.mpr ⟨(requests, none), hloop, rfl⟩

lemma exec_ret (hcalls : s.calls = []) (hd : s.dispatch = some d) :
    Exec.exec Stream.step s [.ret] = s.resumeDispatch d := by
  have hstep : Stream.step s .ret = s.resumeDispatch d := by
    simp only [Stream.step, Stream.ret, hcalls, hd]
  unfold Exec.exec
  rw [hstep]
  cases s.resumeDispatch d <;> rfl

/-- `delete conn_` in a callback of the stream, up to the return of the callback. -/
lemma exec_delete (halive : s.alive = true) (hcalls : s.calls = [])
    (hd : s.dispatch = some d) (hcallback : d.isCallback = true)
    (hconnect : s.connectCallback = none)
    (hlinked : Requests.Linked s.requests.heap s.requests.head items)
    (hnodup : (items.map Prod.fst).Nodup) :
    ∃ t : Connection β, (t.alive = false ∧ t.calls = [] ∧ t.fd = s.fd ∧
      t.trace = s.trace ++ s.closing) ∧
      Exec.exec Stream.step s (destructor ++ [.ret]) = t.resumeDispatch d := by
  obtain ⟨requests, hexec⟩ := exec_destructor halive hcalls hd hcallback hconnect hlinked hnodup
  refine ⟨_, ?_, (Exec.exec_append_ok hexec).trans (exec_ret hcalls hd)⟩
  exact ⟨rfl, hcalls, rfl, rfl⟩

/-! ### Steps -/

/-- What the requests hold that is to be written. -/
def pending (items : List (Nat × WriteRequest β)) : List (Cell β) :=
  items.flatMap fun item => item.2.buffer.contents

/-- A write fails in a dispatch that goes on to read. -/
def FailsReading (s : Connection β) : ConnectionAct β → Prop
  | .xwrites results =>
    (∃ event req, s.dispatch = some (.writeHelper event req) ∧ event.isRead = true) ∧
      (∃ e, .error e ∈ results) ∧ ∃ s', Stream.step s (.xwrites results) = .ok s'
  | _ => False

/-- A step of a live connection. -/
inductive Effect (s : Connection β) (listening : Bool) (items : List (Nat × WriteRequest β)) :
    ConnectionAct β → Connection β → Prop
  | goesOn {act : ConnectionAct β} {s' : Connection β} {cells : List (Cell β)}
    {items' : List (Nat × WriteRequest β)} (hdata : ∀ bytes, act ≠ .xread (.data bytes))
    (h : s'.Open listening items') (hcells : cells ++ pending items' = pending items)
    (hread : s'.dispatch = some .readHelper → listening = true ∨ s.dispatch = some .readHelper)
    (hgrows : s.Grows s' cells [] []) : Effect s listening items act s'
  | arrived {bytes : List β} {s' : Connection β} {request : WriteRequest β} (hne : bytes ≠ [])
    (hd : s.dispatch = some .readHelper) (hrequest : request.buffer.contents = bytes.map some)
    (h : s'.Open (listening && items.isEmpty)
      (items.take 1 ++ [(s.requests.heap.fresh, request)]))
    (hgrows : s.Grows s' [] bytes []) : Effect s listening items (.xread (.data bytes)) s'
  | ended {result : ReadResult β} {s' : Connection β} (hdata : ∀ bytes, result ≠ .data bytes)
    (hd : s.dispatch = some .readHelper) (h : s'.Deleted)
    (hgrows : s.Grows s' [] [] (closed s.closing)) : Effect s listening items (.xread result) s'
  | failed {results : List WriteResult} {s' : Connection β} {cells : List (Cell β)}
    (hcells : cells <+: pending items) (hresults : ∃ e, WriteResult.error e ∈ results)
    (h : s'.Deleted) (hgrows : s.Grows s' cells [] (closed s.closing)) :
    Effect s listening items (.xwrites results) s'

/-- How a step of a live connection ends. -/
inductive Outcome (s : Connection β) (listening : Bool) (items : List (Nat × WriteRequest β))
    (act : ConnectionAct β) : Prop
  | disabled (h : s.step act = .error .disabled) (hfails : ¬ s.FailsReading act)
  | useAfterFree (h : s.step act = .error .useAfterFree) (hfails : s.FailsReading act)
  | ok {s' : Connection β} (h : s.step act = .ok s') (heffect : s.Effect listening items act s')
    (hfails : ¬ s.FailsReading act)

lemma step_of_error {f : Fault} (h : Stream.step s act.toAct = .error f) :
    s.step act = .error f := by
  rw [step, h, error_bind]

/-- The stream does not take the step. -/
lemma Outcome.of_error (h : Stream.step s act.toAct = .error .disabled) :
    s.Outcome listening items act := by
  refine .disabled (step_of_error h) fun hfails => ?_
  cases act with
  | xwrites results =>
    obtain ⟨-, -, s', hok⟩ := hfails
    cases h.symm.trans hok
  | _ => exact hfails

lemma step_of_ok (h : Stream.step s act.toAct = .ok s') : s.step act = s'.react := by
  rw [step, h, ok_bind]

/-- The stream waits, and no callback was called. -/
lemma react_of_not_callback (h : ∀ d, s.dispatch = some d → d.isCallback = false) :
    s.react = .ok s := by
  unfold react
  cases hd : s.dispatch with
  | none => rfl
  | some d =>
    have hnot := h d hd
    cases d <;> first | rfl | cases hnot

lemma react_of_callback (hd : s.dispatch = some d) :
    s.react = Exec.exec Stream.step s (callback d) := by
  rw [react, hd]

/-- The dispatch goes on, and nothing of the members of the stream changes. -/
lemma Open.of_same (h : s.Open listening items) (halive : s'.alive = s.alive)
    (hcalls : s'.calls = s.calls) (hread : s'.readCallback = s.readCallback)
    (hconnect : s'.connectCallback = s.connectCallback) (hbuffer : s'.readBuffer = s.readBuffer)
    (hrequests : s'.requests = s.requests) (hwatched : s'.watched = s.watched)
    (hwaits : s'.Waits listening items s'.dispatch) : s'.Open listening items where
  alive := halive.trans h.alive
  calls := hcalls.trans h.calls
  readCallback := hread.trans h.readCallback
  connectCallback := hconnect.trans h.connectCallback
  readBuffer := hbuffer.trans h.readBuffer
  linked := hrequests ▸ h.linked
  nodup := h.nodup
  requests := h.requests
  next := h.next
  length := h.length
  watched := hwatched.trans h.watched
  anchored := hrequests ▸ h.anchored
  waits := hwaits

variable (items) in
/-- The end of a dispatch that was on the write side. -/
lemma readyRead_waits (hanchored : listening = true → s.requests.tail = s.requests.head)
    (hevent : listening = true ∨ event = .write) :
    s.Waits listening items (Stream.readyRead s event).dispatch ∧
      ((Stream.readyRead s event).dispatch = some .readHelper → listening = true) := by
  unfold Stream.readyRead
  cases hread : event.isRead with
  | false => exact ⟨trivial, fun heq => by cases heq⟩
  | true =>
    have hlistening : listening = true := by
      rcases hevent with hlistening | rfl
      · exact hlistening
      · cases hread
    exact ⟨⟨.inl hlistening, hanchored hlistening⟩, fun _ => hlistening⟩

lemma isCallback_of_waits (h : s.Waits listening items s.dispatch) :
    ∀ d, s.dispatch = some d → d.isCallback = false := by
  intro d hd
  rw [hd] at h
  cases d <;> first | rfl | exact absurd h id

/-- An event is dispatched to what the connection watches. -/
lemma Open.ready (h : s.Open listening items) : s.Outcome listening items (.ready event) := by
  by_cases hguard : s.alive ∧ s.dispatch = none ∧ s.calls = [] ∧ event ≠ .none ∧
      event.Among s.watched
  · have hstep : Stream.step s (.ready event) = .ok (Stream.ready s event) := if_pos hguard
    have hevent : listening = true ∨ event = .write := by
      have hamong := hguard.2.2.2.2
      have hne := hguard.2.2.2.1
      cases listening with
      | true => exact .inl rfl
      | false =>
        right
        rw [h.watched] at hamong
        cases event with
        | none => exact absurd rfl hne
        | write => rfl
        | read | readWrite =>
          have hread := hamong.1 rfl
          rw [isRead_interest] at hread
          cases hread
    have hwaits : s.Waits listening items (Stream.ready s event).dispatch ∧
        ((Stream.ready s event).dispatch = some .readHelper → listening = true) := by
      unfold Stream.ready
      rw [h.connectCallback]
      split_ifs with hwrite hsome
      · cases hsome
      · unfold Stream.writeHelper
        cases hhead : RequestQueue.head s.requests with
        | none => exact readyRead_waits items h.anchored hevent
        | some req => exact ⟨⟨hhead, hevent⟩, fun heq => by cases heq⟩
      · exact readyRead_waits items h.anchored hevent
    rw [Stream.ready_eq] at hstep
    have hopen : Open { s with dispatch := (Stream.ready s event).dispatch } listening items :=
      h.of_same rfl rfl rfl rfl rfl rfl rfl hwaits.1
    refine .ok ((step_of_ok hstep).trans (react_of_not_callback (isCallback_of_waits hwaits.1)))
      (.goesOn (fun _ heq => by cases heq) hopen (List.nil_append _)
        (fun hd => .inl (hwaits.2 hd)) ?_) id
    exact Grows.of_append [] rfl (List.append_nil _).symm
  · exact .of_error (if_neg hguard)

lemma grows_of_passes {events : List (Event β)} {req : Nat}
    (hpasses : ∀ e ∈ events, e.Passes req) :
    received events = [] ∧ closed events = [] := by
  refine ⟨List.flatMap_eq_nil_iff.mpr fun e he => ?_, List.filterMap_eq_nil_iff.mpr fun e he => ?_⟩
  all_goals
    have hpass := hpasses e he
    cases e <;> first | rfl | cases hpass

lemma resumeDispatch_writeDone (halive : s.alive = true) {next : Option Nat} :
    s.resumeDispatch (.writeDone event next) = .ok (Stream.writeLoop s event next) := by
  cases next with
  | some next => simp [Stream.resumeDispatch, Stream.access, halive]
  | none => simp [Stream.resumeDispatch, Stream.resumeRead, Stream.access, halive, Stream.writeLoop]

lemma pending_cons {req : Nat} {request : WriteRequest β} {rest : List (Nat × WriteRequest β)} :
    pending ((req, request) :: rest) = request.buffer.contents ++ pending rest :=
  List.flatMap_cons

lemma grows_closing (s : Connection β) : accepted s.closing = [] ∧ received s.closing = [] := by
  unfold closing
  split_ifs <;> exact ⟨rfl, rfl⟩

/-- What the destructor adds to the events of a step. -/
lemma Grows.of_deleted (events : List (Event β)) {t : Connection β} (hfd : s'.fd = s.fd)
    (hclosing : t.closing = s.closing) (htrace : s'.trace = s.trace ++ events ++ t.closing)
    (hreceived : received events = []) (hclosed : closed events = []) :
    s.Grows s' (accepted events) [] (closed s.closing) := by
  obtain ⟨haccepted, hreceived'⟩ := grows_closing s
  rw [hclosing, List.append_assoc] at htrace
  have hgrows := Grows.of_append _ hfd htrace
  rwa [accepted_append, received_append, closed_append, haccepted, hreceived, hreceived', hclosed,
    List.append_nil, List.append_nil, List.nil_append] at hgrows

/-- A round on the first of the pending requests. -/
lemma Open.round {req : Nat} {request : WriteRequest β} {rest : List (Nat × WriteRequest β)}
    {results : List WriteResult} (h : s.Open listening ((req, request) :: rest))
    (hevent : listening = true ∨ event = .write)
    (hd : s.dispatch = some (.writeHelper event req))
    (hok : Stream.step s (.xwrites results) = .ok s')
    (hround : s.FirstRound event req writeCb request rest results s') :
    s.Outcome listening ((req, request) :: rest) (.xwrites results) := by
  obtain ⟨hbuffer, hcb⟩ := h.requests _ List.mem_cons_self
  cases hround with
  | @blocked requests buffer events hlinked htail hbuffer' haccepted hpasses hresults =>
    have hhead : requests.head = s.requests.head := hlinked.head_eq.trans h.linked.head_eq.symm
    have hwaits := readyRead_waits ((req, { request with buffer }) :: rest)
      (s := { s with requests, trace := s.trace ++ events })
      (fun hl => (htail.trans (h.anchored hl)).trans hhead.symm) hevent
    refine .ok ((step_of_ok hok).trans (react_of_not_callback (isCallback_of_waits hwaits.1)))
      (.goesOn (fun _ heq => by cases heq)
        (show Open _ listening ((req, { request with buffer }) :: rest) from ?_)
        (show accepted events ++ _ = _ from ?_) (fun hread => .inl (hwaits.2 hread)) ?_)
      (fun hfails => hresults hfails.2.1)
    · exact {
        alive := h.alive
        calls := h.calls
        readCallback := h.readCallback
        connectCallback := h.connectCallback
        readBuffer := h.readBuffer
        linked := hlinked
        nodup := h.nodup
        requests := List.forall_mem_cons.mpr
          ⟨⟨hbuffer', hcb⟩, (List.forall_mem_cons.mp h.requests).2⟩
        next := h.next
        length := h.length
        watched := h.watched
        anchored := fun hl => (htail.trans (h.anchored hl)).trans hhead.symm
        waits := hwaits.1 }
    · rw [pending_cons, pending_cons, ← List.append_assoc, haccepted]
    · obtain ⟨hreceived, hclosed⟩ := grows_of_passes hpasses
      rw [← hreceived, ← hclosed]
      exact Grows.of_append _ rfl rfl
  | @failed requests buffer events hlinked haccepted hpasses hresults =>
    obtain ⟨t, ⟨halive, hcalls, hfd, htrace⟩, hexec⟩ := exec_delete (s := { s with
      requests
      dispatch := some (.writeFailed event)
      trace := s.trace ++ events ++ [.writeError req writeCb "Write failed"] })
      h.alive h.calls rfl rfl h.connectCallback hlinked h.nodup
    have hstep : s.step (.xwrites results) = t.resumeRead event :=
      (step_of_ok hok).trans ((react_of_callback rfl).trans hexec)
    cases hread : event.isRead with
    | true =>
      refine .useAfterFree ?_ ⟨⟨event, req, hd, hread⟩, hresults, _, hok⟩
      rw [hstep, Stream.resumeRead, if_pos hread, Stream.access_of_dead halive]
      rfl
    | false =>
      obtain ⟨hreceived, hclosed⟩ := grows_of_passes hpasses
      have hgrows : s.Grows (Stream.readyRead t event)
          (accepted (events ++ [.writeError req writeCb "Write failed"])) []
          (closed s.closing) := by
        refine Grows.of_deleted _ hfd (t := s) rfl ?_ ?_ ?_
        · rw [← List.append_assoc]
          exact htrace
        · rw [received_append, hreceived]
          rfl
        · rw [closed_append, hclosed]
          rfl
      have hstep' : s.step (.xwrites results) = .ok (Stream.readyRead t event) := by
        rw [hstep, Stream.resumeRead, hread]
        rfl
      refine .ok hstep' (.failed ?_ hresults
        ⟨halive, hcalls, Stream.readyRead_dispatch_eq_none_iff.mpr hread⟩ hgrows) ?_
      · rw [accepted_append, pending_cons, ← haccepted, List.append_assoc]
        exact List.prefix_append_right_inj _ |>.mpr (List.nil_prefix)
      · rintro ⟨⟨event', req', hd', hread'⟩, -⟩
        obtain ⟨rfl, -⟩ := Dispatch.writeHelper.inj (Option.some.inj (hd.symm.trans hd'))
        exact Bool.false_ne_true (hread.symm.trans hread')
  | @completed requests events hlinked htail haccepted hpasses hresults =>
    have hrest : listening = true → rest = [] := by
      intro hl
      have hlength := h.length
      rw [hl, List.length_cons, if_pos rfl] at hlength
      exact List.length_eq_zero_iff.mp (Nat.le_zero.mp (Nat.le_of_succ_le_succ hlength))
    have hanchored : listening = true → requests.tail = requests.head := by
      intro hl
      obtain rfl := hrest hl
      exact (htail rfl).trans hlinked.head_eq.symm
    let t : Connection β := { s with
      requests
      watched := if rest = [] then s.watched.removeWrite else s.watched
      dispatch := some (.writeDone event (rest.head?.map Prod.fst))
      trace := s.trace ++ events ++ [.writeComplete req writeCb] }
    have hwaits : Waits t listening rest
        (Stream.writeLoop t event (rest.head?.map Prod.fst)).dispatch ∧
        ((Stream.writeLoop t event (rest.head?.map Prod.fst)).dispatch = some .readHelper →
          listening = true) := by
      rw [← hlinked.head_eq]
      cases hhead : requests.head with
      | none => exact readyRead_waits rest (s := t) hanchored hevent
      | some next => exact ⟨⟨hhead, hevent⟩, fun heq => by cases heq⟩
    have hstep : s.step (.xwrites results) =
        .ok (Stream.writeLoop t event (rest.head?.map Prod.fst)) := by
      refine (step_of_ok hok).trans ((react_of_callback rfl).trans ?_)
      exact (exec_ret (s := t) h.calls rfl).trans (resumeDispatch_writeDone (s := t) h.alive)
    obtain ⟨dispatch, hdispatch⟩ : ∃ dispatch,
        Stream.writeLoop t event (rest.head?.map Prod.fst) = { t with dispatch } :=
      ⟨_, Stream.writeLoop_eq⟩
    rw [hdispatch] at hwaits hstep
    refine .ok hstep (.goesOn (fun _ heq => by cases heq) (show Open _ listening rest from ?_)
      (show accepted (events ++ [.writeComplete req writeCb]) ++ _ = _ from ?_)
      (fun hread => .inl (hwaits.2 hread)) ?_) (fun hfails => hresults hfails.2.1)
    · exact {
        alive := h.alive
        calls := h.calls
        readCallback := h.readCallback
        connectCallback := h.connectCallback
        readBuffer := h.readBuffer
        linked := hlinked
        nodup := (List.nodup_cons.mp h.nodup).2
        requests := (List.forall_mem_cons.mp h.requests).2
        next := fun item hitem => h.next item (List.mem_of_mem_tail hitem)
        length := Nat.le_trans (Nat.le_succ _) h.length
        watched := by
          cases rest with
          | nil => exact (congrArg What.removeWrite h.watched).trans removeWrite_interest
          | cons item rest => exact h.watched
        anchored := hanchored
        waits := hwaits.1 }
    · rw [accepted_append, haccepted, pending_cons]
      exact congrArg (· ++ pending rest) (List.append_nil _)
    · obtain ⟨hreceived, hclosed⟩ := grows_of_passes hpasses
      have hgrows : s.Grows { t with dispatch } _ _ _ := Grows.of_append
        (events ++ [.writeComplete req writeCb]) rfl (List.append_assoc _ _ _)
      rwa [received_append, closed_append, hreceived, hclosed] at hgrows

/-- A round of the write loop. -/
lemma Open.xwrites {results : List WriteResult} (h : s.Open listening items) :
    s.Outcome listening items (.xwrites results) := by
  have hwaits := h.waits
  cases hd : s.dispatch with
  | none =>
    refine .of_error ?_
    simp [ConnectionAct.toAct, Stream.step, Stream.advance, h.alive, h.calls, hd]
  | some d =>
    rw [hd] at hwaits
    cases d with
    | writeHelper event req =>
      obtain ⟨hhead, hevent⟩ := hwaits
      have hstep : Stream.step s (.xwrites results) = Stream.xwrites s event req results := by
        simp [Stream.step, Stream.advance, h.alive, h.calls, hd]
      obtain ⟨item, rest, rfl⟩ : ∃ item rest, items = item :: rest := by
        cases items with
        | nil => exact absurd (hhead.symm.trans h.linked.head_eq) (by simp)
        | cons item rest => exact ⟨item, rest, rfl⟩
      obtain ⟨a, request⟩ := item
      obtain rfl : req = a := Option.some.inj (hhead.symm.trans h.linked.head_eq)
      obtain ⟨hbuffer, hcb⟩ := h.requests _ List.mem_cons_self
      have hrounds : Stream.xwrites s event req results = .error .disabled ∨ _ :=
        Stream.firstRound_of_xwrites h.linked h.nodup hbuffer hcb
      rcases hrounds with hdisabled | ⟨s', hx, hround⟩
      · exact .of_error (hstep.trans hdisabled)
      · exact h.round hevent hd (hstep.trans hx) hround
    | readHelper =>
      refine .of_error ?_
      simp [ConnectionAct.toAct, Stream.step, Stream.advance, h.alive, h.calls, hd]
    | _ => exact absurd hwaits id

/-- `eof` or `error` of the read callback deletes the connection. -/
lemma Open.readEnded {result : ReadResult β} (events : List (Event β))
    (h : s.Open listening items) (hd : s.dispatch = some .readHelper)
    (hdata : ∀ bytes, result ≠ .data bytes) (haccepted : accepted events = [])
    (hreceived : received events = []) (hclosed : closed events = [])
    (hok : Stream.step s (.xread result) =
      .ok { s with dispatch := some .readEnded, trace := s.trace ++ events }) :
    s.Outcome listening items (.xread result) := by
  obtain ⟨t, ⟨halive, hcalls, hfd, htrace⟩, hexec⟩ := exec_delete
    (s := { s with dispatch := some .readEnded, trace := s.trace ++ events })
    h.alive h.calls rfl rfl h.connectCallback h.linked h.nodup
  have hstep : s.step (.xread result) = .ok { t with dispatch := none } :=
    (step_of_ok hok).trans ((react_of_callback rfl).trans hexec)
  refine .ok hstep (.ended hdata hd ⟨halive, hcalls, rfl⟩ ?_) id
  have hgrows : s.Grows { t with dispatch := none } _ _ _ :=
    Grows.of_deleted events hfd (t := s) rfl htrace hreceived hclosed
  rwa [haccepted] at hgrows

/-- The buffer that `available` writes is what was just received. -/
lemma appendBuffer_of_append {bytes : List β} {buffer : BufferImpl β} (hne : bytes ≠ [])
    (h : BufferImpl.empty.append bytes = .ok buffer) :
    ∃ written : BufferImpl β, BufferImpl.empty.appendBuffer buffer = (written, BufferImpl.empty) ∧
      written.OneExtent ∧ written.contents = bytes.map some := by
  obtain ⟨hbuffer, hcontents⟩ := BufferImpl.oneExtent_append h
  have hextents : buffer.extents ≠ [] := by
    intro hnil
    rw [BufferImpl.contents_eq, hnil, BufferImpl.unreadCells_nil] at hcontents
    exact hne (List.map_eq_nil_iff.mp hcontents.symm)
  have heq : BufferImpl.empty.appendBuffer buffer =
      (⟨buffer.extents, SizeT.add 0 buffer.size⟩, BufferImpl.empty) :=
    if_neg fun hempty => hextents (List.isEmpty_iff.mp hempty)
  obtain ⟨hsound, hlength⟩ := Stream.splice_empty_spec hbuffer.sound hbuffer.length
  rw [heq] at hsound hlength
  exact ⟨_, heq, ⟨hsound, hbuffer.extents, hlength⟩, hcontents⟩

/-- The chunk is written back, behind the first of the requests that are pending. -/
lemma Open.arrives {bytes : List β} {buffer : BufferImpl β} (events : List (Event β))
    (h : s.Open listening items) (hd : s.dispatch = some .readHelper) (hne : bytes ≠ [])
    (hbuffer : BufferImpl.empty.append bytes = .ok buffer)
    (haccepted : accepted events = []) (hreceived : received events = bytes)
    (hclosed : closed events = [])
    (hok : Stream.step s (.xread (.data bytes)) = .ok { s with
      readBuffer := buffer
      dispatch := some (.readAvailable bytes.length)
      trace := s.trace ++ events }) :
    s.Outcome listening items (.xread (.data bytes)) := by
  obtain ⟨written, happend, hwritten, hcontents⟩ := appendBuffer_of_append hne hbuffer
  have hanchored : s.requests.tail = s.requests.head := by
    have hwaits := h.waits
    rw [hd] at hwaits
    exact hwaits.2
  obtain ⟨requests, hqueue, hlinked, htail⟩ :=
    h.linked.append_anchored hanchored ⟨written, some writeCb⟩
  -- the call of `write`, with the read buffer moved to the new request
  let t : Connection β := { s with
    requests
    watched := s.watched.ensureWrite
    readBuffer := BufferImpl.empty
    dispatch := some (.readAvailable bytes.length)
    trace := s.trace ++ events ++ [.write s.requests.heap.fresh written.contents (some writeCb)] }
  have hwrite : Stream.step ({ s with
      readBuffer := buffer
      dispatch := some (.readAvailable bytes.length)
      trace := s.trace ++ events } : Connection β) (.writeReadBuffer (some writeCb)) = .ok t := by
    have hin : Stream.inAvailable ({ s with
        readBuffer := buffer
        dispatch := some (.readAvailable bytes.length)
        trace := s.trace ++ events } : Connection β) = true := by
      simp [Stream.inAvailable, h.alive, h.calls]
    refine (if_pos hin).trans ?_
    simp only [Stream.useReadBuffer, happend]
    exact bind_eq_ok.mpr ⟨requests, hqueue, rfl⟩
  let dispatch : Option Dispatch :=
    if bytes.length < Stream.readSize then none else some .readHelper
  have hret : Exec.exec Stream.step t [.ret] = .ok { t with dispatch } := by
    refine (exec_ret (s := t) h.calls rfl).trans ?_
    simp only [Stream.resumeDispatch, Stream.access, t, h.alive, dispatch]
    split_ifs <;> rfl
  have hstep : s.step (.xread (.data bytes)) = .ok { t with dispatch } := by
    refine (step_of_ok hok).trans ((react_of_callback rfl).trans ?_)
    exact (Exec.exec_cons_ok hwrite).trans hret
  refine .ok hstep (.arrived hne hd
    (show (WriteRequest.mk written (some writeCb)).buffer.contents = _ from hcontents) ?_ ?_) id
  · have hfull : written.contents ≠ [] := by
      rw [hcontents]
      exact fun hnil => hne (List.map_eq_nil_iff.mp hnil)
    exact {
      alive := h.alive
      calls := h.calls
      readCallback := h.readCallback
      connectCallback := h.connectCallback
      readBuffer := rfl
      linked := hlinked
      nodup := h.linked.nodup_append
      requests := List.forall_mem_append.mpr
        ⟨fun item hitem => h.requests item (List.mem_of_mem_take hitem),
          List.forall_mem_singleton.mpr ⟨hwritten, rfl⟩⟩
      next := by
        cases items with
        | nil => exact fun _ hitem => absurd hitem List.not_mem_nil
        | cons item rest => exact List.forall_mem_singleton.mpr hfull
      length := by
        cases items <;> cases listening <;> simp
      watched := by
        refine (congrArg What.ensureWrite h.watched).trans (ensureWrite_interest.trans ?_)
        cases items <;> simp
      anchored := fun _ => htail
      waits := by
        change Waits _ _ _ dispatch
        unfold dispatch
        split_ifs
        · trivial
        · exact ⟨.inr (by simp), htail⟩ }
  · have hgrows : s.Grows { t with dispatch } _ _ _ := Grows.of_append (events ++
      [.write s.requests.heap.fresh written.contents (some writeCb)]) rfl (List.append_assoc _ _ _)
    have hbytes : bytes ++ received [.write s.requests.heap.fresh written.contents (some writeCb)] =
        bytes := List.append_nil _
    rwa [accepted_append, received_append, closed_append, haccepted, hreceived, hclosed, hbytes]
      at hgrows

/-- The return of `xread`. -/
lemma Open.xread {result : ReadResult β} (h : s.Open listening items) :
    s.Outcome listening items (.xread result) := by
  by_cases hd : s.dispatch = some .readHelper
  · have hstep : Stream.step s (.xread result) = Stream.xread s result := by
      simp [Stream.step, Stream.advance, h.alive, h.calls, hd]
    cases result with
    | error e =>
      cases he : isReadRetryable e with
      | true =>
        have hok : Stream.step s (.xread (.error e)) = .ok { s with
            dispatch := none
            trace := s.trace ++ [.xread s.fd (.error e) s.readCallback] } := by
          rw [hstep]
          simp [Stream.xread, he]
        have hopen : Open { s with
            dispatch := none
            trace := s.trace ++ [.xread s.fd (.error e) s.readCallback] } listening items :=
          h.of_same rfl rfl rfl rfl rfl rfl rfl trivial
        exact .ok ((step_of_ok hok).trans rfl) (.goesOn (fun _ heq => by cases heq) hopen
          (List.nil_append _) (fun heq => by cases heq)
          (Grows.of_append [.xread s.fd (.error e) s.readCallback] rfl rfl)) id
      | false =>
        refine h.readEnded [.xread s.fd (.error e) s.readCallback,
          .readError readCb "Read failed"] hd (fun _ heq => by cases heq) rfl rfl rfl ?_
        rw [hstep]
        simp [Stream.xread, he, h.readCallback]
    | eof =>
      refine h.readEnded [.xread s.fd .eof s.readCallback, .eof readCb true] hd
        (fun _ heq => by cases heq) rfl rfl rfl ?_
      rw [hstep]
      simp [Stream.xread, h.readCallback]
    | data bytes =>
      by_cases hlen : 0 < bytes.length ∧ bytes.length ≤ Stream.readSize
      · obtain ⟨buffer, hbuffer⟩ : ∃ buffer : BufferImpl β,
            BufferImpl.empty.append bytes = .ok buffer :=
          ⟨_, BufferImpl.append_of_spare_eq_zero rfl (Nat.lt_of_le_of_lt hlen.2 (by decide))⟩
        refine h.arrives [.xread s.fd (.data bytes) s.readCallback,
          .available readCb buffer] hd (List.ne_nil_of_length_pos hlen.1) hbuffer rfl
          (List.append_nil _) rfl ?_
        rw [hstep]
        simp [Stream.xread, hlen, h.readBuffer, hbuffer, h.readCallback]
      · refine .of_error (hstep.trans ?_)
        simp only [Stream.xread]
        rw [if_neg hlen]
  · refine .of_error ?_
    have hwaits := h.waits
    simp only [ConnectionAct.toAct, Stream.step]
    rw [if_pos ⟨h.alive, h.calls⟩]
    unfold Stream.advance
    split
    · rename_i heq _
      cases heq
    · rename_i heq _
      cases heq
    · rename_i hread
      exact absurd hread hd
    · rfl

/-- A step of a live connection ends in one of these ways. -/
theorem Open.outcome (h : s.Open listening items) (act : ConnectionAct β) :
    s.Outcome listening items act := by
  cases act with
  | ready event => exact h.ready
  | xwrites results => exact h.xwrites
  | xread result => exact h.xread

/-- A deleted connection takes no step. -/
lemma Deleted.step (h : s.Deleted) (act : ConnectionAct β) : s.step act = .error .disabled := by
  refine step_of_error (Stream.step_of_dead h.alive fun heq => ?_)
  cases act <;> cases heq

end Connection

end WhatTheEvent
