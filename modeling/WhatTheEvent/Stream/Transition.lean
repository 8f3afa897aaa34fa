import WhatTheEvent.Stream.Basic

/-!
# What a step can do

Most steps touch neither the requests nor the read buffer and leave only the control flow changed:
they are `Quiet`. `step_cases` says what the others are.
-/

namespace WhatTheEvent

variable {β Q : Type}

/-- Events about a write request. -/
def Event.onWriteSide : Event β → Bool
  | .write _ _ _ => true
  | .xwrite _ _ _ _ => true
  | .writeComplete _ _ => true
  | .writeError _ _ _ => true
  | _ => false

/-- Events about data received, or the end of it. -/
def Event.onReadSide : Event β → Bool
  | .xread _ _ _ => true
  | .available _ _ => true
  | .eof _ fromXread => fromXread
  | .readError _ _ => true
  | _ => false

namespace Stream

variable {s s' : Stream Q β} {act : Act β} {event : What} {d : Dispatch}

/-- The trace goes on with events that are on neither side. -/
def ControlEvents (s s' : Stream Q β) : Prop :=
  ∃ events, s'.trace = s.trace ++ events ∧
    ∀ e ∈ events, e.onWriteSide = false ∧ e.onReadSide = false

lemma ControlEvents.of_eq (h : s'.trace = s.trace) : s.ControlEvents s' :=
  ⟨[], by rw [h, List.append_nil], fun _ he => absurd he List.not_mem_nil⟩

lemma ControlEvents.of_concat {e : Event β} (h : s'.trace = s.trace ++ [e])
    (hw : e.onWriteSide = false) (hr : e.onReadSide = false) : s.ControlEvents s' :=
  ⟨[e], h, List.forall_mem_singleton.mpr ⟨hw, hr⟩⟩

lemma access_map_eq_ok {f : Stream Q β → Stream Q β} :
    s.access.map f = .ok s' ↔ s.alive = true ∧ f s = s' := by
  unfold access
  cases s.alive <;> simp [Except.map]

/-! ### Reading -/

/-- The outcomes of `xread`, by what `readHelper` does next. -/
inductive ReadStep (s : Stream Q β) : ReadResult β → Stream Q β → Prop
  | ended {result : ReadResult β} (hdata : ∀ bytes, result ≠ .data bytes)
    (heof : result = .eof → s.readCallback = none) :
    ReadStep s result { s with
      dispatch := none
      trace := s.trace ++ [.xread s.fd result s.readCallback] }
  | failed {e : Errno} {cb : Nat} (hcb : s.readCallback = some cb) :
    ReadStep s (.error e) { s with
      dispatch := some .readEnded
      trace := s.trace ++ [.xread s.fd (.error e) s.readCallback] ++ [.readError cb "Read failed"] }
  | eof {cb : Nat} (hcb : s.readCallback = some cb) :
    ReadStep s .eof { s with
      dispatch := some .readEnded
      trace := s.trace ++ [.xread s.fd .eof s.readCallback] ++ [.eof cb true] }
  | available {bytes : List β} {cb : Nat} {readBuffer : BufferImpl β}
    (hlen : 0 < bytes.length ∧ bytes.length ≤ readSize)
    (happend : s.readBuffer.append bytes = .ok readBuffer) (hcb : s.readCallback = some cb) :
    ReadStep s (.data bytes) { s with
      readBuffer
      dispatch := some (.readAvailable bytes.length)
      trace := s.trace ++ [.xread s.fd (.data bytes) s.readCallback] ++
        [.available cb readBuffer] }
  | kept {bytes : List β} {readBuffer : BufferImpl β}
    (hlen : 0 < bytes.length ∧ bytes.length ≤ readSize)
    (happend : s.readBuffer.append bytes = .ok readBuffer) (hcb : s.readCallback = none) :
    ReadStep s (.data bytes) { s with
      readBuffer
      dispatch := if bytes.length < readSize then none else some .readHelper
      trace := s.trace ++ [.xread s.fd (.data bytes) s.readCallback] }

theorem xread_cases {result : ReadResult β} (h : s.xread result = .ok s') :
    s.ReadStep result s' := by
  cases result with
  | error e =>
    simp only [xread] at h
    split at h
    · rename_i cb _ hcb
      obtain rfl := Except.ok.inj h
      exact .failed hcb
    · obtain rfl := Except.ok.inj h
      exact .ended (fun _ hd => nomatch hd) (fun he => nomatch he)
  | eof =>
    simp only [xread] at h
    split at h
    · rename_i cb hcb
      obtain rfl := Except.ok.inj h
      exact .eof hcb
    · rename_i hcb
      obtain rfl := Except.ok.inj h
      exact .ended (fun _ hd => nomatch hd) (fun _ => hcb)
  | data bytes =>
    simp only [xread] at h
    by_cases hlen : 0 < bytes.length ∧ bytes.length ≤ readSize
    · rw [if_pos hlen] at h
      obtain ⟨readBuffer, happend, h⟩ := bind_eq_ok.mp h
      split at h
      · rename_i cb hcb
        obtain rfl := Except.ok.inj h
        exact .available hlen happend hcb
      · rename_i hcb
        obtain rfl := Except.ok.inj h
        exact .kept hlen happend hcb
    · rw [if_neg hlen] at h
      cases h

/-! ### Steps -/

variable [RequestQueue Q (WriteRequest β)]

/-- How a dispatch can get to the point `d` without `xread` or `xwrite`. -/
inductive Entered (s : Stream Q β) : Dispatch → Prop
  | connectHelper {event : What} : Entered s (.connectHelper event)
  | connectDone {event : What} : Entered s (.connectDone event)
  | readHelper : Entered s .readHelper
  | writeHelper {event : What} {req : Nat} (h : RequestQueue.head s.requests = some req) :
    Entered s (.writeHelper event req)
  | writeNext {event event' : What} {req : Nat}
    (h : s.dispatch = some (.writeDone event' (some req))) : Entered s (.writeHelper event req)

/-- The requests and the read buffer stay as they are. -/
structure Quiet (s s' : Stream Q β) : Prop where
  alive : s'.alive = s.alive
  requests : s'.requests = s.requests
  readBuffer : s'.readBuffer = s.readBuffer
  trace : s.ControlEvents s'
  dispatch : ∀ d, s'.dispatch = some d → s.dispatch = some d ∨ s.Entered d

lemma quiet_startRead (callback : Option Nat) : s.Quiet (s.startRead callback) := by
  unfold startRead
  split_ifs
  · exact ⟨rfl, rfl, rfl, .of_eq rfl, fun d hd => Or.inl hd⟩
  · exact ⟨rfl, rfl, rfl, .of_eq rfl, fun d hd => Or.inl hd⟩

lemma quiet_stopRead : s.Quiet s.stopRead := by
  unfold stopRead
  split_ifs
  all_goals exact ⟨rfl, rfl, rfl, .of_eq rfl, fun d hd => Or.inl hd⟩

lemma quiet_closeFinish : s.Quiet s.closeFinish := by
  unfold closeFinish
  by_cases hfd : s.fd ≠ -1
  · rw [if_pos hfd]
    exact ⟨rfl, rfl, rfl, .of_concat rfl rfl rfl, fun d hd => Or.inl hd⟩
  · rw [if_neg hfd]
    exact ⟨rfl, rfl, rfl, .of_eq rfl, fun d hd => Or.inl hd⟩

lemma quiet_closeConnect : s.Quiet s.closeConnect := by
  unfold closeConnect
  cases s.connectCallback with
  | none => exact quiet_closeFinish
  | some cb => exact ⟨rfl, rfl, rfl, .of_concat rfl rfl rfl, fun d hd => Or.inl hd⟩

lemma quiet_close : s.Quiet s.close := by
  unfold close
  cases s.readCallback with
  | none => exact quiet_closeConnect
  | some cb => exact ⟨rfl, rfl, rfl, .of_concat rfl rfl rfl, fun d hd => Or.inl hd⟩

lemma quiet_connectFail (fd : Int) (callback : Nat) (error : String) :
    s.Quiet (s.connectFail fd callback error) := by
  refine ⟨rfl, rfl, rfl, ⟨(if fd = -1 then [] else [.xclose fd]) ++ [.connectError callback error],
    by rw [connectFail, List.append_assoc], ?_⟩, fun d hd => Or.inl hd⟩
  intro e he
  rcases List.mem_append.mp he with he | he
  · split_ifs at he
    · exact absurd he List.not_mem_nil
    · rw [List.mem_singleton.mp he]
      exact ⟨rfl, rfl⟩
  · rw [List.mem_singleton.mp he]
    exact ⟨rfl, rfl⟩

lemma quiet_connect {results : ConnectResults} {callback : Nat}
    (h : s.connect results callback = .ok s') : s.Quiet s' := by
  simp only [connect] at h
  split_ifs at h
  all_goals obtain rfl := Except.ok.inj h
  · exact quiet_connectFail _ _ _
  · exact quiet_connectFail _ _ _
  · exact quiet_connectFail _ _ _
  · exact ⟨rfl, rfl, rfl, .of_eq rfl, fun d hd => Or.inl hd⟩
  · exact quiet_connectFail _ _ _
  · exact ⟨rfl, rfl, rfl, .of_concat rfl rfl rfl, fun d hd => Or.inl hd⟩

lemma quiet_readyRead : s.Quiet (s.readyRead event) := by
  refine ⟨rfl, rfl, rfl, .of_eq rfl, fun d hd => Or.inr ?_⟩
  unfold readyRead at hd
  split_ifs at hd
  obtain rfl := Option.some.inj hd
  exact .readHelper

lemma quiet_writeHelper : s.Quiet (s.writeHelper event) := by
  unfold writeHelper
  cases hhead : RequestQueue.head s.requests with
  | none => exact quiet_readyRead
  | some req =>
    refine ⟨rfl, rfl, rfl, .of_eq rfl, fun d hd => Or.inr ?_⟩
    obtain rfl := Option.some.inj hd
    exact .writeHelper hhead

lemma quiet_ready : s.Quiet (s.ready event) := by
  unfold ready
  split_ifs
  · refine ⟨rfl, rfl, rfl, .of_eq rfl, fun d hd => Or.inr ?_⟩
    obtain rfl := Option.some.inj hd
    exact .connectHelper
  · exact quiet_writeHelper
  · exact quiet_readyRead

lemma quiet_getsockopt {rc err : Int} (h : s.getsockopt event rc err = .ok s') : s.Quiet s' := by
  unfold getsockopt at h
  cases hcb : s.connectCallback with
  | none =>
    rw [hcb] at h
    cases h
  | some cb =>
    rw [hcb] at h
    obtain rfl := Except.ok.inj h
    refine ⟨rfl, rfl, rfl, .of_concat rfl ?_ ?_, fun d hd => Or.inr ?_⟩
    · split <;> rfl
    · split <;> rfl
    · obtain rfl := Option.some.inj hd
      exact .connectDone

lemma quiet_resumeRead (h : s.resumeRead event = .ok s') : s.Quiet s' := by
  unfold resumeRead at h
  split_ifs at h
  · obtain ⟨-, rfl⟩ := access_map_eq_ok.mp h
    exact quiet_readyRead
  · obtain rfl := Except.ok.inj h
    exact quiet_readyRead

lemma quiet_resumeDispatch (hs : s.dispatch = some d) (h : s.resumeDispatch d = .ok s') :
    s.Quiet s' := by
  cases d with
  | connectDone event =>
    obtain ⟨-, rfl⟩ := access_map_eq_ok.mp h
    exact quiet_writeHelper
  | writeDone event next =>
    cases next with
    | none => exact quiet_resumeRead h
    | some req =>
      obtain ⟨-, rfl⟩ := access_map_eq_ok.mp h
      refine ⟨rfl, rfl, rfl, .of_eq rfl, fun d hd => Or.inr ?_⟩
      obtain rfl := Option.some.inj hd
      exact .writeNext hs
  | writeFailed event => exact quiet_resumeRead h
  | readAvailable nread =>
    simp only [resumeDispatch] at h
    split_ifs at h
    · obtain rfl := Except.ok.inj h
      exact ⟨rfl, rfl, rfl, .of_eq rfl, fun d hd => nomatch hd⟩
    · obtain ⟨-, rfl⟩ := access_map_eq_ok.mp h
      refine ⟨rfl, rfl, rfl, .of_eq rfl, fun d hd => Or.inr ?_⟩
      obtain rfl := Option.some.inj hd
      exact .readHelper
  | readEnded =>
    obtain rfl := Except.ok.inj h
    exact ⟨rfl, rfl, rfl, .of_eq rfl, fun d hd => nomatch hd⟩
  | connectHelper event => cases h
  | writeHelper event req => cases h
  | readHelper => cases h

/-- A change of the pending calls alone is not seen. -/
lemma Quiet.of_calls (calls : List PendingCall) (h : { s with calls }.Quiet s') : s.Quiet s' := by
  obtain ⟨halive, hreq, hbuf, htrace, hdispatch⟩ := h
  refine ⟨halive, hreq, hbuf, htrace, fun d hd => (hdispatch d hd).imp_right fun he => ?_⟩
  cases he with
  | connectHelper => exact .connectHelper
  | connectDone => exact .connectDone
  | readHelper => exact .readHelper
  | writeHelper hhead => exact .writeHelper hhead
  | writeNext hnext => exact .writeNext hnext

lemma quiet_resumeCall {c : PendingCall} (h : s.resumeCall c = .ok s') : s.Quiet s' := by
  cases c with
  | closeRead =>
    obtain ⟨-, rfl⟩ := access_map_eq_ok.mp h
    exact quiet_closeConnect
  | closeConnect =>
    obtain ⟨-, rfl⟩ := access_map_eq_ok.mp h
    exact quiet_closeFinish
  | connect =>
    obtain rfl := Except.ok.inj h
    exact ⟨rfl, rfl, rfl, .of_eq rfl, fun d hd => Or.inl hd⟩

lemma quiet_ret (h : s.ret = .ok s') : s.Quiet s' := by
  unfold ret at h
  cases hc : s.calls with
  | cons c calls =>
    rw [hc] at h
    exact .of_calls calls (quiet_resumeCall h)
  | nil =>
    cases hd : s.dispatch with
    | none =>
      rw [hc, hd] at h
      cases h
    | some d =>
      rw [hc, hd] at h
      exact quiet_resumeDispatch hd h

/-- The steps, by what they do to the requests and the read buffer. -/
inductive Transition (s : Stream Q β) : Act β → Stream Q β → Prop
  | quiet {act : Act β} {s' : Stream Q β} (h : s.Quiet s') : Transition s act s'
  | write {buf : List β} {buffer : BufferImpl β} {callback : Option Nat} {s' : Stream Q β}
    (hbuffer : BufferImpl.empty.append buf = .ok buffer)
    (h : s.queueWrite buffer callback = .ok s') : Transition s (.write buf callback) s'
  | writeBuffer {source : BufferImpl β} {callback : Option Nat} {s' : Stream Q β}
    (h : s.queueWrite (BufferImpl.empty.appendBuffer source).1 callback = .ok s') :
    Transition s (.writeBuffer source callback) s'
  | writeReadBuffer {callback : Option Nat} {s' : Stream Q β} (ha : s.inAvailable = true)
    (h : { s with readBuffer := (BufferImpl.empty.appendBuffer s.readBuffer).2 }.queueWrite
      (BufferImpl.empty.appendBuffer s.readBuffer).1 callback = .ok s') :
    Transition s (.writeReadBuffer callback) s'
  | readBuffer {c : Call β} {readBuffer : BufferImpl β} {results : List (Result β)}
    (ha : s.inAvailable = true) (hres : c.reserves = false)
    (hpayload : c.payload.length < SizeT.objectLimit)
    (h : s.readBuffer.call c = .ok (readBuffer, results)) :
    Transition s (.readBuffer c) { s with readBuffer }
  | moveReadBuffer (ha : s.inAvailable = true) :
    Transition s .moveReadBuffer { s with readBuffer := BufferImpl.empty }
  | xwrites {event : What} {req : Nat} {results : List WriteResult} {s' : Stream Q β}
    (ha : s.alive = true) (hd : s.dispatch = some (.writeHelper event req))
    (h : s.xwrites event req results = .ok s') : Transition s (.xwrites results) s'
  | xread {result : ReadResult β} {s' : Stream Q β} (ha : s.alive = true)
    (hd : s.dispatch = some .readHelper) (h : s.xread result = .ok s') :
    Transition s (.xread result) s'
  | destroy {s' : Stream Q β} (h : s.destroy = .ok s') : Transition s .destroy s'

lemma call_cases (h : s.call act = .ok s') : s.Transition act s' := by
  cases act with
  | write buf callback =>
    obtain ⟨buffer, hbuffer, hqueue⟩ := bind_eq_ok.mp h
    exact .write hbuffer hqueue
  | writeBuffer source callback => exact .writeBuffer h
  | startRead callback =>
    obtain rfl := Except.ok.inj h
    exact .quiet (quiet_startRead callback)
  | stopRead =>
    obtain rfl := Except.ok.inj h
    exact .quiet quiet_stopRead
  | close =>
    obtain rfl := Except.ok.inj h
    exact .quiet quiet_close
  | connect results callback => exact .quiet (quiet_connect h)
  | destroy => exact .destroy h
  | _ => cases h

lemma useReadBuffer_cases (ha : s.inAvailable = true) (h : s.useReadBuffer act = .ok s') :
    s.Transition act s' := by
  cases act with
  | writeReadBuffer callback => exact .writeReadBuffer ha h
  | readBuffer c =>
    simp only [useReadBuffer] at h
    split_ifs at h with hc
    obtain ⟨⟨readBuffer, results⟩, hcall, rfl⟩ := map_eq_ok.mp h
    exact .readBuffer ha hc.1 hc.2 hcall
  | moveReadBuffer =>
    obtain rfl := Except.ok.inj h
    exact .moveReadBuffer ha
  | _ => cases h

lemma advance_cases (ha : s.alive = true) (h : s.advance act = .ok s') : s.Transition act s' := by
  unfold advance at h
  split at h
  · exact .quiet (quiet_getsockopt h)
  · rename_i hd
    exact .xwrites ha hd h
  · rename_i hd
    exact .xread ha hd h
  · cases h

/-- Every step is one of the transitions. -/
theorem step_cases (h : s.step act = .ok s') : s.Transition act s' := by
  have hcall : ∀ {a : Act β}, (if s.callable then s.call a else .error .disabled) = .ok s' →
      s.Transition a s' := by
    intro a ha
    split_ifs at ha
    exact call_cases ha
  have huse : ∀ {a : Act β}, (if s.inAvailable then s.useReadBuffer a else .error .disabled) =
      .ok s' → s.Transition a s' := by
    intro a ha
    split_ifs at ha with hin
    exact useReadBuffer_cases hin ha
  have hadvance : ∀ {a : Act β}, (if s.alive ∧ s.calls = [] then s.advance a
      else .error .disabled) = .ok s' → s.Transition a s' := by
    intro a ha
    split_ifs at ha with hin
    exact advance_cases hin.1 ha
  cases act with
  | ready event =>
    simp only [step] at h
    split_ifs at h
    obtain rfl := Except.ok.inj h
    exact .quiet quiet_ready
  | getsockopt rc err => exact hadvance h
  | xwrites results => exact hadvance h
  | xread result => exact hadvance h
  | ret => exact .quiet (quiet_ret h)
  | writeReadBuffer callback => exact huse h
  | readBuffer c => exact huse h
  | moveReadBuffer => exact huse h
  | _ => exact hcall h

/-- A round of the write loop is nothing else. -/
lemma step_xwrites {results : List WriteResult} (h : s.step (.xwrites results) = .ok s') :
    s.alive = true ∧ ∃ event req, s.dispatch = some (.writeHelper event req) ∧
      s.xwrites event req results = .ok s' := by
  simp only [step] at h
  split_ifs at h with hin
  refine ⟨hin.1, ?_⟩
  unfold advance at h
  split at h
  · rename_i heq _
    cases heq
  · rename_i event req heq hd
    obtain rfl := Act.xwrites.inj heq
    exact ⟨event, req, hd, h⟩
  · rename_i heq _
    cases heq
  · cases h

/-- Neither is the return of `xread`. -/
lemma step_xread {result : ReadResult β} (h : s.step (.xread result) = .ok s') :
    s.alive = true ∧ s.xread result = .ok s' := by
  simp only [step] at h
  split_ifs at h with hin
  refine ⟨hin.1, ?_⟩
  unfold advance at h
  split at h
  · rename_i heq _
    cases heq
  · rename_i heq _
    cases heq
  · rename_i heq _
    obtain rfl := Act.xread.inj heq
    exact h
  · cases h

end Stream

end WhatTheEvent
