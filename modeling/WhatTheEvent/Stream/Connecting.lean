import WhatTheEvent.Stream.Interest

/-!
# The outcome of a connect

A connect has at most one outcome, and `complete()` only if the socket is connected, in exactly
those runs in which no `SO_ERROR` is obtained and `close` is followed by nothing that gets to the
connect callback.
-/

namespace WhatTheEvent

variable {β Q : Type}

/-- The event is a call of the connect callback. -/
def Event.isConnectOutcome : Event β → Bool
  | .connectComplete _ => true
  | .connectError _ _ => true
  | _ => false

def Act.isConnect : Act β → Bool
  | .connect _ _ => true
  | _ => false

/-- `::connect` returns `0` or `-1`. -/
def Act.Documented : Act β → Prop
  | .connect results _ => results.connect = 0 ∨ results.connect = -1
  | _ => True

namespace Stream

variable {s s' : Stream Q β} {act : Act β} {event : What} {events : List (Event β)}

/-- What has happened from `s` to `s'`. -/
def emitted (s s' : Stream Q β) : List (Event β) := s'.trace.drop s.trace.length

lemma emitted_eq (h : s'.trace = s.trace ++ events) : s.emitted s' = events := by
  rw [emitted, h, List.drop_left]

/-- How often the connect callback was called. -/
def outcomes (s : Stream Q β) : Nat := s.trace.countP Event.isConnectOutcome

lemma outcomes_append (h : s'.trace = s.trace ++ events) :
    s'.outcomes = s.outcomes + events.countP Event.isConnectOutcome := by
  rw [outcomes, h, List.countP_append]
  rfl

lemma outcomes_of_silent (h : s'.trace = s.trace ++ events)
    (hsilent : ∀ e ∈ events, e.isConnectOutcome = false) : s'.outcomes = s.outcomes := by
  have hzero : events.countP Event.isConnectOutcome = 0 := List.countP_eq_zero.mpr fun e he => by
    rw [hsilent e he]
    exact Bool.false_ne_true
  rw [outcomes_append h, hzero, Nat.add_zero]

/-- What a step may tell the connect callback: `complete()` if `::connect` has returned `0` or the
`SO_ERROR` is `0`, and `error()` from `connect` with the new socket closed and nothing changed. -/
structure Reports (s : Stream Q β) (act : Act β) (s' : Stream Q β) : Prop where
  complete : ∀ cb, .connectComplete cb ∈ s.emitted s' →
    (∃ results callback, act = .connect results callback ∧ results.connect = 0) ∨
      ∃ rc, rc ≠ -1 ∧ act = .getsockopt rc 0
  failed : ∀ results callback message, act = .connect results callback →
    .connectError callback message ∈ s.emitted s' →
    s'.fd = s.fd ∧ s'.watched = s.watched ∧ s'.connectCallback = s.connectCallback ∧
      (results.socket ≠ -1 → .xclose results.socket ∈ s.emitted s')

/-- `close` has told the connect callback. -/
def Told (s : Stream Q β) : Prop := ∃ cb, .connectError cb "Closed before connect" ∈ s.trace

/-- The step gets to the connect callback if there is one. -/
def GetsToConnect (s : Stream Q β) : Act β → Prop
  | .getsockopt _ _ => True
  | .close => s.readCallback = none
  | .ret => ∃ calls, s.calls = .closeRead :: calls
  | _ => False

/-- Only a read callback that `close` has called returns to the test of the connect callback. -/
lemma not_getsToConnect_ret {c : PendingCall} {calls : List PendingCall}
    (hcalls : s.calls = c :: calls) (hne : c ≠ .closeRead) : ¬ s.GetsToConnect (.ret : Act β) := by
  rintro ⟨calls', hcalls'⟩
  rw [hcalls] at hcalls'
  exact hne (List.cons.inj hcalls').1

/-- A connect that has failed is reported as complete, or one that was closed is reported again. -/
def Misreports (s : Stream Q β) (act : Act β) : Prop :=
  (∃ rc err, act = .getsockopt rc err ∧ rc ≠ -1 ∧ err ≠ 0) ∨
    s.connectCallback ≠ none ∧ s.Told ∧ s.GetsToConnect act

/-- A step, by what it does to the connect callback. -/
inductive ConnectEffect (s : Stream Q β) (act : Act β) (s' : Stream Q β) : Prop
  | silent (events : List (Event β)) (htrace : s'.trace = s.trace ++ events)
    (hsilent : ∀ e ∈ events, e.isConnectOutcome = false)
    (hcb : s'.connectCallback = s.connectCallback) (hact : act.isConnect = false)
    (hgets : s.GetsToConnect act → s.connectCallback = none)
    (hget : ∀ rc err, act ≠ .getsockopt rc err)
  | told (cb : Nat) (hcb : s.connectCallback = some cb)
    (htrace : s'.trace = s.trace ++ [.connectError cb "Closed before connect"])
    (hcb' : s'.connectCallback = s.connectCallback) (hact : act.isConnect = false)
    (hgets : s.GetsToConnect act) (hget : ∀ rc err, act ≠ .getsockopt rc err)
  | answered (cb : Nat) (rc err : Int) (hcb : s.connectCallback = some cb)
    (hact : act = .getsockopt rc err) (hcb' : s'.connectCallback = none)
    (htrace : s'.trace = s.trace ++ [if rc = -1
      then .connectError cb "Failed to query connection status" else .connectComplete cb])
  | connected (results : ConnectResults) (callback : Nat) (hact : act = .connect results callback)
    (hstep : s.ConnectStep results callback s')

/-- A step that says nothing and leaves the connect callback alone. -/
lemma ConnectEffect.of_same (htrace : s'.trace = s.trace)
    (hcb : s'.connectCallback = s.connectCallback) (hact : act.isConnect = false)
    (hgets : s.GetsToConnect act → s.connectCallback = none)
    (hget : ∀ rc err, act ≠ .getsockopt rc err) : s.ConnectEffect act s' :=
  .silent [] (by simpa using htrace) (fun _ he => absurd he List.not_mem_nil) hcb hact hgets hget

/-- `close` after the callbacks. -/
lemma connectEffect_closeFinish {calls : List PendingCall} (hact : act.isConnect = false)
    (hgets : s.GetsToConnect act → s.connectCallback = none)
    (hget : ∀ rc err, act ≠ .getsockopt rc err) :
    s.ConnectEffect act { s with calls }.closeFinish := by
  rw [closeFinish_eq]
  refine .silent _ rfl (fun e he => ?_) rfl hact hgets hget
  split_ifs at he
  · rw [List.mem_singleton.mp he]
    rfl
  · exact absurd he List.not_mem_nil

/-- `close` from the test of the connect callback on. -/
lemma connectEffect_closeConnect {calls : List PendingCall} (hact : act.isConnect = false)
    (hgets : s.GetsToConnect act) (hget : ∀ rc err, act ≠ .getsockopt rc err) :
    s.ConnectEffect act { s with calls }.closeConnect := by
  rcases Option.eq_none_or_eq_some s.connectCallback with hcb | ⟨cb, hcb⟩
  · have hnone : { s with calls }.connectCallback = none := hcb
    rw [closeConnect_of_none hnone]
    exact connectEffect_closeFinish hact (fun _ => hcb) hget
  · have hsome : { s with calls }.connectCallback = some cb := hcb
    rw [closeConnect_of_some hsome]
    exact .told cb hcb rfl rfl hact hgets hget

lemma Told.outcomes_pos (h : s.Told) : 1 ≤ s.outcomes := by
  obtain ⟨cb, hmem⟩ := h
  exact List.countP_pos_iff.mpr ⟨_, hmem, rfl⟩

lemma Told.of_append (h : s.Told) (htrace : s'.trace = s.trace ++ events) : s'.Told := by
  obtain ⟨cb, hmem⟩ := h
  exact ⟨cb, by rw [htrace]; exact List.mem_append_left _ hmem⟩

/-- A connect that is pending was not reported, unless by `close`. -/
def Unreported (s : Stream Q β) : Prop := s.connectCallback ≠ none → s.outcomes = 0 ∨ s.Told

/-- Where the connect callback is still installed, `close` has told it or nothing has. -/
lemma Unreported.outcomes_le_iff (h : s.Unreported) (hcb : s.connectCallback ≠ none) :
    s.outcomes + 1 ≤ 1 ↔ s.outcomes ≤ 1 ∧ ¬ s.Told := by
  constructor
  · intro hle
    refine ⟨Nat.le_trans (Nat.le_succ _) hle, fun htold => ?_⟩
    exact absurd htold.outcomes_pos (by omega)
  · rintro ⟨-, hnot⟩
    exact Nat.le_of_eq (congrArg (· + 1) ((h hcb).resolve_right hnot))

lemma reports_of_not_connect (hact : act.isConnect = false)
    (hcomplete : ∀ cb, .connectComplete cb ∈ s.emitted s' →
      ∃ rc, rc ≠ -1 ∧ act = .getsockopt rc 0) :
    s.Reports act s' := by
  refine ⟨fun cb hcb => .inr (hcomplete cb hcb), fun results callback message heq => ?_⟩
  rw [heq] at hact
  cases hact

/-- What `getsockopt` finds is reported as it is where `SO_ERROR` is `0`. -/
lemma reports_getsockopt_iff {cb : Nat} {rc err : Int}
    (htrace : s'.trace = s.trace ++ [if rc = -1
      then .connectError cb "Failed to query connection status" else .connectComplete cb]) :
    s.Reports (.getsockopt rc err) s' ↔ (rc ≠ -1 → err = 0) := by
  constructor
  · intro hr hrc
    have hmem : .connectComplete cb ∈ s.emitted s' := by
      rw [emitted_eq htrace, if_neg hrc]
      exact List.mem_singleton_self _
    rcases hr.complete cb hmem with ⟨results, callback, heq, -⟩ | ⟨rc', -, heq⟩
    · cases heq
    · exact (Act.getsockopt.inj heq).2
  · intro herr
    refine reports_of_not_connect rfl fun cb' hmem => ?_
    rw [emitted_eq htrace] at hmem
    by_cases hrc : rc = -1
    · rw [if_pos hrc] at hmem
      simp at hmem
    · exact ⟨rc, hrc, by rw [herr hrc]⟩

lemma misreports_getsockopt_iff {rc err : Int} (hne : s.connectCallback ≠ none) :
    s.Misreports (.getsockopt rc err) ↔ ¬ (rc ≠ -1 → err = 0) ∨ s.Told := by
  rw [Misreports]
  constructor
  · rintro (⟨rc', err', heq, hrc, herr⟩ | ⟨-, htold, -⟩)
    · obtain ⟨rfl, rfl⟩ := Act.getsockopt.inj heq
      exact .inl fun himp => herr (himp hrc)
    · exact .inr htold
  · rintro (hnot | htold)
    · rw [Classical.not_imp] at hnot
      exact .inl ⟨rc, err, rfl, hnot⟩
    · exact .inr ⟨hne, htold, trivial⟩

/-- The outcomes of `connect` itself. -/
lemma ConnectStep.reports {results : ConnectResults} {callback : Nat}
    (hstep : s.ConnectStep results callback s') (hnone : s.connectCallback = none)
    (hzero : s.outcomes = 0) (hdoc : results.connect = 0 ∨ results.connect = -1) :
    s'.Unreported ∧ s'.outcomes ≤ 1 ∧ s.Reports (.connect results callback) s' := by
  cases hstep with
  | failed error =>
    have htrace : (s.connectFail results.socket callback error).trace = s.trace ++
        ((if results.socket = -1 then [] else [.xclose results.socket]) ++
          [.connectError callback error]) := List.append_assoc _ _ _
    refine ⟨fun hcb => absurd hnone hcb, ?_, ?_, ?_⟩
    · rw [outcomes_append htrace, hzero]
      split_ifs <;> simp [Event.isConnectOutcome]
    · intro cb hmem
      rw [emitted_eq htrace] at hmem
      split_ifs at hmem <;> simp at hmem
    · intro results' callback' message heq _
      obtain ⟨rfl, rfl⟩ := Act.connect.inj heq
      refine ⟨rfl, rfl, rfl, fun hne => ?_⟩
      rw [emitted_eq htrace, if_neg hne]
      exact List.mem_append_left _ (List.mem_singleton_self _)
  | pending hne =>
    have hemitted : s.emitted { s with
        fd := results.socket
        connectCallback := some callback
        watched := s.watched.ensureWrite } = [] := List.drop_length
    refine ⟨fun _ => .inl hzero, Nat.le_trans (Nat.le_of_eq hzero) (Nat.zero_le 1), ?_, ?_⟩
    · intro cb hmem
      rw [hemitted] at hmem
      exact absurd hmem List.not_mem_nil
    · intro results' callback' message _ hmem
      rw [hemitted] at hmem
      exact absurd hmem List.not_mem_nil
  | completed hne hconnect =>
    refine ⟨fun hcb => absurd hnone hcb, ?_, ?_, ?_⟩
    · rw [outcomes_append rfl, hzero]
      simp [Event.isConnectOutcome]
    · exact fun cb _ => .inl ⟨results, callback, rfl, hdoc.resolve_right hconnect⟩
    · intro results' callback' message _ hmem
      rw [emitted_eq rfl] at hmem
      simp at hmem

variable [RequestQueue Q (WriteRequest β)]

/-- Every step has one of the effects on the connect callback. -/
theorem connectEffect_of_step [LawfulRequestQueue Q] (hok : s.step act = .ok s') :
    s.ConnectEffect act s' := by
  cases step_effect hok with
  | queue readBuffer _ hact hqueue =>
    obtain ⟨requests, -, rfl⟩ := queueWrite_cases hqueue
    have hnot : act.isConnect = false ∧ ¬ s.GetsToConnect act ∧
        ∀ rc err, act ≠ .getsockopt rc err := by
      cases act with
      | write | writeBuffer | writeReadBuffer => exact ⟨rfl, id, fun _ _ heq => by cases heq⟩
      | _ => cases hact
    exact .silent _ rfl (by simp [Event.isConnectOutcome]) rfl hnot.1
      (fun hg => absurd hg hnot.2.1) hnot.2.2
  | useBuffer readBuffer _ hact =>
    have hnot : act.isConnect = false ∧ ¬ s.GetsToConnect act ∧
        ∀ rc err, act ≠ .getsockopt rc err := by
      cases act with
      | readBuffer | moveReadBuffer => exact ⟨rfl, id, fun _ _ heq => by cases heq⟩
      | _ => cases hact
    exact .of_same rfl rfl hnot.1 (fun hg => absurd hg hnot.2.1) hnot.2.2
  | startRead callback =>
    refine .of_same ?_ ?_ rfl (fun hg => absurd hg id) fun _ _ heq => by cases heq
    · rw [startRead]
      split_ifs <;> rfl
    · rw [startRead]
      split_ifs <;> rfl
  | stopRead =>
    refine .of_same ?_ ?_ rfl (fun hg => absurd hg id) fun _ _ heq => by cases heq
    · rw [stopRead]
      split_ifs <;> rfl
    · rw [stopRead]
      split_ifs <;> rfl
  | close =>
    cases hcb : s.readCallback with
    | none =>
      rw [close_of_none hcb]
      exact connectEffect_closeConnect rfl hcb fun _ _ heq => by cases heq
    | some cb =>
      rw [close_of_some hcb]
      refine .silent _ rfl (by simp [Event.isConnectOutcome]) rfl rfl (fun hg => ?_)
        fun _ _ heq => by cases heq
      rw [show s.readCallback = none from hg] at hcb
      cases hcb
  | connect _ hconnect => exact .connected _ _ rfl (connect_cases hconnect).2
  | destroy _ hdestroy =>
    obtain ⟨⟨requests, r⟩, -, hok⟩ := bind_eq_ok.mp hdestroy
    obtain rfl := Except.ok.inj hok
    exact .of_same rfl rfl rfl (fun hg => absurd hg id) fun _ _ heq => by cases heq
  | ready event =>
    rw [ready_eq]
    exact .of_same rfl rfl rfl (fun hg => absurd hg id) fun _ _ heq => by cases heq
  | getsockopt _ _ _ hget =>
    obtain ⟨cb, hcb, rfl⟩ := getsockopt_cases hget
    exact .answered cb _ _ hcb rfl rfl rfl
  | xwrites _ _ _ hx =>
    obtain ⟨events, htrace, hevents⟩ := xwrites_trace hx
    refine .silent events htrace (fun e he => ?_) ?_ rfl (fun hg => absurd hg id)
      fun _ _ heq => by cases heq
    · have hside := hevents e he
      cases e <;> first | rfl | cases hside
    · rw [(xwrites_eq hx).1]
  | xread _ _ _ hx =>
    obtain ⟨events, htrace, hevents⟩ := xread_trace hx
    refine .silent events htrace (fun e he => ?_) ?_ rfl (fun hg => absurd hg id)
      fun _ _ heq => by cases heq
    · have hside := hevents e he
      cases e <;> first | rfl | cases hside
    · rw [xread_eq hx]
  | @returned c calls _ hcalls hcall =>
    cases c with
    | closeRead =>
      obtain ⟨-, rfl⟩ := access_map_eq_ok.mp hcall
      exact connectEffect_closeConnect rfl ⟨calls, hcalls⟩ fun _ _ heq => by cases heq
    | closeConnect =>
      obtain ⟨-, rfl⟩ := access_map_eq_ok.mp hcall
      exact connectEffect_closeFinish rfl
        (fun hg => absurd hg (not_getsToConnect_ret hcalls (by simp))) fun _ _ heq => by cases heq
    | connect =>
      obtain rfl := Except.ok.inj hcall
      exact .of_same rfl rfl rfl
        (fun hg => absurd hg (not_getsToConnect_ret hcalls (by simp))) fun _ _ heq => by cases heq
  | resumed hcalls _ hd =>
    rw [resumeDispatch_eq hd]
    refine .of_same rfl rfl rfl (fun hg => ?_) fun _ _ heq => by cases heq
    obtain ⟨calls', hcalls'⟩ := hg
    rw [hcalls] at hcalls'
    cases hcalls'

/-! ### Runs -/

/-- A step of a run in which `connect` is called once. -/
lemma Unreported.step [LawfulRequestQueue Q] (h : s.Unreported) (hdoc : act.Documented)
    (honce : act.isConnect = true → s.connectCallback = none ∧ s.outcomes = 0)
    (hok : s.step act = .ok s') :
    s'.Unreported ∧
      (s'.outcomes ≤ 1 ∧ s.Reports act s' ↔ s.outcomes ≤ 1 ∧ ¬ s.Misreports act) := by
  cases connectEffect_of_step hok with
  | silent events htrace hsilent hcb hact hgets hget =>
    have hsame := outcomes_of_silent htrace hsilent
    have hreports : s.Reports act s' := by
      refine reports_of_not_connect hact fun cb hmem => ?_
      rw [emitted_eq htrace] at hmem
      cases hsilent _ hmem
    have hnot : ¬ s.Misreports act := by
      rintro (⟨rc, err, heq, -⟩ | ⟨hne, -, hg⟩)
      · exact hget rc err heq
      · exact hne (hgets hg)
    refine ⟨fun hne => ?_, ?_⟩
    · rw [hcb] at hne
      rw [hsame]
      exact (h hne).imp_right fun htold => htold.of_append htrace
    · rw [hsame, and_iff_left hreports, and_iff_left hnot]
  | told cb hcb htrace hcb' hact hgets hget =>
    have hne : s.connectCallback ≠ none := by
      rw [hcb]
      exact Option.some_ne_none cb
    have hreports : s.Reports act s' := by
      refine reports_of_not_connect hact fun cb' hmem => ?_
      rw [emitted_eq htrace] at hmem
      simp at hmem
    have hiff : s.Misreports act ↔ s.Told := by
      constructor
      · rintro (⟨rc, err, heq, -⟩ | ⟨-, htold, -⟩)
        · exact absurd heq (hget rc err)
        · exact htold
      · exact fun htold => .inr ⟨hne, htold, hgets⟩
    refine ⟨fun _ => .inr ⟨cb, ?_⟩, ?_⟩
    · rw [htrace]
      exact List.mem_append_right _ (List.mem_singleton_self _)
    · rw [outcomes_append htrace, and_iff_left hreports, hiff]
      exact h.outcomes_le_iff hne
  | answered cb rc err hcb hact hcb' htrace =>
    have hne : s.connectCallback ≠ none := by
      rw [hcb]
      exact Option.some_ne_none cb
    have hone : s'.outcomes = s.outcomes + 1 := by
      rw [outcomes_append htrace]
      split_ifs <;> rfl
    refine ⟨fun hsome => absurd hcb' hsome, ?_⟩
    rw [hone, hact, reports_getsockopt_iff htrace, misreports_getsockopt_iff hne,
      h.outcomes_le_iff hne, not_or, not_not, and_assoc, and_comm (a := ¬ _)]
  | connected results callback hact hstep =>
    subst hact
    obtain ⟨hnone, hzero⟩ := honce rfl
    obtain ⟨hunreported, hle, hreports⟩ := hstep.reports hnone hzero hdoc
    refine ⟨hunreported, ?_⟩
    have hnot : ¬ s.Misreports (.connect results callback) := by
      rintro (⟨rc, err, heq, -⟩ | ⟨-, -, hg⟩)
      · cases heq
      · exact hg
    rw [and_iff_left hreports, and_iff_left hnot]
    exact ⟨fun _ => by rw [hzero]; exact Nat.zero_le 1, fun _ => hle⟩

/-- Before `connect` is called there is no connect callback. -/
lemma not_connected_of_exec [LawfulRequestQueue Q] {fd : Int} {acts : List (Act β)}
    (h : Exec.exec step (new fd : Stream Q β) acts = .ok s)
    (hacts : ∀ act ∈ acts, act.isConnect = false) : s.connectCallback = none ∧ s.outcomes = 0 := by
  induction acts using List.reverseRecOn generalizing s with
  | nil =>
    obtain rfl := Except.ok.inj h
    exact ⟨rfl, rfl⟩
  | append_singleton acts act ih =>
    obtain ⟨s₁, hacts₁, hstep⟩ := Exec.exec_concat_eq_ok.mp h
    obtain ⟨hnone, hzero⟩ := ih hacts₁ fun a ha => hacts a (List.mem_append_left _ ha)
    have hact := hacts act (List.mem_append_right _ (List.mem_singleton_self act))
    cases connectEffect_of_step hstep with
    | silent events htrace hsilent hcb _ _ _ =>
      exact ⟨hcb.trans hnone, (outcomes_of_silent htrace hsilent).trans hzero⟩
    | told cb hcb | answered cb _ _ hcb =>
      rw [hnone] at hcb
      cases hcb
    | connected results callback heq =>
      rw [heq] at hact
      cases hact

/-- In a run in which `connect` is called once its callback is called at most once, `complete()`
only if the socket is connected, and a call of `connect` that fails leaves nothing behind, if and
only if `SO_ERROR` is `0` wherever it is obtained and nothing gets to the connect callback again
once `close` has told it. -/
theorem connectOutcome_iff [LawfulRequestQueue Q] (fd : Int) (acts : List (Act β))
    (honce : acts.countP Act.isConnect ≤ 1) (hdoc : ∀ act ∈ acts, act.Documented)
    (h : Exec.exec step (new fd : Stream Q β) acts = .ok s) :
    (s.outcomes ≤ 1 ∧ Exec.Along step (fun s act => ∀ s', s.step act = .ok s' → s.Reports act s')
      (new fd : Stream Q β) acts) ↔
    Exec.Along step (fun s act => ¬ s.Misreports act) (new fd : Stream Q β) acts := by
  have hrun : s.Unreported ∧ ((s.outcomes ≤ 1 ∧ Exec.Along step
      (fun s act => ∀ s', s.step act = .ok s' → s.Reports act s') (new fd : Stream Q β) acts) ↔
      Exec.Along step (fun s act => ¬ s.Misreports act) (new fd : Stream Q β) acts) := by
    induction acts using List.reverseRecOn generalizing s with
    | nil =>
      obtain rfl := Except.ok.inj h
      exact ⟨fun hne => absurd rfl hne, fun _ => Exec.along_nil,
        fun _ => ⟨Nat.zero_le 1, Exec.along_nil⟩⟩
    | append_singleton acts act ih =>
      obtain ⟨s₁, hacts, hstep⟩ := Exec.exec_concat_eq_ok.mp h
      rw [List.countP_append] at honce
      obtain ⟨hunreported, hiff⟩ := ih (Nat.le_trans (Nat.le_add_right _ _) honce)
        (fun a ha => hdoc a (List.mem_append_left _ ha)) hacts
      have hfirst : act.isConnect = true → s₁.connectCallback = none ∧ s₁.outcomes = 0 := by
        intro hact
        have hzero : acts.countP Act.isConnect = 0 := by
          rw [List.countP_singleton, if_pos hact] at honce
          exact Nat.le_zero.mp (Nat.le_of_succ_le_succ honce)
        refine not_connected_of_exec hacts fun a ha => ?_
        exact Bool.eq_false_iff.mpr (List.countP_eq_zero.mp hzero a ha)
      obtain ⟨hunreported', hstepiff⟩ := hunreported.step
        (hdoc act (List.mem_append_right _ (List.mem_singleton_self act))) hfirst hstep
      refine ⟨hunreported', ?_⟩
      rw [Exec.along_concat hacts, Exec.along_concat hacts, ← hiff]
      constructor
      · rintro ⟨hle, halong, hreports⟩
        obtain ⟨hle₁, hnot⟩ := hstepiff.mp ⟨hle, hreports s hstep⟩
        exact ⟨⟨hle₁, halong⟩, hnot⟩
      · rintro ⟨⟨hle₁, halong⟩, hnot⟩
        obtain ⟨hle, hreports⟩ := hstepiff.mpr ⟨hle₁, hnot⟩
        refine ⟨hle, halong, fun s' hs' => ?_⟩
        obtain rfl := Except.ok.inj (hstep.symm.trans hs')
        exact hreports
  exact hrun.2

/-- A connect that completes, and is closed afterwards. -/
theorem connectOutcome_completed : ∃ s : Stream (Requests (WriteRequest Char)) Char,
    Exec.exec step (new (-1)) [.connect ⟨3, 0, 1, -1, .einprogress⟩ 5, .ready .write,
      .getsockopt 0 0, .ret, .close] = .ok s ∧
    ((s.outcomes ≤ 1 ∧ Exec.Along step
      (fun s act => ∀ s', s.step act = .ok s' → s.Reports act s')
      (new (-1) : Stream (Requests (WriteRequest Char)) Char)
      [.connect ⟨3, 0, 1, -1, .einprogress⟩ 5, .ready .write, .getsockopt 0 0, .ret, .close]) ↔
    Exec.Along step (fun s act => ¬ s.Misreports act)
      (new (-1) : Stream (Requests (WriteRequest Char)) Char)
      [.connect ⟨3, 0, 1, -1, .einprogress⟩ 5, .ready .write, .getsockopt 0 0, .ret, .close]) :=
  ⟨_, rfl, connectOutcome_iff (-1) _ (by decide) (by simp [Act.Documented]) rfl⟩

/-- `connectHelper` tests the pointer `error`, which is null there, and not the `SO_ERROR` that it
has obtained. -/
theorem not_connectOutcome : ¬ ∀ (fd : Int) (acts : List (Act Char))
    (s : Stream (Requests (WriteRequest Char)) Char), acts.countP Act.isConnect ≤ 1 →
    (∀ act ∈ acts, act.Documented) → Exec.exec step (new fd) acts = .ok s →
    s.outcomes ≤ 1 ∧ Exec.Along step (fun s act => ∀ s', s.step act = .ok s' → s.Reports act s')
      (new fd : Stream (Requests (WriteRequest Char)) Char) acts := by
  intro h
  have hrun := h (-1) [.connect ⟨3, 0, 1, -1, .einprogress⟩ 5, .ready .write, .getsockopt 0 111] _
    (by decide) (by simp [Act.Documented]) rfl
  rcases (hrun.2.2.2.1 _ rfl).complete 5 (List.mem_singleton_self _) with
    ⟨results, callback, heq, -⟩ | ⟨rc, -, heq⟩
  · cases heq
  · exact absurd (Act.getsockopt.inj heq).2 (by decide)

end Stream

end WhatTheEvent
