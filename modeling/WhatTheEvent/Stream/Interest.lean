import Mathlib.Data.List.Induction
import WhatTheEvent.Stream.Effect

/-!
# The interest of a stream

What a stream waits for is among the events that its handler watches, in exactly those runs in which
neither `ensureWrite` nor `ensureRead` is applied to `READ_WRITE` while both events are waited for.
-/

namespace WhatTheEvent

variable {β Q : Type}

/-- The dispatch works on the write side, or is about to. -/
def Dispatch.writes : Dispatch → Bool
  | .connectDone _ => true
  | .writeHelper _ _ => true
  | .writeDone _ next => next.isSome
  | _ => false

namespace Stream

/-- The step ends with the return of a public call or of `ready`. -/
def Returns (s : Stream Q β) (act : Act β) (s' : Stream Q β) : Prop :=
  match act with
  | .write _ _ | .writeBuffer _ _ | .writeReadBuffer _ | .startRead _ | .stopRead => True
  | .close | .connect _ _ => s'.calls = s.calls
  | .ready _ | .getsockopt _ _ | .xwrites _ | .xread _ => s'.dispatch = none
  | .ret => s'.calls.length < s.calls.length ∨ (s.calls = [] ∧ s'.dispatch = none)
  | .destroy | .readBuffer _ | .moveReadBuffer => False

/-- Requests and a pending connect are waited for with `WRITE`, and data with `READ`. -/
def Interest [RequestQueue Q (WriteRequest β)] (s : Stream Q β) : Prop :=
  ((RequestQueue.head s.requests ≠ none ∨ s.connectCallback ≠ none) → s.watched.isWrite = true) ∧
    (s.readCallback ≠ none → s.watched.isRead = true)

/-- The call makes `READ_WRITE` into one of the two events, and the other one is waited for. -/
def Forgets [RequestQueue Q (WriteRequest β)] (s : Stream Q β) : Act β → Prop
  | .write _ _ | .writeBuffer _ _ | .writeReadBuffer _ =>
    s.watched = .readWrite ∧ s.readCallback ≠ none
  | .startRead callback => s.watched = .readWrite ∧ callback ≠ s.readCallback ∧
    (RequestQueue.head s.requests ≠ none ∨ s.connectCallback ≠ none)
  | _ => False

variable {s s' : Stream Q β} {act : Act β} {event : What} {d : Dispatch}

lemma returns_of_isWrite (hact : act.isWrite = true) : s.Returns act s' := by
  cases act with
  | write | writeBuffer | writeReadBuffer => exact trivial
  | _ => cases hact

lemma startRead_same {callback : Option Nat} (heq : callback = s.readCallback) :
    s.startRead callback = s := if_pos heq.symm

lemma readyRead_not_writes {d : Dispatch} (h : (s.readyRead event).dispatch = some d) :
    d.writes = false := by
  unfold readyRead at h
  split_ifs at h
  obtain rfl := Option.some.inj h
  rfl

variable [RequestQueue Q (WriteRequest β)]

lemma forgets_of_isWrite (hact : act.isWrite = true) :
    s.Forgets act ↔ s.watched = .readWrite ∧ s.readCallback ≠ none := by
  cases act with
  | write | writeBuffer | writeReadBuffer => exact Iff.rfl
  | _ => cases hact

/-- The condition holds of a live stream whenever a step ends with a return. -/
def AtReturn (P : Stream Q β → Prop) (s : Stream Q β) (act : Act β) : Prop :=
  ∀ s', s.step act = .ok s' → s.Returns act s' → s'.alive = true → P s'

/-- The invariant of the runs without `close` that forget nothing. -/
structure Attending (s : Stream Q β) : Prop where
  interest : s.Interest
  writing : ∀ d, s.dispatch = some d → d.writes = true → s.connectCallback = none
  calls : ∀ c ∈ s.calls, c = .connect

lemma attending_new [HeadedRequestQueue Q] (fd : Int) : (new fd : Stream Q β).Attending where
  interest := by
    constructor
    · rintro (hne | hne)
      · exact absurd HeadedRequestQueue.head_empty hne
      · exact absurd rfl hne
    · exact fun hne => absurd rfl hne
  writing := fun _ hd => nomatch hd
  calls := fun _ hc => absurd hc List.not_mem_nil

lemma Attending.of_same (h : s.Attending) (hdispatch : s'.dispatch = s.dispatch)
    (hcb : s'.connectCallback = s.connectCallback) (hcalls : s'.calls = s.calls)
    (hinterest : s'.Interest) : s'.Attending := by
  refine ⟨hinterest, ?_, ?_⟩
  · rw [hdispatch, hcb]
    exact h.writing
  · rw [hcalls]
    exact h.calls

/-- A dispatch goes on, and does so on the write side only with no connect pending. -/
lemma Attending.of_dispatch (h : s.Attending) (hcalls : s'.calls = s.calls)
    (hinterest : s'.Interest) (hcb : s'.connectCallback = s.connectCallback)
    (hd : ∀ d, s'.dispatch = some d → d.writes = true → s.connectCallback = none) :
    s'.Attending := by
  refine ⟨hinterest, ?_, ?_⟩
  · rw [hcb]
    exact hd
  · rw [hcalls]
    exact h.calls

/-! ### The calls -/

/-- A call of `write` forgets `READ` if `READ_WRITE` was watched. -/
lemma interest_queueWrite {readBuffer buffer : BufferImpl β} {callback : Option Nat}
    (h : { s with readBuffer }.queueWrite buffer callback = .ok s') :
    s'.Interest ↔ (s.readCallback ≠ none → s.watched = .read) := by
  obtain ⟨requests, -, rfl⟩ := queueWrite_cases h
  simp [Interest]

/-- A call of `startRead` with another callback forgets `WRITE` if `READ_WRITE` was watched. -/
lemma interest_startRead {callback : Option Nat} (hne : callback ≠ s.readCallback) :
    (s.startRead callback).Interest ↔
      ((RequestQueue.head s.requests ≠ none ∨ s.connectCallback ≠ none) → s.watched = .write) := by
  rw [startRead, if_neg (Ne.symm hne)]
  simp [Interest]

/-- With the callback uninstalled, `WRITE` stays where it was. -/
lemma Interest.stopRead (h : s.Interest) : s.stopRead.Interest := by
  unfold Stream.stopRead
  split_ifs with hnone hread hwrite
  · exact h
  · exact ⟨h.1, fun hne => absurd rfl hne⟩
  · exact ⟨fun _ => rfl, fun hne => absurd rfl hne⟩
  · exact ⟨h.1, fun hne => absurd rfl hne⟩

lemma Attending.connect {results : ConnectResults} {callback : Nat} (h : s.Attending)
    (hco : s.Coherent) (hhead : s.OnHead) (ha : s.alive = true)
    (hok : s.connect results callback = .ok s') : s'.Attending := by
  obtain ⟨⟨hfd, hnone, hwatched⟩, hstep⟩ := connect_cases hok
  have hcalls : ∀ c ∈ PendingCall.connect :: s.calls, c = .connect := by
    intro c hc
    rcases List.mem_cons.mp hc with rfl | hc
    · rfl
    · exact h.calls c hc
  cases hstep with
  | failed error => exact ⟨h.interest, h.writing, hcalls⟩
  | completed hne => exact ⟨h.interest, h.writing, hcalls⟩
  | pending hne =>
    refine ⟨⟨fun _ => What.isWrite_ensureWrite _, fun hcb => ?_⟩, fun d hd hw => ?_, h.calls⟩
    · have hread := h.interest.2 hcb
      rw [hwatched] at hread
      cases hread
    · -- the write side is at work only where `WRITE` is watched or a descriptor is there
      exfalso
      cases d with
      | connectDone event => exact hco.connected event (.inr hd) hfd
      | writeHelper event req =>
        have hwrite := h.interest.1 (.inl (by
          rw [hhead ha _ req hd rfl]
          exact Option.some_ne_none _))
        rw [hwatched] at hwrite
        cases hwrite
      | writeDone event next =>
        obtain ⟨req, rfl⟩ := Option.isSome_iff_exists.mp hw
        have hwrite := h.interest.1 (.inl (by
          rw [hhead ha _ req hd rfl]
          exact Option.some_ne_none _))
        rw [hwatched] at hwrite
        cases hwrite
      | _ => cases hw

/-- A call that forgets an event returns without the interest in it. -/
lemma not_interest_of_forgets (hok : s.step act = .ok s') (hforgets : s.Forgets act) :
    s.Returns act s' ∧ s'.alive = true ∧ ¬ s'.Interest := by
  cases step_effect hok with
  | queue readBuffer hc hact hqueue =>
    have hw := (forgets_of_isWrite hact).mp hforgets
    have hnot : ¬ s'.Interest := by
      intro hinterest
      have hread := (interest_queueWrite hqueue).mp hinterest hw.2
      rw [hw.1] at hread
      cases hread
    obtain ⟨requests, -, rfl⟩ := queueWrite_cases hqueue
    exact ⟨returns_of_isWrite hact, alive_of_callable hc, hnot⟩
  | startRead callback hc =>
    obtain ⟨hw, hne, hwait⟩ := hforgets
    refine ⟨trivial, ?_, fun hinterest => ?_⟩
    · rw [Stream.startRead, if_neg (Ne.symm hne)]
      exact alive_of_callable hc
    · have hwrite := (interest_startRead hne).mp hinterest hwait
      rw [hw] at hwrite
      cases hwrite
  | useBuffer readBuffer hc hact =>
    cases act with
    | readBuffer | moveReadBuffer => exact absurd hforgets id
    | _ => cases hact
  | _ => exact absurd hforgets id

/-! ### The dispatches -/

lemma Attending.ready (h : s.Attending) : (s.ready event).Attending := by
  rw [ready_eq]
  refine h.of_dispatch rfl h.interest rfl fun d hd hw => ?_
  unfold Stream.ready at hd
  split_ifs at hd with hwrite hcb
  · obtain rfl := Option.some.inj hd
    cases hw
  · exact Option.not_isSome_iff_eq_none.mp hcb
  · rw [readyRead_not_writes hd] at hw
    cases hw

lemma Attending.resumeDispatch (h : s.Attending) (hs : s.dispatch = some d)
    (hok : s.resumeDispatch d = .ok s') : s'.Attending := by
  have heq := resumeDispatch_eq hok
  have hread : ∀ {event : What}, s.resumeRead event = .ok s' →
      ∀ d', s'.dispatch = some d' → d'.writes = true → s.connectCallback = none := by
    intro event hread d' hd' hw
    unfold resumeRead at hread
    split_ifs at hread
    · obtain ⟨-, rfl⟩ := access_map_eq_ok.mp hread
      rw [readyRead_not_writes hd'] at hw
      cases hw
    · obtain rfl := Except.ok.inj hread
      rw [readyRead_not_writes hd'] at hw
      cases hw
  rw [heq]
  refine h.of_dispatch rfl h.interest rfl ?_
  cases d with
  | connectDone event => exact fun _ _ _ => h.writing _ hs rfl
  | writeDone event next =>
    cases next with
    | none => exact hread hok
    | some next => exact fun _ _ _ => h.writing _ hs rfl
  | writeFailed event => exact hread hok
  | readAvailable nread =>
    intro d' hd' hw
    simp only [Stream.resumeDispatch] at hok
    split_ifs at hok
    · obtain rfl := Except.ok.inj hok
      cases hd'
    · obtain ⟨-, rfl⟩ := access_map_eq_ok.mp hok
      obtain rfl := Option.some.inj hd'
      cases hw
  | readEnded =>
    intro d' hd' hw
    obtain rfl := Except.ok.inj hok
    cases hd'
  | connectHelper event => cases hok
  | writeHelper event req => cases hok
  | readHelper => cases hok

variable [HeadedRequestQueue Q]

/-- A round of the write loop drops `WRITE` only with the last request. -/
lemma Attending.xwrites {req : Nat} {results : List WriteResult} (h : s.Attending)
    (hd : s.dispatch = some (.writeHelper event req)) (hhead : RequestQueue.head s.requests ≠ none)
    (hok : s.xwrites event req results = .ok s') : s'.Attending := by
  obtain ⟨heq, hwatched, -⟩ := xwrites_eq hok
  have hnone : s.connectCallback = none := h.writing _ hd rfl
  rw [heq]
  refine h.of_dispatch rfl ?_ rfl fun _ _ _ => hnone
  rcases hwatched with ⟨hhead', hsame⟩ | hsame
  · constructor
    · simp only [hhead', hsame]
      exact h.interest.1
    · simp only [hsame]
      exact h.interest.2
  · constructor
    · rintro (hne | hne)
      · simp only [hsame, Option.isNone_eq_false_iff.mpr (Option.isSome_iff_ne_none.mpr hne)]
        exact h.interest.1 (.inl hhead)
      · exact absurd hnone hne
    · intro hcb
      simp only [hsame]
      split_ifs
      · rw [What.isRead_removeWrite]
        exact h.interest.2 hcb
      · exact h.interest.2 hcb

/-! ### Steps and runs -/

/-- A step that forgets nothing keeps the invariant. -/
lemma Attending.step (h : s.Attending) (hco : s.Coherent) (hhead : s.OnHead)
    (hok : s.step act = .ok s') (hclose : act ≠ .close) (hforgets : ¬ s.Forgets act)
    (ha' : s'.alive = true) : s'.Attending := by
  have ha := alive_of_step hok ha'
  cases step_effect hok with
  | queue readBuffer _ hact hqueue =>
    have hinterest : s'.Interest := by
      refine (interest_queueWrite hqueue).mpr fun hcb => ?_
      have hread := h.interest.2 hcb
      cases hw : s.watched with
      | read => rfl
      | readWrite => exact absurd ((forgets_of_isWrite hact).mpr ⟨hw, hcb⟩) hforgets
      | none | write => rw [hw] at hread; cases hread
    obtain ⟨requests, -, rfl⟩ := queueWrite_cases hqueue
    exact h.of_same rfl rfl rfl hinterest
  | useBuffer readBuffer => exact h.of_same rfl rfl rfl h.interest
  | startRead callback =>
    by_cases heq : callback = s.readCallback
    · rw [startRead_same heq]
      exact h
    · have hinterest : (s.startRead callback).Interest := by
        refine (interest_startRead heq).mpr fun hwait => ?_
        have hwrite := h.interest.1 hwait
        cases hw : s.watched with
        | write => rfl
        | readWrite => exact absurd ⟨hw, heq, hwait⟩ hforgets
        | none | read => rw [hw] at hwrite; cases hwrite
      rw [Stream.startRead, if_neg (Ne.symm heq)] at hinterest ⊢
      exact h.of_same rfl rfl rfl hinterest
  | stopRead =>
    have hinterest := h.interest.stopRead
    unfold Stream.stopRead at hinterest ⊢
    split_ifs at hinterest ⊢
    · exact h
    all_goals exact h.of_same rfl rfl rfl hinterest
  | close => exact absurd rfl hclose
  | connect _ hconnect => exact h.connect hco hhead ha hconnect
  | destroy _ hdestroy =>
    obtain ⟨⟨requests, r⟩, -, hok⟩ := bind_eq_ok.mp hdestroy
    obtain rfl := Except.ok.inj hok
    cases ha'
  | ready event => exact h.ready
  | getsockopt _ _ _ hget =>
    obtain ⟨cb, -, rfl⟩ := getsockopt_cases hget
    refine ⟨⟨fun hwait => h.interest.1 (hwait.imp_right fun hne => absurd rfl hne), h.interest.2⟩,
      fun _ _ _ => rfl, h.calls⟩
  | xwrites _ _ hd hx =>
    refine h.xwrites hd ?_ hx
    rw [hhead ha _ _ hd rfl]
    exact Option.some_ne_none _
  | xread _ _ hd hx =>
    have hnot : ∀ d, s'.dispatch = some d → d.writes = true → s.connectCallback = none := by
      intro d hd' hw
      cases xread_cases hx with
      | kept =>
        simp only at hd'
        split_ifs at hd'
        obtain rfl := Option.some.inj hd'
        cases hw
      | ended => cases hd'
      | failed | eof | available =>
        obtain rfl := Option.some.inj hd'
        cases hw
    rw [xread_eq hx]
    exact h.of_dispatch rfl h.interest rfl hnot
  | @returned c calls _ hcalls hcall =>
    have hrest : Attending { s with calls } := ⟨h.interest, h.writing, fun c hc =>
      h.calls c (by rw [hcalls]; exact List.mem_cons_of_mem _ hc)⟩
    obtain rfl : c = .connect := h.calls c (by rw [hcalls]; exact List.mem_cons_self)
    obtain rfl := Except.ok.inj hcall
    exact hrest
  | resumed _ hs hd => exact h.resumeDispatch hs hd

/-- In a run of a stream that is not closed, what the stream waits for is watched at every return of
a call or of a dispatch if and only if no call of `write` or `startRead` applies `ensureWrite` or
`ensureRead` to `READ_WRITE` while the event that this drops is waited for. -/
theorem interest_iff (fd : Int) (acts : List (Act β)) (hclose : .close ∉ acts)
    (h : Exec.exec step (new fd : Stream Q β) acts = .ok s) :
    Exec.Along step (AtReturn Interest) (new fd : Stream Q β) acts ↔
      Exec.Along step (fun s act => ¬ s.Forgets act) (new fd : Stream Q β) acts := by
  have hrun : s.Coherent ∧ s.OnHead ∧
      (Exec.Along step (AtReturn Interest) (new fd : Stream Q β) acts ↔
        Exec.Along step (fun s act => ¬ s.Forgets act) (new fd : Stream Q β) acts) ∧
      (Exec.Along step (fun s act => ¬ s.Forgets act) (new fd : Stream Q β) acts →
        s.alive = true → s.Attending) := by
    induction acts using List.reverseRecOn generalizing s with
    | nil =>
      obtain rfl := Except.ok.inj h
      exact ⟨coherent_new fd, onHead_new fd, Iff.rfl, fun _ _ => attending_new fd⟩
    | append_singleton acts act ih =>
      obtain ⟨s₁, hacts, hstep⟩ := Exec.exec_concat_eq_ok.mp h
      obtain ⟨hco, hhead, hiff, hattending⟩ :=
        ih (fun hmem => hclose (List.mem_append_left _ hmem)) hacts
      have hne : act ≠ .close := fun heq =>
        hclose (heq ▸ List.mem_append_right acts (List.mem_singleton_self act))
      refine ⟨hco.step hstep, hhead.step hstep, ?_, ?_⟩
      · rw [Exec.along_concat hacts, Exec.along_concat hacts, hiff]
        refine and_congr_right fun halong => ⟨fun hreturn hforgets => ?_, fun hforgets => ?_⟩
        · obtain ⟨hreturns, ha, hnot⟩ := not_interest_of_forgets hstep hforgets
          exact hnot (hreturn s hstep hreturns ha)
        · intro s' hs' _ ha'
          obtain rfl := Except.ok.inj (hstep.symm.trans hs')
          have hs₁ := hattending halong (alive_of_step hstep ha')
          exact (hs₁.step hco hhead hstep hne hforgets ha').interest
      · intro halong ha'
        obtain ⟨halong, hforgets⟩ := (Exec.along_concat hacts).mp halong
        have hs₁ := hattending halong (alive_of_step hstep ha')
        exact hs₁.step hco hhead hstep hne hforgets ha'
  exact hrun.2.2.1

/-- A stream that reads and writes. -/
theorem interest_read_and_write : ∃ s : Stream (Requests (WriteRequest Char)) Char,
    Exec.exec step (new 3) [.startRead (some 1), .write ['a'] none, .ready .readWrite,
      .xwrites [.count 1], .xread (.data ['b']), .ret] = .ok s ∧
    (Exec.Along step (AtReturn Interest) (new 3 : Stream (Requests (WriteRequest Char)) Char)
      [.startRead (some 1), .write ['a'] none, .ready .readWrite, .xwrites [.count 1],
        .xread (.data ['b']), .ret] ↔
    Exec.Along step (fun s act => ¬ s.Forgets act)
      (new 3 : Stream (Requests (WriteRequest Char)) Char)
      [.startRead (some 1), .write ['a'] none, .ready .readWrite, .xwrites [.count 1],
        .xread (.data ['b']), .ret]) :=
  ⟨_, rfl, interest_iff 3 _ (by simp) rfl⟩

/-- A second call of `write` before the loop runs makes `READ_WRITE` into `WRITE`. -/
theorem not_interest : ¬ ∀ (fd : Int) (acts : List (Act Char))
    (s : Stream (Fifo (WriteRequest Char)) Char), .close ∉ acts →
    Exec.exec step (new fd) acts = .ok s →
    Exec.Along step (AtReturn Interest) (new fd : Stream (Fifo (WriteRequest Char)) Char) acts := by
  intro h
  have hrun := h 3 [.startRead (some 1), .write ['a'] none, .write ['b'] none] _ (by simp) rfl
  have hread := (hrun.2.2.1 _ rfl trivial rfl).2
  exact absurd (hread (Option.some_ne_none 1)) (by decide)

end Stream

end WhatTheEvent
