import WhatTheEvent.Stream.Interest

/-!
# The residue of a stream

A stream watches nothing that it does not wait for, whenever `stopRead` or a dispatch returns, in
the runs in which reading is stopped only where `WRITE` is watched too and a connect completes only
with requests queued.
-/

namespace WhatTheEvent

variable {β Q : Type}

namespace Stream

variable [RequestQueue Q (WriteRequest β)] {s s' : Stream Q β} {act : Act β} {event : What}
  {d : Dispatch}

/-- The step ends with the return of `stopRead` or of `ready`. -/
def Settles (s : Stream Q β) (act : Act β) (s' : Stream Q β) : Prop :=
  act = .stopRead ∨ (s.dispatch ≠ none ∨ (∃ event, act = .ready event)) ∧ s'.dispatch = none

/-- Each watched event is waited for, and with nothing to wait for the handler is not registered. -/
structure NoResidue (s : Stream Q β) : Prop where
  write : s.watched.isWrite = true →
    RequestQueue.head s.requests ≠ none ∨ s.connectCallback ≠ none
  read : s.watched.isRead = true → s.readCallback ≠ none
  idle : RequestQueue.head s.requests = none → s.connectCallback = none → s.readCallback = none →
    s.watched = .none

/-- The step ends what an event is watched for, and the source goes on watching it: a callback is
uninstalled with only `READ` watched or by `startRead(nullptr)`, or a connect is over with no
request queued. -/
def Leaves (s : Stream Q β) : Act β → Prop
  | .stopRead => s.readCallback ≠ none ∧ s.watched = .read ∨
    RequestQueue.head s.requests = none ∧ ∃ event, s.dispatch = some (.connectDone event)
  | .startRead callback => callback = none ∧ s.readCallback ≠ none
  | .ret => s.calls = [] ∧ RequestQueue.head s.requests = none ∧
    ∃ event, s.dispatch = some (.connectDone event)
  | _ => False

/-- The invariant of the runs that leave nothing. -/
structure Tidy (s : Stream Q β) : Prop where
  write : s.watched.isWrite = true → RequestQueue.head s.requests ≠ none ∨
    s.connectCallback ≠ none ∨ ∃ event, s.dispatch = some (.connectDone event)
  read : s.watched.isRead = true → s.readCallback ≠ none

lemma tidy_of_not_watched (h : s.watched = .none) : s.Tidy := by
  constructor
  · intro hw
    rw [h] at hw
    cases hw
  · intro hr
    rw [h] at hr
    cases hr

/-- A dispatch that is not in the connect callback goes on. -/
lemma Tidy.of_dispatch (h : s.Tidy) (hnot : ∀ event, s.dispatch ≠ some (.connectDone event))
    (hrequests : s'.requests = s.requests) (hcb : s'.connectCallback = s.connectCallback)
    (hread : s'.readCallback = s.readCallback) (hwatched : s'.watched = s.watched) : s'.Tidy := by
  constructor
  · rw [hwatched, hrequests, hcb]
    intro hw
    rcases h.write hw with hhead | hcb | ⟨event, hd⟩
    · exact .inl hhead
    · exact .inr (.inl hcb)
    · exact absurd hd (hnot event)
  · rw [hwatched, hread]
    exact h.read

lemma Tidy.startRead {callback : Option Nat} (h : s.Tidy)
    (hleaves : ¬ s.Leaves (.startRead callback)) : (s.startRead callback).Tidy := by
  by_cases heq : callback = s.readCallback
  · rw [startRead_same heq]
    exact h
  · rw [Stream.startRead, if_neg (Ne.symm heq)]
    constructor
    · intro hw
      have hwrite := What.isWrite_ensureRead.mp hw
      exact h.write (by rw [hwrite]; rfl)
    · intro _ hnone
      obtain rfl : callback = none := hnone
      exact hleaves ⟨rfl, Ne.symm heq⟩

lemma Tidy.stopRead (h : s.Tidy) (hleaves : ¬ s.Leaves .stopRead) : s.stopRead.Tidy := by
  cases hcb : s.readCallback with
  | none =>
    rw [Stream.stopRead, hcb]
    exact h
  | some cb =>
    have hne : s.readCallback ≠ none := by
      rw [hcb]
      exact Option.some_ne_none cb
    cases hw : s.watched with
    | read => exact absurd (.inl ⟨hne, hw⟩) hleaves
    | none =>
      refine tidy_of_not_watched ?_
      simp [Stream.stopRead, hcb, hw, What.isRead]
    | write =>
      have hsame : s.stopRead = { s with readCallback := none } := by
        simp [Stream.stopRead, hcb, hw, What.isRead]
      rw [hsame]
      refine ⟨h.write, fun hread => ?_⟩
      rw [show s.watched = .write from hw] at hread
      cases hread
    | readWrite =>
      have hdown : s.stopRead = { s with readCallback := none, watched := .write } := by
        simp [Stream.stopRead, hcb, hw, What.isRead, What.isWrite]
      rw [hdown]
      exact ⟨fun _ => h.write (by rw [hw]; rfl), fun hread => nomatch hread⟩

lemma Tidy.closeConnect (h : s.Tidy) : s.closeConnect.Tidy := by
  cases hcb : s.connectCallback with
  | none =>
    rw [closeConnect_of_none hcb, closeFinish_eq]
    exact tidy_of_not_watched rfl
  | some cb =>
    rw [closeConnect_of_some hcb]
    exact ⟨h.write, h.read⟩

lemma Tidy.close (h : s.Tidy) : s.close.Tidy := by
  cases hcb : s.readCallback with
  | none =>
    rw [close_of_none hcb]
    exact h.closeConnect
  | some cb =>
    rw [close_of_some hcb]
    exact ⟨h.write, h.read⟩

lemma Tidy.resumeCall {c : PendingCall} (h : s.Tidy) (hok : s.resumeCall c = .ok s') :
    s'.Tidy := by
  cases c with
  | closeRead =>
    obtain ⟨-, rfl⟩ := access_map_eq_ok.mp hok
    exact h.closeConnect
  | closeConnect =>
    obtain ⟨-, rfl⟩ := access_map_eq_ok.mp hok
    rw [closeFinish_eq]
    exact tidy_of_not_watched rfl
  | connect =>
    obtain rfl := Except.ok.inj hok
    exact h

lemma Tidy.connect {results : ConnectResults} {callback : Nat} (h : s.Tidy)
    (hok : s.connect results callback = .ok s') : s'.Tidy := by
  obtain ⟨⟨-, -, hwatched⟩, hstep⟩ := connect_cases hok
  cases hstep with
  | failed error => exact ⟨h.write, h.read⟩
  | completed hne => exact ⟨h.write, h.read⟩
  | pending hne =>
    refine ⟨fun _ => .inr (.inl (Option.some_ne_none _)), fun hread => ?_⟩
    rw [What.isRead_ensureWrite, hwatched] at hread
    cases hread

lemma Tidy.resumeDispatch (h : s.Tidy) (hcalls : s.calls = []) (hs : s.dispatch = some d)
    (hleaves : ¬ s.Leaves .ret) (hok : s.resumeDispatch d = .ok s') : s'.Tidy := by
  rw [resumeDispatch_eq hok]
  by_cases hconnect : ∃ event, d = .connectDone event
  · -- the write loop has a request to go on with
    obtain ⟨event, rfl⟩ := hconnect
    have hhead : RequestQueue.head s.requests ≠ none := fun hnone =>
      hleaves ⟨hcalls, hnone, event, hs⟩
    exact ⟨fun _ => .inl hhead, h.read⟩
  · refine h.of_dispatch (fun event hd => hconnect ⟨event, ?_⟩) rfl rfl rfl rfl
    exact Option.some.inj (hs.symm.trans hd)

lemma Tidy.noResidue (h : s.Tidy)
    (hd : RequestQueue.head s.requests = none → ∀ event, s.dispatch ≠ some (.connectDone event)) :
    s.NoResidue := by
  have hwrite : s.watched.isWrite = true →
      RequestQueue.head s.requests ≠ none ∨ s.connectCallback ≠ none := by
    intro hw
    rcases h.write hw with hhead | hcb | ⟨event, hconnect⟩
    · exact .inl hhead
    · exact .inr hcb
    · exact .inl fun hnone => hd hnone event hconnect
  refine ⟨hwrite, h.read, fun hnone hcb hread => ?_⟩
  cases hw : s.watched with
  | none => rfl
  | read => exact absurd hread (h.read (by rw [hw]; rfl))
  | write | readWrite =>
    exact absurd (hwrite (by rw [hw]; rfl)) (not_or.mpr ⟨fun hne => hne hnone, fun hne => hne hcb⟩)

variable [HeadedRequestQueue Q]

lemma Tidy.queueWrite {readBuffer buffer : BufferImpl β} {callback : Option Nat} (h : s.Tidy)
    (hok : { s with readBuffer }.queueWrite buffer callback = .ok s') : s'.Tidy := by
  obtain ⟨requests, happend, rfl⟩ := queueWrite_cases hok
  refine ⟨fun _ => .inl (HeadedRequestQueue.head_append_ne_none happend), fun hread => ?_⟩
  have hw := What.isRead_ensureWrite.mp hread
  exact h.read (by rw [show s.watched = .read from hw]; rfl)

lemma Tidy.xwrites {req : Nat} {results : List WriteResult} (h : s.Tidy)
    (hd : s.dispatch = some (.writeHelper event req))
    (hok : s.xwrites event req results = .ok s') : s'.Tidy := by
  obtain ⟨heq, hwatched, -⟩ := xwrites_eq hok
  rw [heq]
  rcases hwatched with ⟨hhead, hsame⟩ | hsame
  · constructor
    · intro hw
      simp only [hsame] at hw
      rcases h.write hw with hne | hcb | ⟨event', hd'⟩
      · exact .inl (by simpa only [hhead] using hne)
      · exact .inr (.inl hcb)
      · rw [hd] at hd'
        cases hd'
    · intro hr
      simp only [hsame] at hr
      exact h.read hr
  · simp only [hsame]
    cases hhead : RequestQueue.head s'.requests with
    | none =>
      refine ⟨fun hw => ?_, fun hr => h.read ?_⟩
      · simp at hw
      · simpa using hr
    | some next => exact ⟨fun _ => .inl (by rw [hhead]; exact Option.some_ne_none next), h.read⟩

/-! ### Steps and runs -/

/-- A step that leaves nothing keeps the invariant. -/
lemma Tidy.step (h : s.Tidy) (hok : s.step act = .ok s') (hleaves : ¬ s.Leaves act) : s'.Tidy := by
  cases step_effect hok with
  | queue readBuffer _ _ hqueue => exact h.queueWrite hqueue
  | useBuffer readBuffer => exact ⟨h.write, h.read⟩
  | startRead callback => exact h.startRead hleaves
  | stopRead => exact h.stopRead hleaves
  | close => exact h.close
  | connect _ hconnect => exact h.connect hconnect
  | destroy _ hdestroy =>
    obtain ⟨⟨requests, r⟩, -, hok⟩ := bind_eq_ok.mp hdestroy
    obtain rfl := Except.ok.inj hok
    exact tidy_of_not_watched rfl
  | ready event _ hd =>
    rw [ready_eq]
    exact h.of_dispatch (fun event' hd' => by rw [hd] at hd'; cases hd') rfl rfl rfl rfl
  | getsockopt _ _ _ hget =>
    obtain ⟨cb, -, rfl⟩ := getsockopt_cases hget
    exact ⟨fun _ => .inr (.inr ⟨_, rfl⟩), h.read⟩
  | xwrites _ _ hd hx => exact h.xwrites hd hx
  | xread _ _ hd hx =>
    rw [xread_eq hx]
    exact h.of_dispatch (fun event' hd' => by rw [hd] at hd'; cases hd') rfl rfl rfl rfl
  | @returned c calls _ _ hcall =>
    have hrest : Tidy { s with calls } := ⟨h.write, h.read⟩
    exact hrest.resumeCall hcall
  | resumed hcalls hd hresume => exact h.resumeDispatch hcalls hd hleaves hresume

/-- In a run of a stream in which reading is stopped only where `WRITE` is watched too, and a
connect completes only with requests queued, nothing is watched that is not waited for whenever
`stopRead` or a dispatch returns. -/
theorem noResidue_of_not_leaves (fd : Int) (acts : List (Act β))
    (h : Exec.exec step (new fd : Stream Q β) acts = .ok s)
    (hleaves : Exec.Along step (fun s act => ¬ s.Leaves act) (new fd : Stream Q β) acts) :
    Exec.Along step (fun s act => ∀ s', s.step act = .ok s' → s.Settles act s' → s'.NoResidue)
      (new fd : Stream Q β) acts := by
  have hrun : s.Tidy ∧ Exec.Along step (fun s act => ∀ s', s.step act = .ok s' →
      s.Settles act s' → s'.NoResidue) (new fd : Stream Q β) acts := by
    induction acts using List.reverseRecOn generalizing s with
    | nil =>
      obtain rfl := Except.ok.inj h
      exact ⟨tidy_of_not_watched rfl, Exec.along_nil⟩
    | append_singleton acts act ih =>
      obtain ⟨s₁, hacts, hstep⟩ := Exec.exec_concat_eq_ok.mp h
      obtain ⟨hleaves, hact⟩ := (Exec.along_concat hacts).mp hleaves
      obtain ⟨htidy, halong⟩ := ih hacts hleaves
      have hs := htidy.step hstep hact
      refine ⟨hs, (Exec.along_concat hacts).mpr ⟨halong, fun s' hs' hsettles => ?_⟩⟩
      obtain rfl := Except.ok.inj (hstep.symm.trans hs')
      refine hs.noResidue fun hnone event hd => ?_
      rcases hsettles with rfl | ⟨-, hend⟩
      · -- `stopRead` was called from the connect callback
        cases step_effect hstep with
        | stopRead =>
          rw [stopRead_frame.1] at hnone
          rw [stopRead_frame.2] at hd
          exact hact (.inr ⟨hnone, event, hd⟩)
        | queue _ _ hwrite => cases hwrite
        | useBuffer _ _ huse => cases huse
      · rw [hend] at hd
        cases hd
  exact hrun.2

/-- Reading is stopped while a write is queued, and the last dispatch leaves nothing registered. -/
theorem noResidue_stopped : ∃ s : Stream (Requests (WriteRequest Char)) Char,
    Exec.exec step (new 3) [.startRead (some 1), .write ['a'] none, .stopRead, .ready .write,
      .xwrites [.count 1]] = .ok s ∧
    Exec.Along step (fun s act => ∀ s', s.step act = .ok s' → s.Settles act s' → s'.NoResidue)
      (new 3 : Stream (Requests (WriteRequest Char)) Char) [.startRead (some 1), .write ['a'] none,
        .stopRead, .ready .write, .xwrites [.count 1]] := by
  refine ⟨_, rfl, noResidue_of_not_leaves 3 _ rfl ⟨?_, id, ?_, id, id, trivial⟩⟩
  · rintro ⟨hnone, -⟩
    cases hnone
  · rintro (⟨-, hw⟩ | ⟨hnone, -⟩)
    · exact absurd hw (by decide)
    · exact absurd hnone (by decide)

/-- `stopRead` has no case for a handler that watches only `READ`. -/
theorem not_noResidue : ¬ ∀ (fd : Int) (acts : List (Act Char))
    (s : Stream (Requests (WriteRequest Char)) Char), fd ≠ -1 → .close ∉ acts →
    Exec.exec step (new fd) acts = .ok s →
    Exec.Along step (fun s act => ∀ s', s.step act = .ok s' → s.Settles act s' → s'.NoResidue)
      (new fd : Stream (Requests (WriteRequest Char)) Char) acts := by
  intro h
  have hrun := h 3 [.startRead (some 1), .stopRead] _ (by decide) (by simp) rfl
  have hread := (hrun.2.1 _ rfl (.inl rfl)).read rfl
  exact hread rfl

end Stream

end WhatTheEvent
