import WhatTheEvent.EchoServer.Turn

/-!
# What a connection owes its peer

The bytes accepted by the socket of a connection, followed by those that are pending, are the bytes
received with some chunks left out, and with none left out as long as no chunk arrives while two
requests are pending.
-/

namespace WhatTheEvent

variable {β ρ : Type}

/-- A chunk arrives. -/
def ConnectionAct.isData : ConnectionAct β → Bool
  | .xread (.data _) => true
  | _ => false

namespace Requests

/-- A request is linked behind the first one. -/
def hasSecond (q : Requests ρ) : Bool :=
  match q.head.bind q.heap.load with
  | some node => node.next.isSome
  | none => false

lemma Linked.hasSecond_iff {q : Requests ρ} {items : List (Nat × ρ)}
    (h : Linked q.heap q.head items) : q.hasSecond = true ↔ 2 ≤ items.length := by
  unfold hasSecond
  cases items with
  | nil =>
    rw [show q.head = none from h]
    simp
  | cons item rest =>
    obtain ⟨a, request⟩ := item
    obtain ⟨hhead, next, hload, hrest⟩ := h
    rw [hhead, Option.bind_some, hload]
    cases rest with
    | nil =>
      obtain rfl : next = none := hrest
      simp
    | cons item rest =>
      rw [hrest.1]
      simp

end Requests

namespace Connection

variable {s s' : Connection β} {act : ConnectionAct β} {items : List (Nat × WriteRequest β)}
  {listening : Bool}

/-- A chunk arrives while a request is pending. -/
def Overlaps (s : Connection β) (act : ConnectionAct β) : Prop :=
  act.isData = true ∧ s.requests.head ≠ none

/-- A chunk arrives while two requests are pending. -/
def Crowds (s : Connection β) (act : ConnectionAct β) : Prop :=
  act.isData = true ∧ s.requests.hasSecond = true

instance (s : Connection β) (act : ConnectionAct β) : Decidable (s.Overlaps act) :=
  inferInstanceAs (Decidable (_ ∧ _))

instance (s : Connection β) (act : ConnectionAct β) : Decidable (s.Crowds act) :=
  inferInstanceAs (Decidable (_ ∧ _))

/-- What was accepted and what is pending is what was received. -/
def Conserves (s : Connection β) : Prop :=
  ∃ items, Requests.Linked s.requests.heap s.requests.head items ∧
    accepted s.trace ++ pending items = (received s.trace).map some

/-- What was accepted is a beginning of what was received. -/
def EchoesPrefix (s : Connection β) : Prop := accepted s.trace <+: (received s.trace).map some

/-- The state of a connection, what it has echoed and whether its descriptor was closed. -/
inductive Account (s : Connection β) : Prop
  | live {listening : Bool} {items : List (Nat × WriteRequest β)} (hfd : s.fd ≠ -1)
    (h : s.Open listening items)
    (hlaw : (accepted s.trace ++ pending items).Sublist ((received s.trace).map some))
    (hclosed : closed s.trace = [])
  | deleted (hfd : s.fd ≠ -1) (h : s.Deleted)
    (hlaw : (accepted s.trace).Sublist ((received s.trace).map some))
    (hclosed : closed s.trace = [s.fd])

lemma account_acceptCb {fd : Int} (hfd : fd ≠ -1) : (acceptCb fd : Connection β).Account :=
  .live hfd (open_acceptCb fd) (List.nil_sublist _) rfl

lemma Account.sublist (h : s.Account) :
    (accepted s.trace).Sublist ((received s.trace).map some) := by
  cases h with
  | live _ _ hlaw => exact (List.sublist_append_left _ _).trans hlaw
  | deleted _ _ hlaw => exact hlaw

lemma Account.closed_eq (h : s.Account) : closed s.trace = if s.alive then [] else [s.fd] := by
  cases h with
  | live _ hopen _ hclosed => rw [hopen.alive, hclosed, if_pos rfl]
  | deleted _ hdeleted _ hclosed => rw [hdeleted.alive, hclosed, if_neg Bool.false_ne_true]

lemma closed_closing (hfd : s.fd ≠ -1) : closed s.closing = [s.fd] := by
  rw [closing, if_pos hfd]
  rfl

lemma pending_append {items' : List (Nat × WriteRequest β)} :
    pending (items ++ items') = pending items ++ pending items' := List.flatMap_append

lemma pending_singleton {req : Nat} {request : WriteRequest β} :
    pending [(req, request)] = request.buffer.contents := List.append_nil _

/-- The first of the pending requests stays, whatever arrives. -/
lemma pending_take_sublist : (pending (items.take 1)).Sublist (pending items) := by
  cases items with
  | nil => exact .refl _
  | cons item rest =>
    rw [← List.singleton_append, pending_append]
    exact List.sublist_append_left _ _

/-! ### Steps -/

/-- A step is one of a live connection, whose account it keeps, and its descriptor. -/
lemma Account.step (h : s.Account) (hok : s.step act = .ok s') :
    s'.Account ∧ s'.fd = s.fd ∧ s.alive = true := by
  cases h with
  | deleted _ hdeleted =>
    rw [hdeleted.step act] at hok
    cases hok
  | @live listening items hfd hopen hlaw hclosed =>
    rw [← and_assoc, and_iff_left hopen.alive]
    cases hopen.outcome act with
    | disabled herror =>
      rw [herror] at hok
      cases hok
    | useAfterFree herror =>
      rw [herror] at hok
      cases hok
    | ok hok' heffect =>
      obtain rfl := Except.ok.inj (hok'.symm.trans hok)
      cases heffect with
      | goesOn _ hopen' hcells _ hgrows =>
        refine ⟨.live (hgrows.fd ▸ hfd) hopen' ?_ ?_, hgrows.fd⟩
        · rw [hgrows.cells, hgrows.bytes, List.append_assoc, hcells, List.append_nil]
          exact hlaw
        · rw [hgrows.fds, hclosed, List.append_nil]
      | arrived _ _ hrequest hopen' hgrows =>
        refine ⟨.live (hgrows.fd ▸ hfd) hopen' ?_ ?_, hgrows.fd⟩
        · rw [hgrows.cells, hgrows.bytes, List.append_nil, pending_append, pending_singleton,
            hrequest, ← List.append_assoc, List.map_append]
          exact ((List.Sublist.append_left pending_take_sublist _).trans hlaw).append_right _
        · rw [hgrows.fds, hclosed, List.append_nil]
      | ended _ _ hdeleted hgrows =>
        refine ⟨.deleted (hgrows.fd ▸ hfd) hdeleted ?_ ?_, hgrows.fd⟩
        · rw [hgrows.cells, hgrows.bytes, List.append_nil, List.append_nil]
          exact (List.sublist_append_left _ _).trans hlaw
        · rw [hgrows.fds, hclosed, closed_closing hfd, hgrows.fd, List.nil_append]
      | failed hcells _ hdeleted hgrows =>
        refine ⟨.deleted (hgrows.fd ▸ hfd) hdeleted ?_ ?_, hgrows.fd⟩
        · rw [hgrows.cells, hgrows.bytes, List.append_nil]
          exact (List.Sublist.append_left hcells.sublist _).trans hlaw
        · rw [hgrows.fds, hclosed, closed_closing hfd, hgrows.fd, List.nil_append]

/-- The only way to access freed memory is a write that fails in a dispatch that goes on to read. -/
lemma Account.step_eq_useAfterFree_iff (h : s.Account) :
    s.step act = .error .useAfterFree ↔ s.FailsReading act := by
  cases h with
  | deleted _ hdeleted =>
    rw [hdeleted.step act]
    refine iff_of_false (fun heq => by cases heq) fun hfails => ?_
    cases act with
    | xwrites results =>
      obtain ⟨⟨event, req, hd, -⟩, -⟩ := hfails
      rw [hdeleted.dispatch] at hd
      cases hd
    | _ => exact hfails
  | live _ hopen =>
    cases hopen.outcome act with
    | disabled herror hfails =>
      rw [herror]
      exact iff_of_false (fun heq => by cases heq) hfails
    | useAfterFree herror hfails => exact iff_of_true herror hfails
    | ok hok _ hfails =>
      rw [hok]
      exact iff_of_false (fun heq => by cases heq) hfails

/-- A connection watches for data after a step if it did before, and nothing was pending where a
chunk has arrived. -/
lemma Account.watches_iff (h : s.Account) (hok : s.step act = .ok s') (halive : s'.alive = true) :
    s'.watched.isRead = true ↔ s.watched.isRead = true ∧ ¬ s.Overlaps act := by
  cases h with
  | deleted _ hdeleted =>
    rw [hdeleted.step act] at hok
    cases hok
  | @live listening items _ hopen =>
    rw [hopen.watched, isRead_interest]
    cases hopen.outcome act with
    | disabled herror | useAfterFree herror =>
      rw [herror] at hok
      cases hok
    | ok hok' heffect =>
      obtain rfl := Except.ok.inj (hok'.symm.trans hok)
      cases heffect with
      | goesOn hdata hopen' =>
        rw [hopen'.watched, isRead_interest]
        refine (and_iff_left ?_).symm
        rintro ⟨hisData, -⟩
        cases act with
        | xread result =>
          cases result with
          | data bytes => exact hdata bytes rfl
          | _ => cases hisData
        | _ => cases hisData
      | arrived _ _ _ hopen' =>
        rw [hopen'.watched, isRead_interest, Bool.and_eq_true, Overlaps, hopen.linked.head_eq]
        refine and_congr_right fun _ => ?_
        cases items <;> simp [ConnectionAct.isData]
      | ended _ _ hdeleted | failed _ _ hdeleted =>
        rw [hdeleted.alive] at halive
        cases halive

lemma Open.conserves_iff (h : s.Open listening items) :
    s.Conserves ↔ accepted s.trace ++ pending items = (received s.trace).map some := by
  constructor
  · rintro ⟨items', hlinked, heq⟩
    rwa [h.linked.unique hlinked]
  · exact fun heq => ⟨items, h.linked, heq⟩

lemma not_crowds_of_isData (h : act.isData = false) : ¬ s.Crowds act :=
  fun hcrowds => Bool.false_ne_true (h.symm.trans hcrowds.1)

/-- The chunk that is dropped was not empty, and no later one replaces it. -/
lemma Open.not_conserves_of_crowded {bytes : List β} {request : WriteRequest β}
    (h : s.Open listening items)
    (hlaw : (accepted s.trace ++ pending items).Sublist ((received s.trace).map some))
    (hlen : 2 ≤ items.length) (hrequest : request.buffer.contents = bytes.map some) :
    accepted s.trace ++ pending (items.take 1 ++ [(s.requests.heap.fresh, request)]) ≠
      (received s.trace ++ bytes).map some := by
  match items with
  | [] | [_] => exact absurd hlen (by simp)
  | (a, first) :: (b, second) :: rest =>
    intro heq
    have hne : second.buffer.contents ≠ [] := h.next _ List.mem_cons_self
    have hpos := List.length_pos_iff.mpr hne
    have hle := hlaw.length_le
    have hlength := congrArg List.length heq
    simp only [pending, List.take_succ_cons, List.take_zero, List.flatMap_cons, List.flatMap_nil,
      List.cons_append, List.nil_append, List.append_nil, List.length_append, hrequest,
      List.map_append, List.length_map] at hle hlength
    omega

/-- A connection conserves its bytes after a step if it did before, and fewer than two requests were
pending where a chunk has arrived. -/
lemma Account.conserves_iff (h : s.Account) (hok : s.step act = .ok s') (halive : s'.alive = true) :
    s'.Conserves ↔ s.Conserves ∧ ¬ s.Crowds act := by
  cases h with
  | deleted _ hdeleted =>
    rw [hdeleted.step act] at hok
    cases hok
  | @live listening items _ hopen hlaw =>
    cases hopen.outcome act with
    | disabled herror | useAfterFree herror =>
      rw [herror] at hok
      cases hok
    | ok hok' heffect =>
      obtain rfl := Except.ok.inj (hok'.symm.trans hok)
      rw [hopen.conserves_iff]
      cases heffect with
      | goesOn hdata hopen' hcells _ hgrows =>
        rw [hopen'.conserves_iff, hgrows.cells, hgrows.bytes, List.append_assoc, hcells,
          List.append_nil]
        refine (and_iff_left (not_crowds_of_isData ?_)).symm
        cases act with
        | xread result =>
          cases result with
          | data bytes => exact absurd rfl (hdata bytes)
          | _ => rfl
        | _ => rfl
      | @arrived bytes _ request _ _ hrequest hopen' hgrows =>
        rw [hopen'.conserves_iff, hgrows.cells, hgrows.bytes, List.append_nil, Crowds,
          hopen.linked.hasSecond_iff]
        by_cases hlen : 2 ≤ items.length
        · exact iff_of_false (hopen.not_conserves_of_crowded hlaw hlen hrequest)
            fun hboth => hboth.2 ⟨rfl, hlen⟩
        · rw [and_iff_left fun hcrowds => hlen hcrowds.2, pending_append,
            List.take_of_length_le (Nat.le_of_lt_succ (Nat.lt_of_not_le hlen)), pending_singleton,
            hrequest, ← List.append_assoc, List.map_append]
          exact List.append_left_inj _
      | ended _ _ hdeleted | failed _ _ hdeleted =>
        rw [hdeleted.alive] at halive
        cases halive

/-- Where the bytes were conserved up to the end, those echoed are a beginning. -/
lemma Account.echoesPrefix_of_deleted (h : s.Account) (hok : s.step act = .ok s')
    (halive : s'.alive = false) (hconserves : s.Conserves) : s'.EchoesPrefix := by
  cases h with
  | deleted _ hdeleted =>
    rw [hdeleted.step act] at hok
    cases hok
  | @live listening items _ hopen =>
    rw [hopen.conserves_iff] at hconserves
    cases hopen.outcome act with
    | disabled herror | useAfterFree herror =>
      rw [herror] at hok
      cases hok
    | ok hok' heffect =>
      obtain rfl := Except.ok.inj (hok'.symm.trans hok)
      unfold EchoesPrefix
      cases heffect with
      | goesOn _ hopen' | arrived _ _ _ hopen' =>
        rw [hopen'.alive] at halive
        cases halive
      | ended _ _ _ hgrows =>
        rw [hgrows.cells, hgrows.bytes, List.append_nil, List.append_nil, ← hconserves]
        exact List.prefix_append _ _
      | failed hcells _ _ hgrows =>
        rw [hgrows.cells, hgrows.bytes, List.append_nil, ← hconserves]
        exact (List.prefix_append_right_inj _).mpr hcells

lemma Conserves.echoesPrefix (h : s.Conserves) : s.EchoesPrefix := by
  obtain ⟨items, -, heq⟩ := h
  exact ⟨pending items, heq⟩

/-! ### Connections that do not watch for data -/

/-- A connection that does not watch for data any more, between two dispatches or in one that only
writes. -/
def Deaf (s : Connection β) : Prop :=
  s.alive = true ∧ s.watched.isRead = false ∧ s.dispatch ≠ some .readHelper

/-- A connection that does not watch for data receives nothing, and is deleted only where a write
fails. -/
lemma Account.deaf_step (h : s.Account) (hdeaf : s.Deaf) (hok : s.step act = .ok s') :
    (s'.Deaf ∧ received s'.trace = received s.trace) ∨
      ∃ results e, act = .xwrites results ∧ WriteResult.error e ∈ results := by
  obtain ⟨halive, hwatched, hdispatch⟩ := hdeaf
  cases h with
  | deleted _ hdeleted =>
    rw [hdeleted.alive] at halive
    cases halive
  | @live listening items _ hopen =>
    rw [hopen.watched, isRead_interest] at hwatched
    cases hopen.outcome act with
    | disabled herror | useAfterFree herror =>
      rw [herror] at hok
      cases hok
    | ok hok' heffect =>
      obtain rfl := Except.ok.inj (hok'.symm.trans hok)
      cases heffect with
      | goesOn _ hopen' _ hread hgrows =>
        refine .inl ⟨⟨hopen'.alive, ?_, fun hd => ?_⟩, hgrows.bytes.trans (List.append_nil _)⟩
        · rw [hopen'.watched, isRead_interest, hwatched]
        · rcases hread hd with hlistening | hd'
          · exact Bool.false_ne_true (hwatched.symm.trans hlistening)
          · exact hdispatch hd'
      | arrived _ hd | ended _ hd => exact absurd hd hdispatch
      | failed _ hresults =>
        obtain ⟨e, he⟩ := hresults
        exact .inr ⟨_, e, rfl, he⟩

end Connection

end WhatTheEvent
