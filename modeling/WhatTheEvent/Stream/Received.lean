import WhatTheEvent.Buffer.CopyLaw
import WhatTheEvent.Stream.WriteSide

/-!
# Data received and the end of it

Bytes taken off the socket while no callback is installed wait in the read buffer for the next
chunk. They are shown before the end of stream is reported in exactly those runs in which the last
chunk before it arrived while a callback was installed.
-/

namespace WhatTheEvent

variable {β Q : Type}

/-- The bytes that the event takes off the socket. -/
def Event.received : Event β → List β
  | .xread _ (.data bytes) _ => bytes
  | _ => []

def Event.isAvailable : Event β → Bool
  | .available _ _ => true
  | _ => false

/-- The event brings bytes or shows them. -/
def Event.carries : Event β → Bool
  | .xread _ (.data _) _ => true
  | .available _ _ => true
  | _ => false

lemma Event.carries_of_not_onReadSide {e : Event β} (h : e.onReadSide = false) :
    e.carries = false := by
  cases e <;> first | rfl | cases h

/-- The bytes taken off the socket. -/
def received (trace : List (Event β)) : List β := trace.flatMap Event.received

/-- Every chunk taken off the socket is later shown by some call of `available()`: the buffer passed
to it ends with the chunk and what was received between the chunk and the call. -/
def AllShown (trace : List (Event β)) : Prop :=
  ∀ pre fd bytes installed mid, trace = pre ++ .xread fd (.data bytes) installed :: mid →
    ∃ between cb buffer rest, mid = between ++ .available cb buffer :: rest ∧
      bytes ++ received between <:+ buffer.bytes

/-- Everything received is shown before an end of stream that `xread` returned is reported. -/
def OfferedBeforeEof (trace : List (Event β)) : Prop :=
  ∀ pre cb post, trace = pre ++ .eof cb true :: post → AllShown pre

/-- The bytes received since the last call of `available()`. -/
def unshownStep (acc : List β) : Event β → List β
  | .available _ _ => []
  | e => acc ++ e.received

def unshown (trace : List (Event β)) : List β := trace.foldl unshownStep []

/-- Whether the last chunk arrived while no callback was installed. -/
def lastKeptStep (acc : Bool) : Event β → Bool
  | .xread _ (.data _) installed => installed.isNone
  | _ => acc

def lastKept (trace : List (Event β)) : Bool := trace.foldl lastKeptStep false

/-! ### Traces -/

section Trace

variable {trace mid : List (Event β)} {e : Event β} {acc : List β}

lemma received_append : received (trace ++ mid) = received trace ++ received mid :=
  List.flatMap_append

@[simp] lemma unshown_concat : unshown (trace ++ [e]) = unshownStep (unshown trace) e := by
  rw [unshown, List.foldl_append]
  rfl

@[simp] lemma lastKept_concat : lastKept (trace ++ [e]) = lastKeptStep (lastKept trace) e := by
  rw [lastKept, List.foldl_append]
  rfl

lemma unshownStep_of_not_isAvailable (h : e.isAvailable = false) :
    unshownStep acc e = acc ++ e.received := by
  cases e <;> first | rfl | cases h

/-- As long as `available()` is not called, what is received adds up. -/
lemma foldl_unshownStep (h : ∀ e ∈ mid, e.isAvailable = false) :
    mid.foldl unshownStep acc = acc ++ received mid := by
  induction mid generalizing acc with
  | nil => exact (List.append_nil acc).symm
  | cons e mid ih =>
    rw [List.forall_mem_cons] at h
    rw [List.foldl_cons, ih h.2, unshownStep_of_not_isAvailable h.1, received, received,
      List.flatMap_cons, List.append_assoc]

/-- What `available()` is passed ends with what has not been shown, and no chunk is empty. -/
structure Honest (trace : List (Event β)) : Prop where
  shown : ∀ pre cb buffer post, trace = pre ++ .available cb buffer :: post →
    unshown pre <:+ buffer.bytes
  nonempty : ∀ fd bytes installed, .xread fd (.data bytes) installed ∈ trace → bytes ≠ []

/-- Where an event stands in a trace that has grown by one event. -/
lemma concat_eq_append_cons {pre post : List (Event β)} {e' : Event β}
    (h : trace ++ [e] = pre ++ e' :: post) :
    (pre = trace ∧ e' = e ∧ post = []) ∨
      ∃ post', post = post' ++ [e] ∧ trace = pre ++ e' :: post' := by
  rcases List.eq_nil_or_concat post with rfl | ⟨post', last, rfl⟩
  · obtain ⟨rfl, he⟩ := List.append_inj' h rfl
    exact Or.inl ⟨rfl, (List.cons.inj he).1.symm, rfl⟩
  · rw [List.concat_eq_append, ← List.cons_append, ← List.append_assoc] at h
    obtain ⟨rfl, he⟩ := List.append_inj' h rfl
    exact Or.inr ⟨post', by rw [List.concat_eq_append, (List.cons.inj he).1], rfl⟩

lemma Honest.concat (h : Honest trace)
    (havail : ∀ cb buffer, e = .available cb buffer → unshown trace <:+ buffer.bytes)
    (hdata : ∀ fd bytes installed, e = .xread fd (.data bytes) installed → bytes ≠ []) :
    Honest (trace ++ [e]) := by
  refine ⟨fun pre cb buffer post heq => ?_, fun fd bytes installed hmem => ?_⟩
  · rcases concat_eq_append_cons heq with ⟨rfl, he, -⟩ | ⟨post', -, htrace⟩
    · exact havail cb buffer he.symm
    · exact h.shown pre cb buffer post' htrace
  · rcases List.mem_append.mp hmem with hmem | hmem
    · exact h.nonempty fd bytes installed hmem
    · exact hdata fd bytes installed (List.mem_singleton.mp hmem).symm

/-- Bytes that have not been shown come from a chunk after which `available()` was not called. -/
lemma exists_of_unshown_ne_nil (h : unshown trace ≠ []) :
    ∃ pre fd bytes installed mid, trace = pre ++ .xread fd (.data bytes) installed :: mid ∧
      ∀ e ∈ mid, e.isAvailable = false := by
  induction trace using List.reverseRecOn with
  | nil => exact absurd rfl h
  | append_singleton trace e ih =>
    rw [unshown_concat] at h
    have hkeep : e.isAvailable = false → e.received = [] →
        ∃ pre fd bytes installed mid,
          trace ++ [e] = pre ++ .xread fd (.data bytes) installed :: mid ∧
            ∀ e' ∈ mid, e'.isAvailable = false := by
      intro ha hr
      rw [unshownStep_of_not_isAvailable ha, hr, List.append_nil] at h
      obtain ⟨pre, fd, bytes, installed, mid, htrace, hmid⟩ := ih h
      refine ⟨pre, fd, bytes, installed, mid ++ [e], by rw [htrace, List.append_assoc]; rfl, ?_⟩
      exact List.forall_mem_append.mpr ⟨hmid, List.forall_mem_singleton.mpr ha⟩
    cases e with
    | available cb buffer => exact absurd rfl h
    | xread fd result installed =>
      cases result with
      | data bytes =>
        exact ⟨trace, fd, bytes, installed, [], rfl, fun _ hm => absurd hm List.not_mem_nil⟩
      | eof => exact hkeep rfl rfl
      | error er => exact hkeep rfl rfl
    | _ => exact hkeep rfl rfl

/-- Everything was shown if and only if nothing is left of it. -/
lemma Honest.allShown_iff (h : Honest trace) : AllShown trace ↔ unshown trace = [] := by
  constructor
  · intro hall
    by_contra hne
    obtain ⟨pre, fd, bytes, installed, mid, htrace, hmid⟩ := exists_of_unshown_ne_nil hne
    obtain ⟨between, cb, buffer, rest, rfl, -⟩ := hall pre fd bytes installed mid htrace
    exact nomatch hmid (.available cb buffer) (List.mem_append_right _ List.mem_cons_self)
  · intro hnil pre fd bytes installed mid htrace
    have hpre : unshown (pre ++ [.xread fd (.data bytes) installed]) = unshown pre ++ bytes :=
      unshown_concat
    cases hfind : mid.find? Event.isAvailable with
    | none =>
      rw [List.find?_eq_none] at hfind
      have hmid : ∀ e ∈ mid, e.isAvailable = false := fun e he => Bool.eq_false_iff.mpr (hfind e he)
      have hbytes : unshown trace = unshown pre ++ bytes ++ received mid := by
        rw [htrace, List.append_cons, unshown, List.foldl_append, foldl_unshownStep hmid]
        exact congrArg (· ++ received mid) hpre
      rw [hnil] at hbytes
      obtain ⟨hb, -⟩ := List.append_eq_nil_iff.mp hbytes.symm
      refine absurd (List.append_eq_nil_iff.mp hb).2 (h.nonempty fd bytes installed ?_)
      rw [htrace]
      exact List.mem_append_right _ List.mem_cons_self
    | some e =>
      obtain ⟨ha, between, rest, rfl, hbetween⟩ := List.find?_eq_some_iff_append.mp hfind
      cases e with
      | available cb buffer =>
        refine ⟨between, cb, buffer, rest, rfl, ?_⟩
        have hmid : ∀ e ∈ between, e.isAvailable = false := fun e he => by simpa using hbetween e he
        have hshown := h.shown (pre ++ .xread fd (.data bytes) installed :: between) cb buffer rest
          (by rw [htrace, List.append_assoc]; rfl)
        rw [List.append_cons, unshown, List.foldl_append, foldl_unshownStep hmid] at hshown
        change unshown (pre ++ [_]) ++ received between <:+ _ at hshown
        rw [hpre, List.append_assoc] at hshown
        exact (List.suffix_append _ _).trans hshown
      | _ => cases ha

lemma offeredBeforeEof_concat :
    OfferedBeforeEof (trace ++ [e]) ↔
      OfferedBeforeEof trace ∧ ∀ cb, e = .eof cb true → AllShown trace := by
  constructor
  · intro h
    refine ⟨fun pre cb post heq => ?_, fun cb he => h trace cb [] (by rw [he])⟩
    exact h pre cb (post ++ [e]) (by rw [heq, List.append_assoc]; rfl)
  · rintro ⟨h, hlast⟩ pre cb post heq
    rcases concat_eq_append_cons heq with ⟨rfl, he, -⟩ | ⟨post', -, htrace⟩
    · exact hlast cb he.symm
    · exact h pre cb post' htrace

/-- Other events change nothing of this. -/
lemma unshown_of_neutral {events : List (Event β)} (h : ∀ e ∈ events, e.carries = false) :
    unshown (trace ++ events) = unshown trace ∧ lastKept (trace ++ events) = lastKept trace := by
  induction events using List.reverseRecOn with
  | nil => rw [List.append_nil]; exact ⟨rfl, rfl⟩
  | append_singleton events e ih =>
    rw [List.forall_mem_append, List.forall_mem_singleton] at h
    rw [← List.append_assoc, unshown_concat, lastKept_concat, (ih h.1).1, (ih h.1).2]
    cases e with
    | xread fd result installed =>
      cases result with
      | data bytes => cases h.2
      | _ => exact ⟨List.append_nil _, rfl⟩
    | available cb buffer => cases h.2
    | _ => exact ⟨List.append_nil _, rfl⟩

lemma Honest.of_neutral {events : List (Event β)} (h : Honest trace)
    (hevents : ∀ e ∈ events, e.carries = false) : Honest (trace ++ events) := by
  induction events using List.reverseRecOn with
  | nil => rwa [List.append_nil]
  | append_singleton events e ih =>
    rw [List.forall_mem_append, List.forall_mem_singleton] at hevents
    rw [← List.append_assoc]
    refine (ih hevents.1).concat (fun cb buffer he => ?_) (fun fd bytes installed he => ?_)
    · rw [he] at hevents
      cases hevents.2
    · rw [he] at hevents
      cases hevents.2

lemma offeredBeforeEof_neutral {events : List (Event β)}
    (hevents : ∀ e ∈ events, e.onReadSide = false) :
    OfferedBeforeEof (trace ++ events) ↔ OfferedBeforeEof trace := by
  induction events using List.reverseRecOn with
  | nil => rw [List.append_nil]
  | append_singleton events e ih =>
    rw [List.forall_mem_append, List.forall_mem_singleton] at hevents
    rw [← List.append_assoc, offeredBeforeEof_concat, ih hevents.1]
    refine and_iff_left fun cb he => ?_
    rw [he] at hevents
    cases hevents.2

end Trace

namespace Stream

variable {s s' : Stream Q β} {act : Act β} {events : List (Event β)} {result : ReadResult β}

/-- What has not been shown is still at the end of the read buffer, and there is some of it as long
as the last chunk was not shown. -/
structure ReadSide (s : Stream Q β) : Prop where
  honest : Honest s.trace
  tight : s.readBuffer.Tight
  held : s.alive = true → unshown s.trace <:+ s.readBuffer.bytes
  shown : ∀ nread, s.dispatch = some (.readAvailable nread) → unshown s.trace = []
  kept : lastKept s.trace = true ↔ unshown s.trace ≠ []

/-- The facts about the read side carry over a step that brings and shows nothing, if the read
buffer changes only where all of it has been shown. -/
lemma ReadSide.of_neutral (h : s.ReadSide) (htrace : s'.trace = s.trace ++ events)
    (hevents : ∀ e ∈ events, e.carries = false) (htight : s'.readBuffer.Tight)
    (hheld : s'.alive = true →
      s.alive = true ∧ (s'.readBuffer = s.readBuffer ∨ unshown s.trace = []))
    (hshown : ∀ nread, s'.dispatch = some (.readAvailable nread) →
      s.dispatch = some (.readAvailable nread)) : s'.ReadSide := by
  obtain ⟨hunshown, hkept⟩ : unshown (s.trace ++ events) = unshown s.trace ∧
      lastKept (s.trace ++ events) = lastKept s.trace := unshown_of_neutral hevents
  refine ⟨?_, htight, fun ha => ?_, fun nread hd => ?_, ?_⟩
  · rw [htrace]
    exact h.honest.of_neutral hevents
  · rw [htrace, hunshown]
    obtain ⟨halive, hbuf | hnil⟩ := hheld ha
    · rw [hbuf]
      exact h.held halive
    · rw [hnil]
      exact List.nil_suffix
  · rw [htrace, hunshown]
    exact h.shown nread (hshown nread hd)
  · rw [htrace, hunshown, hkept]
    exact h.kept

lemma exists_of_inAvailable (h : s.inAvailable = true) :
    s.alive = true ∧ ∃ nread, s.dispatch = some (.readAvailable nread) := by
  unfold inAvailable at h
  rw [Bool.and_eq_true] at h
  refine ⟨h.1, ?_⟩
  have hmatch := h.2
  split at hmatch
  · rename_i nread _ hd
    exact ⟨nread, hd⟩
  · cases hmatch

/-- A chunk goes to the end of the read buffer, behind what has not been shown. -/
lemma ReadSide.append {bytes : List β} {readBuffer : BufferImpl β} (h : s.ReadSide)
    (ha : s.alive = true) (hlen : 0 < bytes.length ∧ bytes.length ≤ readSize)
    (hok : s.readBuffer.append bytes = .ok readBuffer) (installed : Option Nat) :
    readBuffer.Tight ∧
      unshown s.trace ++ bytes <:+ readBuffer.bytes ∧
      Honest (s.trace ++ [.xread s.fd (.data bytes) installed]) := by
  have hlimit : bytes.length < SizeT.objectLimit := Nat.lt_of_le_of_lt hlen.2 (by decide)
  obtain ⟨b, hb, -, ht, hbytes, -⟩ := BufferImpl.append_spec h.tight.wellFormed
    (Or.inl h.tight.spare_eq) hlimit
  obtain rfl := Except.ok.inj (hb.symm.trans hok)
  refine ⟨ht h.tight, ?_, h.honest.concat (fun cb buffer he => nomatch he) ?_⟩
  · obtain ⟨front, hfront⟩ := h.held ha
    rw [hbytes, ← hfront, List.append_assoc]
    exact List.suffix_append _ _
  · rintro fd bytes' installed' he rfl
    obtain ⟨-, hdata, -⟩ := Event.xread.inj he
    obtain rfl := ReadResult.data.inj hdata
    exact absurd hlen.1 (Nat.lt_irrefl 0)

/-- The end of stream comes while bytes are kept that arrived when no callback was installed. -/
def LateEof (s : Stream Q β) (act : Act β) : Prop :=
  act = .xread .eof ∧ s.readCallback ≠ none ∧ lastKept s.trace = true

instance [DecidableEq β] (act : Act β) : Decidable (s.LateEof act) :=
  inferInstanceAs (Decidable (_ ∧ _))

/-- The result of `xread` is shown or kept. -/
lemma ReadSide.xread (h : s.ReadSide) (ha : s.alive = true) (hx : s.xread result = .ok s') :
    s'.ReadSide := by
  cases xread_cases hx with
  | ended hdata =>
    refine h.of_neutral rfl (List.forall_mem_singleton.mpr ?_) h.tight
      (fun _ => ⟨ha, Or.inl rfl⟩) (fun nread hd => nomatch hd)
    cases result with
    | data bytes => exact absurd rfl (hdata bytes)
    | _ => rfl
  | failed | eof =>
    refine h.of_neutral (List.append_assoc _ _ _) ?_ h.tight (fun _ => ⟨ha, Or.inl rfl⟩)
      (fun nread hd => nomatch hd)
    simp [Event.carries]
  | @available bytes cb readBuffer hlen happend hcb =>
    obtain ⟨htight, hsuffix, hhonest⟩ := h.append ha hlen happend s.readCallback
    refine ⟨hhonest.concat (fun cb' buffer he => ?_) (fun fd bytes installed he => nomatch he),
      htight, fun _ => ?_, fun nread _ => unshown_concat, ?_⟩
    · obtain ⟨-, rfl⟩ := Event.available.inj he
      rw [unshown_concat]
      exact hsuffix
    · rw [unshown_concat]
      exact List.nil_suffix
    · rw [unshown_concat, lastKept_concat, lastKept_concat, hcb]
      exact ⟨fun hk => absurd hk Bool.false_ne_true, fun hne => absurd rfl hne⟩
  | @kept bytes readBuffer hlen happend hcb =>
    obtain ⟨htight, hsuffix, hhonest⟩ := h.append ha hlen happend s.readCallback
    refine ⟨hhonest, htight, fun _ => ?_, fun nread hd => ?_, ?_⟩
    · rw [unshown_concat]
      exact hsuffix
    · simp only at hd
      split_ifs at hd
      cases hd
    · rw [unshown_concat, lastKept_concat, hcb]
      refine ⟨fun _ hnil => ?_, fun _ => rfl⟩
      obtain ⟨-, rfl⟩ := List.append_eq_nil_iff.mp hnil
      exact absurd hlen.1 (Nat.lt_irrefl 0)

/-- A result of `xread` reports an end of stream too early in one case only. -/
lemma xread_offeredBeforeEof_iff (h : s.ReadSide) (hx : s.xread result = .ok s') :
    OfferedBeforeEof s'.trace ↔ OfferedBeforeEof s.trace ∧ ¬ s.LateEof (.xread result) := by
  have hearly : (∀ cb, s.readCallback = some cb → result ≠ .eof) → ¬ s.LateEof (.xread result) := by
    rintro hne ⟨hact, hcb, -⟩
    obtain ⟨cb, hcb⟩ := Option.ne_none_iff_exists'.mp hcb
    exact hne cb hcb (Act.xread.inj hact)
  have hxread : ∀ r, OfferedBeforeEof (s.trace ++ [.xread s.fd r s.readCallback]) ↔
      OfferedBeforeEof s.trace := fun r =>
    offeredBeforeEof_concat.trans (and_iff_left fun cb he => nomatch he)
  cases xread_cases hx with
  | ended _ heof =>
    rw [hxread, and_iff_left (hearly fun cb hcb hr => nomatch (heof hr).symm.trans hcb)]
  | kept => rw [hxread, and_iff_left (hearly fun cb _ hr => nomatch hr)]
  | failed =>
    rw [offeredBeforeEof_concat, hxread, and_iff_left (hearly fun cb _ hr => nomatch hr)]
    exact and_iff_left fun cb he => nomatch he
  | available =>
    rw [offeredBeforeEof_concat, hxread, and_iff_left (hearly fun cb _ hr => nomatch hr)]
    exact and_iff_left fun cb he => nomatch he
  | @eof cb hcb =>
    -- what was not shown before `xread` returned is not shown before the end is reported
    have hneutral : ∀ e ∈ [(.xread s.fd .eof s.readCallback : Event β)], e.carries = false := by
      simp [Event.carries]
    have hlast : AllShown (s.trace ++ [.xread s.fd .eof s.readCallback]) ↔
        ¬ lastKept s.trace = true := by
      rw [(h.honest.of_neutral hneutral).allShown_iff, (unshown_of_neutral hneutral).1, h.kept,
        not_not]
    rw [offeredBeforeEof_concat, hxread]
    refine and_congr_right fun _ => ?_
    constructor
    · rintro hall ⟨-, -, hk⟩
      exact hlast.mp (hall cb rfl) hk
    · intro hlate cb' _
      exact hlast.mpr fun hk => hlate ⟨rfl, by rw [hcb]; exact Option.some_ne_none cb, hk⟩

variable [RequestQueue Q (WriteRequest β)]

lemma readSide_new (fd : Int) : (new fd : Stream Q β).ReadSide where
  honest := ⟨fun pre cb buffer post h => absurd h (by simp [new]), fun _ _ _ h => nomatch h⟩
  tight := BufferImpl.tight_empty
  held := fun _ => List.nil_suffix
  shown := fun _ h => nomatch h
  kept := ⟨fun h => (Bool.false_ne_true h).elim, fun h => absurd rfl h⟩

/-- A round of the write loop is not on the read side. -/
lemma RoundEnds.trace_neutral {req : Nat} {request : WriteRequest β} {pass : WritePass β}
    {requests : Q} (h : s.RoundEnds req request pass requests s')
    (hpass : ∀ e ∈ pass.events, e.Passes req) :
    ∃ events, s'.trace = s.trace ++ events ∧ ∀ e ∈ events, e.onReadSide = false := by
  have hevents : ∀ e ∈ pass.events, e.onReadSide = false := by
    intro e he
    have hp := hpass e he
    cases e with
    | xwrite fd r data result => rfl
    | _ => exact absurd hp id
  cases h with
  | stopped _ _ htrace _ =>
    refine ⟨_, htrace, List.forall_mem_append.mpr ⟨hevents, ?_⟩⟩
    split_ifs
    · cases request.callback <;> simp [errorEvents, Event.onReadSide]
    · simp
  | completed _ _ htrace _ =>
    refine ⟨_, htrace, List.forall_mem_append.mpr ⟨hevents, ?_⟩⟩
    cases request.callback <;> simp [completeEvents, Event.onReadSide]

/-- Nothing but `xread` concerns the read side. -/
lemma step_readSide (h : s.ReadSide) (hs : s.step act = .ok s')
    (hact : ∀ result, act ≠ .xread result) :
    s'.ReadSide ∧
      ∃ events, s'.trace = s.trace ++ events ∧ ∀ e ∈ events, e.onReadSide = false := by
  have hsame : s.trace = s.trace ++ [] := (List.append_nil _).symm
  have hcarries : ∀ {events : List (Event β)}, (∀ e ∈ events, e.onReadSide = false) →
      ∀ e ∈ events, e.carries = false :=
    fun hevents e he => Event.carries_of_not_onReadSide (hevents e he)
  have hwrite : ∀ {t : Stream Q β} {buffer callback}, t.ReadSide →
      t.queueWrite buffer callback = .ok s' → s'.ReadSide ∧
        ∃ events, s'.trace = t.trace ++ events ∧ ∀ e ∈ events, e.onReadSide = false := by
    intro t buffer callback ht hqueue
    obtain ⟨-, htrace, halive, hdispatch, hbuf⟩ := queueWrite_eq_ok hqueue
    have hevents : ∀ e ∈ [Event.write (RequestQueue.fresh t.requests) buffer.contents callback],
        e.onReadSide = false := by simp [Event.onReadSide]
    exact ⟨ht.of_neutral htrace (hcarries hevents) (hbuf ▸ ht.tight)
      (fun ha => ⟨halive ▸ ha, Or.inl hbuf⟩) (fun nread hd => hdispatch ▸ hd), _, htrace, hevents⟩
  cases step_cases hs with
  | quiet hq =>
    obtain ⟨events, htrace, hevents⟩ := hq.trace
    have hneutral : ∀ e ∈ events, e.onReadSide = false := fun e he => (hevents e he).2
    refine ⟨h.of_neutral htrace (hcarries hneutral) (hq.readBuffer ▸ h.tight)
      (fun ha => ⟨hq.alive ▸ ha, Or.inl hq.readBuffer⟩) (fun nread hd => ?_), _, htrace, hneutral⟩
    rcases hq.dispatch _ hd with hd | hentered
    · exact hd
    · cases hentered
  | write _ hqueue => exact hwrite h hqueue
  | writeBuffer hqueue => exact hwrite h hqueue
  | writeReadBuffer hin hqueue =>
    obtain ⟨ha, nread, hd⟩ := exists_of_inAvailable hin
    refine hwrite
      (t := { s with readBuffer := (BufferImpl.empty.appendBuffer s.readBuffer).2 })
      (h.of_neutral hsame (fun _ he => absurd he List.not_mem_nil) ?_
        (fun _ => ⟨ha, Or.inr (h.shown nread hd)⟩) (fun _ hd => hd)) hqueue
    unfold BufferImpl.appendBuffer
    split_ifs
    · exact h.tight
    · exact BufferImpl.tight_empty
  | readBuffer hin hres hpayload hcall =>
    obtain ⟨ha, nread, hd⟩ := exists_of_inAvailable hin
    exact ⟨h.of_neutral hsame (fun _ he => absurd he List.not_mem_nil)
      (h.tight.call hcall hres hpayload) (fun _ => ⟨ha, Or.inr (h.shown nread hd)⟩)
      (fun _ hd => hd), [], hsame, fun _ he => absurd he List.not_mem_nil⟩
  | moveReadBuffer hin =>
    obtain ⟨ha, nread, hd⟩ := exists_of_inAvailable hin
    exact ⟨h.of_neutral hsame (fun _ he => absurd he List.not_mem_nil) BufferImpl.tight_empty
      (fun _ => ⟨ha, Or.inr (h.shown nread hd)⟩) (fun _ hd => hd), [], hsame,
      fun _ he => absurd he List.not_mem_nil⟩
  | xwrites _ _ hx =>
    obtain ⟨request, pass, buffer, requests, -, hpass, -, -, hends, halive, hbuf, hnot⟩ :=
      xwrites_cases hx
    obtain ⟨events, htrace, hevents⟩ :=
      hends.trace_neutral fun e he => passes_of_mem_events hpass he
    exact ⟨h.of_neutral htrace (hcarries hevents) (hbuf ▸ h.tight)
      (fun ha => ⟨halive ▸ ha, Or.inl hbuf⟩) (fun nread hd => absurd hd (hnot nread)),
      events, htrace, hevents⟩
  | xread => exact absurd rfl (hact _)
  | destroy hdestroy =>
    obtain ⟨⟨requests, r⟩, -, hok⟩ := bind_eq_ok.mp hdestroy
    obtain rfl := Except.ok.inj hok
    exact ⟨h.of_neutral hsame (fun _ he => absurd he List.not_mem_nil) BufferImpl.tight_empty
      (fun ha => nomatch ha) (fun _ hd => hd), [], hsame, fun _ he => absurd he List.not_mem_nil⟩

theorem ReadSide.step (h : s.ReadSide) (hs : s.step act = .ok s') :
    s'.ReadSide ∧
      (OfferedBeforeEof s'.trace ↔ OfferedBeforeEof s.trace ∧ ¬ s.LateEof act) := by
  by_cases hact : ∃ result, act = .xread result
  · obtain ⟨result, rfl⟩ := hact
    obtain ⟨ha, hx⟩ := step_xread hs
    exact ⟨h.xread ha hx, xread_offeredBeforeEof_iff h hx⟩
  · obtain ⟨hside, events, htrace, hevents⟩ :=
      step_readSide h hs fun result heq => hact ⟨result, heq⟩
    refine ⟨hside, ?_⟩
    rw [htrace, offeredBeforeEof_neutral hevents]
    exact (and_iff_left fun hlate => hact ⟨_, hlate.1⟩).symm

/-- In a run of a stream everything received is shown to a read callback before the end of stream is
reported if and only if no end of stream is reported while bytes are kept that arrived when no
callback was installed. -/
theorem offeredBeforeEof_iff (fd : Int) (acts : List (Act β))
    (h : Exec.exec step (new fd : Stream Q β) acts = .ok s) :
    OfferedBeforeEof s.trace ↔
      Exec.Along step (fun s act => ¬ s.LateEof act) (new fd : Stream Q β) acts := by
  have hrun : s.ReadSide ∧ (OfferedBeforeEof s.trace ↔
      Exec.Along step (fun s act => ¬ s.LateEof act) (new fd : Stream Q β) acts) := by
    induction acts using List.reverseRecOn generalizing s with
    | nil =>
      obtain rfl := Except.ok.inj h
      refine ⟨readSide_new fd, fun _ => Exec.along_nil, fun _ pre cb post heq => ?_⟩
      exact absurd heq (by simp [new])
    | append_singleton acts act ih =>
      obtain ⟨s₁, hacts, hstep⟩ := Exec.exec_concat_eq_ok.mp h
      obtain ⟨hside, hiff⟩ := ih hacts
      obtain ⟨hside', hiff'⟩ := hside.step hstep
      refine ⟨hside', ?_⟩
      rw [hiff', hiff, Exec.along_concat hacts]
  exact hrun.2

/-- Bytes that are kept and shown with the next chunk, before the end of stream. -/
theorem offeredBeforeEof_next_chunk : ∃ s : Stream (Requests (WriteRequest Char)) Char,
    Exec.exec step (new 3) [.startRead (some 1), .stopRead, .ready .read, .xread (.data ['a']),
      .startRead (some 2), .ready .read, .xread (.data ['b']), .ret, .ready .read,
      .xread .eof] = .ok s ∧
    (OfferedBeforeEof s.trace ↔ Exec.Along step (fun s act => ¬ s.LateEof act)
      (new 3 : Stream (Requests (WriteRequest Char)) Char) [.startRead (some 1), .stopRead,
      .ready .read, .xread (.data ['a']), .startRead (some 2), .ready .read, .xread (.data ['b']),
      .ret, .ready .read, .xread .eof]) :=
  ⟨_, rfl, offeredBeforeEof_iff 3 _ rfl⟩

/-- `stopRead` leaves a handler that watches only for reads as it is, and what arrives then is not
shown if the end of stream comes next. -/
theorem not_offeredBeforeEof : ¬ ∀ (fd : Int) (acts : List (Act Char))
    (s : Stream (Requests (WriteRequest Char)) Char),
    Exec.exec step (new fd) acts = .ok s → OfferedBeforeEof s.trace := by
  intro h
  have hrun := h 3 [.startRead (some 1), .stopRead, .ready .read, .xread (.data ['a']),
    .startRead (some 2), .ready .read, .xread .eof] _ rfl
  obtain ⟨between, cb, buffer, rest, hmid, -⟩ := hrun _ 2 [] rfl [] 3 ['a'] none _ rfl
  have hmem := congrArg (Event.available cb buffer ∈ ·) hmid
  simp at hmem

end Stream

end WhatTheEvent
