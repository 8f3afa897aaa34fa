import WhatTheEvent.Library.Lockstep
import WhatTheEvent.Stream.ByteLaw
import WhatTheEvent.Stream.Effect
import WhatTheEvent.Stream.LinkedRequests

/-!
# The list of requests as a queue

A stream with the list of requests that it has and one with the queue that this list is meant to be
are in lockstep, as long as every request is appended where the list is empty or `tail` is its last
request. What holds of streams with a queue then holds of the streams that there are.
-/

namespace WhatTheEvent

variable {β ρ : Type}

/-! ### Lists that serve as queues -/

namespace Requests

variable {q q' : Requests ρ} {f : Fifo ρ} {request : ρ} {a t : Nat} {items : List (Nat × ρ)}

/-- The list is empty, or `tail` is a request with no other one behind it. -/
def appendable (q : Requests ρ) : Bool :=
  match q.head with
  | none => true
  | some _ => (q.tail.bind q.heap.load).any fun node => node.next.isNone

/-- The requests that can be reached are those of the queue, and `tail` is one of them unless it was
consumed. -/
structure Serves (q : Requests ρ) (f : Fifo ρ) : Prop where
  linked : Linked q.heap q.head f.items
  addresses : q.Matches f
  tail : ∀ t node, q.tail = some t → q.heap.load t = some node → t ∈ f.items.map Prod.fst

lemma serves_empty : (empty : Requests ρ).Serves .empty where
  linked := rfl
  addresses := matches_empty
  tail _ _ ht := by cases ht

/-- From a request on, those behind it are reachable. -/
lemma Linked.suffix {heap : Heap (RequestNode ρ)} {p : Option Nat} {front back : List (Nat × ρ)}
    {r : ρ} (h : Linked heap p (front ++ (t, r) :: back)) :
    ∃ next, heap.load t = some ⟨r, next⟩ ∧ Linked heap next back := by
  induction front generalizing p with
  | nil => exact h.2
  | cons item front ih =>
    obtain ⟨-, next, -, hrest⟩ := h
    exact ih hrest

lemma appendable_iff (hhead : q.head = some a) : q.appendable = true ↔
    ∃ t r, q.tail = some t ∧ q.heap.load t = some ⟨r, none⟩ := by
  unfold appendable
  rw [hhead]
  cases ht : q.tail with
  | none => simp
  | some t =>
    cases hload : q.heap.load t with
    | none => simp [hload]
    | some node =>
      obtain ⟨r, next⟩ := node
      cases next <;> simp [hload]

lemma Serves.append (h : q.Serves f) (ha : q.appendable = true) (request : ρ) :
    ∃ q', q.append request = .ok q' ∧ q'.Serves (f.append request) := by
  cases hhead : q.head with
  | none =>
    obtain ⟨q', hok, hlinked⟩ :=
      h.linked.append_nil h.addresses ((head_eq_none_iff h.linked).mp hhead) request
    refine ⟨q', hok, hlinked,
      h.addresses.step (show q.step (.append request) = .ok q' from hok), ?_⟩
    intro t node ht _
    rw [append_of_head_none hhead] at hok
    obtain rfl := Except.ok.inj hok
    obtain rfl := Option.some.inj ht
    rw [h.addresses.fresh, Fifo.append]
    simp
  | some a =>
    obtain ⟨t, r, ht, hload⟩ := (appendable_iff hhead).mp ha
    obtain ⟨⟨t, r'⟩, hitem, rfl⟩ := List.mem_map.mp (h.tail t _ ht hload)
    obtain ⟨front, back, hsplit⟩ := List.append_of_mem hitem
    obtain rfl : back = [] := by
      obtain ⟨next, hload', hback⟩ := (hsplit ▸ h.linked).suffix
      obtain ⟨-, rfl⟩ := RequestNode.mk.inj (Option.some.inj (hload'.symm.trans hload))
      exact linked_none hback
    obtain ⟨q', hok, hlinked⟩ :=
      Linked.append (hsplit ▸ h.linked) ht (hsplit ▸ h.addresses.nodup) request
    have hitems : (f.append request).items = front ++ [(t, r'), (q.heap.fresh, request)] := by
      rw [Fifo.append, hsplit, ← h.addresses.fresh, List.append_assoc]
      rfl
    refine ⟨q', hok, hitems ▸ hlinked,
      h.addresses.step (show q.step (.append request) = .ok q' from hok), ?_⟩
    intro t' node ht' _
    rw [(tail_append hhead hok).1, ht] at ht'
    obtain rfl := Option.some.inj ht'
    rw [hitems]
    simp

/-- The first request of both. -/
lemma Serves.items_of_head (h : q.Serves f) (hhead : q.head = some a) :
    ∃ request rest, f.items = (a, request) :: rest := by
  cases hitems : f.items with
  | nil =>
    rw [(head_eq_none_iff h.linked).mpr hitems] at hhead
    cases hhead
  | cons item rest =>
    have hlinked := h.linked
    rw [hitems] at hlinked
    obtain rfl := Option.some.inj (hhead.symm.trans hlinked.1)
    exact ⟨item.2, rest, rfl⟩

lemma Serves.head_eq (h : q.Serves f) : q.head = f.head := h.linked.head_eq

lemma Serves.get (h : q.Serves f) (hhead : q.head = some a) :
    ∃ request, q.get a = .ok request ∧ f.get a = .ok request := by
  obtain ⟨request, rest, hitems⟩ := h.items_of_head hhead
  have hlinked := h.linked
  rw [hitems] at hlinked
  exact ⟨request, hlinked.get, Fifo.get_first hitems⟩

lemma Serves.put (h : q.Serves f) (hhead : q.head = some a) (request : ρ) :
    ∃ q' f', q.put a request = .ok q' ∧ f.put a request = .ok f' ∧ q'.Serves f' := by
  obtain ⟨old, rest, hitems⟩ := h.items_of_head hhead
  have hlinked := h.linked
  rw [hitems] at hlinked
  obtain ⟨-, next, hload, -⟩ := id hlinked
  have hput : q.put a request = .ok { q with heap := q.heap.store a ⟨request, next⟩ } := by
    simp only [Requests.put, deref, hload, ok_bind, pure_eq_ok]
  obtain ⟨f', hput'⟩ : ∃ f', f.put a request = .ok f' := by
    rw [Fifo.put, Fifo.get_first hitems, ok_bind]
    exact ⟨_, rfl⟩
  have hf' := Fifo.put_first hitems h.addresses.nodup hput'
  have hids : f'.items.map Prod.fst = f.items.map Prod.fst := by rw [hf', hitems]; rfl
  obtain ⟨hlinked', -, -⟩ := hlinked.put (hitems ▸ h.addresses.nodup) hput
  refine ⟨_, f', hput, hput', ?_, ⟨?_, ?_, hids ▸ h.addresses.nodup, ?_⟩, ?_⟩
  · rw [hf']
    exact hlinked'
  · rw [hf']
    exact Heap.fresh_store.trans h.addresses.fresh
  · rw [hids, hf']
    exact h.addresses.lt_fresh
  · intro t ht
    rw [Heap.fresh_store]
    exact h.addresses.tail_lt t ht
  · intro t node ht hload'
    rw [hids]
    by_cases hat : a = t
    · rw [← hat, hitems]
      exact List.mem_cons_self
    · rw [Heap.load_store_of_ne hat] at hload'
      exact h.tail t node ht hload'

lemma Serves.consumeFront (h : q.Serves f) :
    ∃ q', q.consumeFront = .ok (q', f.consumeFront.head) ∧ q'.Serves f.consumeFront := by
  cases hitems : f.items with
  | nil =>
    have hhead : q.head = none := (head_eq_none_iff h.linked).mpr hitems
    have hf : f.consumeFront = f := by
      rw [Fifo.consumeFront, hitems, List.tail_nil, ← hitems]
    rw [hf, ← h.head_eq, hhead]
    refine ⟨q, ?_, h⟩
    rw [Requests.consumeFront, hhead]
  | cons item rest =>
    obtain ⟨a, request⟩ := item
    have hlinked := h.linked
    rw [hitems] at hlinked
    have hrest : f.consumeFront.items = rest := by rw [Fifo.consumeFront, hitems, List.tail_cons]
    obtain ⟨q', hok, hlinked', -⟩ := hlinked.consumeFront (hitems ▸ h.addresses.nodup)
    refine ⟨q', ?_, hrest ▸ hlinked', ?_, ?_⟩
    · rw [hok, Fifo.head, hrest]
    · refine h.addresses.step (show q.step .consumeFront = .ok q' from ?_)
      rw [Requests.step, hok, map_ok]
    · intro t node ht hload
      rw [hrest]
      have hheap : q'.heap = q.heap.free a := by
        rcases (consumeFront_eq_ok hok).2 with ⟨hnone, -⟩ | ⟨b, hb, hheap⟩
        · rw [hlinked.1] at hnone
          cases hnone
        · obtain rfl := Option.some.inj (hlinked.1.symm.trans hb)
          exact hheap
      have htail : q.tail = some t := by
        rcases (fresh_consumeFront hok).2 with hnone | hsame
        · rw [hnone] at ht
          cases ht
        · exact hsame ▸ ht
      have hat : a ≠ t := by
        rintro rfl
        rw [hheap, Heap.load_free_self] at hload
        cases hload
      rw [hheap, Heap.load_free_of_ne hat] at hload
      have hmem := h.tail t node htail hload
      rw [hitems, List.map_cons, List.mem_cons] at hmem
      exact hmem.resolve_left (Ne.symm hat)

end Requests

/-! ### Streams that differ in their requests -/

namespace Stream

section WithRequests

variable {Q Q' : Type} {s : Stream Q β} {q : Q'} {event : What}

/-- The stream with other requests. -/
def withRequests (s : Stream Q β) (requests : Q') : Stream Q' β := { s with requests }

lemma withRequests_writeLoop {next : Option Nat} :
    (s.withRequests q).writeLoop event next = (s.writeLoop event next).withRequests q := by
  cases next <;> rfl

lemma withRequests_startRead {callback : Option Nat} :
    (s.withRequests q).startRead callback = (s.startRead callback).withRequests q := by
  unfold startRead withRequests
  split_ifs <;> rfl

lemma withRequests_stopRead : (s.withRequests q).stopRead = s.stopRead.withRequests q := by
  unfold stopRead withRequests
  split_ifs <;> rfl

lemma withRequests_closeFinish :
    (s.withRequests q).closeFinish = s.closeFinish.withRequests q := by
  unfold closeFinish withRequests
  dsimp only
  split_ifs <;> rfl

lemma withRequests_closeConnect :
    (s.withRequests q).closeConnect = s.closeConnect.withRequests q := by
  cases h : s.connectCallback with
  | some cb =>
    have h' : (s.withRequests q).connectCallback = some cb := h
    rw [closeConnect_of_some h, closeConnect_of_some h']
    rfl
  | none =>
    have h' : (s.withRequests q).connectCallback = none := h
    rw [closeConnect_of_none h, closeConnect_of_none h', withRequests_closeFinish]

lemma withRequests_close : (s.withRequests q).close = s.close.withRequests q := by
  cases h : s.readCallback with
  | some cb =>
    have h' : (s.withRequests q).readCallback = some cb := h
    rw [close_of_some h, close_of_some h']
    rfl
  | none =>
    have h' : (s.withRequests q).readCallback = none := h
    rw [close_of_none h, close_of_none h', withRequests_closeConnect]

lemma withRequests_connect {results : ConnectResults} {callback : Nat} :
    (s.withRequests q).connect results callback =
      (s.connect results callback).map (withRequests · q) := by
  obtain ⟨alive, fd, watched, requests, readCallback, connectCallback⟩ := s
  unfold connect withRequests
  dsimp only
  split_ifs <;> rfl

lemma withRequests_xread {result : ReadResult β} :
    (s.withRequests q).xread result = (s.xread result).map (withRequests · q) := by
  obtain ⟨alive, fd, watched, requests, readCallback, connectCallback, readBuffer⟩ := s
  unfold xread withRequests
  cases result with
  | error e =>
    dsimp only
    cases isReadRetryable e <;> cases readCallback <;> rfl
  | eof => cases readCallback <;> rfl
  | data bytes =>
    dsimp only
    by_cases hlen : 0 < bytes.length ∧ bytes.length ≤ readSize
    · rw [if_pos hlen, if_pos hlen]
      cases readBuffer.append bytes <;> cases readCallback <;> rfl
    · rw [if_neg hlen, if_neg hlen]
      rfl

lemma withRequests_getsockopt {rc err : Int} :
    (s.withRequests q).getsockopt event rc err =
      (s.getsockopt event rc err).map (withRequests · q) := by
  obtain ⟨alive, fd, watched, requests, readCallback, connectCallback⟩ := s
  cases connectCallback <;> rfl

lemma withRequests_access_map {g : Stream Q' β → Stream Q' β} {g' : Stream Q β → Stream Q β}
    (hg : g (s.withRequests q) = (g' s).withRequests q) :
    (s.withRequests q).access.map g = (s.access.map g').map (withRequests · q) := by
  unfold access
  change (if s.alive then Except.ok (s.withRequests q) else _).map g = _
  split_ifs
  · exact congrArg Except.ok hg
  · rfl

lemma withRequests_resumeRead :
    (s.withRequests q).resumeRead event = (s.resumeRead event).map (withRequests · q) := by
  unfold resumeRead
  split_ifs
  · exact withRequests_access_map rfl
  · rfl

end WithRequests

/-! ### Steps in lockstep -/

variable {s s' : Stream (Requests (WriteRequest β)) β} {f f' : Stream (Fifo (WriteRequest β)) β}
  {q : Fifo (WriteRequest β)} {act : Act β} {event : What}

/-- The streams have the same members, up to the list of requests, which serves as the queue. -/
structure AsQueue (s : Stream (Requests (WriteRequest β)) β)
    (f : Stream (Fifo (WriteRequest β)) β) : Prop where
  same : f = s.withRequests f.requests
  serves : s.requests.Serves f.requests

/-- A request is appended behind one that is not the last. -/
def Strays (s : Stream (Requests (WriteRequest β)) β) (act : Act β) : Prop :=
  act.isWrite = true ∧ s.requests.appendable = false

instance (s : Stream (Requests (WriteRequest β)) β) (act : Act β) : Decidable (s.Strays act) :=
  inferInstanceAs (Decidable (_ ∧ _))

lemma asQueue_new (fd : Int) : AsQueue (β := β) (.new fd) (.new fd) := ⟨rfl, Requests.serves_empty⟩

/-- A step that leaves the requests as they are. -/
lemma lockstep_of_requests {x : Except Fault (Stream (Requests (WriteRequest β)) β)}
    (hserves : s.requests.Serves q) (hx : ∀ s', x = .ok s' → s'.requests = s.requests) :
    Lockstep AsQueue x (x.map (withRequests · q)) := by
  cases x with
  | ok s' => exact .ok ⟨rfl, hx s' rfl ▸ hserves⟩
  | error e => exact .error

lemma lockstep_ok (hf : f' = s'.withRequests q) (hserves : s.requests.Serves q)
    (hs : s.Quiet s') : Lockstep AsQueue (.ok s') (.ok f' : Except Fault _) := by
  subst hf
  refine .ok ⟨rfl, ?_⟩
  rw [hs.requests]
  exact hserves

lemma lockstep_queueWrite (h : s.requests.Serves q) (ha : s.requests.appendable = true)
    {buffer : BufferImpl β} {callback : Option Nat} :
    Lockstep AsQueue (s.queueWrite buffer callback)
      ((s.withRequests q).queueWrite buffer callback) := by
  obtain ⟨requests, hok, hserves⟩ := h.append ha ⟨buffer, callback⟩
  unfold queueWrite
  change Lockstep AsQueue (s.requests.append ⟨buffer, callback⟩ >>= _) _
  rw [hok]
  refine .ok ⟨?_, hserves⟩
  have hfresh : RequestQueue.fresh s.requests = RequestQueue.fresh q := h.addresses.fresh
  rw [hfresh]
  rfl

/-- A round of the write loop on the first request. -/
lemma lockstep_xwrites {req : Nat} {results : List WriteResult} (h : s.requests.Serves q)
    (hhead : s.requests.head = some req) :
    Lockstep AsQueue (s.xwrites event req results)
      ((s.withRequests q).xwrites event req results) := by
  obtain ⟨request, hget, hget'⟩ := h.get hhead
  unfold xwrites
  change Lockstep AsQueue (s.requests.get req >>= _) (q.get req >>= _)
  rw [hget, hget', ok_bind, ok_bind]
  refine Lockstep.bind (.refl _) ?_
  rintro pass _ rfl
  refine Lockstep.bind (.refl _) ?_
  rintro buffer _ rfl
  obtain ⟨requests, queue, hput, hput', hserves⟩ := h.put hhead { request with buffer }
  change Lockstep AsQueue (s.requests.put req _ >>= _) (q.put req _ >>= _)
  rw [hput, hput', ok_bind, ok_bind]
  refine Lockstep.ite (fun _ => ?_) fun _ => ?_
  · cases pass.failed <;> cases request.callback <;> exact .ok ⟨rfl, hserves⟩
  · obtain ⟨requests', hconsume, hserves'⟩ := hserves.consumeFront
    change Lockstep AsQueue (requests.consumeFront >>= _)
      (Except.ok (queue.consumeFront, queue.consumeFront.head) >>= _)
    rw [hconsume, ok_bind, ok_bind]
    cases request.callback <;> cases queue.consumeFront.head <;> exact .ok ⟨rfl, hserves'⟩

lemma withRequests_writeHelper (h : s.requests.Serves q) :
    (s.withRequests q).writeHelper event = (s.writeHelper event).withRequests q := by
  unfold writeHelper
  change (s.withRequests q).writeLoop event q.head =
    (s.writeLoop event s.requests.head).withRequests q
  rw [h.head_eq, withRequests_writeLoop]

lemma withRequests_ready (h : s.requests.Serves q) :
    (s.withRequests q).ready event = (s.ready event).withRequests q := by
  unfold ready
  rw [withRequests_writeHelper h]
  change (if event.isWrite then if s.connectCallback.isSome then _ else _ else _) = _
  split_ifs <;> rfl

lemma withRequests_resumeDispatch (h : s.requests.Serves q) {d : Dispatch} :
    (s.withRequests q).resumeDispatch d = (s.resumeDispatch d).map (withRequests · q) := by
  cases d with
  | connectDone event => exact withRequests_access_map (withRequests_writeHelper h)
  | writeDone event next =>
    cases next with
    | none => exact withRequests_resumeRead
    | some next => exact withRequests_access_map rfl
  | writeFailed event => exact withRequests_resumeRead
  | readAvailable nread =>
    simp only [resumeDispatch]
    by_cases hlt : nread < readSize
    · rw [if_pos hlt, if_pos hlt]
      rfl
    · rw [if_neg hlt, if_neg hlt]
      exact withRequests_access_map rfl
  | readEnded => rfl
  | connectHelper event | writeHelper event req | readHelper => rfl

/-- Both destructors consume as many requests. -/
lemma lockstep_destroy (h : s.requests.Serves q) :
    Lockstep AsQueue s.destroy (s.withRequests q).destroy := by
  have hfresh : RequestQueue.fresh s.requests = RequestQueue.fresh q := h.addresses.fresh
  unfold destroy
  rw [hfresh]
  refine Lockstep.bind (Lockstep.doWhile (R := fun r r' => r.1.Serves r'.1 ∧ r.2 = r'.2) ?_
    (fun r r' hr => congrArg Option.isSome hr.2) _ ⟨h, rfl⟩) ?_
  · rintro ⟨requests, next⟩ ⟨queue, next'⟩ ⟨hserves, -⟩
    obtain ⟨requests', hok, hserves'⟩ := hserves.consumeFront
    change Lockstep _ requests.consumeFront (.ok (queue.consumeFront, queue.consumeFront.head))
    rw [hok]
    exact .ok ⟨hserves', rfl⟩
  · rintro ⟨requests, next⟩ ⟨queue, next'⟩ ⟨hserves, -⟩
    exact .ok ⟨rfl, hserves⟩

/-- A call of a method, in lockstep. -/
lemma lockstep_call (h : s.requests.Serves q) (hstrays : ¬ s.Strays act) :
    Lockstep AsQueue (s.call act) ((s.withRequests q).call act) := by
  have happend : act.isWrite = true → s.requests.appendable = true := fun hwrite =>
    Bool.not_eq_false _ ▸ fun hno => hstrays ⟨hwrite, hno⟩
  cases act with
  | write buf callback =>
    refine Lockstep.bind (.refl _) ?_
    rintro buffer _ rfl
    exact lockstep_queueWrite h (happend rfl)
  | writeBuffer source callback => exact lockstep_queueWrite h (happend rfl)
  | startRead callback => exact lockstep_ok withRequests_startRead h (quiet_startRead callback)
  | stopRead => exact lockstep_ok withRequests_stopRead h quiet_stopRead
  | close => exact lockstep_ok withRequests_close h quiet_close
  | connect results callback =>
    change Lockstep AsQueue (s.connect results callback) ((s.withRequests q).connect _ _)
    rw [withRequests_connect]
    exact lockstep_of_requests h fun s' hok => (quiet_connect hok).requests
  | destroy => exact lockstep_destroy h
  | _ => exact .error

lemma lockstep_useReadBuffer (h : s.requests.Serves q) (hstrays : ¬ s.Strays act) :
    Lockstep AsQueue (s.useReadBuffer act) ((s.withRequests q).useReadBuffer act) := by
  cases act with
  | writeReadBuffer callback =>
    have happend : s.requests.appendable = true :=
      Bool.not_eq_false _ ▸ fun hno => hstrays ⟨rfl, hno⟩
    exact lockstep_queueWrite
      (s := { s with readBuffer := (BufferImpl.empty.appendBuffer s.readBuffer).2 }) h happend
  | readBuffer call =>
    refine Lockstep.ite (fun _ => ?_) fun _ => .error
    exact Lockstep.map (.refl _) fun r _ hr => hr ▸ ⟨rfl, h⟩
  | moveReadBuffer => exact .ok ⟨rfl, h⟩
  | _ => exact .error

lemma lockstep_advance (h : s.requests.Serves q) (hhead : s.OnHead) (ha : s.alive = true) :
    Lockstep AsQueue (s.advance act) ((s.withRequests q).advance act) := by
  have hd' : (s.withRequests q).dispatch = s.dispatch := rfl
  unfold advance
  rw [hd']
  cases hd : s.dispatch with
  | none => cases act <;> exact .error
  | some d =>
    cases d with
    | connectHelper event =>
      cases act with
      | getsockopt rc err =>
        dsimp only
        rw [withRequests_getsockopt]
        exact lockstep_of_requests h fun s' hok => (quiet_getsockopt hok).requests
      | _ => exact .error
    | writeHelper event req =>
      cases act with
      | xwrites results => exact lockstep_xwrites h (hhead ha _ req hd rfl)
      | _ => exact .error
    | readHelper =>
      cases act with
      | xread result =>
        dsimp only
        rw [withRequests_xread]
        exact lockstep_of_requests h fun s' hok => (xread_writeSide hok).1
      | _ => exact .error
    | _ => cases act <;> exact .error

lemma lockstep_ret (h : s.requests.Serves q) :
    Lockstep AsQueue s.ret (s.withRequests q).ret := by
  have heq : (s.withRequests q).ret = s.ret.map (withRequests · q) := by
    have hcalls : (s.withRequests q).calls = s.calls := rfl
    have hd : (s.withRequests q).dispatch = s.dispatch := rfl
    unfold ret
    rw [hcalls, hd]
    cases s.calls with
    | cons call calls =>
      cases call with
      | closeRead =>
        exact withRequests_access_map (s := { s with calls }) withRequests_closeConnect
      | closeConnect =>
        exact withRequests_access_map (s := { s with calls }) withRequests_closeFinish
      | connect => rfl
    | nil =>
      cases s.dispatch with
      | none => rfl
      | some d => exact withRequests_resumeDispatch h
  rw [heq]
  exact lockstep_of_requests h fun s' hok => (quiet_ret hok).requests

/-- What a method of the stream does is done to the stream with a queue as well. -/
theorem AsQueue.step (h : s.AsQueue f) (hhead : s.OnHead) (hstrays : ¬ s.Strays act) :
    Lockstep AsQueue (s.step act) (f.step act) := by
  obtain ⟨hsame, hserves⟩ := h
  generalize f.requests = q at hsame hserves
  subst hsame
  cases act with
  | ready event =>
    refine Lockstep.ite (fun _ => ?_) fun _ => .error
    exact lockstep_ok (withRequests_ready hserves) hserves quiet_ready
  | getsockopt rc err =>
    exact Lockstep.ite (fun hc => lockstep_advance hserves hhead hc.1) fun _ => .error
  | xwrites results =>
    exact Lockstep.ite (fun hc => lockstep_advance hserves hhead hc.1) fun _ => .error
  | xread result =>
    exact Lockstep.ite (fun hc => lockstep_advance hserves hhead hc.1) fun _ => .error
  | ret => exact lockstep_ret hserves
  | writeReadBuffer callback =>
    exact Lockstep.ite (fun _ => lockstep_useReadBuffer hserves hstrays) fun _ => .error
  | readBuffer call =>
    exact Lockstep.ite (fun _ => lockstep_useReadBuffer hserves hstrays) fun _ => .error
  | moveReadBuffer =>
    exact Lockstep.ite (fun _ => lockstep_useReadBuffer hserves hstrays) fun _ => .error
  | _ => exact Lockstep.ite (fun _ => lockstep_call hserves hstrays) fun _ => .error

/-- The invariant of a run. -/
def Served (s : Stream (Requests (WriteRequest β)) β) (f : Stream (Fifo (WriteRequest β)) β) :
    Prop := s.AsQueue f ∧ s.OnHead

lemma served_new (fd : Int) : Served (β := β) (.new fd) (.new fd) := ⟨asQueue_new fd, onHead_new fd⟩

lemma Served.step (h : s.Served f) (hstrays : ¬ s.Strays act) :
    Lockstep Served (s.step act) (f.step act) :=
  (h.1.step h.2 hstrays).and_left fun _ hok => h.2.step hok

lemma lockstep_exec (fd : Int) {acts : List (Act β)}
    (hstrays : Exec.Along step (fun s act => ¬ s.Strays act)
      (new fd : Stream (Requests (WriteRequest β)) β) acts) :
    Lockstep Served (Exec.exec step (new fd : Stream (Requests (WriteRequest β)) β) acts)
      (Exec.exec step (new fd : Stream (Fifo (WriteRequest β)) β) acts) :=
  Lockstep.exec (fun _ _ _ hs hno => hs.step hno) (served_new fd) hstrays

/-- A run in which no request strays does the same to the stream with a queue: it fails in the same
way, or both streams have the same members in the end, and the list serves as the queue. -/
theorem runs_as_queue (fd : Int) (acts : List (Act β))
    (hstrays : Exec.Along step (fun s act => ¬ s.Strays act)
      (new fd : Stream (Requests (WriteRequest β)) β) acts) :
    Lockstep AsQueue (Exec.exec step (new fd : Stream (Requests (WriteRequest β)) β) acts)
      (Exec.exec step (new fd : Stream (Fifo (WriteRequest β)) β) acts) :=
  (lockstep_exec fd hstrays).mono fun _ _ h => h.1

/-- Two requests, of which the second one is appended before the first one is consumed. -/
theorem runs_as_queue_two_requests :
    Lockstep AsQueue
      (Exec.exec step (new 3 : Stream (Requests (WriteRequest Char)) Char)
        [.write ['a'] none, .write ['b'] none, .ready .write, .xwrites [.count 1],
          .xwrites [.count 1], .write ['c'] none])
      (Exec.exec step (new 3 : Stream (Fifo (WriteRequest Char)) Char)
        [.write ['a'] none, .write ['b'] none, .ready .write, .xwrites [.count 1],
          .xwrites [.count 1], .write ['c'] none]) :=
  runs_as_queue 3 _ (by decide)

end Stream

end WhatTheEvent
