import WhatTheEvent.Blocking.Basic
import WhatTheEvent.Buffer.Bytes
import WhatTheEvent.Stream.Transition

/-!
# The bytes delivered by blocking reads

A sequence of calls of `read` delivers the bytes that arrive, each call those it is asked for, and
never waits while the stream holds bytes, in exactly those runs in which the read buffer of the
stream is empty whenever a call starts.
-/

namespace WhatTheEvent

variable {β Q : Type}

open InternalExtent

/-- A result of `xread` before the end of stream: a chunk, or that it would block. -/
def ReadResult.Arrives : ReadResult β → Prop
  | .data bytes => 0 < bytes.length ∧ bytes.length ≤ Stream.readSize
  | .error e => isReadRetryable e = true
  | .eof => False

def ReadResult.bytes : ReadResult β → List β
  | .data bytes => bytes
  | _ => []

/-- The bytes that arrive. -/
def arriving (incoming : List (ReadResult β)) : List β := incoming.flatMap ReadResult.bytes

/-- What a call of `read` should do when `bytes` are still to be delivered: it stores and returns as
much as it is asked for and there is, `nread_` stays within `size_`, the event loop is not run and
less is not returned while the stream holds bytes. -/
structure ReadRecord.Law (bytes : List β) (r : ReadRecord β) : Prop where
  stored : r.stored = (bytes.take r.size).map some
  result : r.result = .ok (min r.size bytes.length)
  nread : ∀ n ∈ r.nreads, n ≤ r.size
  noWait : ∀ buffer ∈ r.waits, buffer.bytes = []
  noShort : ∀ n, r.result = .ok n → n < r.size → r.left.bytes = []

/-- The calls deliver the bytes, one after the other. -/
def Delivered : List β → List (ReadRecord β) → Prop
  | _, [] => True
  | bytes, r :: reads => r.Law bytes ∧ Delivered (bytes.drop r.size) reads

/-! ### Buffers of chunks -/

namespace BufferImpl

variable {b : BufferImpl β} {buf bs stale : List β} {n : Nat}

/-- The buffer consists of extents filled to the end that have not been read to the end. -/
def Chunks (b : BufferImpl β) : Prop :=
  ∀ e ∈ b.extents, ∃ stale bs, e = of stale bs [] ∧ bs ≠ []

lemma chunks_empty : (empty : BufferImpl β).Chunks := fun _ he => absurd he List.not_mem_nil

lemma Chunks.tight (h : b.Chunks) : b.Tight := by
  intro e he
  obtain ⟨stale, bs, rfl, -⟩ := h e he
  exact full_of

lemma Chunks.extents_eq_nil (h : b.Chunks) (hnil : b.bytes = []) : b.extents = [] := by
  cases hext : b.extents with
  | nil => rfl
  | cons e rest =>
    obtain ⟨stale, bs, rfl, hne⟩ := h e (hext ▸ List.mem_cons_self)
    rw [bytes_eq, hext, writtenBytes_cons, bytes_of] at hnil
    exact absurd (List.append_eq_nil_iff.mp hnil).1 hne

/-- A chunk becomes an extent of its own. -/
lemma Chunks.append (h : b.Chunks) (hpos : 0 < buf.length) (hn : buf.length < SizeT.objectLimit) :
    ∃ b', b.append buf = .ok b' ∧ b'.Chunks ∧ b'.extents = b.extents ++ [of [] buf []] ∧
      b'.bytes = b.bytes ++ buf := by
  refine ⟨_, append_of_spare_eq_zero h.tight.spare_eq hn, ?_, rfl, ?_⟩
  · refine List.forall_mem_append.mpr ⟨h, List.forall_mem_singleton.mpr ?_⟩
    exact ⟨[], buf, rfl, List.length_pos_iff.mp hpos⟩
  · rw [bytes_eq, bytes_eq, writtenBytes_append, writtenBytes_cons, bytes_of, writtenBytes_nil,
      List.append_nil]

lemma read_zero : b.read 0 = (b, []) := by
  obtain ⟨extents, size⟩ := b
  cases extents <;> simp [read, readLoop]

/-- Reading from a buffer of one chunk. -/
lemma read_single (hext : b.extents = [of stale bs []]) (hn : 0 < n) :
    (b.read n).2 = (bs.take n).map some ∧
      (b.read n).1.extents =
        if bs.length ≤ n then [] else [of (stale ++ bs.take n) (bs.drop n) []] := by
  have hout : (of stale bs []).copyout n = (bs.take n).map some := by
    rw [copyout_of, List.append_nil, List.map_take]
  have hlen : ((bs.take n).map (some : β → Cell β)).length = min n bs.length := by
    rw [List.length_map, List.length_take]
  have hconsume : (of stale bs []).consume (min n bs.length) = _ :=
    consume_of (Nat.min_le_right n bs.length)
  unfold read
  rw [hext, readLoop, if_pos hn]
  simp only [hout, hlen, hconsume, readLoop, Bool.not_true, Bool.false_eq_true, if_false]
  by_cases hle : bs.length ≤ n
  · simp [hle]
  · have hmin : min n bs.length = n := Nat.min_eq_left (Nat.le_of_not_le hle)
    rw [if_neg hle, hmin, if_neg]
    · exact ⟨rfl, rfl⟩
    · simp only [List.length_nil]
      omega

end BufferImpl

/-- A callback that still wants something takes it off a buffer of one chunk, any other callback
takes nothing. -/
lemma BlockingReadCallback.available_spec {cb : BlockingReadCallback β} {b : BufferImpl β}
    (hb : b.Chunks) (hle : cb.nread ≤ cb.size) (hsize : cb.size ≤ SizeT.max)
    (hone : cb.nread < cb.size → ∃ bs, b.extents = [of [] bs []]) :
    ∃ m, m ≤ b.bytes.length ∧ cb.nread + m ≤ cb.size ∧
      cb.available b = { cb with
        buffer := cb.buffer ++ (b.bytes.take m).map some
        nread := cb.nread + m } ∧
      (b.read cb.wanted).1.Chunks ∧ (b.read cb.wanted).1.bytes = b.bytes.drop m ∧
      (cb.nread + m < cb.size → (b.read cb.wanted).1.extents = []) := by
  have hwanted : cb.wanted = cb.size - cb.nread := SizeT.sub_of_le hle
  rcases Nat.eq_or_lt_of_le hle with heq | hlt
  · have hzero : cb.wanted = 0 := by rw [hwanted, heq, Nat.sub_self]
    have hread := BufferImpl.read_zero (b := b)
    refine ⟨0, Nat.zero_le _, hle, ?_, ?_, ?_,
      fun hlt => absurd hlt (Nat.not_lt.mpr (Nat.le_of_eq heq.symm))⟩
    · have hadd : SizeT.add cb.nread 0 = cb.nread := SizeT.add_of_lt (Nat.lt_of_le_of_lt
        (Nat.le_trans hle hsize) (by decide))
      simp [available, hzero, hread, hadd]
    · rwa [hzero, hread]
    · rw [hzero, hread]
      rfl
  · obtain ⟨bs, hbs⟩ := hone hlt
    have hbytes : b.bytes = bs := by
      rw [BufferImpl.bytes_eq, hbs, BufferImpl.writtenBytes_cons, bytes_of,
        BufferImpl.writtenBytes_nil, List.append_nil]
    have hpos : 0 < cb.wanted := hwanted ▸ Nat.sub_pos_of_lt hlt
    obtain ⟨hout, hext⟩ := BufferImpl.read_single hbs hpos
    have hmin : bs.take (min cb.wanted bs.length) = bs.take cb.wanted := by
      rw [← List.take_take, List.take_length]
    have hlen : cb.nread + min cb.wanted bs.length ≤ cb.size := by
      rw [hwanted]
      omega
    refine ⟨min cb.wanted bs.length, hbytes ▸ Nat.min_le_right _ _, hlen, ?_, ?_, ?_, fun hlt => ?_⟩
    · have hadd : SizeT.add cb.nread (min cb.wanted bs.length) =
          cb.nread + min cb.wanted bs.length := SizeT.add_of_lt (Nat.lt_of_le_of_lt
        (Nat.le_trans hlen hsize) (by decide))
      rw [available, hout, hbytes, hmin, List.length_map, List.length_take, hadd]
    · intro e he
      rw [hext] at he
      split_ifs at he with hc
      · exact absurd he List.not_mem_nil
      · obtain rfl := List.mem_singleton.mp he
        exact ⟨_, _, rfl, fun hnil => hc (List.drop_eq_nil_iff.mp hnil)⟩
    · rw [BufferImpl.bytes_eq, hext, hbytes]
      split_ifs with hc
      · rw [Nat.min_eq_right hc, List.drop_length]
        rfl
      · rw [Nat.min_eq_left (Nat.le_of_not_le hc), BufferImpl.writtenBytes_cons, bytes_of,
          BufferImpl.writtenBytes_nil, List.append_nil]
    · rw [hext, if_pos]
      rw [hwanted] at hlt
      omega

/-! ### The stream -/

namespace Stream

/-- The stream watches for reads on behalf of a callback, and no call is in progress. -/
structure Listening (s : Stream Q β) : Prop where
  alive : s.alive = true
  calls : s.calls = []
  watched : s.watched = .read
  callback : ∃ cb, s.readCallback = some cb

lemma startRead_frame (s : Stream Q β) (callback : Option Nat) :
    (s.startRead callback).readBuffer = s.readBuffer ∧
      (s.startRead callback).dispatch = s.dispatch := by
  unfold startRead
  split_ifs <;> exact ⟨rfl, rfl⟩

variable [RequestQueue Q (WriteRequest β)] {s : Stream Q β} {bytes : List β} {nread : Nat}

lemma Listening.step_ready (h : s.Listening) (hd : s.dispatch = none) :
    s.step (.ready .read) = .ok { s with dispatch := some .readHelper } := by
  have hguard : s.alive = true ∧ s.dispatch = none ∧ s.calls = [] ∧ What.read ≠ .none ∧
      What.read.Among s.watched := ⟨h.alive, hd, h.calls, nofun, by rw [h.watched]; decide⟩
  exact if_pos hguard

lemma Listening.step_xread (h : s.Listening) (hd : s.dispatch = some .readHelper)
    (result : ReadResult β) : s.step (.xread result) = s.xread result := by
  have hguard : s.alive = true ∧ s.calls = [] := ⟨h.alive, h.calls⟩
  refine (if_pos hguard).trans ?_
  simp only [advance, hd]

lemma Listening.step_read (h : s.Listening) (hd : s.dispatch = some (.readAvailable nread))
    (size : Nat) :
    s.step (.readBuffer (.read size)) =
      .ok { s with readBuffer := (s.readBuffer.read size).1 } := by
  have hin : s.inAvailable = true := by
    rw [inAvailable, h.alive, h.calls, hd]
    rfl
  have hguard : (Call.read size : Call β).reserves = false ∧
      (Call.read size : Call β).payload.length < SizeT.objectLimit := ⟨rfl, Nat.two_pow_pos 63⟩
  refine (if_pos hin).trans ?_
  rw [useReadBuffer, if_pos hguard]
  rfl

lemma Listening.step_ret (h : s.Listening) {d : Dispatch} (hd : s.dispatch = some d) :
    s.step .ret = s.resumeDispatch d := by
  change s.ret = _
  rw [ret, h.calls, hd]

lemma Listening.resume_available (h : s.Listening) :
    s.resumeDispatch (.readAvailable nread) =
      .ok { s with dispatch := if nread < readSize then none else some .readHelper } := by
  rw [resumeDispatch]
  split_ifs
  · rfl
  · rw [access, if_pos h.alive]
    rfl

end Stream

/-! ### A call of `read` -/

namespace ReadProgress

variable {r : ReadProgress Q β} {bytes : List β} {k n : Nat}

/-- Where the stream stands between the steps of a call. -/
inductive At (r : ReadProgress Q β) : Prop
  | ready (hd : r.stream.dispatch = none ∨ r.stream.dispatch = some .readHelper)
    (hempty : r.cb.nread < r.cb.size → r.stream.readBuffer.extents = [])
  | available {nread cb : Nat} {buf : BufferImpl β}
    (hd : r.stream.dispatch = some (.readAvailable nread))
    (hlast : r.stream.trace.getLast? = some (.available cb buf))
    (hone : r.cb.nread < r.cb.size → ∃ bs, r.stream.readBuffer.extents = [of [] bs []])
  | ended {cb : Nat} (hd : r.stream.dispatch = some .readEnded)
    (hlast : r.stream.trace.getLast? = some (.eof cb true)) (hnil : r.incoming = [])
    (hempty : r.cb.nread < r.cb.size → r.stream.readBuffer.extents = [])

/-- In a call for `n` bytes that started when `bytes` were to be delivered and the read buffer was
empty, what was stored is the front of the bytes, and what the stream holds and what arrives is the
rest. -/
structure Midway (n : Nat) (bytes : List β) (r : ReadProgress Q β) : Prop where
  listening : r.stream.Listening
  chunks : r.stream.readBuffer.Chunks
  arrives : ∀ result ∈ r.incoming, result.Arrives
  size : r.cb.size = n ∧ n ≤ SizeT.max
  nread : r.cb.nread ≤ min r.cb.size bytes.length
  stored : r.cb.buffer = (bytes.take r.cb.nread).map some
  rest : r.stream.readBuffer.bytes ++ arriving r.incoming = bytes.drop r.cb.nread
  error : r.cb.error = none
  eof : r.cb.eof = true → r.incoming = []
  nreads : ∀ n ∈ r.nreads, n ≤ r.cb.size
  noWait : ∀ buffer ∈ r.waits, buffer.bytes = []
  place : r.At

/-- Since the event loop was run with `k` results to come, one was taken or the end was reached. -/
def Moved (k : Nat) (r : ReadProgress Q β) : Prop :=
  (r.stream.dispatch = some .readHelper ∧ r.incoming.length = k) ∨ r.incoming.length < k ∨
    r.stream.dispatch = some .readEnded ∨ r.cb.eof = true

/-- How many steps of the stream are left in a dispatch. -/
def left (r : ReadProgress Q β) : Nat :=
  match r.stream.dispatch with
  | none => 0
  | some .readHelper => 2 * r.incoming.length + 2
  | some (.readAvailable _) => 2 * r.incoming.length + 3
  | _ => 1

/-- Between two rounds the read buffer is empty while the callback wants more. -/
lemma Midway.extents_eq_nil (h : r.Midway n bytes) (hd : r.stream.dispatch = none)
    (hlt : r.cb.nread < r.cb.size) : r.stream.readBuffer.extents = [] := by
  cases h.place with
  | ready _ hempty => exact hempty hlt
  | available hready _ _ => exact nomatch hd.symm.trans hready
  | ended hready _ _ _ => exact nomatch hd.symm.trans hready

/-- What is known when the loop of `read` has ended is what `read` should do. -/
lemma Midway.law (h : r.Midway n bytes) (hd : r.stream.dispatch = none)
    (hsatisfied : r.cb.unsatisfied = false) :
    r.record.Law bytes ∧
      r.stream.readBuffer.bytes ++ arriving r.incoming = bytes.drop n := by
  have hend : r.cb.nread < r.cb.size →
      r.stream.readBuffer.bytes = [] ∧ bytes.length ≤ r.cb.nread := by
    intro hlt
    have hnil : r.stream.readBuffer.bytes = [] := by
      rw [BufferImpl.bytes_eq, h.extents_eq_nil hd hlt]
      rfl
    have heof : r.cb.eof = true := by
      simpa [BlockingReadCallback.unsatisfied, hlt, h.error] using hsatisfied
    have hrest := h.rest
    rw [hnil, h.eof heof] at hrest
    exact ⟨hnil, List.drop_eq_nil_iff.mp hrest.symm⟩
  have hnread : r.cb.nread = min r.cb.size bytes.length := by
    have hle := h.nread
    by_cases hlt : r.cb.nread < r.cb.size
    · have hlen := (hend hlt).2
      omega
    · omega
  refine ⟨⟨?_, ?_, h.nreads, h.noWait, ?_⟩, ?_⟩
  · change r.cb.buffer = (bytes.take r.cb.size).map some
    rw [h.stored, hnread, ← List.take_take, List.take_length]
  · unfold record
    simp only [h.error, hnread]
  · intro m hm hlt
    have hresult : r.record.result = .ok r.cb.nread := by
      unfold record
      simp only [h.error]
    obtain rfl := Except.ok.inj (hresult.symm.trans hm)
    exact (hend hlt).1
  · rw [h.rest, hnread, h.size.1]
    by_cases hle : n ≤ bytes.length
    · rw [Nat.min_eq_left hle]
    · have hge := Nat.le_of_not_le hle
      rw [Nat.min_eq_right hge, List.drop_length, List.drop_of_length_le hge]

variable [RequestQueue Q (WriteRequest β)]

lemma resume_of_ne {d : Dispatch} (hd : r.stream.dispatch = some d) (hne : d ≠ .readHelper) :
    r.resume = r.notify.bind fun r => (r.stream.step .ret).map fun stream => { r with stream } := by
  unfold resume
  rw [hd]
  cases d <;> first | rfl | exact absurd rfl hne

/-- The callback learns of the end of stream. -/
lemma Midway.ended (h : r.Midway n bytes) {cb : Nat} (hd : r.stream.dispatch = some .readEnded)
    (hlast : r.stream.trace.getLast? = some (.eof cb true)) (hnil : r.incoming = [])
    (hempty : r.cb.nread < r.cb.size → r.stream.readBuffer.extents = []) :
    ∃ r', r.resume = .ok r' ∧ r'.Midway n bytes ∧ r'.Moved k ∧ r'.left < r.left := by
  have hnotify : r.notify = .ok { r with cb := { r.cb with eof := true } } := by
    rw [notify, hlast]
  have hresume : r.resume = .ok { r with
      stream := { r.stream with dispatch := none }
      cb := { r.cb with eof := true } } := by
    rw [resume_of_ne hd nofun, hnotify, Except.bind, h.listening.step_ret hd]
    rfl
  have hleft : r.left = 1 := by
    rw [left, hd]
  exact ⟨_, hresume, ⟨⟨h.listening.alive, h.listening.calls, h.listening.watched,
    h.listening.callback⟩, h.chunks, h.arrives, h.size, h.nread, h.stored, h.rest, h.error,
    fun _ => hnil, h.nreads, h.noWait, .ready (Or.inl rfl) hempty⟩, Or.inr (Or.inr (Or.inr rfl)),
    hleft ▸ Nat.one_pos⟩

/-- The callback takes what it wants of the chunk. -/
lemma Midway.available (h : r.Midway n bytes) (hm : r.Moved k) {nread cb : Nat} {buf : BufferImpl β}
    (hd : r.stream.dispatch = some (.readAvailable nread))
    (hlast : r.stream.trace.getLast? = some (.available cb buf))
    (hone : r.cb.nread < r.cb.size → ∃ bs, r.stream.readBuffer.extents = [of [] bs []]) :
    ∃ r', r.resume = .ok r' ∧ r'.Midway n bytes ∧ r'.Moved k ∧ r'.left < r.left := by
  have hle : r.cb.nread ≤ r.cb.size := Nat.le_trans h.nread (Nat.min_le_left _ _)
  have hwanted : r.cb.wanted = r.cb.size - r.cb.nread := SizeT.sub_of_le hle
  have hnotify : r.notify = .ok { r with
      stream := { r.stream with readBuffer := (r.stream.readBuffer.read r.cb.wanted).1 }
      cb := r.cb.available r.stream.readBuffer
      nreads := r.nreads ++ [(r.cb.available r.stream.readBuffer).nread] } := by
    rw [notify, hlast]
    simp only [h.listening.step_read hd]
    rfl
  obtain ⟨m, hm_le, hm_size, hcb, hchunks, hbytes, hempty⟩ :=
    BlockingReadCallback.available_spec h.chunks hle (h.size.1 ▸ h.size.2) hone
  have hlistening : Stream.Listening
      { r.stream with readBuffer := (r.stream.readBuffer.read r.cb.wanted).1 } :=
    ⟨h.listening.alive, h.listening.calls, h.listening.watched, h.listening.callback⟩
  have hresume : r.resume = .ok { r with
      stream := { r.stream with
        readBuffer := (r.stream.readBuffer.read r.cb.wanted).1
        dispatch := if nread < Stream.readSize then none else some .readHelper }
      cb := r.cb.available r.stream.readBuffer
      nreads := r.nreads ++ [(r.cb.available r.stream.readBuffer).nread] } := by
    rw [resume_of_ne hd nofun, hnotify, Except.bind, hlistening.step_ret hd,
      hlistening.resume_available]
    rfl
  rw [hcb] at hresume
  have hrest : bytes.drop r.cb.nread = r.stream.readBuffer.bytes ++ arriving r.incoming :=
    h.rest.symm
  have hlen : r.cb.nread + m ≤ bytes.length := by
    have hsum := congrArg List.length hrest
    rw [List.length_drop, List.length_append] at hsum
    have hnread := Nat.le_trans h.nread (Nat.min_le_right _ _)
    omega
  refine ⟨_, hresume, ⟨⟨h.listening.alive, h.listening.calls, h.listening.watched,
    h.listening.callback⟩, hchunks, h.arrives, h.size, Nat.le_min.mpr ⟨hm_size, hlen⟩, ?_, ?_,
    h.error, h.eof, ?_, h.noWait, .ready ?_ hempty⟩, ?_, ?_⟩
  · rw [List.take_add, hrest, List.take_append_of_le_length hm_le, h.stored, List.map_append]
  · rw [hbytes, ← List.drop_drop, hrest, List.drop_append_of_le_length hm_le]
  · exact List.forall_mem_append.mpr ⟨h.nreads, List.forall_mem_singleton.mpr hm_size⟩
  · by_cases hfull : nread < Stream.readSize
    · exact Or.inl (if_pos hfull)
    · exact Or.inr (if_neg hfull)
  · rcases hm with ⟨hdm, -⟩ | hlt | hdm | heof
    · exact nomatch hd.symm.trans hdm
    · exact Or.inr (Or.inl hlt)
    · exact nomatch hd.symm.trans hdm
    · exact Or.inr (Or.inr (Or.inr heof))
  · have hleft : r.left = 2 * r.incoming.length + 3 := by
      rw [left, hd]
    rw [hleft, left]
    by_cases hfull : nread < Stream.readSize
    · simp only [if_pos hfull]
      exact Nat.succ_pos _
    · simp only [if_neg hfull]
      exact Nat.lt_succ_self _

lemma resume_of_readHelper (h : r.stream.Listening) (hd : r.stream.dispatch = some .readHelper)
    {s : Stream Q β} (hx : r.stream.xread (r.incoming.headD .eof) = .ok s) :
    r.resume = .ok { r with stream := s, incoming := r.incoming.tail } := by
  unfold resume
  rw [hd]
  simp only [h.step_xread hd, hx]
  rfl

/-- The result of `xread` is appended to the read buffer and shown to the callback, or the end of
stream is reported. -/
lemma Midway.xread (h : r.Midway n bytes) (hm : r.Moved k)
    (hd : r.stream.dispatch = some .readHelper)
    (hempty : r.cb.nread < r.cb.size → r.stream.readBuffer.extents = []) :
    ∃ r', r.resume = .ok r' ∧ r'.Midway n bytes ∧ r'.Moved k ∧ r'.left < r.left := by
  obtain ⟨cb, hcb⟩ := h.listening.callback
  have hleft : r.left = 2 * r.incoming.length + 2 := by
    rw [left, hd]
  cases hin : r.incoming with
  | nil =>
    have hx : r.stream.xread (r.incoming.headD .eof) = .ok { r.stream with
        dispatch := some .readEnded
        trace := r.stream.trace ++ [.xread r.stream.fd .eof (some cb)] ++ [.eof cb true] } := by
      simp only [hin, List.headD_nil, Stream.xread, hcb]
    have hnil : r.incoming.tail = [] := by rw [hin]; rfl
    refine ⟨_, resume_of_readHelper h.listening hd hx, ⟨⟨h.listening.alive, h.listening.calls,
      h.listening.watched, h.listening.callback⟩, h.chunks, ?_, h.size, h.nread, h.stored, ?_,
      h.error, fun _ => hnil, h.nreads, h.noWait,
      .ended rfl List.getLast?_concat hnil hempty⟩, Or.inr (Or.inr (Or.inl rfl)), ?_⟩
    · rw [hnil]
      exact fun _ hr => absurd hr List.not_mem_nil
    · have hrest := h.rest
      rw [hin] at hrest
      rw [hnil]
      exact hrest
    · rw [hleft]
      exact Nat.lt_of_lt_of_le Nat.one_lt_two (Nat.le_add_left _ _)
  | cons result rest =>
    have harrives := h.arrives
    rw [hin, List.forall_mem_cons] at harrives
    have htail : r.incoming.tail = rest := by rw [hin]; rfl
    have hlen : r.incoming.length = rest.length + 1 := by rw [hin]; rfl
    have hmoved : rest.length < k := by
      rcases hm with ⟨-, hk⟩ | hlt | hdm | heof
      · omega
      · omega
      · cases hd.symm.trans hdm
      · cases hin.symm.trans (h.eof heof)
    have heof : r.cb.eof = true → rest = [] := fun he => by cases hin.symm.trans (h.eof he)
    have hrest : r.stream.readBuffer.bytes ++ (result.bytes ++ arriving rest) =
        bytes.drop r.cb.nread := by
      rw [← h.rest, hin]
      rfl
    cases result with
    | eof => exact absurd harrives.1 id
    | error e =>
      have hretry : isReadRetryable e = true := harrives.1
      have hx : r.stream.xread (r.incoming.headD .eof) = .ok { r.stream with
          dispatch := none
          trace := r.stream.trace ++ [.xread r.stream.fd (.error e) (some cb)] } := by
        simp only [hin, List.headD_cons, Stream.xread, hcb, hretry]
      have hresume := resume_of_readHelper h.listening hd hx
      rw [htail] at hresume
      exact ⟨_, hresume, ⟨⟨h.listening.alive, h.listening.calls, h.listening.watched,
        h.listening.callback⟩, h.chunks, harrives.2, h.size, h.nread, h.stored, hrest, h.error,
        heof, h.nreads, h.noWait, .ready (Or.inl rfl) hempty⟩, Or.inr (Or.inl hmoved),
        hleft ▸ Nat.succ_pos _⟩
    | data buf =>
      obtain ⟨hpos, hle⟩ := harrives.1
      obtain ⟨b', hb', hchunks, hext, hbytes⟩ :=
        h.chunks.append hpos (Nat.lt_of_le_of_lt hle (by decide))
      have hx : r.stream.xread (r.incoming.headD .eof) = .ok { r.stream with
          readBuffer := b'
          dispatch := some (.readAvailable buf.length)
          trace := r.stream.trace ++ [.xread r.stream.fd (.data buf) (some cb)] ++
            [.available cb b'] } := by
        simp only [hin, List.headD_cons, Stream.xread, hcb, hb']
        exact if_pos ⟨hpos, hle⟩
      have hresume := resume_of_readHelper h.listening hd hx
      rw [htail] at hresume
      refine ⟨_, hresume, ⟨⟨h.listening.alive, h.listening.calls, h.listening.watched,
        h.listening.callback⟩, hchunks, harrives.2, h.size, h.nread, h.stored, ?_, h.error,
        heof, h.nreads, h.noWait, .available rfl List.getLast?_concat fun hlt => ⟨buf, ?_⟩⟩,
        Or.inr (Or.inl hmoved), ?_⟩
      · rw [hbytes, List.append_assoc]
        exact hrest
      · rw [hext, hempty hlt]
        rfl
      · rw [hleft, hlen, left]
        exact Nat.lt_succ_self _

/-- Every step of the stream goes on with the call. -/
theorem Midway.resume (h : r.Midway n bytes) (hm : r.Moved k)
    (hd : r.stream.dispatch.isSome = true) :
    ∃ r', r.resume = .ok r' ∧ (r'.Midway n bytes ∧ r'.Moved k) ∧ r'.left < r.left := by
  have hplace : ∃ r', r.resume = .ok r' ∧ r'.Midway n bytes ∧ r'.Moved k ∧ r'.left < r.left := by
    cases h.place with
    | ready hready hempty =>
      rcases hready with hnone | hready
      · rw [hnone] at hd
        cases hd
      · exact h.xread hm hready hempty
    | available hready hlast hone => exact h.available hm hready hlast hone
    | ended hready hlast hnil hempty => exact h.ended hready hlast hnil hempty
  obtain ⟨r', hr', hmid, hmoved, hlt⟩ := hplace
  exact ⟨r', hr', ⟨hmid, hmoved⟩, hlt⟩

/-- Running the event loop once takes a result of `xread` or finds the end of stream. -/
theorem Midway.loopOnce (h : r.Midway n bytes) (hd : r.stream.dispatch = none)
    (hempty : r.stream.readBuffer.extents = []) :
    ∃ r', r.loopOnce = .ok r' ∧ (r'.Midway n bytes ∧ r'.stream.dispatch = none) ∧
      (r'.incoming.length < r.incoming.length ∨ r'.cb.eof = true) := by
  have hstart :
      Midway n bytes { r with stream := { r.stream with dispatch := some .readHelper } } :=
    ⟨⟨h.listening.alive, h.listening.calls, h.listening.watched, h.listening.callback⟩, h.chunks,
      h.arrives, h.size, h.nread, h.stored, h.rest, h.error, h.eof, h.nreads, h.noWait,
      .ready (Or.inr rfl) fun _ => hempty⟩
  obtain ⟨r', hloop, ⟨hmid, hmoved⟩, hend⟩ : ∃ r', Loop.whileDo .diverges
      (fun r : ReadProgress Q β => r.stream.dispatch.isSome) ReadProgress.resume
      (2 * r.incoming.length + 3)
      { r with stream := { r.stream with dispatch := some .readHelper } }
        = .ok r' ∧ (r'.Midway n bytes ∧ r'.Moved r.incoming.length) ∧
      r'.stream.dispatch.isSome = false :=
    Loop.whileDo_total (fun r' => r'.Midway n bytes ∧ r'.Moved r.incoming.length) left
      (fun r' hr' hg => Midway.resume hr'.1 hr'.2 hg) ⟨hstart, Or.inl ⟨rfl, rfl⟩⟩
      (Nat.lt_succ_self (2 * r.incoming.length + 2))
  have hnone : r'.stream.dispatch = none := Option.not_isSome_iff_eq_none.mp fun h =>
    Bool.false_ne_true (hend.symm.trans h)
  have honce : r.loopOnce = .ok { r' with waits := r.waits ++ [r.stream.readBuffer] } := by
    unfold ReadProgress.loopOnce
    rw [h.listening.step_ready hd]
    change (Loop.whileDo _ _ _ _ _ >>= _) = _
    rw [hloop]
    rfl
  refine ⟨_, honce, ⟨⟨hmid.listening, hmid.chunks, hmid.arrives, hmid.size, hmid.nread,
    hmid.stored, hmid.rest, hmid.error, hmid.eof, hmid.nreads, ?_, ?_⟩, hnone⟩, ?_⟩
  · refine List.forall_mem_append.mpr ⟨h.noWait, List.forall_mem_singleton.mpr ?_⟩
    rw [BufferImpl.bytes_eq, hempty]
    rfl
  · cases hmid.place with
    | ready hready hempty => exact .ready hready hempty
    | available hready _ _ => exact nomatch hnone.symm.trans hready
    | ended hready _ _ _ => exact nomatch hnone.symm.trans hready
  · rcases hmoved with ⟨hready, -⟩ | hlt | hready | heof
    · exact nomatch hnone.symm.trans hready
    · exact Or.inl hlt
    · exact nomatch hnone.symm.trans hready
    · exact Or.inr heof

/-- The loop of `read` ends, with all that the callback asked for or the end of stream. -/
theorem Midway.loop (h : r.Midway n bytes) (hd : r.stream.dispatch = none)
    (hempty : r.stream.readBuffer.extents = []) :
    ∃ r', Loop.doWhile .diverges (fun r => r.cb.unsatisfied) ReadProgress.loopOnce
      (r.incoming.length + 1) r = .ok r' ∧ (r'.Midway n bytes ∧ r'.stream.dispatch = none) ∧
      r'.cb.unsatisfied = false := by
  refine Loop.doWhile_total (fun r : ReadProgress Q β => (r.Midway n bytes ∧
      r.stream.dispatch = none) ∧ r.stream.readBuffer.extents = [])
    (fun r => r.Midway n bytes ∧ r.stream.dispatch = none) (fun r => r.incoming.length) ?_
    ⟨⟨h, hd⟩, hempty⟩ (Nat.lt_succ_self _)
  rintro r ⟨⟨hr, hd⟩, hempty⟩
  obtain ⟨r', honce, hmid, hmoved⟩ := hr.loopOnce hd hempty
  refine ⟨r', honce, hmid, fun hmore => ?_⟩
  unfold BlockingReadCallback.unsatisfied at hmore
  rw [Bool.and_eq_true, Bool.and_eq_true, decide_eq_true_eq, Bool.not_eq_true'] at hmore
  obtain ⟨⟨hlt, -⟩, heof⟩ := hmore
  refine ⟨⟨hmid, hmid.1.extents_eq_nil hmid.2 hlt⟩, hmoved.resolve_right fun h => ?_⟩
  exact Bool.false_ne_true (heof.symm.trans h)

end ReadProgress

/-! ### Sequences of calls -/

namespace BlockingStream

variable {b b' : BlockingStream Q β} {call : ReadCall} {calls : List ReadCall} {bytes : List β}

/-- Between two calls the stream holds the first of the bytes to be delivered, and the others are
going to arrive. -/
structure Between (bytes : List β) (b : BlockingStream Q β) : Prop where
  alive : b.stream.alive = true
  calls : b.stream.calls = []
  dispatch : b.stream.dispatch = none
  watched : b.stream.watched = .none ∧ b.stream.readCallback = none ∨ b.stream.watched = .read
  chunks : b.stream.readBuffer.Chunks
  arrives : ∀ result ∈ b.incoming, result.Arrives
  rest : b.stream.readBuffer.bytes ++ arriving b.incoming = bytes

/-- The read buffer of the stream is empty. -/
def Drained (b : BlockingStream Q β) : Prop := b.stream.readBuffer.bytes = []

variable [RequestQueue Q (WriteRequest β)]

lemma between_new (fd : Int) {incoming : List (ReadResult β)}
    (h : ∀ result ∈ incoming, result.Arrives) :
    (new fd incoming : BlockingStream Q β).Between (arriving incoming) :=
  ⟨rfl, rfl, rfl, Or.inl ⟨rfl, rfl⟩, BufferImpl.chunks_empty, h, rfl⟩

lemma Between.step_startRead (h : b.Between bytes) (callback : Nat) :
    b.stream.step (.startRead (some callback)) = .ok (b.stream.startRead (some callback)) ∧
      (b.stream.startRead (some callback)).Listening := by
  have hcallable : b.stream.callable = true := by
    rw [Stream.callable, h.alive, h.calls, h.dispatch]
    rfl
  refine ⟨if_pos hcallable, ?_⟩
  unfold Stream.startRead
  split_ifs with hsame
  · rcases h.watched with ⟨-, hnone⟩ | hread
    · exact nomatch hnone.symm.trans hsame
    · exact ⟨h.alive, h.calls, hread, callback, hsame⟩
  · refine ⟨h.alive, h.calls, ?_, callback, rfl⟩
    rcases h.watched with ⟨hnone, -⟩ | hread
    · change b.stream.watched.ensureRead = .read
      rw [hnone]
      rfl
    · change b.stream.watched.ensureRead = .read
      rw [hread]
      rfl

/-- A call that starts with an empty read buffer does what it should. -/
theorem Between.read_law (h : b.Between bytes) (hdrained : b.Drained)
    (hsize : call.size ≤ SizeT.max) :
    ∃ b' record, b.read call = .ok b' ∧ b'.reads = b.reads ++ [record] ∧
      record.size = call.size ∧ record.Law bytes ∧ b'.Between (bytes.drop call.size) := by
  obtain ⟨hstep, hlistening⟩ := h.step_startRead call.callback
  obtain ⟨hbuf, hdispatch⟩ := b.stream.startRead_frame (some call.callback)
  have hstart : ReadProgress.Midway call.size bytes ⟨b.stream.startRead (some call.callback),
      b.incoming, .new call.size, [], []⟩ :=
    ⟨hlistening, hbuf.symm ▸ h.chunks, h.arrives, ⟨rfl, hsize⟩, Nat.zero_le _, rfl,
      hbuf.symm ▸ h.rest, rfl, (fun heof => nomatch heof), fun _ hn => absurd hn List.not_mem_nil,
      fun _ hn => absurd hn List.not_mem_nil, .ready (Or.inl (hdispatch.trans h.dispatch))
        fun _ => hbuf.symm ▸ h.chunks.extents_eq_nil hdrained⟩
  obtain ⟨r, hloop, ⟨hmid, hnone⟩, hsatisfied⟩ := hstart.loop (hdispatch.trans h.dispatch)
    (hbuf.symm ▸ h.chunks.extents_eq_nil hdrained)
  obtain ⟨hlaw, hrest⟩ := hmid.law hnone hsatisfied
  refine ⟨⟨r.stream, r.incoming, b.reads ++ [r.record]⟩, r.record, ?_, rfl, hmid.size.1, hlaw,
    ⟨hmid.listening.alive, hmid.listening.calls, hnone, Or.inr hmid.listening.watched,
      hmid.chunks, hmid.arrives, hrest⟩⟩
  unfold BlockingStream.read
  rw [hstep]
  change (Loop.doWhile _ _ _ _ _ >>= _) = _
  rw [hloop]
  rfl

/-- A call leaves a record, which says what the read buffer held when the event loop was first
run. -/
lemma reads_of_read (h : b.read call = .ok b') :
    ∃ record, b'.reads = b.reads ++ [record] ∧ b.stream.readBuffer ∈ record.waits := by
  obtain ⟨stream, hstep, h⟩ := bind_eq_ok.mp h
  obtain ⟨r, hloop, hok⟩ := bind_eq_ok.mp h
  obtain rfl := Except.ok.inj hok
  have hbuf : stream.readBuffer = b.stream.readBuffer := by
    cases Stream.step_cases hstep with
    | quiet hq => exact hq.readBuffer
  have honce : ∀ {r r' : ReadProgress Q β}, r.loopOnce = .ok r' →
      r'.waits = r.waits ++ [r.stream.readBuffer] := by
    intro r r' honce
    obtain ⟨stream, -, honce⟩ := bind_eq_ok.mp honce
    obtain ⟨r₁, -, hok⟩ := bind_eq_ok.mp honce
    obtain rfl := Except.ok.inj hok
    rfl
  refine ⟨r.record, rfl, ?_⟩
  refine Loop.doWhile_invariant_of_first (fun r : ReadProgress Q β =>
    b.stream.readBuffer ∈ r.waits) (fun r' hr' => ?_) (fun r r' hmem hr' => ?_) hloop
  · rw [honce hr', hbuf]
    exact List.mem_append_right _ List.mem_cons_self
  · rw [honce hr']
    exact List.mem_append_left _ hmem

lemma reads_of_exec (h : Exec.exec read b calls = .ok b') : ∃ more, b'.reads = b.reads ++ more := by
  induction calls generalizing b with
  | nil =>
    obtain rfl := Except.ok.inj h
    exact ⟨[], (List.append_nil _).symm⟩
  | cons call calls ih =>
    obtain ⟨b₁, hread, hexec⟩ := Exec.exec_cons_eq_ok.mp h
    obtain ⟨record, hrecord, -⟩ := reads_of_read hread
    obtain ⟨more, hmore⟩ := ih hexec
    exact ⟨record :: more, by rw [hmore, hrecord, List.append_assoc]; rfl⟩

lemma Between.delivers_iff (h : b.Between bytes) (hsize : ∀ call ∈ calls, call.size ≤ SizeT.max) :
    (∃ b' more, Exec.exec read b calls = .ok b' ∧ b'.reads = b.reads ++ more ∧
      Delivered bytes more) ↔ Exec.Along read (fun b _ => b.Drained) b calls := by
  induction calls generalizing b bytes with
  | nil => exact ⟨fun _ => Exec.along_nil, fun _ => ⟨b, [], rfl, (List.append_nil _).symm, trivial⟩⟩
  | cons call calls ih =>
    rw [List.forall_mem_cons] at hsize
    by_cases hdrained : b.Drained
    · obtain ⟨b₁, record, hread, hrecord, hask, hlaw, hbetween⟩ := h.read_law hdrained hsize.1
      rw [Exec.along_cons hread, and_iff_right hdrained, ← ih hbetween hsize.2]
      constructor
      · rintro ⟨b', more, hexec, hmore, hdelivered⟩
        rw [Exec.exec_cons_ok hread] at hexec
        obtain ⟨rest, hrest⟩ := reads_of_exec hexec
        rw [hrecord, List.append_assoc] at hrest
        obtain rfl : more = record :: rest := List.append_cancel_left (hmore.symm.trans hrest)
        refine ⟨b', rest, hexec, ?_, hask ▸ hdelivered.2⟩
        rw [hrest, hrecord, List.append_assoc]
      · rintro ⟨b', more, hexec, hmore, hdelivered⟩
        refine ⟨b', record :: more, (Exec.exec_cons_ok hread).trans hexec, ?_, hlaw,
          hask.symm ▸ hdelivered⟩
        rw [hmore, hrecord, List.append_assoc]
        rfl
    · -- the first thing the call does is to wait, with bytes at hand
      refine ⟨?_, fun halong => absurd halong.head hdrained⟩
      rintro ⟨b', more, hexec, hmore, hdelivered⟩
      obtain ⟨b₁, hread, hexec⟩ := Exec.exec_cons_eq_ok.mp hexec
      obtain ⟨record, hrecord, hwait⟩ := reads_of_read hread
      obtain ⟨rest, hrest⟩ := reads_of_exec hexec
      rw [hrecord, List.append_assoc] at hrest
      obtain rfl : more = record :: rest := List.append_cancel_left (hmore.symm.trans hrest)
      exact absurd (hdelivered.1.noWait _ hwait) hdrained

/-- Whatever arrives and however it is cut into chunks, a sequence of calls of `read` delivers it if
and only if the read buffer of the stream is empty whenever a call starts. -/
theorem delivered_iff (fd : Int) (incoming : List (ReadResult β)) (calls : List ReadCall)
    (hin : ∀ result ∈ incoming, result.Arrives) (hsize : ∀ call ∈ calls, call.size ≤ SizeT.max) :
    (∃ b, Exec.exec read (new fd incoming : BlockingStream Q β) calls = .ok b ∧
      Delivered (arriving incoming) b.reads) ↔
      Exec.Along read (fun b _ => b.Drained) (new fd incoming : BlockingStream Q β) calls := by
  rw [← (between_new fd hin).delivers_iff hsize]
  constructor
  · rintro ⟨b, hexec, hdelivered⟩
    exact ⟨b, b.reads, hexec, rfl, hdelivered⟩
  · rintro ⟨b, more, hexec, hmore, hdelivered⟩
    exact ⟨b, hexec, hmore ▸ hdelivered⟩

/-- Two chunks and what is left of neither when a call starts. -/
theorem delivered_two_chunks : ∃ b : BlockingStream (Requests (WriteRequest Char)) Char,
    Exec.exec read (new 3 [.data ['a', 'b'], .error .eagain, .data ['c', 'd', 'e']])
      [⟨1, 2⟩, ⟨2, 5⟩, ⟨1, 1⟩] = .ok b ∧ Delivered ['a', 'b', 'c', 'd', 'e'] b.reads :=
  (delivered_iff 3 [.data ['a', 'b'], .error .eagain, .data ['c', 'd', 'e']]
    [⟨1, 2⟩, ⟨2, 5⟩, ⟨1, 1⟩] (by simp [ReadResult.Arrives, Stream.readSize, isReadRetryable])
    (by simp [SizeT.max])).mpr ⟨rfl, rfl, rfl, trivial⟩

/-- What the first call leaves in the read buffer is not delivered by the second one, which waits
and finds the end of stream. -/
theorem not_delivered : ¬ ∀ (fd : Int) (incoming : List (ReadResult Char)) (calls : List ReadCall),
    (∀ result ∈ incoming, result.Arrives) → (∀ call ∈ calls, call.size ≤ SizeT.max) →
    ∃ b : BlockingStream (Requests (WriteRequest Char)) Char,
      Exec.exec read (new fd incoming) calls = .ok b ∧ Delivered (arriving incoming) b.reads := by
  intro h
  obtain ⟨b, hexec, hdelivered⟩ := h 3 [.data ['a', 'b']] [⟨1, 1⟩, ⟨2, 1⟩]
    (by simp [ReadResult.Arrives, Stream.readSize]) (by simp [SizeT.max])
  obtain rfl := Except.ok.inj hexec
  exact absurd hdelivered.2.1.stored (by decide)

end BlockingStream

end WhatTheEvent
