import WhatTheEvent.Memory

/-!
# Events and errors

The events that a handler can watch, and the classification of `errno` by the stream.
-/

namespace WhatTheEvent

/-- `What`. -/
inductive What where
  | none
  | read
  | write
  | readWrite
  deriving DecidableEq, Repr

namespace What

def isRead (what : What) : Bool := what = read || what = readWrite

def isWrite (what : What) : Bool := what = write || what = readWrite

def ensureWrite : What → What
  | read => readWrite
  | _ => write

def ensureRead : What → What
  | write => readWrite
  | _ => read

def removeWrite : What → What
  | readWrite => read
  | read => read
  | _ => none

@[simp] lemma isWrite_ensureWrite (what : What) : what.ensureWrite.isWrite = true := by
  cases what <;> rfl

@[simp] lemma isRead_ensureRead (what : What) : what.ensureRead.isRead = true := by
  cases what <;> rfl

/-- `ensureWrite` keeps `READ` only if `WRITE` was not there. -/
@[simp] lemma isRead_ensureWrite {what : What} : what.ensureWrite.isRead = true ↔ what = .read := by
  cases what <;> decide

/-- `ensureRead` keeps `WRITE` only if `READ` was not there. -/
@[simp] lemma isWrite_ensureRead {what : What} :
    what.ensureRead.isWrite = true ↔ what = .write := by
  cases what <;> decide

@[simp] lemma isRead_removeWrite (what : What) : what.removeWrite.isRead = what.isRead := by
  cases what <;> rfl

@[simp] lemma isWrite_removeWrite (what : What) : what.removeWrite.isWrite = false := by
  cases what <;> rfl

/-- Every event of `event` is among the events of `what`. -/
def Among (event what : What) : Prop :=
  (event.isRead = true → what.isRead = true) ∧ (event.isWrite = true → what.isWrite = true)

instance (event what : What) : Decidable (event.Among what) := inferInstanceAs (Decidable (_ ∧ _))

end What

/-- The values of `errno` that the stream tells apart. -/
inductive Errno where
  | eagain
  | ewouldblock
  | einprogress
  | other (e : Nat)
  deriving DecidableEq, Repr

def isConnectRetryable (e : Errno) : Bool := e = .einprogress

def isReadRetryable (e : Errno) : Bool := e = .eagain || e = .ewouldblock

/-- What `xwrite` returns: a count, or `-1` with `errno`. -/
inductive WriteResult where
  | count (n : Nat)
  | error (e : Errno)
  deriving DecidableEq, Repr

/-- What `xread` returns: a positive count with the bytes stored, `0`, or `-1` with `errno`. -/
inductive ReadResult (β : Type) where
  | data (bytes : List β)
  | eof
  | error (e : Errno)
  deriving DecidableEq, Repr

/-- What the system calls of `connect` return. -/
structure ConnectResults where
  socket : Int
  setNonblocking : Int
  inetPton : Int
  connect : Int
  errno : Errno
  deriving DecidableEq, Repr

end WhatTheEvent
