import MediaTransport.TransportError

/-!
# The life of a receiver

A receiver is started once, and its loop reads until it fails or the receiver is closed. What
callers see is the state; the loop goes by two flags, each of which is set after the state has
changed. The functions below are the steps that nothing comes between: `start`, the two steps of
closing, and the two steps of the loop that fails.
-/

namespace MediaTransport

/-- What callers see of the life of a receiver. -/
inductive ReceiverState where
  | notStarted
  | running
  /-- The loop stopped on a failure. -/
  | failed
  | closed
  deriving DecidableEq, Repr

/-- Where the loop is. -/
inductive LoopPhase where
  | notStarted
  | reading
  /-- It has failed, and is about to set the flag. -/
  | failing
  | ended
  deriving DecidableEq, Repr

/-- The state of a receiver with its flags and its loop. -/
structure Lifecycle where
  state : ReceiverState := .notStarted
  /-- The flag on which the loop ends. -/
  closed : Bool := false
  /-- The flag that a failed loop leaves. -/
  failed : Bool := false
  loop : LoopPhase := .notStarted
  deriving DecidableEq, Repr

namespace Lifecycle

/-- Starts the loop. -/
def start (l : Lifecycle) : Except TransportError Lifecycle :=
  match l.state with
  | .notStarted => .ok { l with state := .running, loop := .reading }
  | .running => .error .alreadyStarted
  | .failed => .error .receiveFailed
  | .closed => .error .closed

/-! ## Closing -/

/-- Closing, first step: callers see it. -/
def markClosed (l : Lifecycle) : Lifecycle := { l with state := .closed }

/-- Closing, second step: the loop sees it. -/
def raiseClosed (l : Lifecycle) : Lifecycle := { l with closed := true }

/-- Closes for good. -/
def close (l : Lifecycle) : Lifecycle := l.markClosed.raiseClosed

/-- The loop ends, if it reads and sees the flag. -/
def leave (l : Lifecycle) : Lifecycle :=
  if l.loop = .reading ∧ l.closed then { l with loop := .ended } else l

/-! ## Failing -/

/-- Failing, first step: the state changes, unless the receiver was closed meanwhile. -/
def markFailed (l : Lifecycle) : Lifecycle :=
  if l.loop = .reading then
    { l with state := if l.state = .running then .failed else l.state, loop := .failing }
  else l

/-- Failing, second step: the loop sets its flag and ends. -/
def raiseFailed (l : Lifecycle) : Lifecycle :=
  if l.loop = .failing then { l with failed := true, loop := .ended } else l

/-- The loop fails. -/
def fail (l : Lifecycle) : Lifecycle := l.markFailed.raiseFailed

@[simp] theorem state_close (l : Lifecycle) : l.close.state = .closed := rfl

@[simp] theorem start_close (l : Lifecycle) : l.close.start = .error .closed := rfl

end Lifecycle

end MediaTransport
