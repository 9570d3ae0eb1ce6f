import MediaTransport.Sender.Basic

/-!
# Senders on a clock of their own

A timeline runs a sender on a clock that moves only when somebody waits: a writer for room in the
queue, or the caller for packets to go out or for time to pass. In between the pacing worker does
all it can in no time. Of all the ways in which the steps of writers and worker can follow one
another this is one, and the same for every run.
-/

namespace MediaTransport

/-- A sender with its clock. -/
structure Timeline (σ : Type) where
  sender : Sender σ
  now : Instant := 0
  /-- Targets that nothing can be sent to. -/
  unreachable : List Address := []
  /-- All that was sent, and tried to. -/
  attempts : List Attempt := []

namespace Timeline

variable {σ : Type}

/-- What can be sent to. -/
def wire (t : Timeline σ) : Wire := fun target => target ∉ t.unreachable

/-- The timeline after something was done to the sender. -/
def record (t : Timeline σ) (sender : Sender σ) (attempts : List Attempt) : Timeline σ :=
  { t with sender, attempts := t.attempts ++ attempts }

/-- The pacing worker does all it can now. -/
def settle (t : Timeline σ) : Timeline σ :=
  let (sender, attempts) := t.sender.settle t.wire t.now
  t.record sender attempts

/-- Something is done to the sender, and the pacing worker gets to know. -/
def update (t : Timeline σ) (sender : Sender σ) : Timeline σ :=
  { t with sender }.settle

/-- The clock moves to the moment that the pacing worker waits for. -/
def advance (t : Timeline σ) : Timeline σ :=
  match t.sender.due? t.now with
  | some due => { t with now := max t.now due }.settle
  | none => t

/-- The clock moves, at most `count` times, until what is waited for is there. -/
def advanceUntil (done : Timeline σ → Bool) : Nat → Timeline σ → Timeline σ
  | 0, t => t
  | count + 1, t => if done t then t else advanceUntil done count t.advance

/-- A bound on how often the clock can move before nothing is left to send. -/
def moves (t : Timeline σ) : Nat := (t.sender.pacer.map Pacer.load).getD 0

/-- Waits until so many attempts were made since the start. -/
def awaitAttempts (t : Timeline σ) (count : Nat) : Timeline σ :=
  t.advanceUntil (fun t => count ≤ t.sender.counters.attempts) t.moves

/-- Lets time pass. -/
def sleep (t : Timeline σ) (nanos : Nat) : Timeline σ :=
  let target := t.now + nanos
  let overslept (t : Timeline σ) : Bool :=
    match t.sender.due? t.now with
    | some due => target < due
    | none => true
  { t.advanceUntil overslept t.moves with now := target }

/-- Writes a packet, and waits for room in the queue if it is full: a worker that goes on takes a
packet off it. -/
def write (t : Timeline σ) (bytes : Bytes) :
    Except Fault (Timeline σ × Except TransportError Nat) :=
  let (sender, attempts, status) := t.sender.write t.wire t.now bytes
  let t := (t.record sender attempts).settle
  match status with
  | .finished result => .ok (t, result)
  | .faulted fault => .error fault
  | .waiting p length =>
    let t := t.advance
    let (sender, status) := t.sender.queue p length
    match status with
    | .finished result => .ok (t.update sender, result)
    | .waiting _ _ | .faulted _ => .ok (t, .error .closed)

/-- Changes the rate limit. -/
def setRateLimit (t : Timeline σ) (maxPackets perMillis : UInt64) :
    Timeline σ × Except TransportError Unit :=
  match t.sender.setRateLimit maxPackets perMillis with
  | .ok sender => (t.update sender, .ok ())
  | .error e => (t, .error e)

/-- Closes the sender, and waits until the pacing worker has exited. Closing again does nothing. -/
def close (t : Timeline σ) : Timeline σ :=
  if t.sender.closed then t
  else
    let t := t.update t.sender.beginClose
    { t with sender := t.sender.endClose }

/-- The time between the first and the last packet sent. -/
def span (t : Timeline σ) : Int :=
  let moments := (t.attempts.filter (·.sent)).map (·.moment)
  moments.getLastD 0 - moments.headD 0

end Timeline

end MediaTransport
