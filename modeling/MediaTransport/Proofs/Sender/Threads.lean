import MediaTransport.Proofs.Pacing.Shutdown
import MediaTransport.Sender.Basic

/-!
# The threads of a sender

One caller and the pacing worker share a sender, and whatever is sent arrives. Both send a packet to
one target after the other, and anything can come between two of these. The caller makes its next
call when the last one has returned: a write that finds the queue full tries it again and again
until there is room. What a sender does with a packet before it is sent, and what the worker does
until it has one to send, are steps of the sender (`Sender.write`, `Sender.work`).
-/

namespace MediaTransport

/-- Everything can be sent everywhere. -/
def Wire.reliable : Wire := fun _ => true

/-- The packet that a write waits for room with, and the length of what was written. -/
def WriteStatus.waiting? : WriteStatus → Option (Packet × Nat)
  | finished _ | faulted _ => none
  | waiting p length => some (p, length)

/-- A step of the caller or of the pacing worker. -/
inductive SenderEvent where
  | write (now : Instant) (bytes : Bytes)
  | setRateLimit (maxPackets perMillis : UInt64)
  /-- The write that has not returned gets on. -/
  | proceed
  | work (now : Instant)
  deriving DecidableEq, Repr

/-- A sender with the threads that share it. -/
structure SharedSender (σ : Type) where
  sender : Sender σ
  /-- What the write that has not returned still has to send. -/
  callerOutbox : List Attempt := []
  /-- The packet that the write that has not returned waits for room with. -/
  waiting : Option (Packet × Nat) := none
  /-- What the worker still has to send of the packet that it sends. -/
  workerOutbox : List Attempt := []
  /-- What was written, with the write that has not returned. -/
  written : List Bytes := []
  /-- What was sent, and in what order. -/
  log : List Attempt := []

namespace SharedSender

variable {σ : Type}

/-- Whether the last call has returned. -/
def IsIdle (s : SharedSender σ) : Prop := s.callerOutbox = [] ∧ s.waiting = none

instance (s : SharedSender σ) : Decidable s.IsIdle := inferInstanceAs (Decidable (_ ∧ _))

/-- The caller writes a packet. -/
def write (s : SharedSender σ) (now : Instant) (bytes : Bytes) : SharedSender σ :=
  let (sender, attempts, status) := s.sender.write .reliable now bytes
  { s with
    sender
    callerOutbox := attempts
    waiting := status.waiting?
    written := s.written ++ [bytes] }

/-- The caller changes the rate limit; where that is refused, nothing changes. -/
def setRateLimit (s : SharedSender σ) (maxPackets perMillis : UInt64) : SharedSender σ :=
  match s.sender.setRateLimit maxPackets perMillis with
  | .ok sender => { s with sender }
  | .error _ => s

/-- The write that has not returned sends to the next target, or tries the queue again. -/
def proceed (s : SharedSender σ) : SharedSender σ :=
  match s.callerOutbox with
  | attempt :: rest => { s with callerOutbox := rest, log := s.log ++ [attempt] }
  | [] =>
    match s.waiting with
    | some (p, length) =>
      let (sender, status) := s.sender.queue p length
      { s with sender, waiting := status.waiting? }
    | none => s

/-- The worker sends to the next target, or takes its next step on the way to a packet. -/
def work (s : SharedSender σ) (now : Instant) : SharedSender σ :=
  match s.workerOutbox with
  | attempt :: rest => { s with workerOutbox := rest, log := s.log ++ [attempt] }
  | [] =>
    let (sender, attempts) := s.sender.work .reliable now
    { s with sender, workerOutbox := attempts }

def step (s : SharedSender σ) : SenderEvent → SharedSender σ
  | .write now bytes => if s.IsIdle then s.write now bytes else s
  | .setRateLimit maxPackets perMillis =>
    if s.IsIdle then s.setRateLimit maxPackets perMillis else s
  | .proceed => s.proceed
  | .work now => s.work now

/-- The run of the threads of a sender through the given steps, after the targets were added to
it. -/
def run (sender : Sender σ) (targets : List Address) (events : List SenderEvent) : SharedSender σ :=
  events.foldl step { sender := targets.foldl .addTarget sender }

end SharedSender

/-! ## What a target receives -/

/-- What the target receives of some attempts, in order. -/
def Attempt.receivedBy (target : Address) (attempts : List Attempt) : List Bytes :=
  (attempts.filter fun a => a.sent && decide (a.target = target)).map (·.bytes)

namespace Sender

variable {σ : Type}

/-- The packets that the pacing worker has yet to send, the next one first. -/
def pending (s : Sender σ) : List Bytes :=
  match s.pacer with
  | some pacer => pacer.pending.map Packet.bytes
  | none => []

end Sender

namespace SharedSender

variable {σ : Type}

/-- What the target is still to receive of what was written. -/
def outstanding (s : SharedSender σ) (target : Address) : List Bytes :=
  Attempt.receivedBy target s.workerOutbox ++ s.sender.pending ++
    s.waiting.toList.map (fun w => w.1.bytes) ++ Attempt.receivedBy target s.callerOutbox

end SharedSender

end MediaTransport
