import MediaTransport.Capture
import MediaTransport.Counters
import MediaTransport.Packet.Pool
import MediaTransport.Pacing.Pacer
import MediaTransport.Stage
import MediaTransport.TransportError

/-!
# Senders

A sender puts each packet that is written to it through its stage and offers it to all its targets,
in the order in which they were added; one that fails does not stop the others. Without a rate limit
this happens in the write itself. From the first rate limit on packets go through the queue of a
pacer, also when the limit is lifted again, so that they stay in order.

What happens outside is a parameter: which targets a packet can be sent to (`Wire`), and what time
it is. What was sent is an answer: a list of `Attempt`s. That the thread of a pacer cannot be
started, as the system may refuse to, is left out: the first limit always starts one.
-/

namespace MediaTransport

/-- Whether a packet can be sent to a target. -/
abbrev Wire := Address → Bool

/-- A packet offered to one target. -/
structure Attempt where
  moment : Instant
  target : Address
  bytes : Bytes
  /-- Whether it was sent. -/
  sent : Bool
  /-- What the logger was shown of it. -/
  capture : Option Capture := none
  deriving DecidableEq, Repr

/-- Counts an attempt. -/
def Counters.attempt (c : Counters) (a : Attempt) : Counters :=
  if a.sent then c.packet a.bytes.length else c.failure

/-- A sender with a stage whose states are of type `σ`. -/
structure Sender (σ : Type) where
  config : TransportConfig := {}
  link : Link := {}
  stage : Stage σ := .passThrough σ
  stageState : σ
  logger : Option Logger := none
  /-- Where packets go, in the order in which the targets were added. -/
  targets : List Address := []
  rateLimit : Option RateLimit := none
  pacer : Option (Pacer Packet) := none
  pool : PacketPool := {}
  counters : Counters := {}
  closed : Bool := false

/-- How a write stands. -/
inductive WriteStatus where
  /-- It is over; it took so many bytes, or failed. -/
  | finished (result : Except TransportError Nat)
  /-- The queue was full, and the packet made of `length` bytes waits for room. -/
  | waiting (p : Packet) (length : Nat)
  /-- The stage failed, and the packet is gone. -/
  | faulted (fault : Fault)

namespace Sender

variable {σ : Type}

/-- The pacer of a sender, as it starts. -/
def newPacer (config : TransportConfig) : Pacer Packet where
  capacity := config.queueCapacity.toNat

/-- A sender without targets, if the configuration makes sense. -/
def create (config : TransportConfig) (link : Link) (stage : Stage σ) (state : σ) :
    Except TransportError (Sender σ) :=
  match config.validate with
  | .error e => .error (.config e)
  | .ok () => .ok {
      config, link, stage
      stageState := state
      rateLimit := config.rateLimit
      pacer := config.rateLimit.map fun _ => newPacer config }

/-! ## Targets -/

/-- Adds a target, unless it is there already. -/
def addTarget (s : Sender σ) (target : Address) : Sender σ :=
  if target ∈ s.targets then s else { s with targets := s.targets ++ [target] }

/-- Removes a target. -/
def removeTarget (s : Sender σ) (target : Address) : Sender σ :=
  { s with targets := s.targets.filter (· ≠ target) }

/-! ## Sending -/

/-- Offers a packet to one target. -/
def attempt (wire : Wire) (now : Instant) (s : Sender σ) (p : Packet) (target : Address) :
    Attempt where
  moment := now
  target := target
  bytes := p.bytes
  sent := wire target
  capture :=
    if wire target ∧ s.config.packetLogging then
      s.logger.bind fun logger => logger.capture? s.link target .sent p
    else
      none

/-- Offers a packet to all targets, and keeps it for reuse. -/
def deliver (wire : Wire) (now : Instant) (s : Sender σ) (p : Packet) : Sender σ × List Attempt :=
  let attempts := s.targets.map (s.attempt wire now p)
  ({ s with
      counters := attempts.foldl .attempt s.counters
      pool := s.pool.release p }, attempts)

/-- The result of a write of `length` bytes that was offered to all targets. -/
def result (length : Nat) (attempts : List Attempt) : Except TransportError Nat :=
  let failed := attempts.countP fun a => !a.sent
  if failed = 0 then .ok length else .error (.sendFailed failed attempts.length)

/-- Queues a packet that is made of `length` bytes for the pacer. -/
def queue (s : Sender σ) (p : Packet) (length : Nat) : Sender σ × WriteStatus :=
  match s.pacer with
  | none => (s, .finished (.error .closed))
  | some pacer =>
    match pacer.push p with
    | .queued pacer => ({ s with pacer := some pacer }, .finished (.ok length))
    | .full => (s, .waiting p length)
    | .gone => (s, .finished (.error .closed))

/-- Writes a packet. A packet that the stage drops counts as written. -/
def write (wire : Wire) (now : Instant) (s : Sender σ) (bytes : Bytes) :
    Sender σ × List Attempt × WriteStatus :=
  if s.closed then
    (s, [], .finished (.error .closed))
  else
    let (p, pool) := s.pool.acquire bytes
    let (out, state) := s.stage.outgoing now s.stageState p
    let s := { s with pool, stageState := state }
    match out, s.pacer with
    | .error fault, _ => (s, [], .faulted fault)
    | .ok none, _ => (s, [], .finished (.ok bytes.length))
    | .ok (some p), none =>
      let (s, attempts) := s.deliver wire now p
      (s, attempts, .finished (result bytes.length attempts))
    | .ok (some p), some pacer =>
      if pacer.closed then
        (s, [], .finished (.error .closed))
      else
        let (s, status) := s.queue p bytes.length
        (s, [], status)

/-! ## Pacing -/

/-- Sets a limit of `maxPackets` packets every `perMillis` milliseconds, or lifts the limit if that
is none. The pacer starts with the first limit, and stays. -/
def setRateLimit (s : Sender σ) (maxPackets perMillis : UInt64) :
    Except TransportError (Sender σ) :=
  if s.closed then
    .error .closed
  else
    match RateLimit.make maxPackets perMillis with
    | .error e => .error (.config e)
    | .ok limit => .ok { s with
        rateLimit := limit.enabled?
        pacer := if limit.isEnabled then some (s.pacer.getD (newPacer s.config)) else s.pacer }

/-- One step of the pacing worker. -/
def work (wire : Wire) (now : Instant) (s : Sender σ) : Sender σ × List Attempt :=
  match s.pacer with
  | none => (s, [])
  | some pacer =>
    match pacer.work s.rateLimit now with
    | (pacer, none) => ({ s with pacer := some pacer }, [])
    | (pacer, some p) => { s with pacer := some pacer }.deliver wire now p

/-- A number of steps of the pacing worker. -/
def workSteps (wire : Wire) (now : Instant) : Nat → Sender σ → Sender σ × List Attempt
  | 0, s => (s, [])
  | n + 1, s =>
    let (s, first) := s.work wire now
    let (s, others) := workSteps wire now n s
    (s, first ++ others)

/-- The pacing worker goes on until it has to wait, in no time. -/
def settle (wire : Wire) (now : Instant) (s : Sender σ) : Sender σ × List Attempt :=
  workSteps wire now ((s.pacer.map Pacer.load).getD 0) s

/-- When the pacing worker can go on, if it waits for a slot. -/
def due? (s : Sender σ) (now : Instant) : Option Instant :=
  s.pacer.bind fun pacer => pacer.due? s.rateLimit now

/-! ## Closing -/

/-- Tells everyone that the sender is closed. -/
def beginClose (s : Sender σ) : Sender σ :=
  { s with closed := true, pacer := s.pacer.map Pacer.close }

/-- Forgets the pacer, once its worker has exited, and all targets. -/
def endClose (s : Sender σ) : Sender σ :=
  { s with pacer := none, targets := [] }

end Sender

end MediaTransport
