import MediaTransport.Capture
import MediaTransport.Counters
import MediaTransport.Receiver.Filter
import MediaTransport.Receiver.Lifecycle
import MediaTransport.Stage

/-!
# Receivers

The loop of a receiver reads datagrams one after the other. Each is counted, shown to the filters
and to the logger, put through the stage and handed to the handler; the packet handed over last can
also be read. The loop goes on after a timeout and stops on any other failure.

One packet is used for datagram after datagram, and one for the last that was handed over; both are
filled anew, so that nothing of an earlier one is left in them (`Packet.bytes_fill`).
-/

namespace MediaTransport

/-- Why nothing was received. -/
inductive ReceiveFailure where
  | wouldBlock
  | timedOut
  | other
  deriving DecidableEq, Repr

/-- Whether it only means that nothing came in time. -/
def ReceiveFailure.isTimeout : ReceiveFailure → Bool
  | wouldBlock | timedOut => true
  | other => false

/-- What the network has for a receiver. -/
inductive Arrival where
  | datagram (bytes : Bytes) (source : Address)
  | failure (reason : ReceiveFailure)
  deriving DecidableEq, Repr

/-- What the packets are handed to. It says whether it closes the receiver on a packet. -/
abbrev Handler := Bytes → Address → Bool

/-- What came of an arrival. -/
structure Intake where
  consultations : List Consultation := []
  /-- What the logger was shown. -/
  capture : Option Capture := none
  /-- What the handler got, and where it came from. -/
  handed : Option (Bytes × Address) := none
  deriving DecidableEq, Repr

/-- A receiver with a stage whose states are of type `σ`. -/
structure Receiver (σ : Type) where
  config : TransportConfig := {}
  link : Link := {}
  stage : Stage σ := .passThrough σ
  stageState : σ
  filters : List Filter := []
  logger : Option Logger := none
  handler : Option Handler := none
  lifecycle : Lifecycle := {}
  /-- The packet that datagrams are put into. -/
  current : Packet := .empty
  /-- A copy of the packet handed over last. -/
  last : Option Packet := none
  counters : Counters := {}

namespace Receiver

variable {σ : Type}

/-- A receiver that is not started, if the configuration makes sense. -/
def create (config : TransportConfig) (link : Link) (stage : Stage σ) (state : σ) :
    Except TransportError (Receiver σ) :=
  match config.validate with
  | .error e => .error (.config e)
  | .ok () => .ok { config, link, stage, stageState := state }

/-- Starts the loop. -/
def start (r : Receiver σ) : Except TransportError (Receiver σ) := do
  return { r with lifecycle := ← r.lifecycle.start }

/-- Closes the receiver for good. -/
def close (r : Receiver σ) : Receiver σ := { r with lifecycle := r.lifecycle.close }

/-- Closes the receiver if `wanted`. -/
def closeIf (wanted : Bool) (r : Receiver σ) : Receiver σ := if wanted then r.close else r

/-! ## The loop -/

/-- Hands a packet over, after keeping a copy of it. -/
def handOver (r : Receiver σ) (p : Packet) (source : Address) :
    Receiver σ × Option (Bytes × Address) :=
  let last := match r.last with
    | some last => last.fill p.bytes
    | none => p
  let r := { r with current := p, last := some last }
  match r.handler with
  | some closes => (r.closeIf (closes p.bytes source), some (p.bytes, source))
  | none => (r, none)

/-- Puts a datagram that the filters accepted through the stage. -/
def process (now : Instant) (r : Receiver σ) (bytes : Bytes) (source : Address) :
    Receiver σ × Option Capture × Option (Bytes × Address) :=
  let p := r.current.fill bytes
  let capture :=
    if r.config.packetLogging then
      r.logger.bind fun logger => logger.capture? r.link source .received p
    else
      none
  let (out, state) := r.stage.incoming now r.stageState p
  let r := { r with stageState := state }
  match out with
  | some p =>
    let (r, handed) := r.handOver p source
    (r, capture, handed)
  | none => ({ r with current := .empty }, capture, none)

/-- One turn of the loop. A datagram is cut to the length of the buffer that it is read into. -/
def receive (now : Instant) (r : Receiver σ) (arrival : Arrival) : Receiver σ × Intake :=
  if r.lifecycle.loop ≠ .reading then
    (r, {})
  else if r.lifecycle.closed then
    ({ r with lifecycle := r.lifecycle.leave }, {})
  else
    match arrival with
    | .failure reason =>
      if reason.isTimeout then
        (r, {})
      else
        ({ r with counters := r.counters.failure, lifecycle := r.lifecycle.fail }, {})
    | .datagram bytes source =>
      let bytes := bytes.take r.config.receiveBufferLength.toNat
      let consultations := Filter.consult bytes source r.filters
      let r := { r with counters := r.counters.packet bytes.length }.closeIf
        (consultations.any (·.verdict.closes))
      if consultations.all (·.verdict.accepted) then
        if r.lifecycle.closed then
          ({ r with lifecycle := r.lifecycle.leave }, { consultations })
        else
          let (r, capture, handed) := r.process now bytes source
          (r, { consultations, capture, handed })
      else
        (r, { consultations })

/-- The loop over arrivals, up to the one on which it ends. -/
def receiveAll (now : Instant) : Receiver σ → List Arrival → Receiver σ × List Intake
  | r, [] => (r, [])
  | r, arrival :: arrivals =>
    let (r, intake) := r.receive now arrival
    let (r, intakes) := receiveAll now r arrivals
    (r, intake :: intakes)

/-! ## Reading -/

/-- Copies the packet handed over last into a buffer, whose rest it leaves as it is; also says how
long the packet is. -/
def read (r : Receiver σ) (buffer : Bytes) : Except TransportError (Nat × Bytes) :=
  if r.lifecycle.failed then
    .error .receiveFailed
  else
    match r.last with
    | none => .error .noPacket
    | some p =>
      if buffer.length < p.len then
        .error (.bufferTooSmall buffer.length p.len)
      else
        .ok (p.len, p.bytes ++ buffer.drop p.len)

end Receiver

end MediaTransport
