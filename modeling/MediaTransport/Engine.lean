import MediaTransport.Config.Statistics
import MediaTransport.Packet.Header
import MediaTransport.Quality.VoipBlock
import MediaTransport.ReportStore.Store
import MediaTransport.Rtcp.ReportScan
import MediaTransport.Rtcp.Splice
import MediaTransport.Stage

/-!
# Statistics engine

The engine sits in the pipeline of one media stream. Of outgoing control packets it stores the
reports, and adds an extended report with voice quality blocks for each report on sources that are
being received, if the other side takes those. Of incoming control packets it takes out the extended
reports and stores them together with the other reports; a packet that held nothing else is dropped.
Media packets pass unchanged: it notes the first of each source, and the last sequence number sent.

What a packet does to the store is worked out as a list of operations first (`sentOperations`,
`receivedOperations`), and then carried out.
-/

namespace MediaTransport

open Rtcp Quality

/-- Running figures over all feedback received. -/
structure Indicators where
  /-- Packets lost altogether, as reported last. -/
  lost : UInt32 := 0
  minJitter : Option UInt32 := none
  maxJitter : Option UInt32 := none
  deriving DecidableEq, Repr

namespace Indicators

/-- Takes in the feedback on one source. -/
def update (i : Indicators) (r : ReceptionReport) : Indicators where
  lost := r.packetsLost
  minJitter := some ((i.minJitter.map (min · r.jitter)).getD r.jitter)
  maxJitter := some ((i.maxJitter.map (max · r.jitter)).getD r.jitter)

/-- Takes in the feedback of reports, in order. -/
def updateAll (i : Indicators) (reports : List Report) : Indicators :=
  (reports.flatMap Report.feedback).foldl update i

end Indicators

/-- Round trip time in milliseconds, when the packet `last` was sent last, the other side has seen
`maxSeq` (of which the low half counts) and a packet holds `packetTime` milliseconds of media. The
product wraps, as in a build without overflow checks. -/
def roundTripBySequence (last : UInt16) (maxSeq : UInt32) (packetTime : Int64) : UInt32 :=
  let behind := last.toNat - maxSeq.toNat % 65536
  (min (.ofNat behind * packetTime) 4294967295 : Int64).toUInt64.toUInt32

/-- The statistics of one media stream. -/
structure Engine where
  config : StatisticsConfig := {}
  /-- Where the statistics of receive streams come from. -/
  provider : StatsProvider := fun _ _ => none
  store : ReportStore := {}
  /-- Sequence number of the last media packet sent of each source. -/
  lastSent : Table UInt16 := .empty
  indicators : Indicators := {}

namespace Engine

/-- What came of one packet. -/
structure Passage where
  packet : Option Packet
  engine : Engine
  /-- Streams that the provider was asked about, as source and sender. -/
  queries : List (Ssrc × Ssrc) := []
  /-- What was done to the store, in order. -/
  operations : List StoreOperation := []
  /-- What the listeners of the store were told of it. -/
  deliveries : List Delivery := []

/-- Carries out the operations that a packet brings, and hands the packet on. -/
def pass (reactions : Reactions) (now : Instant) (e : Engine) (operations : List StoreOperation)
    (packet : Option Packet) : Passage :=
  let (store, deliveries) := e.store.applyAll reactions now operations
  { packet, engine := { e with store }, operations, deliveries }

/-! ## Outgoing packets -/

/-- What the reports of an outgoing compound packet do to the store. -/
def sentOperations (bytes : Bytes) : List StoreOperation :=
  (Compound.read bytes).filterMap fun m => (Report.ofMessage? m).map (.report .sent)

/-- What the blocks about the sources that `sender` reports on need to know. -/
def blockContext (e : Engine) (sender : Ssrc) : BlockContext where
  encoding := e.config.encoding
  roundTripBySequence := e.store.roundTrip sender
  renderingDelay := .ofNat e.config.renderingDelay.millis

/-- The sources of a report that are being received, each with what is known about its stream. -/
def receiveStreams (e : Engine) (r : ReportSources) : List (Ssrc × StreamStats) :=
  r.sources.filterMap fun source => (e.provider source r.sender).map fun stats => (source, stats)

/-- The block about a source that `sender` reports on, from what is known about its stream. -/
def streamBlock (e : Engine) (sender : Ssrc) (stream : Ssrc × StreamStats) : Except Fault Block :=
  (voipBlock stream.1 stream.2 (e.blockContext sender)).map .voipMetrics

/-- The extended report that goes with a report: a block for each of its sources that is being
received, if there is one. -/
def extendedReport? (e : Engine) (r : ReportSources) : Except Fault (Option ExtendedReport) := do
  let blocks ← (e.receiveStreams r).mapM (e.streamBlock r.sender)
  return if blocks.isEmpty then none else some ⟨r.sender, blocks⟩

/-- The reports of an outgoing packet that extended reports go with: none if the other side does not
take those, or if a report is too short. -/
def reportsToExtend (e : Engine) (bytes : Bytes) : List ReportSources :=
  if e.config.sendsVoipMetrics then (Compound.reportSources bytes).getD [] else []

/-- Puts the extended reports that go with some reports into a packet, each before the next one is
generated; also says which went in. -/
def addReports (e : Engine) (p : Packet) :
    List ReportSources → Except Fault (Packet × List ExtendedReport)
  | [] => return (p, [])
  | r :: reports => do
    match ← e.extendedReport? r with
    | none => addReports e p reports
    | some x =>
      let (p, added) ← p.insertReport x
      let (p, rest) ← addReports e p reports
      return (p, if added then x :: rest else rest)

/-- Processes an outgoing packet. There is no result when a stream cannot be rated. -/
def outgoing (reactions : Reactions) (now : Instant) (e : Engine) (p : Packet) :
    Except Fault Passage := do
  if Compound.isControl p.bytes then
    let reports := e.reportsToExtend p.bytes
    let (packet, added) ← e.addReports p reports
    let operations := sentOperations p.bytes ++ added.map (.extended .sent)
    return { e.pass reactions now operations packet with
      queries := reports.flatMap fun r => r.sources.map fun source => (source, r.sender) }
  else
    match p.ssrc, p.sequenceNumber with
    | some ssrc, some seq =>
      let e := { e with lastSent := e.lastSent.insert ssrc seq }
      return e.pass reactions now [.firstPacket .sent ssrc now] p
    | _, _ => return e.pass reactions now [] p

/-! ## Incoming packets -/

/-- What an incoming message does to the store. A sender report also tells the round trip time of
the first source that it gives feedback on, if packets of that source were sent. -/
def messageOperations (e : Engine) (m : Message) : List StoreOperation :=
  let roundTrip := match m with
    | .senderReport r =>
      match r.reports.get? 0 with
      | some first =>
        match e.lastSent.get? first.ssrc with
        | some last =>
          [.roundTrip first.ssrc
            (roundTripBySequence last first.maxSeq (.ofNat e.config.packetTime.millis))]
        | none => []
      | none => []
    | _ => []
  roundTrip ++ ((Report.ofMessage? m).map (.report .received)).toList

/-- Processes an incoming packet. -/
def incoming (reactions : Reactions) (now : Instant) (e : Engine) (p : Packet) : Passage :=
  if Compound.isControl p.bytes then
    let (rest, removed) := p.extractReports
    let messages := Compound.read rest.bytes
    let operations := messages.flatMap e.messageOperations ++ removed.map (.extended .received)
    let packet := if removed ≠ [] ∧ rest.isEmpty then none else some rest
    let e := { e with indicators := e.indicators.updateAll (messages.filterMap Report.ofMessage?) }
    e.pass reactions now operations packet
  else
    match p.ssrc with
    | some ssrc => e.pass reactions now [.firstPacket .received ssrc now] p
    | none => e.pass reactions now [] p

end Engine

end MediaTransport
