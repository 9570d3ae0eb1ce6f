import MediaTransport.Document.Bytes
import MediaTransport.Rtcp.Message

/-!
# Control messages as documents

A document of a control message names each of its fields. In one that is read, what is left out is
zero, empty, or unknown, whichever is usual for the field.
-/

namespace MediaTransport.Document

open Rtcp

/-! ## Writing -/

/-- A message header. -/
def ofHeader (h : Header) : Json :=
  .object [("type", ofByte h.type.toByte), ("padding", .bool h.padding),
    ("count", .ofNat h.count.val), ("words", .ofNat h.words), ("bytes", .ofNat h.bytes)]

/-- The sender information of a sender report. -/
def ofSenderInfo (i : SenderInfo) : Json :=
  .object [("ssrc", ofSsrc i.ssrc), ("ntp_time", ofWord64 i.ntpTime),
    ("rtp_time", ofWord32 i.rtpTime), ("sender_packet_count", ofWord32 i.packetCount),
    ("sender_octet_count", ofWord32 i.octetCount)]

/-- Feedback on one source. -/
def ofReceptionReport (r : ReceptionReport) : Json :=
  .object [("ssrc", ofSsrc r.ssrc), ("fraction_lost", ofByte r.fractionLost),
    ("packets_lost", ofWord32 r.packetsLost), ("max_seq", ofWord32 r.maxSeq),
    ("jitter", ofWord32 r.jitter), ("last_sr_time", ofWord32 r.lastSrTime),
    ("last_sr_delay", ofWord32 r.lastSrDelay)]

/-- The fields of a voice quality block. -/
def voipFields (m : VoipMetrics) : List (String × Json) :=
  [("ssrc", ofSsrc m.ssrc), ("loss_rate", ofByte m.lossRate),
    ("discard_rate", ofByte m.discardRate), ("burst_density", ofByte m.burstDensity),
    ("gap_density", ofByte m.gapDensity), ("burst_duration", ofWord16 m.burstDuration),
    ("gap_duration", ofWord16 m.gapDuration), ("round_trip_delay", ofWord16 m.roundTripDelay),
    ("end_system_delay", ofWord16 m.endSystemDelay), ("signal_level", .integer m.signalLevel.toInt),
    ("noise_level", .integer m.noiseLevel.toInt), ("rerl", ofByte m.echoReturnLoss),
    ("gmin", ofByte m.gapThreshold), ("r_factor", ofByte m.rFactor),
    ("ext_r_factor", ofByte m.externalRFactor), ("mos_lq", ofByte m.mosListening),
    ("mos_cq", ofByte m.mosConversational), ("plc", ofByte m.concealment.toBits),
    ("jba", ofByte m.adaptivity.toBits), ("jb_rate", ofByte m.adjustmentRate),
    ("jb_nominal", ofWord16 m.nominalDelay), ("jb_maximum", ofWord16 m.maximumDelay),
    ("jb_abs_max", ofWord16 m.absoluteMaximumDelay)]

/-- A voice quality block that stands alone. -/
def ofVoipMetrics (m : VoipMetrics) : Json := .object (voipFields m)

/-- One delay of a block of delays. -/
def ofReceiverDelay (d : ReceiverDelay) : Json :=
  .object [("ssrc", ofSsrc d.ssrc), ("last_rr_time", ofWord32 d.lastRrTime),
    ("last_rr_delay", ofWord32 d.lastRrDelay)]

/-- A block of an extended report, with its type under `bt`. -/
def ofBlock : Block → Json
  | .referenceTime t => .object [("bt", .string "rrtr"), ("ntp_time", ofWord64 t.ntpTime)]
  | .delays items => .object [("bt", .string "dlrr"), ("items", ofList ofReceiverDelay items)]
  | .voipMetrics m => .object (("bt", .string "voip") :: voipFields m)
  | .unknown b => .object [("bt", .string "unknown"), ("block_type", ofByte b.blockType),
      ("type_specific", ofByte b.typeSpecific), ("body", ofBytes b.body)]

/-- An extended report. -/
def ofExtendedReport (x : ExtendedReport) : Json :=
  .object [("type", .string "XR"), ("ssrc", ofSsrc x.ssrc), ("blocks", ofList ofBlock x.blocks)]

/-- A sender report. -/
def ofSenderReport (r : SenderReport) : Json :=
  .object [("type", .string "SR"), ("sender_info", ofSenderInfo r.info),
    ("reports", ofList ofReceptionReport r.reports.toList)]

/-- A receiver report. -/
def ofReceiverReport (r : ReceiverReport) : Json :=
  .object [("type", .string "RR"), ("sender_ssrc", ofSsrc r.sender),
    ("reports", ofList ofReceptionReport r.reports.toList)]

/-- A goodbye. -/
def ofGoodbye (g : Goodbye) : Json :=
  .object [("type", .string "BYE"), ("sources", ofList ofSsrc g.sources.toList)]

/-- A message of any type, with its type under `type`. -/
def ofMessage : Message → Json
  | .senderReport r => ofSenderReport r
  | .receiverReport r => ofReceiverReport r
  | .extendedReport x => ofExtendedReport x
  | .goodbye g => ofGoodbye g

/-! ## Reading -/

/-- A list of a message, which holds no more items than a message can. -/
def toReportList {α : Type} (read : Json → α) (items : List Json) : ReportList α :=
  (ReportList.ofList? ((items.take maxItems).map read)).getD .empty

/-- The sender information of a sender report. -/
def toSenderInfo (j : Json) : SenderInfo where
  ssrc := ssrc j "ssrc"
  ntpTime := j.word64 "ntp_time"
  rtpTime := j.word32 "rtp_time"
  packetCount := j.word32 "sender_packet_count"
  octetCount := j.word32 "sender_octet_count"

/-- Feedback on one source. -/
def toReceptionReport (j : Json) : ReceptionReport where
  ssrc := ssrc j "ssrc"
  fractionLost := j.byte "fraction_lost"
  packetsLost := j.word32 "packets_lost"
  maxSeq := j.word32 "max_seq"
  jitter := j.word32 "jitter"
  lastSrTime := j.word32 "last_sr_time"
  lastSrDelay := j.word32 "last_sr_delay"

/-- A voice quality block. -/
def toVoipMetrics (j : Json) : VoipMetrics :=
  let usual : VoipMetrics := {}
  let measure (name : String) (missing : UInt8) : UInt8 := .ofNat (j.natD name missing.toNat)
  let level (name : String) (missing : Int8) : Int8 :=
    if j.has name then .ofInt (j.int name) else missing
  { ssrc := ssrc j "ssrc"
    lossRate := j.byte "loss_rate"
    discardRate := j.byte "discard_rate"
    burstDensity := j.byte "burst_density"
    gapDensity := j.byte "gap_density"
    burstDuration := j.word16 "burst_duration"
    gapDuration := j.word16 "gap_duration"
    roundTripDelay := j.word16 "round_trip_delay"
    endSystemDelay := j.word16 "end_system_delay"
    signalLevel := level "signal_level" usual.signalLevel
    noiseLevel := level "noise_level" usual.noiseLevel
    echoReturnLoss := measure "rerl" usual.echoReturnLoss
    gapThreshold := measure "gmin" usual.gapThreshold
    rFactor := measure "r_factor" usual.rFactor
    externalRFactor := measure "ext_r_factor" usual.externalRFactor
    mosListening := measure "mos_lq" usual.mosListening
    mosConversational := measure "mos_cq" usual.mosConversational
    concealment := .ofBits (j.byte "plc")
    adaptivity := .ofBits (j.byte "jba")
    adjustmentRate := j.byte "jb_rate"
    nominalDelay := j.word16 "jb_nominal"
    maximumDelay := j.word16 "jb_maximum"
    absoluteMaximumDelay := j.word16 "jb_abs_max" }

/-- One delay of a block of delays. -/
def toReceiverDelay (j : Json) : ReceiverDelay where
  ssrc := ssrc j "ssrc"
  lastRrTime := j.word32 "last_rr_time"
  lastRrDelay := j.word32 "last_rr_delay"

/-- A block of an extended report. -/
def toBlock (j : Json) : Block :=
  match j.text "bt" with
  | "rrtr" => .referenceTime ⟨j.word64 "ntp_time"⟩
  | "dlrr" => .delays ((j.list "items").map toReceiverDelay)
  | "voip" => .voipMetrics (toVoipMetrics j)
  | _ => .unknown ⟨j.byte "block_type", j.byte "type_specific", bytes j "body"⟩

/-- An extended report. -/
def toExtendedReport (j : Json) : ExtendedReport where
  ssrc := ssrc j "ssrc"
  blocks := (j.list "blocks").map toBlock

/-- A message of the type under `type`. -/
def toMessage (j : Json) : Message :=
  match j.text "type" with
  | "SR" => .senderReport
      ⟨toSenderInfo (j.field "sender_info"), toReportList toReceptionReport (j.list "reports")⟩
  | "RR" => .receiverReport
      ⟨ssrc j "sender_ssrc", toReportList toReceptionReport (j.list "reports")⟩
  | "BYE" => .goodbye ⟨toReportList toSsrc (j.list "sources")⟩
  | _ => .extendedReport (toExtendedReport j)

end MediaTransport.Document
