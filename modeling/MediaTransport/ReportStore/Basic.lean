import MediaTransport.Config.Duration
import MediaTransport.Table
import MediaTransport.Rtcp.Message

/-!
# Stored reports

The latest report of each originator, in one direction, with the moment at which it was stored. A
report equal to the stored one is absorbed: it changes nothing, not even the moment. A report that
is stored also spreads out its blocks, so that the latest block about each source can be looked up.
-/

namespace MediaTransport

open Rtcp

/-- A sender or receiver report as it is stored; only a sender report has sender information. -/
structure Report where
  ssrc : Ssrc
  senderInfo : Option SenderInfo := none
  feedback : List ReceptionReport := []
  deriving DecidableEq, Repr

namespace Report

/-- The stored form of a sender report. -/
def ofSenderReport (r : SenderReport) : Report :=
  ⟨r.info.ssrc, some r.info, r.reports.toList⟩

/-- The stored form of a receiver report. -/
def ofReceiverReport (r : ReceiverReport) : Report :=
  ⟨r.sender, none, r.reports.toList⟩

/-- The stored form of a message that is a report. -/
def ofMessage? : Message → Option Report
  | .senderReport r => some (ofSenderReport r)
  | .receiverReport r => some (ofReceiverReport r)
  | _ => none

end Report

/-- A value with the moment at which it was stored. -/
structure Stamped (α : Type) where
  value : α
  moment : Instant
  deriving DecidableEq, Repr

/-- The reports of one direction. -/
structure ReportSide where
  /-- Latest report of each originator. -/
  reports : Table (Stamped Report) := .empty
  /-- Latest feedback on each source. -/
  feedback : Table ReceptionReport := .empty
  /-- Latest extended report of each originator. -/
  extended : Table (Stamped ExtendedReport) := .empty
  /-- Latest voice quality of each source. -/
  voipMetrics : Table VoipMetrics := .empty
  /-- When the first packet of each source came through. -/
  firstPacket : Table Instant := .empty
  deriving Repr

namespace ReportSide

/-- Stores a report at the moment `now`, unless it is absorbed. -/
def storeReport (s : ReportSide) (now : Instant) (r : Report) :
    Option (Stamped Report × ReportSide) :=
  if (s.reports.get? r.ssrc).map (·.value) = some r then
    none
  else
    some (⟨r, now⟩, { s with
      reports := s.reports.insert r.ssrc ⟨r, now⟩
      feedback := s.feedback.insertAll ReceptionReport.ssrc r.feedback })

/-- Stores an extended report at the moment `now`, unless it is absorbed. -/
def storeExtended (s : ReportSide) (now : Instant) (x : ExtendedReport) :
    Option (Stamped ExtendedReport × ReportSide) :=
  if (s.extended.get? x.ssrc).map (·.value) = some x then
    none
  else
    some (⟨x, now⟩, { s with
      extended := s.extended.insert x.ssrc ⟨x, now⟩
      voipMetrics := s.voipMetrics.insertAll VoipMetrics.ssrc x.voipMetrics })

/-- Records the first packet of a source; later ones change nothing. -/
def storeFirstPacket (s : ReportSide) (ssrc : Ssrc) (moment : Instant) : Option ReportSide :=
  match s.firstPacket.get? ssrc with
  | some _ => none
  | none => some { s with firstPacket := s.firstPacket.insert ssrc moment }

end ReportSide

end MediaTransport
