import MediaTransport.Rtcp.Compound

/-!
# Report scan

Who reports on whom, read off the raw sender and receiver reports of a compound packet without
reading the reports themselves. The scan is all or nothing: a report that is too short for the
number of blocks it counts spoils it.
-/

namespace MediaTransport.Rtcp

/-- The originator of a report, and the sources it gives feedback on. -/
structure ReportSources where
  sender : Ssrc
  sources : List Ssrc
  deriving DecidableEq, Repr

namespace ReportSources

/-- The source at the front of a whole block, and what follows the block. -/
def readBlock? (bytes : Bytes) : Option (Ssrc × Bytes) := do
  let (block, rest) ← Bytes.take? ReceptionReport.size bytes
  let (ssrc, _) ← Ssrc.read? block
  return (ssrc, rest)

/-- The originator and sources of a raw report with `count` blocks, where `skipped` bytes stand
between the originator and the first block. -/
def ofRaw? (skipped count : Nat) (report : Bytes) : Option ReportSources := do
  let (_, rest) ← Bytes.take? headerLength report
  let (sender, rest) ← Ssrc.read? rest
  let (_, rest) ← Bytes.take? skipped rest
  let (sources, _) ← Bytes.many? readBlock? count rest
  return ⟨sender, sources⟩

/-- Bytes of the sender information after the originator. -/
def senderInfoRest : Nat := SenderInfo.size - 4

/-- The originators and sources of the reports among `subs`, unless one of the reports is too
short. -/
def scan : List Bytes → Option (List ReportSources)
  | [] => some []
  | sub :: subs =>
    match sub with
    | first :: second :: _ =>
      let count := (Header.countBits first).val
      if second = PacketType.senderReport.toByte then
        return (← ofRaw? senderInfoRest count sub) :: (← scan subs)
      else if second = PacketType.receiverReport.toByte then
        return (← ofRaw? 0 count sub) :: (← scan subs)
      else
        scan subs
    | _ => scan subs

end ReportSources

/-- The originators and sources of the reports in a compound packet, unless one of the reports is
too short. -/
def Compound.reportSources (bytes : Bytes) : Option (List ReportSources) :=
  ReportSources.scan (subPackets bytes)

end MediaTransport.Rtcp
