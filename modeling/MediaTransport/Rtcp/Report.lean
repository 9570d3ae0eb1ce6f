import MediaTransport.Rtcp.Header
import MediaTransport.Ident

/-!
# Sender and receiver reports

A sender report says what its originator sent, and both kinds say what their originator received,
one block for each source. The number of packets lost is written in 24 bits, so that only its low
three bytes reach the other side.
-/

namespace MediaTransport

/-- The four bytes of a source. -/
def Ssrc.encode (s : Ssrc) : Bytes := Bytes.ofUInt32 s.value

/-- The source at the front of `bytes`, and the rest. -/
def Ssrc.read? (bytes : Bytes) : Option (Ssrc × Bytes) := do
  let (value, rest) ← Bytes.uint32? bytes
  return (⟨value⟩, rest)

@[simp] theorem Ssrc.length_encode (s : Ssrc) : s.encode.length = 4 := rfl

@[simp] theorem Ssrc.read?_encode (s : Ssrc) (rest : Bytes) :
    Ssrc.read? (s.encode ++ rest) = some (s, rest) := by
  simp [Ssrc.read?, Ssrc.encode]

namespace Rtcp

/-! ## Feedback on a source -/

/-- What the originator of a report received from one source. -/
structure ReceptionReport where
  ssrc : Ssrc
  /-- Packets lost since the last report, in 256ths. -/
  fractionLost : UInt8 := 0
  /-- Packets lost altogether. -/
  packetsLost : UInt32 := 0
  /-- The highest sequence number received, with the number of its turns in the high half. -/
  maxSeq : UInt32 := 0
  /-- Variation of the time between arrivals, in units of the media clock. -/
  jitter : UInt32 := 0
  /-- The middle half of the wall clock time in the last sender report of the source. -/
  lastSrTime : UInt32 := 0
  /-- Time since that report, in 65536ths of a second. -/
  lastSrDelay : UInt32 := 0
  deriving DecidableEq, Repr

namespace ReceptionReport

/-- Length of a block in bytes. -/
def size : Nat := 24

/-- The bytes of a block. -/
def encode (r : ReceptionReport) : Bytes :=
  r.ssrc.encode ++ (r.fractionLost :: (Bytes.ofUInt24 r.packetsLost ++ (Bytes.ofUInt32 r.maxSeq ++
    (Bytes.ofUInt32 r.jitter ++ (Bytes.ofUInt32 r.lastSrTime ++ Bytes.ofUInt32 r.lastSrDelay)))))

/-- The block at the front of `bytes`, and the rest. -/
def read? (bytes : Bytes) : Option (ReceptionReport × Bytes) := do
  let (ssrc, rest) ← Ssrc.read? bytes
  let (fractionLost, rest) ← Bytes.uint8? rest
  let (packetsLost, rest) ← Bytes.uint24? rest
  let (maxSeq, rest) ← Bytes.uint32? rest
  let (jitter, rest) ← Bytes.uint32? rest
  let (lastSrTime, rest) ← Bytes.uint32? rest
  let (lastSrDelay, rest) ← Bytes.uint32? rest
  return (⟨ssrc, fractionLost, packetsLost, maxSeq, jitter, lastSrTime, lastSrDelay⟩, rest)

/-- The block at the front of `bytes`. -/
def read (bytes : Bytes) : Except ParseError ReceptionReport :=
  match read? bytes with
  | some (report, _) => .ok report
  | none => .error .shortReport

@[simp] theorem length_encode (r : ReceptionReport) : r.encode.length = size := rfl

end ReceptionReport

/-- Reads `count` blocks off the front of `bytes`. -/
def readReports (count : Nat) (bytes : Bytes) : Except ParseError (ReportList ReceptionReport) :=
  match Bytes.many? ReceptionReport.read? count bytes with
  | some (reports, _) =>
    match ReportList.ofList? reports with
    | some list => .ok list
    | none => .error .tooManyReports
  | none => .error .shortReports

/-! ## Sender reports -/

/-- What the originator of a sender report sent. -/
structure SenderInfo where
  ssrc : Ssrc
  /-- The wall clock time. -/
  ntpTime : UInt64 := 0
  /-- The media time at that wall clock time. -/
  rtpTime : UInt32 := 0
  packetCount : UInt32 := 0
  octetCount : UInt32 := 0
  deriving DecidableEq, Repr

namespace SenderInfo

/-- Length in bytes. -/
def size : Nat := 24

/-- The bytes of the sender information. -/
def encode (i : SenderInfo) : Bytes :=
  i.ssrc.encode ++ (Bytes.ofUInt64 i.ntpTime ++ (Bytes.ofUInt32 i.rtpTime ++
    (Bytes.ofUInt32 i.packetCount ++ Bytes.ofUInt32 i.octetCount)))

/-- The sender information at the front of `bytes`, and the rest. -/
def read? (bytes : Bytes) : Option (SenderInfo × Bytes) := do
  let (ssrc, rest) ← Ssrc.read? bytes
  let (ntpTime, rest) ← Bytes.uint64? rest
  let (rtpTime, rest) ← Bytes.uint32? rest
  let (packetCount, rest) ← Bytes.uint32? rest
  let (octetCount, rest) ← Bytes.uint32? rest
  return (⟨ssrc, ntpTime, rtpTime, packetCount, octetCount⟩, rest)

/-- The sender information at the front of `bytes`. -/
def read (bytes : Bytes) : Except ParseError SenderInfo :=
  match read? bytes with
  | some (info, _) => .ok info
  | none => .error .shortSenderInfo

@[simp] theorem length_encode (i : SenderInfo) : i.encode.length = size := rfl

@[simp] theorem read?_encode (i : SenderInfo) (rest : Bytes) :
    read? (i.encode ++ rest) = some (i, rest) := by
  simp [read?, encode]

end SenderInfo

/-- A report of what was sent, and of what was received. -/
structure SenderReport where
  info : SenderInfo
  reports : ReportList ReceptionReport := .empty
  deriving DecidableEq, Repr

namespace SenderReport

/-- Length in words: the header, the sender information and six words for each block. -/
def words (r : SenderReport) : Nat := 7 + 6 * r.reports.length

/-- The header of a sender report. -/
def header (r : SenderReport) : Header := .ofParts .senderReport r.reports r.words

/-- The bytes of a sender report. -/
def encode (r : SenderReport) : Bytes :=
  r.header.encode ++ (r.info.encode ++ r.reports.toList.flatMap ReceptionReport.encode)

/-- Reads what follows the header of a sender report with `count` blocks. -/
def readBody (count : Nat) (body : Bytes) : Except ParseError SenderReport :=
  match SenderInfo.read? body with
  | some (info, rest) => return ⟨info, ← readReports count rest⟩
  | none => .error .shortSenderInfo

end SenderReport

/-! ## Receiver reports -/

/-- A report of what was received. -/
structure ReceiverReport where
  sender : Ssrc
  reports : ReportList ReceptionReport := .empty
  deriving DecidableEq, Repr

namespace ReceiverReport

/-- Length in words: the header, the originator and six words for each block. -/
def words (r : ReceiverReport) : Nat := 2 + 6 * r.reports.length

/-- The header of a receiver report. -/
def header (r : ReceiverReport) : Header := .ofParts .receiverReport r.reports r.words

/-- The bytes of a receiver report. -/
def encode (r : ReceiverReport) : Bytes :=
  r.header.encode ++ (r.sender.encode ++ r.reports.toList.flatMap ReceptionReport.encode)

/-- Reads what follows the header of a receiver report with `count` blocks. -/
def readBody (count : Nat) (body : Bytes) : Except ParseError ReceiverReport :=
  match Ssrc.read? body with
  | some (sender, rest) => return ⟨sender, ← readReports count rest⟩
  | none => .error .shortReceiverReport

end ReceiverReport

end Rtcp

end MediaTransport
