import MediaTransport.Rtcp.ReportList

/-!
# Headers of control packets

The first word of every control packet: the version, a padding flag, a five-bit count, the type of
the packet and its length in words, less one.
-/

namespace MediaTransport.Rtcp

/-- What is wrong with bytes that do not read as a control packet or a part of one. -/
inductive ParseError where
  | shortHeader
  | version
  | unrecognizedType
  | shortSenderInfo
  | shortReceiverReport
  | shortReport
  | shortReports
  | tooManyReports
  | shortGoodbye
  | tooManySources
  | sourcesExceedPacket
  | shortExtendedReport
  | shortBlockHeader
  | blockExceedsPacket
  | shortReferenceTime
  | shortDelays
  | shortVoipMetrics
  | ignoredType
  deriving DecidableEq, Repr

/-- The text of a parse error. -/
def ParseError.message : ParseError → String
  | shortHeader => "Less than 4 bytes for RtcpHeader"
  | version => "RTCP version is not 2"
  | unrecognizedType => "Unrecognized RTCP type"
  | shortSenderInfo => "Less than 24 bytes for SenderInfo"
  | shortReceiverReport => "Less than 4 bytes for ReceiverReport"
  | shortReport => "Less than 24 bytes for ReceptionReport"
  | shortReports => "Less than count * 24 bytes for reception reports"
  | tooManyReports => "More than 31 reception reports"
  | shortGoodbye => "Less than count * 4 bytes for Goodbye"
  | tooManySources => "More than 31 sources in Goodbye"
  | sourcesExceedPacket => "Source count exceeds BYE length"
  | shortExtendedReport => "Less than 4 bytes for ExtendedReport"
  | shortBlockHeader => "Less than 4 bytes for XR block header"
  | blockExceedsPacket => "XR block length exceeds packet"
  | shortReferenceTime => "Less than 12 bytes for Rrtr"
  | shortDelays => "Less than 4 bytes for Dlrr"
  | shortVoipMetrics => "Less than 36 bytes for VoipMetrics"
  | ignoredType => "Ignore RTCP type"

/-- The kinds of control packet that have a number. -/
inductive PacketType where
  | senderReport
  | receiverReport
  | sourceDescription
  | goodbye
  | applicationDefined
  | transportLayerFeedback
  | payloadSpecificFeedback
  | extendedReport
  deriving DecidableEq, Repr

namespace PacketType

/-- The number of a type on the wire. -/
def toByte : PacketType → UInt8
  | senderReport => 200
  | receiverReport => 201
  | sourceDescription => 202
  | goodbye => 203
  | applicationDefined => 204
  | transportLayerFeedback => 205
  | payloadSpecificFeedback => 206
  | extendedReport => 207

/-- The type with the given number. -/
def ofByte? : UInt8 → Option PacketType
  | 200 => some senderReport
  | 201 => some receiverReport
  | 202 => some sourceDescription
  | 203 => some goodbye
  | 204 => some applicationDefined
  | 205 => some transportLayerFeedback
  | 206 => some payloadSpecificFeedback
  | 207 => some extendedReport
  | _ => none

theorem ofByte?_toByte (t : PacketType) : ofByte? t.toByte = some t := by
  cases t <;> rfl

end PacketType

/-- The version every packet carries. -/
def protocolVersion : UInt8 := 2

/-- Length of a header in bytes. -/
def headerLength : Nat := 4

/-- The first word of a control packet. -/
structure Header where
  type : PacketType
  padding : Bool
  /-- Reports or sources in the packet. An extended report counts none. -/
  count : Fin 32
  wordsLessOne : UInt16
  deriving DecidableEq, Repr

namespace Header

/-- Length of the whole packet in words. -/
def words (h : Header) : Nat := h.wordsLessOne.toNat + 1

/-- Length of the whole packet in bytes. -/
def bytes (h : Header) : Nat := h.words * 4

/-- The header of a packet of `words` words that counts `items` items. The length field is taken
modulo 65536. -/
def ofParts {α : Type} (type : PacketType) (items : ReportList α) (words : Nat) : Header where
  type
  padding := false
  count := ⟨items.length, Nat.lt_succ_of_le items.length_le⟩
  wordsLessOne := .ofNat (words - 1)

/-- The count in the low five bits of the first byte. -/
def countBits (first : UInt8) : Fin 32 :=
  ⟨first.toNat % 32, Nat.mod_lt _ (by decide)⟩

/-- Whether the padding bit of the first byte is set. -/
def paddingBit (first : UInt8) : Bool :=
  first &&& 0x20 != 0

/-- The four bytes of a header. -/
def encode (h : Header) : Bytes :=
  .ofNat (protocolVersion.toNat * 64 + (if h.padding then 32 else 0) + h.count.val) ::
    h.type.toByte :: Bytes.ofUInt16 h.wordsLessOne

/-- The header at the front of `bytes`. The count of an extended report is reserved, and read as
zero. -/
def read (bytes : Bytes) : Except ParseError Header :=
  match bytes with
  | first :: second :: third :: fourth :: _ =>
    if first >>> 6 ≠ protocolVersion then
      .error .version
    else
      match PacketType.ofByte? second with
      | some type => .ok {
          type
          padding := paddingBit first
          count := if type = .extendedReport then 0 else countBits first
          wordsLessOne := Bytes.word16 third fourth }
      | none => .error .unrecognizedType
  | _ => .error .shortHeader

end Header

end MediaTransport.Rtcp
