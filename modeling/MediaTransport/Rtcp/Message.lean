import MediaTransport.Rtcp.Goodbye
import MediaTransport.Rtcp.Extended.Report

/-!
# Control messages

The four kinds of control packet that are interpreted, and the reader of a single one. A packet is
read up to its declared length, or to the end of the bytes if that comes first.
-/

namespace MediaTransport.Rtcp

/-- A control packet of a kind that is interpreted. -/
inductive Message where
  | senderReport (r : SenderReport)
  | receiverReport (r : ReceiverReport)
  | extendedReport (x : ExtendedReport)
  | goodbye (g : Goodbye)
  deriving DecidableEq, Repr

/-- Why bytes are not a message that was expected. -/
inductive ReadError where
  | malformed (e : ParseError)
  | unexpectedType (t : PacketType)
  deriving DecidableEq, Repr

/-- The text of a read error. -/
def ReadError.message : ReadError → String
  | malformed e => "RTCP parse: " ++ e.message
  | unexpectedType t => "RTCP packet type " ++ Nat.repr t.toByte.toNat ++ " is not expected here"

namespace Message

/-- The header of a message. -/
def header : Message → Header
  | senderReport r => r.header
  | receiverReport r => r.header
  | extendedReport x => x.header
  | goodbye g => g.header

/-- Length in words, as declared. -/
def words : Message → Nat
  | senderReport r => r.words
  | receiverReport r => r.words
  | extendedReport x => x.words
  | goodbye g => g.words

/-- The originator. -/
def ssrc? : Message → Option Ssrc
  | senderReport r => some r.info.ssrc
  | receiverReport r => some r.sender
  | extendedReport x => some x.ssrc
  | goodbye g => g.sources.get? 0

/-- The bytes of a message. -/
def encode : Message → Bytes
  | senderReport r => r.encode
  | receiverReport r => r.encode
  | extendedReport x => x.encode
  | goodbye g => g.encode

/-- Number of bytes that writing a message puts down. -/
def written : Message → Nat
  | extendedReport x => x.written
  | m => m.words * 4

/-- Writes a message over the front of `bytes`. -/
def overlay (m : Message) (bytes : Bytes) : Except Fault Bytes :=
  match m with
  | extendedReport x => x.overlay bytes
  | m => Bytes.overlay m.encode bytes

/-- The message at the front of `bytes`. -/
def read (bytes : Bytes) : Except ParseError Message := do
  let header ← Header.read bytes
  let body := (bytes.take header.bytes).drop headerLength
  let count := header.count.val
  match header.type with
  | .senderReport => return senderReport (← SenderReport.readBody count body)
  | .receiverReport => return receiverReport (← ReceiverReport.readBody count body)
  | .extendedReport => return extendedReport (← ExtendedReport.readBody body)
  | .goodbye => return goodbye (← Goodbye.readBody count body)
  | _ => throw .ignoredType

/-- Whether packets of a type are interpreted. -/
def interprets : PacketType → Bool
  | .senderReport | .receiverReport | .extendedReport | .goodbye => true
  | _ => false

/-- The message at the front of `bytes`, which must be of a kind that is interpreted. -/
def parse (bytes : Bytes) : Except ReadError Message := do
  let header ← (Header.read bytes).mapError .malformed
  if interprets header.type then
    (read bytes).mapError .malformed
  else
    throw (.unexpectedType header.type)

/-- The extended report that the whole of `bytes` reads as. -/
def extendedReport? (bytes : Bytes) : Option ExtendedReport :=
  match parse bytes with
  | .ok (extendedReport x) => some x
  | _ => none

end Message

end MediaTransport.Rtcp
