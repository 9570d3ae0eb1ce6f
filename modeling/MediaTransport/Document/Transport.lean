import MediaTransport.Document.Bytes
import MediaTransport.Capture
import MediaTransport.Counters
import MediaTransport.Session
import MediaTransport.TransportError

/-!
# Transport values as documents

Packets, captures, counters and errors. An error is written as its kind and its text.
-/

namespace MediaTransport.Document

/-- The region of a packet, and how it lies in the buffer. -/
def packetFields (p : Packet) : List (String × Json) :=
  [("offset", .ofNat p.offset), ("len", .ofNat p.len), ("buffer_len", .ofNat p.buffer.length),
    ("bytes", ofBytes p.bytes)]

/-- A packet. -/
def ofPacket (p : Packet) : Json := .object (packetFields p)

/-- A packet that is read: a byte string, or a buffer with the region that is the packet. -/
def toPacket (j : Json) : Packet :=
  if j.has "buffer" then
    let buffer := bytes j "buffer"
    .ofBuffer buffer (j.nat "offset") (j.natD "len" buffer.length)
  else
    .ofBytes (toBytes j)

/-- An address. -/
def ofAddress (a : Address) : Json := .string a.text

/-- A packet capture. -/
def ofCapture (c : Capture) : Json :=
  .object [
    ("protocol", .string (match c.kind with
      | .media => "Rtp"
      | .control => "Rtcp")),
    ("local", ofOption ofAddress c.link.address), ("remote", ofAddress c.remote),
    ("transport", .string c.link.protocol.text),
    ("direction", .string (match c.direction with
      | .received => "In"
      | .sent => "Out")),
    ("header", ofBytes c.header)]

/-- The counts of a sender or receiver. -/
def ofCounters (c : Counters) : Json :=
  .object [("packets", ofWord64 c.packets), ("bytes", ofWord64 c.bytes),
    ("errors", ofWord64 c.errors)]

/-! ## Errors -/

/-- An error of the given kind. -/
def failure (kind message : String) : Json :=
  .object [("error", .string kind), ("message", .string message)]

/-- A configuration error. -/
def ofConfigError (e : ConfigError) : Json :=
  let kind := match e with
    | .ratePeriod _ => "PerMillis"
    | .receiveBuffer _ => "ReceiveBuffer"
    | .queueCapacity => "QueueCapacity"
    | .receiveTimeout => "ReceiveTimeout"
  failure kind e.message

/-- A transport error; one in the configuration is written as such. -/
def ofTransportError (e : TransportError) : Json :=
  match e with
  | .closed => failure "Closed" e.message
  | .alreadyStarted => failure "AlreadyStarted" e.message
  | .bufferTooSmall _ _ => failure "BufferTooSmall" e.message
  | .receiveFailed => failure "ReceiveFailed" e.message
  | .noPacket => failure "NoPacket" e.message
  | .config e => ofConfigError e
  | .sendFailed _ _ => failure "SendFailed" e.message

/-- A session error. -/
def ofSessionError (e : SessionError) : Json :=
  let kind := match e with
    | .disposed => "Disposed"
    | .unknownStream _ => "UnknownStream"
    | .unsupportedFormat _ => "UnsupportedFormat"
    | .io _ => "Io"
  failure kind e.message

end MediaTransport.Document
