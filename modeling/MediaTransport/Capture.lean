import MediaTransport.Address
import MediaTransport.Direction
import MediaTransport.Packet.Header
import MediaTransport.Rtcp.Compound

/-!
# Packet captures

A logger is shown the packets that go through a sender or a receiver, of the kinds that it wants. Of
a media packet it sees the header only, of a control packet everything.
-/

namespace MediaTransport

open Rtcp

/-- What packets travel over. -/
inductive TransportProtocol where
  | udp
  | tcp
  deriving DecidableEq, Repr

/-- The usual name of a protocol. -/
def TransportProtocol.text : TransportProtocol → String
  | udp => "UDP"
  | tcp => "TCP"

/-- This end of a connection. -/
structure Link where
  protocol : TransportProtocol := .udp
  /-- The address of this end, if it is known. -/
  address : Option Address := none
  deriving DecidableEq, Repr

/-- What a packet carries. -/
inductive PacketKind where
  | media
  | control
  deriving DecidableEq, Repr

/-- What a byte string carries. -/
def PacketKind.of (bytes : Bytes) : PacketKind :=
  if Compound.isControl bytes then control else media

/-- A packet as a logger is shown it. -/
structure Capture where
  kind : PacketKind
  link : Link
  remote : Address
  direction : Direction
  header : Bytes
  deriving DecidableEq, Repr

/-- Which kinds of packets a logger wants. -/
abbrev Logger := PacketKind → Bool

namespace Logger

/-- The usual logger, which leaves control packets out. -/
def mediaOnly : Logger := (· == .media)

/-- What a logger is shown of a packet, if it wants it. -/
def capture? (logger : Logger) (link : Link) (remote : Address) (direction : Direction)
    (p : Packet) : Option Capture :=
  let kind := PacketKind.of p.bytes
  if logger kind then
    some {
      kind, link, remote, direction
      header := match kind with
        | .media => p.bytes.take p.headerLength
        | .control => p.bytes }
  else
    none

end Logger

end MediaTransport
