import MediaTransport.Rtcp.Compound
import MediaTransport.Packet.Basic

/-!
# Splicing extended reports

Extended reports are put into a compound packet on its way out and taken out on its way in, in
place. A report goes in front of the first goodbye that lists its originator, because nothing may
follow a source's goodbye, and in front of a goodbye that cannot be read; else it goes behind the
last sub-packet, and bytes that are no sub-packet stay behind it.
-/

namespace MediaTransport

open Rtcp

namespace Rtcp.Compound

/-- Whether `sub` is a goodbye that an extended report of `ssrc` has to precede. -/
def barred (ssrc : Ssrc) (sub : Bytes) : Bool :=
  sub[1]? == some PacketType.goodbye.toByte &&
    match Goodbye.lists sub ssrc with
    | .ok listed => listed
    | .error _ => true

/-- Where an extended report of `ssrc` goes in a compound packet. -/
def insertionPoint (bytes : Bytes) (ssrc : Ssrc) : Nat :=
  ((subPackets bytes).takeWhile fun sub => !barred ssrc sub).flatten.length

/-- The extended report in the raw sub-packet `sub`, if it is one that can be read. -/
def extendedReport? (sub : Bytes) : Option ExtendedReport :=
  if sub[1]? = some PacketType.extendedReport.toByte then Message.extendedReport? sub else none

end Rtcp.Compound

namespace Packet

/-- Puts `x` into the packet, and says whether it did. A report whose blocks do not add up to its
declared length is not put in, and leaves the packet with the bytes it had. -/
def insertReport (p : Packet) (x : ExtendedReport) : Except Fault (Packet × Bool) := do
  let size := x.words * 4
  let place := Compound.insertionPoint p.bytes x.ssrc
  let (grown, _) := p.grow size
  let (front, rest) := grown.buffer.splitAt (grown.offset + place)
  let (moved, _) := rest.splitAt (grown.len - place)
  let behind := rest.drop (grown.len - place + size)
  let gap ← x.overlay (rest.take size)
  if x.written = size then
    return (.ofBuffer (front ++ gap ++ moved ++ behind) grown.offset (grown.len + size), true)
  else
    let stale := (gap ++ moved).drop moved.length
    return (.ofBuffer (front ++ moved ++ stale ++ behind) grown.offset grown.len, false)

/-- Takes the readable extended reports among `subs` out of the packet, where `subs` starts at
position `start` of it. -/
def extractFrom (p : Packet) (start : Nat) : List Bytes → Packet × List ExtendedReport
  | [] => (p, [])
  | sub :: subs =>
    match Compound.extendedReport? sub with
    | some x =>
      let (p, xs) := extractFrom (p.cut start sub.length) start subs
      (p, x :: xs)
    | none => extractFrom p (start + sub.length) subs

/-- Takes every extended report that can be read out of the packet. -/
def extractReports (p : Packet) : Packet × List ExtendedReport :=
  p.extractFrom 0 (Compound.subPackets p.bytes)

end Packet

end MediaTransport
