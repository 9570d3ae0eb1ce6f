import MediaTransport.Packet.Basic
import MediaTransport.Ident

/-!
# Header fields

What can be read off the front of a packet, whether it carries media or control. Each field is
absent when the packet is too short to hold it.
-/

namespace MediaTransport.Packet

/-- Length of the fixed part of an RTP header. -/
def fixedHeaderLength : Nat := 12

/-- The version, in the two high bits of the first byte. -/
def version (p : Packet) : Option UInt8 :=
  p.bytes.head?.map fun (first : UInt8) => first >>> 6

/-- The control packet type, in the second byte. -/
def controlType (p : Packet) : Option UInt8 :=
  p.bytes[1]?

/-- The sequence number of a media packet. -/
def sequenceNumber (p : Packet) : Option UInt16 :=
  (Bytes.uint16? (p.bytes.drop 2)).map (·.1)

/-- The source of a media packet. -/
def ssrc (p : Packet) : Option Ssrc :=
  (Bytes.uint32? (p.bytes.drop 8)).map fun word => ⟨word.1⟩

/-- Length of the media header: the fixed part, the contributing sources and the extension, clamped
to the packet. -/
def headerLength (p : Packet) : Nat :=
  match p.bytes.head? with
  | some first =>
    if p.len < fixedHeaderLength then
      p.len
    else
      let fixed := fixedHeaderLength + 4 * (first &&& 0x0f).toNat
      let extension :=
        if first &&& 0x10 ≠ 0 then
          match Bytes.uint32? (p.bytes.drop fixed) with
          | some (word, _) => 4 + 4 * (word.toNat % 65536)
          | none => 0
        else 0
      min (fixed + extension) p.len
  | none => 0

end MediaTransport.Packet
