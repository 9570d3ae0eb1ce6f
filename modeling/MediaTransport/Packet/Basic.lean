import MediaTransport.Bytes

/-!
# Packets

A packet is a region of a byte buffer. It grows and shrinks in place: the buffer in front of and
behind the region keeps its bytes until something is written there, so a packet that is lengthened
shows again what lay behind it. The region never leaves the buffer (`Packet.region_le`).

Growing may move the region to the front of the buffer, and says by how much; whoever holds a
position in the buffer applies that to it with `relocate`.
-/

namespace MediaTransport

/-- One packet, in the region of `buffer` that starts at `offset` and is `len` bytes long. -/
structure Packet where
  buffer : Bytes
  offset : Nat
  len : Nat
  region_le : offset + len ≤ buffer.length
  deriving DecidableEq, Repr

/-- A position moved by `delta`, and never below zero. -/
def relocate (position : Nat) (delta : Int) : Nat :=
  (position + delta).toNat

namespace Packet

/-- A packet in `buffer`, with the region clamped to the buffer. -/
def ofBuffer (buffer : Bytes) (offset len : Nat) : Packet where
  buffer
  offset := min offset buffer.length
  len := min len (buffer.length - min offset buffer.length)
  region_le := by omega

/-- A packet that fills its buffer. -/
def ofBytes (bytes : Bytes) : Packet where
  buffer := bytes
  offset := 0
  len := bytes.length
  region_le := by omega

/-- The packet without a byte, in an empty buffer. -/
def empty : Packet := ofBytes []

instance : Inhabited Packet := ⟨empty⟩

/-- The bytes of the packet. -/
def bytes (p : Packet) : Bytes :=
  (p.buffer.drop p.offset).take p.len

/-- Where the region ends in the buffer. -/
def stop (p : Packet) : Nat := p.offset + p.len

/-- Bytes of the buffer from the start of the region on. -/
def capacity (p : Packet) : Nat := p.buffer.length - p.offset

/-- Bytes of the buffer behind the region. -/
def room (p : Packet) : Nat := p.buffer.length - p.offset - p.len

/-- Whether the packet has no bytes. -/
def isEmpty (p : Packet) : Bool := p.len == 0

/-- The text of a packet: where its region is, not what is in it. -/
def describe (p : Packet) : String :=
  "Packet \x7b offset: " ++ Nat.repr p.offset ++ ", len: " ++ Nat.repr p.len ++
    ", capacity: " ++ Nat.repr p.capacity ++ " \x7d"

@[simp] theorem length_bytes (p : Packet) : p.bytes.length = p.len := by
  have := p.region_le
  simp only [bytes, List.length_take, List.length_drop]
  omega

theorem isEmpty_iff {p : Packet} : p.isEmpty = true ↔ p.bytes = [] := by
  rw [isEmpty, beq_iff_eq, ← length_bytes, List.length_eq_zero_iff]

@[simp] theorem bytes_ofBytes (bytes : Bytes) : (ofBytes bytes).bytes = bytes := by
  simp [Packet.bytes, ofBytes]

/-! ## Moving the region -/

/-- Sets the length, clamped to the capacity. -/
def setLen (p : Packet) (len : Nat) : Packet where
  buffer := p.buffer
  offset := p.offset
  len := min len p.capacity
  region_le := by have := p.region_le; simp only [capacity]; omega

/-- Moves the start of the region, clamped to the buffer; the length is clamped to what remains. -/
def setOffset (p : Packet) (offset : Nat) : Packet :=
  ofBuffer p.buffer offset p.len

/-- Drops up to `count` bytes from the end. -/
def shrink (p : Packet) (count : Nat) : Packet where
  buffer := p.buffer
  offset := p.offset
  len := p.len - count
  region_le := by have := p.region_le; omega

/-- Makes room for `extra` bytes behind the region, whose bytes stay the same, and says how far the
region moved. Where the room behind is too small the region moves to the front of the buffer, or of
a new one if that is still too small. -/
def grow (p : Packet) (extra : Nat) : Packet × Int :=
  if extra ≤ p.room then
    (p, 0)
  else if p.buffer.length < p.len + extra then
    ({ buffer := p.bytes ++ List.replicate extra 0, offset := 0, len := p.len
       region_le := by simp }, -p.offset)
  else
    ({ buffer := p.bytes ++ p.buffer.drop p.len, offset := 0, len := p.len
       region_le := by simp }, -p.offset)

/-! ## Writing -/

/-- Replaces the contents, in the same buffer if it is long enough. -/
def fill (p : Packet) (bytes : Bytes) : Packet where
  buffer := bytes ++ p.buffer.drop bytes.length
  offset := 0
  len := bytes.length
  region_le := by simp

/-- Writes `data` over the packet's bytes from position `start` of the region on. -/
def write (p : Packet) (start : Nat) (data : Bytes) : Except Fault Packet :=
  if start + data.length ≤ p.len then
    (Bytes.overlayAt (p.offset + start) data p.buffer).map fun buffer =>
      ofBuffer buffer p.offset p.len
  else
    .error .outOfRange

/-- Writes `data` over the buffer's bytes from position `start` of the buffer on. -/
def writeBuffer (p : Packet) (start : Nat) (data : Bytes) : Except Fault Packet :=
  (Bytes.overlayAt start data p.buffer).map fun buffer => ofBuffer buffer p.offset p.len

/-- Puts `kept`, which is no longer than the packet, in place of its bytes. The rest of the old
bytes stay where they were, behind the packet now. -/
def retain (p : Packet) (kept : Bytes) (h : kept.length ≤ p.len) : Packet where
  buffer := p.buffer.take p.offset ++ kept ++ p.buffer.drop (p.offset + kept.length)
  offset := p.offset
  len := kept.length
  region_le := by
    have := p.region_le
    simp only [List.length_append, List.length_take, List.length_drop]
    omega

/-- Cuts `count` bytes out of the region at position `start` of it; what follows them moves up. -/
def cut (p : Packet) (start count : Nat) : Packet :=
  p.retain (p.bytes.take start ++ p.bytes.drop (start + count)) (by
    simp only [List.length_append, List.length_take, List.length_drop, length_bytes]
    omega)

@[simp] theorem bytes_fill (p : Packet) (bytes : Bytes) : (p.fill bytes).bytes = bytes := by
  simp [Packet.bytes, fill]

@[simp] theorem bytes_retain (p : Packet) (kept : Bytes) (h : kept.length ≤ p.len) :
    (p.retain kept h).bytes = kept := by
  have hp : (p.buffer.take p.offset).length = p.offset := by
    have := p.region_le
    simp only [List.length_take]
    omega
  simp only [retain, Packet.bytes, List.append_assoc]
  rw [List.drop_left' hp, List.take_left']
  rfl

@[simp] theorem bytes_cut (p : Packet) (start count : Nat) :
    (p.cut start count).bytes = p.bytes.take start ++ p.bytes.drop (start + count) :=
  bytes_retain ..

end Packet

end MediaTransport
