import MediaTransport.Packet.Basic

/-!
# Packet pool

Packets that are done with are kept for their buffers. The last one returned is the first one taken
again; it is dropped if its buffer turns out too short.
-/

namespace MediaTransport

/-- Packets to reuse, the last one returned first. -/
structure PacketPool where
  free : List Packet := []
  deriving DecidableEq, Repr

namespace PacketPool

/-- Number of packets held. -/
def size (pool : PacketPool) : Nat := pool.free.length

/-- Whether no packet is held. -/
def isEmpty (pool : PacketPool) : Bool := pool.free.isEmpty

/-- Returns a packet for reuse. -/
def release (pool : PacketPool) (p : Packet) : PacketPool :=
  ⟨p :: pool.free⟩

/-- A packet that holds a copy of `bytes`, in the buffer last returned if that is long enough. -/
def acquire (pool : PacketPool) (bytes : Bytes) : Packet × PacketPool :=
  match pool.free with
  | p :: rest =>
    (if bytes.length ≤ p.buffer.length then p.fill bytes else .ofBytes bytes, ⟨rest⟩)
  | [] => (.ofBytes bytes, pool)

@[simp] theorem bytes_acquire (pool : PacketPool) (bytes : Bytes) :
    (pool.acquire bytes).1.bytes = bytes := by
  unfold acquire
  split
  · split <;> simp
  · simp

end PacketPool

end MediaTransport
