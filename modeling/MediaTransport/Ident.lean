/-!
# Identifiers

Streams and handles are numbers of a fixed width, and each kind has a type of its own, so that one
cannot be taken for another. Their text is the decimal number.
-/

namespace MediaTransport

/-- Synchronization source: the number that names a stream on the wire. -/
structure Ssrc where
  value : UInt32
  deriving DecidableEq, Repr, Hashable, Inhabited

/-- Handle of a send stream of a session. -/
structure SendStreamId where
  value : UInt32
  deriving DecidableEq, Repr, Hashable, Inhabited

/-- The number under which a stream takes part in a shared translator. -/
structure StreamKey where
  value : UInt64
  deriving DecidableEq, Repr, Hashable, Inhabited

instance : ToString Ssrc where
  toString s := Nat.repr s.value.toNat

instance : ToString SendStreamId where
  toString s := Nat.repr s.value.toNat

instance : ToString StreamKey where
  toString s := Nat.repr s.value.toNat

end MediaTransport
