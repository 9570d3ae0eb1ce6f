/-!
# Counters

What a sender or receiver counts: the packets and bytes that went through, and the attempts that
failed. The counters are words of 64 bits and wrap.
-/

namespace MediaTransport

/-- The counts of one sender or receiver. -/
structure Counters where
  packets : UInt64 := 0
  bytes : UInt64 := 0
  errors : UInt64 := 0
  deriving DecidableEq, Repr

namespace Counters

/-- Counts a packet of `length` bytes. -/
def packet (c : Counters) (length : Nat) : Counters :=
  { c with packets := c.packets + 1, bytes := c.bytes + .ofNat length }

/-- Counts a failure. -/
def failure (c : Counters) : Counters :=
  { c with errors := c.errors + 1 }

/-- Attempts counted altogether. -/
def attempts (c : Counters) : Nat := c.packets.toNat + c.errors.toNat

end Counters

end MediaTransport
