import MediaTransport.Config.Duration
import MediaTransport.Packet.Basic

/-!
# Stages of the packet pipeline

A stage works on packets on their way out and on their way in, and keeps a state between them. It
may change a packet or drop it. On a packet on its way out it may also fail; what it had done by
then stays.
-/

namespace MediaTransport

/-- A stage with states of type `σ`. No packet comes out where one is dropped. -/
structure Stage (σ : Type) where
  outgoing : Instant → σ → Packet → Except Fault (Option Packet) × σ
  incoming : Instant → σ → Packet → Option Packet × σ

/-- The stage that lets every packet through as it is. -/
def Stage.passThrough (σ : Type) : Stage σ where
  outgoing _ s p := (.ok (some p), s)
  incoming _ s p := (some p, s)

end MediaTransport
