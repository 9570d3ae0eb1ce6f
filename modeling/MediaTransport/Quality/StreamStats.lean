import MediaTransport.Ident

/-!
# Statistics of a receive stream

What the media engine knows about a live receive stream. Each group is absent where the engine
cannot tell.
-/

namespace MediaTransport.Quality

/-- Counters of the packets of a stream. -/
structure Reception where
  /-- Packets expected from the sequence numbers seen. -/
  expected : UInt64 := 0
  lost : UInt64 := 0
  /-- Packets received and used. -/
  processed : UInt64 := 0
  /-- Packets received but invalid. -/
  invalid : UInt64 := 0
  /-- Lost packets recovered by forward error correction. -/
  recovered : UInt64 := 0
  deriving DecidableEq, Repr

/-- State of a jitter buffer, with delays in milliseconds. -/
structure JitterBuffer where
  /-- Packets discarded for arriving too late or too early. -/
  discarded : UInt64 := 0
  nominalDelay : UInt16 := 0
  maximumDelay : UInt16 := 0
  /-- The longest delay an adaptive buffer can have. -/
  absoluteMaximumDelay : UInt16 := 0
  adaptive : Bool := false
  deriving DecidableEq, Repr

/-- How losses cluster. Densities are in 256ths, durations in milliseconds. -/
structure Bursts where
  burstDensity : UInt8 := 0
  gapDensity : UInt8 := 0
  burstDuration : UInt16 := 0
  gapDuration : UInt16 := 0
  gapThreshold : UInt8 := 0
  deriving DecidableEq, Repr

/-- What is known about a receive stream. -/
structure StreamStats where
  reception : Option Reception := none
  /-- Round trip delay in milliseconds, as seen by the sender of the report. -/
  roundTripDelay : Option UInt16 := none
  jitterBuffer : Option JitterBuffer := none
  bursts : Option Bursts := none
  deriving DecidableEq, Repr

/-- Where the statistics of the receive stream of a source come from, as reported by a local sender.
A source without a live receive stream has none. -/
abbrev StatsProvider := (source sender : Ssrc) → Option StreamStats

end MediaTransport.Quality
