import MediaTransport.Quality.Rating
import MediaTransport.Quality.StreamStats
import MediaTransport.Rtcp.Extended.VoipMetrics

/-!
# Voice quality blocks from stream statistics

Each group of statistics fills in its own fields of the block, and leaves them at their standard
values when it is missing. The score needs all of them but the bursts: the counters, with at least
one packet expected, the round trip delay, the encoding and the jitter buffer.
-/

namespace MediaTransport.Quality

open Rtcp

/-! ## Rates -/

/-- A part of a whole in 256ths, cut to a whole number and at most 255. The quotient is taken in
binary floating point. -/
def in256ths (part whole : UInt64) : UInt8 :=
  (part.toFloat / whole.toFloat * 256).toUInt8

/-- Packets lost after recovery. More recovered than lost is a mistake, and not subtracted. -/
def lostAfterRecovery (lost recovered : UInt64) : UInt64 :=
  if recovered ≤ lost then lost - recovered else lost

/-- The loss rate, and the number of lost packets it was taken from. Where nothing was expected or
lost, nothing is recovered either. -/
def lossRate (expected lost recovered : UInt64) : UInt8 × UInt64 :=
  if expected = 0 ∨ lost = 0 then
    (0, lost)
  else
    (in256ths (lostAfterRecovery lost recovered) expected, lostAfterRecovery lost recovered)

/-- The rate of packets thrown away by the jitter buffer. -/
def discardRate (expected discarded : UInt64) : UInt8 :=
  if expected = 0 then 0 else in256ths discarded expected

/-! ## Encodings -/

/-- Whether `pattern` occurs in `text`. -/
def occurs (pattern text : List Char) : Bool :=
  pattern.isPrefixOf text ||
    match text with
    | [] => false
    | _ :: rest => occurs pattern rest

/-- Whether an encoding is of a family of codecs. The name may carry more, such as a clock rate, and
its letters between a and z may be of either case. -/
def isEncoding (family : String) (encoding : Option String) : Bool :=
  match encoding with
  | some name => occurs family.toList (name.toList.map Char.toLower)
  | none => false

/-! ## The block -/

/-- What a block needs to know besides the stream itself. -/
structure BlockContext where
  /-- Name of the active codec. -/
  encoding : Option String := none
  /-- Round trip time from sequence numbers, in milliseconds. -/
  roundTripBySequence : UInt32 := 0
  /-- Delay added by playing the media, in milliseconds. -/
  renderingDelay : UInt32 := 0
  deriving DecidableEq, Repr

/-- Delay between the network and the ears, in milliseconds and at most 65535: the round trip seen
through sequence numbers less one way on the network, and the rendering. -/
def endSystemDelay (cx : BlockContext) (roundTrip : UInt16) : UInt16 :=
  let delay : Int :=
    cx.roundTripBySequence.toNat - (roundTrip.toNat / 2 : Nat) + cx.renderingDelay.toNat
  .ofNat (min delay.toNat 65535)

/-- How the codec fills in for lost packets. -/
def concealment (encoding : Option String) : LossConcealment :=
  if isEncoding "opus" encoding || isEncoding "silk" encoding then .standard else .disabled

/-- The counters of the score, from 64-bit counters whose highest bit becomes the sign. -/
def callCounters (cx : BlockContext) (r : Reception) (roundTrip : UInt16) (jb : JitterBuffer) :
    CallCounters where
  ownLossCurve := isEncoding "silk" cx.encoding
  roundTrip := .ofNat roundTrip.toNat
  roundTripBySequence := .ofNat cx.roundTripBySequence.toNat
  bufferLatency := .ofNat jb.nominalDelay.toNat
  bufferDiscards := jb.discarded.toInt64
  received := r.processed.toInt64
  lost := (lossRate r.expected r.lost r.recovered).2.toInt64
  discarded := r.invalid.toInt64
  recovered := r.recovered.toInt64

/-- The counters of the score of a stream, if enough is known about it. -/
def scoreCounters? (stats : StreamStats) (cx : BlockContext) : Option CallCounters :=
  match stats.reception, stats.roundTripDelay, cx.encoding, stats.jitterBuffer with
  | some r, some roundTrip, some _, some jb =>
    if r.expected = 0 then none else some (callCounters cx r roundTrip jb)
  | _, _, _, _ => none

/-- The score of a stream, or that there is none. -/
def streamScore (stats : StreamStats) (cx : BlockContext) : Except Fault UInt8 :=
  match scoreCounters? stats cx with
  | some c => conversationalScore c
  | none => .ok unavailable

/-- Fills in the counters' field. -/
def withReception (r : Option Reception) (m : VoipMetrics) : VoipMetrics :=
  match r with
  | some r => { m with lossRate := (lossRate r.expected r.lost r.recovered).1 }
  | none => m

/-- Fills in the delays. -/
def withDelays (cx : BlockContext) (roundTrip : Option UInt16) (m : VoipMetrics) : VoipMetrics :=
  match roundTrip with
  | some d => { m with roundTripDelay := d, endSystemDelay := endSystemDelay cx d }
  | none => m

/-- Fills in the jitter buffer's fields. A fixed buffer has its maximum as absolute maximum. -/
def withJitterBuffer (expected : UInt64) (jb : Option JitterBuffer) (m : VoipMetrics) :
    VoipMetrics :=
  match jb with
  | some jb => { m with
      discardRate := discardRate expected jb.discarded
      nominalDelay := jb.nominalDelay
      maximumDelay := jb.maximumDelay
      adaptivity := if jb.adaptive then .adaptive else .fixed
      absoluteMaximumDelay := if jb.adaptive then jb.absoluteMaximumDelay else jb.maximumDelay }
  | none => m

/-- Fills in the bursts. -/
def withBursts (b : Option Bursts) (m : VoipMetrics) : VoipMetrics :=
  match b with
  | some b => { m with
      burstDensity := b.burstDensity
      gapDensity := b.gapDensity
      burstDuration := b.burstDuration
      gapDuration := b.gapDuration
      gapThreshold := b.gapThreshold }
  | none => m

/-- The block about the source `ssrc`, whose stream has the given score. -/
def scoredBlock (ssrc : Ssrc) (stats : StreamStats) (cx : BlockContext) (score : UInt8) :
    VoipMetrics :=
  let expected := (stats.reception.map Reception.expected).getD 0
  let plain : VoipMetrics := {
    ssrc
    concealment := concealment cx.encoding
    mosConversational := score }
  withBursts stats.bursts (withJitterBuffer expected stats.jitterBuffer
    (withDelays cx stats.roundTripDelay (withReception stats.reception plain)))

/-- The block about the source `ssrc`, if its stream can be rated. -/
def voipBlock (ssrc : Ssrc) (stats : StreamStats) (cx : BlockContext) : Except Fault VoipMetrics :=
  (streamScore stats cx).map (scoredBlock ssrc stats cx)

end MediaTransport.Quality
