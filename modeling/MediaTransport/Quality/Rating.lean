import MediaTransport.Bytes
import MediaTransport.Quality.Score

/-!
# Transmission rating

The rating of a call from its delays and losses, by the formulas of the E-model with its standard
values for all that a receiver cannot measure: loudness, noise, sidetone and echo. Delays are in
milliseconds, levels in decibels.

The rating starts from the signal to noise ratio and loses what impairs the call: loudness, sidetone
and quantization; talker echo, listener echo and plain delay; and loss of packets, which a codec
with concealment of its own bears differently.

The counters are those of a build that does not check for overflow: their sums and products wrap. A
division is checked in every build, and of the least number by -1 it has no result. Where the
percentage of lost packets comes to that, there is no rating (`quotient`).
-/

namespace MediaTransport.Quality

/-- What a rating is computed from. Arithmetic on it wraps, as in a build without overflow
checks. -/
structure CallCounters where
  /-- The codec has its own curve for lost packets. -/
  ownLossCurve : Bool := false
  roundTrip : Int64 := 0
  /-- The round trip time estimated from sequence numbers. -/
  roundTripBySequence : Int64 := 0
  bufferLatency : Int64 := 0
  bufferDiscards : Int64 := 0
  received : Int64 := 0
  /-- Packets lost and not recovered. -/
  lost : Int64 := 0
  /-- Packets that arrived but were invalid. -/
  discarded : Int64 := 0
  /-- Lost packets that were recovered. -/
  recovered : Int64 := 0
  deriving DecidableEq, Repr

/-- The quotient of two numbers, cut towards zero, if there is one and the type has room for it. -/
def quotient (a b : Int64) : Except Fault Int64 :=
  if b = 0 then .error .zeroDivisor
  else if a = Int64.minValue ∧ b = -1 then .error .overflow
  else .ok (a / b)

namespace CallCounters

/-- Packets that were lost or thrown away. -/
def impaired (c : CallCounters) : Int64 := c.lost + c.discarded + c.bufferDiscards

/-- Packets that were sent, as far as the counters tell. -/
def total (c : CallCounters) : Int64 := c.received + c.lost + c.recovered

/-- Whole percent of packets that were lost or thrown away, and never less than zero. -/
def lossPercent (c : CallCounters) : Except Fault Int64 :=
  if c.received = 0 ∨ c.total = 0 then .ok 0
  else (quotient (c.impaired * 100) c.total).map (max · 0)

/-- The longer of the two round trip times: they are updated at different moments. -/
def loopDelay (c : CallCounters) : Int64 := max c.roundTripBySequence c.roundTrip

/-- Delay from the talker to the source of the echo: the loop less one way, and the rendering. -/
def echoDelay (c : CallCounters) : Int64 := c.loopDelay - c.roundTrip / 2 + 100

/-- One-way delay from talker to listener. -/
def oneWayDelay (c : CallCounters) : Int64 := c.roundTrip / 2 + c.bufferLatency

end CallCounters

/-! ## Standard values -/

/-- Loudness rating of the sending side. -/
def sendLoudness : Float := 8
/-- Loudness rating of the receiving side. -/
def receiveLoudness : Float := 2
/-- Loudness rating of the connection. -/
def overallLoudness : Float := sendLoudness + receiveLoudness
/-- Circuit noise. -/
def circuitNoise : Float := -70
/-- Room noise at the talker. -/
def sendRoomNoise : Float := 35
/-- Shape of the talker's telephone. -/
def handsetShape : Float := 3
/-- Room noise at the listener. -/
def receiveRoomNoise : Float := 35
/-- Sidetone rating of the listener. -/
def listenerSidetone : Float := 18
/-- Noise floor of the receiving side. -/
def noiseFloor : Float := -64
/-- Sidetone masking rating. -/
def sidetoneMasking : Float := 15
/-- Loudness rating of the talker's echo. -/
def talkerEchoLoudness : Float := 65
/-- Quantizing distortion. -/
def quantizingUnits : Float := 1
/-- Loss on the path of the echo. -/
def echoPathLoss : Float := 110
/-- Impairment by the codec without loss. -/
def codecImpairment : Float := 0
/-- Burstiness of losses; 1 is random. -/
def burstRatio : Float := 1
/-- Robustness of the codec against loss. -/
def lossRobustness : Float := 25.1
/-- Allowance for the advantage of access. -/
def advantage : Float := 1

/-! ## Formulas -/

/-- `r` times the `n`th power of `x`, with one squaring for each binary digit of `n` but the
last. -/
def timesPower (r x : Float) (n : Nat) : Float :=
  let r := if n % 2 = 1 then r * x else r
  if n < 2 then r else timesPower r (x * x) (n / 2)

/-- The `n`th power of `x`. -/
def power (x : Float) (n : Nat) : Float := timesPower 1 x n

/-- Ten to the power `x`. -/
def tenTo (x : Float) : Float := Float.pow 10 x

/-- The `n`th root of `x`. -/
def root (n : Float) (x : Float) : Float := Float.pow x (1 / n)

/-- The sum of all noise, as a level. -/
def noise : Float :=
  let sent := sendRoomNoise - sendLoudness - handsetShape - 100
    + 0.004 * power (sendRoomNoise - overallLoudness - handsetShape - 14) 2
  let heard := receiveRoomNoise + 10 * (1 + tenTo ((10 - listenerSidetone) / 10)).log10
  let received := receiveLoudness - 121 + heard + 0.008 * power (heard - 35) 2
  let floor := noiseFloor + receiveLoudness
  10 * (tenTo (circuitNoise / 10) + tenTo (sent / 10) + tenTo (received / 10)
    + tenTo (floor / 10)).log10

/-- The basic signal to noise ratio. -/
def signalToNoise : Float := 15 - 1.5 * (sendLoudness + noise)

/-- Impairment by quantization. -/
def quantizingImpairment : Float :=
  let q := 37 - 15 * quantizingUnits.log10
  let g := 1.07 + 0.258 * q + 0.0602 * power q 2
  let y := (signalToNoise - 100) / 15 + 46 / 8.4 - g / 9
  let z := 46 / 30 - g / 40
  15 * (1 + tenTo y + tenTo z).log10

/-- Impairment by a connection that is too loud. -/
def loudnessImpairment : Float :=
  let x := overallLoudness + 0.2 * (64 + noise - receiveLoudness)
  20 * (root 8 (1 + power (x / 8) 8) - x / 8)

/-- Impairment by sidetone, when the echo comes after `t`. -/
def sidetoneImpairment (t : Float) : Float :=
  let s := -10 * (tenTo (-sidetoneMasking / 10)
    + (-t / 4).exp * tenTo (-talkerEchoLoudness / 10)).log10
  12 * root 8 (1 + power ((s - 13) / 6) 8) - 28 * root 35 (1 + power ((s + 1) / 19.4) 35)
    - 13 * root 13 (1 + power ((s - 3) / 33) 13) + 29

/-- Impairment by the talker's echo, when it comes after `t`. -/
def talkerEchoImpairment (t : Float) : Float :=
  let roe := -1.5 * (noise - receiveLoudness)
  let terv := talkerEchoLoudness - 40 * ((1 + t / 10) / (1 + t / 150)).log10
    + 6 * (-0.3 * power t 2).exp
  let re := 80 + 2.5 * (terv - 14)
  ((roe - re) / 2 + (power (roe - re) 2 / 4 + 100).sqrt - 1) * (1 - (-t).exp)

/-- Impairment by the listener's echo, when the loop takes `tr`. -/
def listenerEchoImpairment (tr : Float) : Float :=
  let rle := 10.5 * (echoPathLoss + 7) * Float.pow (tr + 1) (-0.25)
  (signalToNoise - rle) / 2 + (power (signalToNoise - rle) 2 / 4 + 169).sqrt

/-- Impairment by the one-way delay `ta`, once it reaches 100. -/
def delayImpairment (ta : Float) : Float :=
  if ta < 100 then
    0
  else
    let x := (ta / 100).log10 / (2 : Float).log10
    25 * (root 6 (1 + power x 6) - 3 * root 6 (1 + power (x / 3) 6) + 2)

/-- Impairment by the codec when `percent` of the packets are lost. -/
def lossImpairment (ownLossCurve : Bool) (percent : Float) : Float :=
  if ownLossCurve then
    18.3442 * (1 + 1.54894 * percent).log10 + 1.31953
  else
    codecImpairment + (95 - codecImpairment) * (percent / (percent / burstRatio + lossRobustness))

/-- The rating of a call that lost `percent` of its packets. -/
def ratingAt (c : CallCounters) (percent : Int64) : Float :=
  let t := c.echoDelay.toFloat
  let simultaneous := loudnessImpairment + sidetoneImpairment t + quantizingImpairment
  let delay := talkerEchoImpairment t + listenerEchoImpairment c.loopDelay.toFloat
    + delayImpairment c.oneWayDelay.toFloat
  signalToNoise - simultaneous - delay - lossImpairment c.ownLossCurve percent.toFloat + advantage

/-- The rating of a call. -/
def rating (c : CallCounters) : Except Fault Float := c.lossPercent.map (ratingAt c)

/-- The conversational quality of a call, times ten. -/
def conversationalScore (c : CallCounters) : Except Fault UInt8 := (rating c).map score

end MediaTransport.Quality
