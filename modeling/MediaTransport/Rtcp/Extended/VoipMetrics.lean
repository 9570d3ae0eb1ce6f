import MediaTransport.Rtcp.Report

/-!
# Voice quality blocks

The block of an extended report that describes how one source sounds: losses, delays, levels and
scores. A one-byte measure that could not be taken has the value 127.
-/

namespace MediaTransport.Rtcp

/-- The value of a one-byte measure that could not be taken. -/
def unavailable : UInt8 := 127

/-- How the receiver fills in for lost packets. -/
inductive LossConcealment where
  | unspecified
  | disabled
  | enhanced
  | standard
  deriving DecidableEq, Repr

/-- The two bits of a way of concealment. -/
def LossConcealment.toBits : LossConcealment → UInt8
  | unspecified => 0
  | disabled => 1
  | enhanced => 2
  | standard => 3

/-- The way of concealment in the two low bits. -/
def LossConcealment.ofBits (bits : UInt8) : LossConcealment :=
  match bits &&& 0x03 with
  | 1 => disabled
  | 2 => enhanced
  | 3 => standard
  | _ => unspecified

/-- Whether the jitter buffer changes its size. -/
inductive Adaptivity where
  | unknown
  | reserved
  | fixed
  | adaptive
  deriving DecidableEq, Repr

/-- The two bits of an adaptivity. -/
def Adaptivity.toBits : Adaptivity → UInt8
  | unknown => 0
  | reserved => 1
  | fixed => 2
  | adaptive => 3

/-- The adaptivity in the two low bits. -/
def Adaptivity.ofBits (bits : UInt8) : Adaptivity :=
  match bits &&& 0x03 with
  | 1 => reserved
  | 2 => fixed
  | 3 => adaptive
  | _ => unknown

/-- How one source sounds. Rates and densities are in 256ths, durations and delays in
milliseconds. -/
structure VoipMetrics where
  ssrc : Ssrc := ⟨0⟩
  lossRate : UInt8 := 0
  /-- Packets thrown away by the jitter buffer. -/
  discardRate : UInt8 := 0
  /-- Packets lost or thrown away within bursts. -/
  burstDensity : UInt8 := 0
  /-- Packets lost or thrown away between bursts. -/
  gapDensity : UInt8 := 0
  burstDuration : UInt16 := 0
  gapDuration : UInt16 := 0
  roundTripDelay : UInt16 := 0
  endSystemDelay : UInt16 := 0
  signalLevel : Int8 := unavailable.toInt8
  noiseLevel : Int8 := unavailable.toInt8
  /-- Residual echo return loss. -/
  echoReturnLoss : UInt8 := unavailable
  /-- Packets received in a row that end a burst. -/
  gapThreshold : UInt8 := 16
  rFactor : UInt8 := unavailable
  externalRFactor : UInt8 := unavailable
  /-- Listening quality, times ten. -/
  mosListening : UInt8 := unavailable
  /-- Conversational quality, times ten. -/
  mosConversational : UInt8 := unavailable
  concealment : LossConcealment := .unspecified
  adaptivity : Adaptivity := .unknown
  /-- How fast the jitter buffer adjusts, in four bits. -/
  adjustmentRate : UInt8 := 0
  nominalDelay : UInt16 := 0
  maximumDelay : UInt16 := 0
  absoluteMaximumDelay : UInt16 := 0
  deriving DecidableEq, Repr

namespace VoipMetrics

/-- The number of the block type. -/
def blockType : UInt8 := 7

/-- Length of what follows the block header, in words. -/
def bodyWords : Nat := 8

/-- The receiver configuration byte: concealment, adaptivity and the four bits of the rate. -/
def configuration (m : VoipMetrics) : UInt8 :=
  m.concealment.toBits <<< 6 ||| m.adaptivity.toBits <<< 4 ||| (m.adjustmentRate &&& 0x0f)

/-- The bytes that follow the block header. -/
def encodeBody (m : VoipMetrics) : Bytes :=
  m.ssrc.encode ++ (m.lossRate :: m.discardRate :: m.burstDensity :: m.gapDensity ::
    (Bytes.ofUInt16 m.burstDuration ++ (Bytes.ofUInt16 m.gapDuration ++
    (Bytes.ofUInt16 m.roundTripDelay ++ (Bytes.ofUInt16 m.endSystemDelay ++
    (m.signalLevel.toUInt8 :: m.noiseLevel.toUInt8 :: m.echoReturnLoss :: m.gapThreshold ::
    m.rFactor :: m.externalRFactor :: m.mosListening :: m.mosConversational ::
    m.configuration :: 0 ::
    (Bytes.ofUInt16 m.nominalDelay ++ (Bytes.ofUInt16 m.maximumDelay ++
    Bytes.ofUInt16 m.absoluteMaximumDelay))))))))

/-- The metrics in the bytes that follow a block header. -/
def readBody? (bytes : Bytes) : Option VoipMetrics := do
  let (ssrc, rest) ← Ssrc.read? bytes
  let (lossRate, rest) ← Bytes.uint8? rest
  let (discardRate, rest) ← Bytes.uint8? rest
  let (burstDensity, rest) ← Bytes.uint8? rest
  let (gapDensity, rest) ← Bytes.uint8? rest
  let (burstDuration, rest) ← Bytes.uint16? rest
  let (gapDuration, rest) ← Bytes.uint16? rest
  let (roundTripDelay, rest) ← Bytes.uint16? rest
  let (endSystemDelay, rest) ← Bytes.uint16? rest
  let (signalLevel, rest) ← Bytes.uint8? rest
  let (noiseLevel, rest) ← Bytes.uint8? rest
  let (echoReturnLoss, rest) ← Bytes.uint8? rest
  let (gapThreshold, rest) ← Bytes.uint8? rest
  let (rFactor, rest) ← Bytes.uint8? rest
  let (externalRFactor, rest) ← Bytes.uint8? rest
  let (mosListening, rest) ← Bytes.uint8? rest
  let (mosConversational, rest) ← Bytes.uint8? rest
  let (configuration, rest) ← Bytes.uint8? rest
  let (_, rest) ← Bytes.uint8? rest
  let (nominalDelay, rest) ← Bytes.uint16? rest
  let (maximumDelay, rest) ← Bytes.uint16? rest
  let (absoluteMaximumDelay, _) ← Bytes.uint16? rest
  return {
    ssrc, lossRate, discardRate, burstDensity, gapDensity, burstDuration, gapDuration
    roundTripDelay, endSystemDelay
    signalLevel := signalLevel.toInt8
    noiseLevel := noiseLevel.toInt8
    echoReturnLoss, gapThreshold, rFactor, externalRFactor, mosListening, mosConversational
    concealment := .ofBits (configuration >>> 6)
    adaptivity := .ofBits (configuration >>> 4)
    adjustmentRate := configuration &&& 0x0f
    nominalDelay, maximumDelay, absoluteMaximumDelay }

/-- The metrics in a whole block, whatever its header says. -/
def read (block : Bytes) : Except ParseError VoipMetrics :=
  match readBody? (block.drop 4) with
  | some m => .ok m
  | none => .error .shortVoipMetrics

@[simp] theorem length_encodeBody (m : VoipMetrics) : m.encodeBody.length = bodyWords * 4 := rfl

end VoipMetrics

end MediaTransport.Rtcp
