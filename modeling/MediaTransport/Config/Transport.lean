import MediaTransport.Config.Duration

/-!
# Transport configuration

What senders and receivers are set up with. A configuration can be read and changed into one that
makes no sense; `validate` finds the first thing wrong with it, and nothing is started without it.
-/

namespace MediaTransport

/-- Why a configuration is refused. -/
inductive ConfigError where
  /-- Packets are limited, but to a period of no length. -/
  | ratePeriod (millis : UInt64)
  | receiveBuffer (length : UInt64)
  | queueCapacity
  | receiveTimeout
  deriving DecidableEq, Repr

/-- The text of a configuration error. -/
def ConfigError.message : ConfigError → String
  | ratePeriod millis =>
    "Rate limit period must be positive, got " ++ Nat.repr millis.toNat ++ "ms"
  | receiveBuffer length =>
    "Receive buffer length " ++ Nat.repr length.toNat ++ " is too small"
  | queueCapacity => "Pacing queue capacity must be at least 1"
  | receiveTimeout => "Receive timeout must be positive"

/-- At most `maxPackets` packets in any stretch of `perMillis` milliseconds; no limit if that is
none. -/
structure RateLimit where
  maxPackets : UInt64
  perMillis : UInt64
  deriving DecidableEq, Repr

namespace RateLimit

/-- Whether there is anything to pace. -/
def isEnabled (l : RateLimit) : Bool := 0 < l.maxPackets

/-- The length of a window. -/
def period (l : RateLimit) : Duration := .ofMillis l.perMillis

/-- The length of a window in nanoseconds. -/
def periodNanos (l : RateLimit) : Nat := l.perMillis.toNat * 1000000

/-- A limit of some packets needs a period. -/
def validate (l : RateLimit) : Except ConfigError Unit :=
  if l.isEnabled ∧ l.perMillis = 0 then .error (.ratePeriod l.perMillis) else .ok ()

/-- The limit with the given numbers, if they make sense. -/
def make (maxPackets perMillis : UInt64) : Except ConfigError RateLimit := do
  let limit : RateLimit := ⟨maxPackets, perMillis⟩
  limit.validate
  return limit

/-- The limit, if it limits anything. -/
def enabled? (l : RateLimit) : Option RateLimit := if l.isEnabled then some l else none

/-- The stored form of a rate limit. -/
def toJson (l : RateLimit) : Json :=
  .object [("max_packets", .ofNat l.maxPackets.toNat), ("per_millis", .ofNat l.perMillis.toNat)]

/-- Reads a rate limit, whether it makes sense or not. -/
def ofJson? (value : Json) : Option RateLimit := do
  let fields ← value.fields? 2
  return ⟨← fields.require? 0 "max_packets" Json.uint64?,
    ← fields.require? 1 "per_millis" Json.uint64?⟩

end RateLimit

/-- Settings of senders and receivers. -/
structure TransportConfig where
  rateLimit : Option RateLimit := none
  /-- Length of the buffer that each datagram is read into. -/
  receiveBufferLength : UInt64 := 4096
  /-- How long a receive waits before it looks whether the receiver was closed. -/
  receiveTimeout : Duration := .ofMillis 100
  /-- Packets that wait for pacing before a writer has to. -/
  queueCapacity : UInt64 := 256
  /-- Length of the receive buffer that is asked of the system. -/
  socketReceiveBuffer : UInt64 := 65535
  /-- Whether packets are shown to a logger. -/
  packetLogging : Bool := true
  deriving DecidableEq, Repr

namespace TransportConfig

/-- The shortest buffer a datagram can be read into: a media header. -/
def minReceiveBuffer : UInt64 := 12

/-- Paces to `maxPackets` packets every `perMillis` milliseconds, or not at all if that is none. -/
def withRateLimit (c : TransportConfig) (maxPackets perMillis : UInt64) : TransportConfig :=
  { c with rateLimit := RateLimit.enabled? ⟨maxPackets, perMillis⟩ }

/-- Finds the first setting that makes no sense. -/
def validate (c : TransportConfig) : Except ConfigError Unit := do
  match c.rateLimit with
  | some limit => limit.validate
  | none => pure ()
  if c.receiveBufferLength < minReceiveBuffer then throw (.receiveBuffer c.receiveBufferLength)
  if c.receiveTimeout.isZero then throw .receiveTimeout
  if c.queueCapacity = 0 then throw .queueCapacity

/-- The stored form of a configuration. -/
def toJson (c : TransportConfig) : Json :=
  .object [
    ("rate_limit", .ofOption (c.rateLimit.map RateLimit.toJson)),
    ("receive_buffer_len", .ofNat c.receiveBufferLength.toNat),
    ("receive_timeout", c.receiveTimeout.toJson),
    ("queue_capacity", .ofNat c.queueCapacity.toNat),
    ("socket_receive_buffer", .ofNat c.socketReceiveBuffer.toNat),
    ("packet_logging", .bool c.packetLogging)]

/-- Reads a configuration. A setting that is not there has its standard value. -/
def ofJson? (value : Json) : Option TransportConfig := do
  let fields ← value.fields? 6
  let standard : TransportConfig := {}
  return {
    rateLimit := ← fields.getD? 0 "rate_limit" (Json.nullable? RateLimit.ofJson?) standard.rateLimit
    receiveBufferLength :=
      ← fields.getD? 1 "receive_buffer_len" Json.uint64? standard.receiveBufferLength
    receiveTimeout := ← fields.getD? 2 "receive_timeout" Duration.ofJson? standard.receiveTimeout
    queueCapacity := ← fields.getD? 3 "queue_capacity" Json.uint64? standard.queueCapacity
    socketReceiveBuffer :=
      ← fields.getD? 4 "socket_receive_buffer" Json.uint64? standard.socketReceiveBuffer
    packetLogging := ← fields.getD? 5 "packet_logging" Json.bool? standard.packetLogging }

end TransportConfig

end MediaTransport
