import MediaTransport.Config.Duration

/-!
# Statistics configuration

What the statistics engine of one media stream is set up with.
-/

namespace MediaTransport

/-- Audio or video. -/
inductive MediaKind where
  | audio
  | video
  deriving DecidableEq, Repr

namespace MediaKind

/-- The name of a kind of media. -/
def name : MediaKind → String
  | audio => "audio"
  | video => "video"

/-- The kind of media with the given name. -/
def ofName? : String → Option MediaKind
  | "audio" => some audio
  | "video" => some video
  | _ => none

@[simp] theorem ofName?_name (k : MediaKind) : ofName? k.name = some k := by cases k <;> rfl

end MediaKind

/-- Settings of a statistics engine. -/
structure StatisticsConfig where
  mediaKind : MediaKind := .audio
  /-- Name of the active codec. -/
  encoding : Option String := none
  /-- Whether the other side takes voice quality reports. -/
  voipMetrics : Bool := false
  /-- Length of the media in one packet. -/
  packetTime : Duration := .ofMillis 20
  /-- Delay added by playing the media. -/
  renderingDelay : Duration := .ofMillis 100
  deriving DecidableEq, Repr

namespace StatisticsConfig

/-- Whether outgoing reports are accompanied by voice quality reports. -/
def sendsVoipMetrics (c : StatisticsConfig) : Bool :=
  c.mediaKind == .audio && c.voipMetrics

/-- The stored form of a configuration. -/
def toJson (c : StatisticsConfig) : Json :=
  .object [
    ("media_kind", .string c.mediaKind.name),
    ("encoding", .ofOption (c.encoding.map Json.string)),
    ("voip_metrics", .bool c.voipMetrics),
    ("packet_time", c.packetTime.toJson),
    ("rendering_delay", c.renderingDelay.toJson)]

/-- Reads a configuration. A setting that is not there has its standard value. -/
def ofJson? (value : Json) : Option StatisticsConfig := do
  let fields ← value.fields? 5
  let standard : StatisticsConfig := {}
  return {
    mediaKind := ← fields.getD? 0 "media_kind" (Json.choice? MediaKind.ofName?) standard.mediaKind
    encoding := ← fields.getD? 1 "encoding" (Json.nullable? Json.string?) standard.encoding
    voipMetrics := ← fields.getD? 2 "voip_metrics" Json.bool? standard.voipMetrics
    packetTime := ← fields.getD? 3 "packet_time" Duration.ofJson? standard.packetTime
    renderingDelay := ← fields.getD? 4 "rendering_delay" Duration.ofJson? standard.renderingDelay }

end StatisticsConfig

end MediaTransport
