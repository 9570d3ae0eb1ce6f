import MediaTransport.Document.Message
import MediaTransport.Quality.StreamStats
import MediaTransport.ReportStore.Store

/-!
# Report stores as documents

What a store holds about some watched sources, what its listeners are told, and the statistics of
receive streams.
-/

namespace MediaTransport.Document

open Rtcp Quality

/-! ## Writing -/

/-- A stored report. -/
def ofReport (r : Report) : Json :=
  .object [("ssrc", ofSsrc r.ssrc), ("sender_info", ofOption ofSenderInfo r.senderInfo),
    ("feedback", ofList ofReceptionReport r.feedback)]

/-- The members that are there. -/
def present (members : List (String × Option Json)) : List (String × Json) :=
  members.filterMap fun (name, value) => value.map (name, ·)

/-- What one direction of a store holds: the reports by rising number of their originators, and what
there is about each watched source. -/
def ofSide (watched : List Ssrc) (ofMoment : Instant → Json) (s : ReportSide) : Json :=
  let about (source : Ssrc) : Option (String × Json) :=
    let members := present [
      ("report", (s.reports.get? source).map fun r => .ofNat r.value.feedback.length),
      ("feedback", (s.feedback.get? source).map ofReceptionReport),
      ("extended", (s.extended.get? source).map fun x => ofExtendedReport x.value),
      ("voip", (s.voipMetrics.get? source).map ofVoipMetrics),
      ("first_packet", (s.firstPacket.get? source).map ofMoment)]
    if members.isEmpty then none else some (toString source, .object members)
  let reports := (s.reports.values.map (·.value)).mergeSort fun a b => a.ssrc.value ≤ b.ssrc.value
  .object [("reports", ofList ofReport reports), ("by_ssrc", .object (watched.filterMap about))]

/-- What a store holds about the watched sources. -/
def ofStore (watched : List Ssrc) (ofMoment : Instant → Json) (s : ReportStore) : Json :=
  .object [("received", ofSide watched ofMoment s.received),
    ("sent", ofSide watched ofMoment s.sent),
    ("rtt_via_seq", .object (watched.map fun w => (toString w, ofWord32 (s.roundTrip w))))]

/-- What the listener called `name` was told. -/
def ofNotice (name : String) : Notice → Json
  | .report d r => .object [("listener", .string name),
      ("event", .string (if d = .received then "report_received" else "report_sent")),
      ("report", ofReport r.value)]
  | .extended d x => .object [("listener", .string name),
      ("event", .string
        (if d = .received then "extended_report_received" else "extended_report_sent")),
      ("report", ofExtendedReport x.value)]

/-- Whether a store has a report and an extended report of a source, in either direction. -/
def ofPresence (name : String) (s : ReportStore) (source : Ssrc) : Json :=
  .object [("listener", .string name), ("stored", .array [
    .bool (s.received.reports.get? source).isSome, .bool (s.sent.reports.get? source).isSome,
    .bool (s.received.extended.get? source).isSome, .bool (s.sent.extended.get? source).isSome])]

/-! ## Reading -/

/-- A stored report, or a message that is one. -/
def toReport (j : Json) : Report :=
  match if j.has "type" then Report.ofMessage? (toMessage j) else none with
  | some r => r
  | none => {
      ssrc := ssrc j "ssrc"
      senderInfo := (j.field "sender_info").ifPresent toSenderInfo
      feedback := (j.list "feedback").map toReceptionReport }

/-- The watched sources, each once. -/
def toWatched (j : Json) : List Ssrc :=
  ((j.list "watch").map toSsrc).foldl (fun seen w => if w ∈ seen then seen else seen ++ [w]) []

/-- The statistics of a receive stream. -/
def toStreamStats (j : Json) : StreamStats where
  reception := (j.field "reception").ifPresent fun r =>
    ⟨r.word64 "expected", r.word64 "lost", r.word64 "processed", r.word64 "invalid",
      r.word64 "fec_decoded"⟩
  roundTripDelay := (j.field "round_trip_delay").ifPresent fun d => .ofNat d.toNat
  jitterBuffer := (j.field "jitter_buffer").ifPresent fun b =>
    ⟨b.word64 "discarded", b.word16 "nominal_delay", b.word16 "maximum_delay",
      b.word16 "absolute_maximum_delay", b.flag "adaptive"⟩
  bursts := (j.field "burst").ifPresent fun b =>
    ⟨b.byte "burst_density", b.byte "gap_density", b.word16 "burst_duration",
      b.word16 "gap_duration", b.byte "gmin"⟩

/-- A provider that looks sources up in a list of statistics, some of which are for one sender
only. -/
def toProvider (entries : List Json) : StatsProvider :=
  let entries := entries.map fun j =>
    (ssrc j "ssrc", (j.field "sender").ifPresent toSsrc, toStreamStats j)
  fun source sender =>
    (entries.find? fun (s, only, _) => s == source && (only.isNone || only == some sender)).map
      (·.2.2)

end MediaTransport.Document
