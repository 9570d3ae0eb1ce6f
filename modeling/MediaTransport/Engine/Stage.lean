import MediaTransport.Engine

/-!
# The statistics engine as a stage

In a pipeline the engine keeps its own state from packet to packet. A trace also keeps what it did:
what it asked the provider, and what the listeners of its store were told.
-/

namespace MediaTransport

/-- An engine and what it did. -/
structure EngineTrace where
  engine : Engine
  /-- Streams that the provider was asked about, as source and sender. -/
  queries : List (Ssrc × Ssrc) := []
  deliveries : List Delivery := []

namespace EngineTrace

/-- The trace after one more packet. -/
def after (t : EngineTrace) (p : Engine.Passage) : EngineTrace :=
  ⟨p.engine, t.queries ++ p.queries, t.deliveries ++ p.deliveries⟩

/-- The trace from here on. -/
def restart (t : EngineTrace) : EngineTrace := { engine := t.engine }

end EngineTrace

/-- The engine as a stage. Where it fails on a packet, the reports of the packet have been
stored. -/
def Engine.stage (reactions : Reactions) : Stage EngineTrace where
  outgoing now t p :=
    match t.engine.outgoing reactions now p with
    | .ok passage => (.ok passage.packet, t.after passage)
    | .error fault =>
      (.error fault, t.after (t.engine.pass reactions now (Engine.sentOperations p.bytes) none))
  incoming now t p :=
    let passage := t.engine.incoming reactions now p
    (passage.packet, t.after passage)

end MediaTransport
