import MediaTransport.Direction
import MediaTransport.ReportStore.Basic

/-!
# The report store of a media stream

The store keeps both directions apart and tells its listeners of each report that it stores. The
listeners told are those registered at the moment of storing, in the order in which they were added;
a listener may add and remove listeners while it is being told, which counts from the next report
on, and it sees the store with the new report in it.
-/

namespace MediaTransport

open Rtcp

/-- What names a listener. -/
abbrev ListenerId := Nat

/-- What listeners are told: a report was stored. -/
inductive Notice where
  | report (direction : Direction) (r : Stamped Report)
  | extended (direction : Direction) (x : Stamped ExtendedReport)
  deriving DecidableEq, Repr

/-- The originator of the report that a notice is about. -/
def Notice.ssrc : Notice → Ssrc
  | report _ r => r.value.ssrc
  | extended _ x => x.value.ssrc

/-- The reports of one media stream. -/
structure ReportStore where
  received : ReportSide := {}
  sent : ReportSide := {}
  /-- Round trip time of each source estimated from sequence numbers, in milliseconds. -/
  roundTrips : Table UInt32 := .empty
  /-- The listeners, in the order in which they were added. -/
  listeners : List ListenerId := []
  deriving Repr

/-- What is done to a store. -/
inductive StoreOperation where
  | report (direction : Direction) (r : Report)
  | extended (direction : Direction) (x : ExtendedReport)
  | firstPacket (direction : Direction) (ssrc : Ssrc) (moment : Instant)
  | roundTrip (ssrc : Ssrc) (millis : UInt32)
  deriving DecidableEq, Repr

/-- What a listener does to the list of listeners while it is being told. -/
inductive Reaction where
  | add (listener : ListenerId)
  | remove (listener : ListenerId)
  deriving DecidableEq, Repr

/-- What each listener does when it is told, with the store as it sees it. -/
abbrev Reactions := ListenerId → Notice → ReportStore → List Reaction

/-- A listener was told, and saw the store. -/
structure Delivery where
  listener : ListenerId
  notice : Notice
  seen : ReportStore
  deriving Repr

namespace ReportStore

/-- The reports of one direction. -/
def side (s : ReportStore) : Direction → ReportSide
  | .received => s.received
  | .sent => s.sent

/-- Replaces the reports of one direction. -/
def withSide (s : ReportStore) (direction : Direction) (side : ReportSide) : ReportStore :=
  match direction with
  | .received => { s with received := side }
  | .sent => { s with sent := side }

/-- The round trip time of a source estimated from sequence numbers; zero if there is no
estimate. -/
def roundTrip (s : ReportStore) (ssrc : Ssrc) : UInt32 :=
  (s.roundTrips.get? ssrc).getD 0

/-! ## Listeners -/

/-- Adds a listener, unless it is there already. -/
def addListener (s : ReportStore) (l : ListenerId) : ReportStore :=
  if l ∈ s.listeners then s else { s with listeners := s.listeners ++ [l] }

/-- Removes a listener. -/
def removeListener (s : ReportStore) (l : ListenerId) : ReportStore :=
  { s with listeners := s.listeners.filter (· ≠ l) }

/-- Carries out a reaction. -/
def react (s : ReportStore) : Reaction → ReportStore
  | .add l => s.addListener l
  | .remove l => s.removeListener l

/-- Tells the given listeners, one after the other. -/
def tell (reactions : Reactions) (notice : Notice) :
    List ListenerId → ReportStore → ReportStore × List Delivery
  | [], s => (s, [])
  | l :: ls, s =>
    let (after, deliveries) := tell reactions notice ls ((reactions l notice s).foldl react s)
    (after, ⟨l, notice, s⟩ :: deliveries)

/-! ## Operations -/

/-- Carries out an operation at the moment `now` without telling anyone: the store after it, whether
anything changed, and what there is to tell. -/
def record (s : ReportStore) (now : Instant) : StoreOperation → ReportStore × Bool × Option Notice
  | .report direction r =>
    match (s.side direction).storeReport now r with
    | some (stamped, side) => (s.withSide direction side, true, some (.report direction stamped))
    | none => (s, false, none)
  | .extended direction x =>
    match (s.side direction).storeExtended now x with
    | some (stamped, side) => (s.withSide direction side, true, some (.extended direction stamped))
    | none => (s, false, none)
  | .firstPacket direction ssrc moment =>
    match (s.side direction).storeFirstPacket ssrc moment with
    | some side => (s.withSide direction side, true, none)
    | none => (s, false, none)
  | .roundTrip ssrc millis =>
    ({ s with roundTrips := s.roundTrips.insert ssrc millis }, true, none)

/-- What came of an operation. -/
structure Outcome where
  store : ReportStore
  changed : Bool
  deliveries : List Delivery

/-- Carries out an operation at the moment `now`, and tells the listeners what it stored. -/
def apply (reactions : Reactions) (now : Instant) (s : ReportStore) (op : StoreOperation) :
    Outcome :=
  match s.record now op with
  | (store, changed, some notice) =>
    let (store, deliveries) := tell reactions notice store.listeners store
    ⟨store, changed, deliveries⟩
  | (store, changed, none) => ⟨store, changed, []⟩

/-- Carries out operations one after the other at the moment `now`. -/
def applyAll (reactions : Reactions) (now : Instant) :
    ReportStore → List StoreOperation → ReportStore × List Delivery
  | s, [] => (s, [])
  | s, op :: ops =>
    let outcome := s.apply reactions now op
    let (store, deliveries) := applyAll reactions now outcome.store ops
    (store, outcome.deliveries ++ deliveries)

end ReportStore

end MediaTransport
