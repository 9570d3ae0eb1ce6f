import MediaTransport.Proofs.Access.Engine
import MediaTransport.Proofs.Engine.Replay
import MediaTransport.Proofs.Splice.Removal

/-!
# What an engine consumes

An incoming packet is dropped when nothing is left of it once its extended reports are taken out,
which can only be if it was made of nothing else (`Rtcp.Compound.IsConsumed`). Every other packet is
passed on without them, and what is no control packet as it came. Nothing that is taken out is lost:
the reports that are still read in the packet are passed to the store first, and then those that
were taken out, each in the order in which the packet has them (`Engine.incoming_consumes`).
-/

namespace MediaTransport

open Rtcp

/-- Whether an operation passes a report to the store. -/
def StoreOperation.passesReport : StoreOperation → Bool
  | report _ _ | extended _ _ => true
  | firstPacket _ _ _ | roundTrip _ _ => false

namespace Rtcp.Compound

/-- Some bytes that are extended reports which can be parsed, one after the other, and nothing
else. -/
def IsConsumed (bytes : Bytes) : Prop :=
  bytes ≠ [] ∧ ∃ subs : List Bytes, bytes = subs.flatten ∧
    ∀ sub ∈ subs, IsSubPacket sub ∧ (parsedReport? sub).isSome

/-- The sub-packets that are no extended reports or cannot be parsed, and the bytes behind the last
one. -/
def withoutReports (bytes : Bytes) : Bytes :=
  ((subPackets bytes).filter fun sub => (parsedReport? sub).isNone).flatten ++ trailing bytes

/-- There is nothing to take out of what is no control packet, and no message to read in it. -/
theorem of_not_isControl {bytes : Bytes} (h : isControl bytes = false) :
    subPackets bytes = [] ∧ withoutReports bytes = bytes ∧ Compound.read bytes = [] := by
  have hnext := next?_of_not_isControl h
  have hwalk := walk_of_next?_none hnext
  have hsubs : subPackets bytes = [] := congrArg Prod.fst hwalk
  have hend : trailing bytes = bytes := congrArg Prod.snd hwalk
  refine ⟨hsubs, ?_, read_of_next?_none hnext⟩
  rw [withoutReports, hsubs, hend]
  rfl

theorem IsSubPacket.ne_nil {sub : Bytes} (h : IsSubPacket sub) : sub ≠ [] := by
  rintro rfl
  cases h

theorem isConsumed_iff_subPackets {bytes : Bytes} :
    IsConsumed bytes ↔ subPackets bytes ≠ [] ∧ trailing bytes = [] ∧
      ∀ sub ∈ subPackets bytes, (parsedReport? sub).isSome := by
  constructor
  · rintro ⟨hne, subs, rfl, hsubs⟩
    have hwalk := walk_flatten fun sub hsub => (hsubs sub hsub).1
    rw [subPackets, trailing, hwalk]
    refine ⟨?_, rfl, fun sub hsub => (hsubs sub hsub).2⟩
    rintro rfl
    exact hne rfl
  · rintro ⟨hne, hend, hreports⟩
    have hbytes := flatten_walk bytes
    rw [hend, List.append_nil] at hbytes
    refine ⟨?_, subPackets bytes, hbytes.symm,
      fun sub hsub => ⟨isSubPacket_of_mem_subPackets hsub, hreports sub hsub⟩⟩
    rintro rfl
    rw [subPackets, walk_of_next?_none rfl] at hne
    exact hne rfl

/-- Nothing is left without the reports if there is nothing else: no sub-packet is empty. -/
theorem withoutReports_eq_nil_iff {bytes : Bytes} :
    withoutReports bytes = [] ↔
      trailing bytes = [] ∧ ∀ sub ∈ subPackets bytes, (parsedReport? sub).isSome := by
  rw [withoutReports, List.append_eq_nil_iff, List.flatten_eq_nil_iff, and_comm]
  refine and_congr_right fun _ => forall_congr' fun sub => ?_
  rw [List.mem_filter]
  constructor
  · intro h hsub
    by_contra hreport
    have hnone := Option.isNone_iff_eq_none.2 (Option.not_isSome_iff_eq_none.1 hreport)
    exact (isSubPacket_of_mem_subPackets hsub).ne_nil (h ⟨hsub, hnone⟩)
  · rintro h ⟨hsub, hnone⟩
    rw [Option.isNone_eq_false_iff.2 (h hsub)] at hnone
    cases hnone

/-- The bytes are consumed when there is a report among them and nothing is left without the
reports. -/
theorem isConsumed_iff {bytes : Bytes} :
    IsConsumed bytes ↔
      (subPackets bytes).filterMap parsedReport? ≠ [] ∧ withoutReports bytes = [] := by
  rw [isConsumed_iff_subPackets, withoutReports_eq_nil_iff]
  refine and_congr_left fun ⟨_, hreports⟩ => not_congr ?_
  rw [List.filterMap_eq_nil_iff, List.eq_nil_iff_forall_not_mem]
  refine forall_congr' fun sub => ⟨fun h hsub => absurd hsub h, fun h hsub => ?_⟩
  exact Option.not_isSome_iff_eq_none.2 (h hsub) (hreports sub hsub)

end Rtcp.Compound

open Compound StoreOperation

namespace Packet

theorem bytes_extractReports_eq (p : Packet) :
    p.extractReports.1.bytes = withoutReports p.bytes := by
  rw [bytes_extractReports, kept_eq_filter, withoutReports]

theorem map_extractReports (p : Packet) :
    p.extractReports.2.map Message.extendedReport =
      (subPackets p.bytes).filterMap parsedReport? := by
  rw [reports_extractReports, List.map_filterMap]
  exact List.filterMap_congr fun sub _ => (parsedReport?_eq sub).symm

end Packet

namespace Engine

/-- Of what messages do to the store, the reports are those that the messages are. -/
theorem filter_messageOperations (e : Engine) (messages : List Message) :
    (messages.flatMap e.messageOperations).filter passesReport =
      (messages.filterMap Report.ofMessage?).map (.report .received) := by
  induction messages with
  | nil => rfl
  | cons m messages ih =>
    obtain ⟨trips, htrips⟩ := e.exists_messageOperations m
    have hnone : (trips.map fun trip => roundTrip trip.1 trip.2).filter passesReport = [] := by
      refine List.filter_eq_nil_iff.2 fun op hop => ?_
      obtain ⟨trip, -, rfl⟩ := List.mem_map.1 hop
      exact Bool.false_ne_true
    rw [List.flatMap_cons, List.filter_append, ih, htrips, List.filter_append, hnone,
      List.nil_append]
    cases hm : Report.ofMessage? m with
    | none => rw [List.filterMap_cons_none hm]; rfl
    | some r => rw [List.filterMap_cons_some hm]; rfl

theorem filter_receivedOperations (e : Engine) (p : Packet) :
    (e.receivedOperations p).filter passesReport =
      p.incomingReports.map (.report .received) ++
        p.extractReports.2.map (.extended .received) := by
  have hextended : (p.extractReports.2.map (extended .received)).filter passesReport =
      p.extractReports.2.map (.extended .received) := by
    refine List.filter_eq_self.2 fun op hop => ?_
    obtain ⟨x, -, rfl⟩ := List.mem_map.1 hop
    rfl
  rw [receivedOperations, List.filter_append, filter_messageOperations, hextended]
  rfl

section Incoming

variable (reactions : Reactions) (now : Instant) (e : Engine) (p : Packet)

theorem packet_incoming_eq_none_iff :
    (e.incoming reactions now p).packet = none ↔ IsConsumed p.bytes := by
  rw [isConsumed_iff, ← Packet.map_extractReports, ← Packet.bytes_extractReports_eq, ne_eq,
    List.map_eq_nil_iff]
  cases hcontrol : isControl p.bytes with
  | true =>
    rw [(e.incoming_of_isControl reactions now hcontrol).1, ← Packet.isEmpty_iff]
    split
    next h => exact iff_of_true rfl h
    next h => exact iff_of_false nofun h
  | false =>
    rw [e.incoming_of_not_isControl reactions now hcontrol]
    refine iff_of_false nofun fun h => h.1 ?_
    rw [Packet.reports_extractReports, (of_not_isControl hcontrol).1]
    rfl

theorem bytes_incoming {q : Packet} (h : (e.incoming reactions now p).packet = some q) :
    q.bytes = withoutReports p.bytes := by
  cases hcontrol : isControl p.bytes with
  | true =>
    rw [(e.incoming_of_isControl reactions now hcontrol).1] at h
    split at h
    next => cases h
    next =>
      cases h
      exact p.bytes_extractReports_eq
  | false =>
    rw [e.incoming_of_not_isControl reactions now hcontrol] at h
    cases h
    exact (of_not_isControl hcontrol).2.1.symm

theorem store_incoming :
    (e.incoming reactions now p).engine.store =
      (e.store.applyAll reactions now (e.incoming reactions now p).operations).1 := by
  cases hcontrol : isControl p.bytes with
  | true =>
    rw [(e.incoming_of_isControl reactions now hcontrol).2.2.2.1,
      operations_incoming reactions now e hcontrol]
  | false =>
    rw [e.incoming_of_not_isControl reactions now hcontrol]
    rfl

/-- The reports that an incoming packet passes to the store. -/
theorem filter_operations_incoming :
    (e.incoming reactions now p).operations.filter passesReport =
      ((Compound.read (withoutReports p.bytes)).filterMap Report.ofMessage?).map
          (.report .received) ++
        p.extractReports.2.map (.extended .received) := by
  cases hcontrol : isControl p.bytes with
  | true =>
    rw [operations_incoming reactions now e hcontrol, filter_receivedOperations,
      Packet.incomingReports, Packet.bytes_extractReports_eq]
  | false =>
    obtain ⟨hsubs, hrest, hread⟩ := of_not_isControl hcontrol
    rw [e.incoming_of_not_isControl reactions now hcontrol, hrest, hread,
      Packet.reports_extractReports, hsubs]
    cases p.ssrc <;> rfl

end Incoming

/-- An incoming packet is processed in its buffer to its end, and it is dropped exactly when it is
made of extended reports that can be parsed. Any other packet is passed on without these, and one
that is no control packet as it came. The store is passed the reports that are read in what is left,
and then those that were taken out. -/
theorem incoming_consumes (reactions : Reactions) (now : Instant) (e : Engine) (p : Packet) :
    let out := e.incoming reactions now p
    let rest := withoutReports p.bytes
    e.incomingInPlace reactions now p = .ok out ∧
      (out.packet = none ↔ IsConsumed p.bytes) ∧
      (∀ q, out.packet = some q → q.bytes = rest) ∧
      (isControl p.bytes = false → out.packet = some p) ∧
      out.engine.store = (e.store.applyAll reactions now out.operations).1 ∧
      ∃ removed : List ExtendedReport,
        removed.map .extendedReport = (subPackets p.bytes).filterMap parsedReport? ∧
          out.operations.filter passesReport =
            ((Compound.read rest).filterMap Report.ofMessage?).map (.report .received) ++
              removed.map (.extended .received) := by
  refine ⟨e.incomingInPlace_eq reactions now p, e.packet_incoming_eq_none_iff reactions now p,
    fun q => e.bytes_incoming reactions now p, fun hmedia => ?_, e.store_incoming reactions now p,
    p.extractReports.2, p.map_extractReports, e.filter_operations_incoming reactions now p⟩
  rw [e.incoming_of_not_isControl reactions now hmedia]
  rfl

/-- Two extended reports and nothing else. -/
def onlyReports : Packet :=
  .ofBytes (Packet.arrivalTime.encode ++ Packet.emptyReport.encode)

/-- What is only extended reports is dropped, and the reports are stored. Of a packet that has a
receiver report in front of them, a report that cannot be parsed behind them and a stray byte, these
are passed on. -/
theorem incoming_consumes_onlyReports (reactions : Reactions) :
    (({} : Engine).incoming reactions 0 onlyReports).packet = none ∧
      (({} : Engine).incoming reactions 0 onlyReports).operations.filter passesReport =
        [.extended .received Packet.arrivalTime, .extended .received Packet.emptyReport] ∧
      ∃ q, (({} : Engine).incoming reactions 0 Packet.crowded).packet = some q ∧
        q.bytes = Packet.receiverReport ++ Packet.truncatedReport ++ [9] := by
  have hconsumed : IsConsumed onlyReports.bytes :=
    ⟨by decide, [Packet.arrivalTime.encode, Packet.emptyReport.encode], by decide,
      by decide +kernel⟩
  have hcrowded : withoutReports Packet.crowded.bytes =
      Packet.receiverReport ++ Packet.truncatedReport ++ [9] := by decide +kernel
  have hleft : (Compound.read (withoutReports onlyReports.bytes)).filterMap Report.ofMessage? =
      [] := by
    decide +kernel
  have htaken : (subPackets onlyReports.bytes).filterMap parsedReport? =
      [Packet.arrivalTime, Packet.emptyReport].map .extendedReport := by decide +kernel
  obtain ⟨-, hnone, -, -, -, removed, hremoved, hoperations⟩ :=
    incoming_consumes reactions 0 {} onlyReports
  obtain ⟨-, hpassed, hbytes, -⟩ := incoming_consumes reactions 0 {} Packet.crowded
  have hsame : removed = [Packet.arrivalTime, Packet.emptyReport] :=
    List.map_injective_iff.2 (fun _ _ => Message.extendedReport.inj) (hremoved.trans htaken)
  refine ⟨hnone.2 hconsumed, ?_, ?_⟩
  · rw [hoperations, hleft, hsame]
    rfl
  · have hsome := mt hpassed.1 fun h => absurd (isConsumed_iff.1 h).2 (by rw [hcrowded]; decide)
    obtain ⟨q, hq⟩ := Option.ne_none_iff_exists'.1 hsome
    exact ⟨q, hq, (hbytes q hq).trans hcrowded⟩

end Engine

end MediaTransport
