import MediaTransport.Proofs.Engine.Readers
import MediaTransport.Proofs.ReportStore.Absorption

/-!
# A packet that comes in twice

The second of two equal packets is treated as the first: the same comes out, and the same is passed
to the store, round trip times included, since an incoming packet changes nothing that these are
worked out from. What becomes of it is up to the store (`ReportStore.Absorbs`), which absorbs all of
it where each originator says one thing in the packet. One that says several things, as it has to if
it reports on more sources than one report can, is stored and told of again
(`incoming_incoming_divided`).
-/

namespace MediaTransport

open Rtcp Compound StoreOperation

namespace Packet

/-- The sender and receiver reports that are read in an incoming packet. -/
def incomingReports (p : Packet) : List Report :=
  (Compound.read p.extractReports.1.bytes).filterMap Report.ofMessage?

theorem bytes_extractReports_congr {p q : Packet} (h : q.bytes = p.bytes) :
    q.extractReports.1.bytes = p.extractReports.1.bytes ∧
      q.extractReports.2 = p.extractReports.2 := by
  rw [bytes_extractReports, bytes_extractReports, reports_extractReports, reports_extractReports, h]
  exact ⟨rfl, rfl⟩

theorem isEmpty_congr {p q : Packet} (h : q.bytes = p.bytes) : q.isEmpty = p.isEmpty := by
  rw [Bool.eq_iff_iff, isEmpty_iff, isEmpty_iff, h]

end Packet

namespace ReportStore

/-- A store that stays as it is has absorbed anything. -/
theorem Absorbs.refl (reports : List Report) (xs : List ExtendedReport) (s : ReportStore) :
    Absorbs reports xs s s [] where
  roundTrip _ := rfl
  sent := rfl
  firstPacket := rfl
  report_value _ := rfl
  extended_value _ := rfl
  report _ _ := rfl
  extended _ _ := rfl
  untold _ hd := absurd hd List.not_mem_nil
  feedback _ _ := rfl
  voipMetrics _ _ := rfl
  all _ _ := ⟨rfl, fun _ => rfl⟩

end ReportStore

namespace Engine

open ReportStore

theorem isReceived_of_mem {e : Engine} {p : Packet} {op : StoreOperation}
    (h : op ∈ e.receivedOperations p) : op.IsReceived := by
  rcases List.mem_append.1 h with hmessage | hextended
  · obtain ⟨m, -, hop⟩ := List.mem_flatMap.1 hmessage
    obtain ⟨trips, htrips⟩ := e.exists_messageOperations m
    rw [htrips] at hop
    rcases List.mem_append.1 hop with htrip | hreport
    · obtain ⟨trip, -, rfl⟩ := List.mem_map.1 htrip
      exact trivial
    · obtain ⟨r, -, rfl⟩ := Option.map_eq_some_iff.1 (Option.mem_toList.1 hreport)
      exact rfl
  · obtain ⟨x, -, rfl⟩ := List.mem_map.1 hextended
    exact rfl

theorem reports_receivedOperations (e : Engine) (p : Packet) :
    (e.receivedOperations p).filterMap (report? .received) = p.incomingReports := by
  have h := reports_append .received
    ((Compound.read p.extractReports.1.bytes).flatMap e.messageOperations)
    (p.extractReports.2.map (.extended .received))
  rw [reports_messageOperations, reports_map_extended, List.append_nil] at h
  exact h

/-- Round trip times go by the settings and the packets sent. -/
theorem receivedOperations_congr {e e' : Engine} {p q : Packet} (hconfig : e'.config = e.config)
    (hlast : e'.lastSent = e.lastSent) (hq : q.bytes = p.bytes) :
    e'.receivedOperations q = e.receivedOperations p := by
  have hmessage : e'.messageOperations = e.messageOperations := by
    funext m
    unfold messageOperations
    rw [hconfig, hlast]
  unfold receivedOperations
  rw [hmessage, (Packet.bytes_extractReports_congr hq).1, (Packet.bytes_extractReports_congr hq).2]

/-- The first packet of a source that is known is not recorded. -/
theorem apply_firstPacket_of_known (reactions : Reactions) (now moment : Instant) {s : ReportStore}
    {ssrc : Ssrc} (h : (s.received.firstPacket.get? ssrc).isSome) :
    (s.apply reactions now (.firstPacket .received ssrc moment)).store = s := by
  obtain ⟨first, hfirst⟩ := Option.isSome_iff_exists.1 h
  simp only [apply, record, ReportSide.storeFirstPacket, side, hfirst]

theorem known_apply_firstPacket (reactions : Reactions) (now moment : Instant) (s : ReportStore)
    (ssrc : Ssrc) :
    ((s.apply reactions now (.firstPacket .received ssrc moment)).store.received.firstPacket.get?
      ssrc).isSome := by
  cases hfirst : s.received.firstPacket.get? ssrc with
  | some first =>
    rw [apply_firstPacket_of_known reactions now moment (by rw [hfirst]; rfl), hfirst]
    rfl
  | none =>
    simp only [apply, record, ReportSide.storeFirstPacket, side, hfirst, withSide,
      Table.get?_insert, if_true, Option.isSome_some]

section Incoming

variable (reactions : Reactions) (now : Instant) (e : Engine) {p q : Packet}

/-- What an incoming control packet does, and what it leaves as it is. -/
theorem incoming_of_isControl (h : isControl p.bytes = true) :
    (e.incoming reactions now p).packet =
        (if p.extractReports.2 ≠ [] ∧ p.extractReports.1.isEmpty then none
        else some p.extractReports.1) ∧
      (e.incoming reactions now p).engine.config = e.config ∧
      (e.incoming reactions now p).engine.lastSent = e.lastSent ∧
      (e.incoming reactions now p).engine.store =
        (e.store.applyAll reactions now (e.receivedOperations p)).1 ∧
      (e.incoming reactions now p).deliveries =
        (e.store.applyAll reactions now (e.receivedOperations p)).2 := by
  unfold incoming
  rw [if_pos h]
  exact ⟨rfl, rfl, rfl, rfl, rfl⟩

theorem incoming_of_not_isControl (h : isControl p.bytes = false) :
    e.incoming reactions now p =
      e.pass reactions now (p.ssrc.toList.map fun ssrc => .firstPacket .received ssrc now) p := by
  unfold incoming
  rw [h]
  cases p.ssrc <;> rfl

/-- A media packet passes, and the second time its source is known. -/
theorem incoming_incoming_media (again : Reactions) (later : Instant)
    (h : isControl p.bytes = false) (hq : q.bytes = p.bytes) :
    let first := e.incoming reactions now p
    let second := first.engine.incoming again later q
    first.packet = some p ∧ second.packet = some q ∧ second.engine.store = first.engine.store ∧
      second.deliveries = [] := by
  have hssrc : q.ssrc = p.ssrc := by
    unfold Packet.ssrc
    rw [hq]
  simp only [incoming_of_not_isControl again later _ (hq ▸ h),
    incoming_of_not_isControl reactions now e h, hssrc]
  cases p.ssrc with
  | none => exact ⟨rfl, rfl, rfl, rfl⟩
  | some ssrc =>
    have hknown := known_apply_firstPacket reactions now now e.store ssrc
    refine ⟨rfl, rfl, apply_firstPacket_of_known again later later hknown, ?_⟩
    exact (List.append_nil _).trans (deliveries_apply_of_notice?_eq_none again rfl _)

end Incoming

/-- The second of two equal packets that come in one after the other has the result of the first,
and the store absorbs it. -/
theorem incoming_incoming (reactions again : Reactions) (now later : Instant) (e : Engine)
    {p q : Packet} (hq : q.bytes = p.bytes) :
    let first := e.incoming reactions now p
    let second := first.engine.incoming again later q
    second.packet.map Packet.bytes = first.packet.map Packet.bytes ∧
      Absorbs p.incomingReports p.extractReports.2 first.engine.store second.engine.store
        second.deliveries := by
  intro first second
  cases hcontrol : isControl p.bytes with
  | false =>
    obtain ⟨hfirst, hsecond, hstore, hnobody⟩ :=
      e.incoming_incoming_media reactions now again later hcontrol hq
    refine ⟨?_, ?_⟩
    · rw [hfirst, hsecond, Option.map_some, Option.map_some, hq]
    · rw [hstore, hnobody]
      exact .refl ..
  | true =>
    obtain ⟨hpacket, hconfig, hlast, hstore, -⟩ := e.incoming_of_isControl reactions now hcontrol
    have hcontrol' : isControl q.bytes = true := hq ▸ hcontrol
    obtain ⟨hpacket', -, -, hstore', hdeliveries⟩ :=
      first.engine.incoming_of_isControl again later hcontrol'
    obtain ⟨hrest, hremoved⟩ := Packet.bytes_extractReports_congr hq
    refine ⟨?_, ?_⟩
    · rw [hpacket', hpacket, hremoved, Packet.isEmpty_congr hrest]
      split
      · rfl
      · exact congrArg some hrest
    · rw [hstore', hdeliveries, receivedOperations_congr hconfig hlast hq, hstore,
        ← e.reports_receivedOperations, ← e.extendedReports_receivedOperations]
      exact absorbs_again reactions again now later e.store fun op hop => isReceived_of_mem hop

/-- An engine that somebody listens to. -/
def heeded : Engine where
  store := { listeners := [7] }

/-- A receiver report of source 1 on the given source. -/
def reportOn (source : UInt8) : Bytes :=
  [0x81, 201, 0, 7, 0, 0, 0, 1, 0, 0, 0, source] ++ List.replicate 20 0

/-- The same report twice, and an extended report. -/
def agreed : Bytes :=
  reportOn 2 ++ reportOn 2 ++ [0x80, 207, 0, 4, 0, 0, 0, 1, 4, 0, 0, 2, 0, 0, 0, 0, 0, 0, 0, 9]

/-- Reports of one source on two others. -/
def divided : Bytes := reportOn 2 ++ reportOn 3

theorem incoming_incoming_agreed :
    let first := heeded.incoming (fun _ _ _ => []) 0 (.ofBytes agreed)
    let second := first.engine.incoming (fun _ _ _ => []) 5 (.ofBuffer (0 :: agreed) 1 84)
    first.deliveries.length = 2 ∧ second.deliveries = [] ∧
      ∀ direction, second.engine.store.side direction = first.engine.store.side direction := by
  have hq : (Packet.ofBuffer (0 :: agreed) 1 84).bytes = (Packet.ofBytes agreed).bytes := by decide
  have habsorbs := (incoming_incoming (fun _ _ _ => []) (fun _ _ _ => []) 0 5 heeded hq).2
  have hreports : ∀ a ∈ (Packet.ofBytes agreed).incomingReports,
      ∀ b ∈ (Packet.ofBytes agreed).incomingReports, a = b := by decide +kernel
  have hextended : ∀ a ∈ (Packet.ofBytes agreed).extractReports.2,
      ∀ b ∈ (Packet.ofBytes agreed).extractReports.2, a = b := by decide +kernel
  exact ⟨by decide +kernel, habsorbs.all (fun _ a ha b hb _ _ => hreports a ha b hb)
    fun _ a ha b hb _ _ => hextended a ha b hb⟩

/-- The second of two equal packets is told of again if a source says two things in it, and the
store has the latter of these at a later moment. -/
theorem incoming_incoming_divided :
    let first := heeded.incoming (fun _ _ _ => []) 0 (.ofBytes divided)
    let second := first.engine.incoming (fun _ _ _ => []) 5 (.ofBytes divided)
    second.deliveries.map (fun d => (d.listener, d.notice.ssrc)) = [(7, ⟨1⟩), (7, ⟨1⟩)] ∧
      (first.engine.store.received.reports.get? ⟨1⟩).map Stamped.moment = some 0 ∧
      (second.engine.store.received.reports.get? ⟨1⟩).map Stamped.moment = some 5 := by
  decide +kernel

end Engine

end MediaTransport
