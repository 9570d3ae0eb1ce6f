import MediaTransport.Engine.Stage
import MediaTransport.Proofs.Engine.Consumption
import MediaTransport.Proofs.Engine.Coverage

/-!
# Round trip times of a run

An engine sees packets cross it in both directions, in any order. What bears on the round trip time
of one source is little (`Crossing.signs`): the sequence numbers of the media packets of the source
that go out, and what the sender reports that come in say of it in their first block. A run works
through these signs one by one (`estimate_run`), and all else passes without a trace. So the
estimate goes by the last such report that has a media packet of the source before it, and by the
last of these packets (`roundTrip_run`).

The engine looks for sender reports once the extended reports are out. It finds those that the
packet came with, except behind one of the removed that has more padding than it is long: there a
reader of the whole packet stops (`filterMap_firstSeen?_withoutReports`).
-/

namespace MediaTransport

open Rtcp Quality Compound StoreOperation

/-! ## The formula -/

/-- The estimate in plain numbers, for a packet time that leaves room for the product. -/
theorem toNat_roundTripBySequence {millis : Nat} (h : millis < 2 ^ 47) (last : UInt16)
    (maxSeq : UInt32) :
    (roundTripBySequence last maxSeq (.ofNat millis)).toNat =
      min ((last.toNat - maxSeq.toNat % 65536) * millis) 4294967295 := by
  simp only [roundTripBySequence]
  have hlast := last.toNat_lt
  generalize hbehind : last.toNat - maxSeq.toNat % 65536 = behind
  have hproduct : behind * millis < 2 ^ 63 := by
    calc
      behind * millis ≤ 65535 * (2 ^ 47 - 1) := Nat.mul_le_mul (by omega) (by omega)
      _ < 2 ^ 63 := by decide
  have hmin : min (Int64.ofNat behind * Int64.ofNat millis) 4294967295 =
      Int64.ofNat (min (behind * millis) 4294967295) := by
    rw [← Int64.ofNat_mul]
    have hle := Int64.ofNat_le_iff_le hproduct (by decide : 4294967295 < 2 ^ 63)
    show (if Int64.ofNat (behind * millis) ≤ Int64.ofNat 4294967295 then _
      else Int64.ofNat 4294967295) = _
    by_cases hsmall : behind * millis ≤ 4294967295
    · rw [if_pos (hle.2 hsmall), Nat.min_eq_left hsmall]
    · rw [if_neg (mt hle.1 hsmall), Nat.min_eq_right (Nat.le_of_not_le hsmall)]
  rw [hmin, Int64.toUInt64_ofNat', UInt64.toNat_toUInt32, UInt64.toNat_ofNat']
  omega

/-! ## Signs of one source -/

/-- What bears on the round trip time of a source. -/
inductive TripSign where
  /-- A media packet of the source went out. -/
  | sent (seq : UInt16)
  /-- The other side has seen its packets up to this one. -/
  | seen (maxSeq : UInt32)
  deriving DecidableEq, Repr

/-- What an engine has of a source: the last sequence number sent, and the round trip time. -/
structure TripEstimate where
  last : Option UInt16 := none
  trip : Option UInt32 := none
  deriving DecidableEq, Repr

namespace TripEstimate

/-- What the engine has after one more sign. What the other side has seen says nothing before a
packet is sent. -/
def after (packetTime : Int64) (x : TripEstimate) : TripSign → TripEstimate
  | .sent seq => { x with last := some seq }
  | .seen maxSeq =>
    { x with trip := (x.last.map fun last => roundTripBySequence last maxSeq packetTime).or x.trip }

variable {packetTime : Int64} {x : TripEstimate} {signs : List TripSign}

theorem last_foldl_of_unsent (h : ∀ seq, .sent seq ∉ signs) :
    (signs.foldl (after packetTime) x).last = x.last := by
  induction signs generalizing x with
  | nil => rfl
  | cons sign signs ih =>
    have hrest :=
      ih (x := x.after packetTime sign) fun seq hmem => h seq (List.mem_cons_of_mem _ hmem)
    rw [List.foldl_cons, hrest]
    cases sign with
    | sent seq => exact absurd List.mem_cons_self (h seq)
    | seen maxSeq => rfl

theorem trip_foldl_of_unseen (h : ∀ maxSeq, .seen maxSeq ∉ signs) :
    (signs.foldl (after packetTime) x).trip = x.trip := by
  induction signs generalizing x with
  | nil => rfl
  | cons sign signs ih =>
    have hrest :=
      ih (x := x.after packetTime sign) fun seq hmem => h seq (List.mem_cons_of_mem _ hmem)
    rw [List.foldl_cons, hrest]
    cases sign with
    | sent seq => rfl
    | seen maxSeq => exact absurd List.mem_cons_self (h maxSeq)

/-- What is seen before anything is sent leaves no trace. -/
theorem trip_foldl_of_early (hlast : x.last = none)
    (h : ∀ earlier maxSeq later, signs = earlier ++ .seen maxSeq :: later →
      ∀ seq, .sent seq ∉ earlier) :
    (signs.foldl (after packetTime) x).trip = x.trip := by
  induction signs generalizing x with
  | nil => rfl
  | cons sign signs ih =>
    rw [List.foldl_cons]
    cases sign with
    | sent seq =>
      refine trip_foldl_of_unseen fun maxSeq hmem => ?_
      obtain ⟨earlier, later, rfl⟩ := List.append_of_mem hmem
      exact h (.sent seq :: earlier) maxSeq later rfl seq List.mem_cons_self
    | seen maxSeq =>
      have hsame : x.after packetTime (.seen maxSeq) = x := by
        obtain ⟨last, trip⟩ := x
        cases hlast
        rfl
      rw [hsame]
      refine ih hlast fun earlier maxSeq' later hsigns seq hmem => ?_
      refine h (.seen maxSeq :: earlier) maxSeq' later (by rw [hsigns]; rfl) seq ?_
      exact List.mem_cons_of_mem _ hmem

/-- Of what is seen the last counts, against the last that was sent before it. -/
theorem trip_foldl_of_last {first between later : List TripSign} {seq : UInt16} {maxSeq : UInt32}
    (hbetween : ∀ other, .sent other ∉ between) (hlater : ∀ other, .seen other ∉ later) :
    ((first ++ .sent seq :: (between ++ .seen maxSeq :: later)).foldl (after packetTime) x).trip =
      some (roundTripBySequence seq maxSeq packetTime) := by
  rw [List.foldl_append, List.foldl_cons, List.foldl_append, List.foldl_cons,
    trip_foldl_of_unseen hlater]
  simp only [after, last_foldl_of_unsent hbetween, Option.map_some, Option.some_or]

/-- What is seen between two packets goes by the first of them. -/
theorem foldl_seen (reports : List UInt32) :
    (reports.map .seen).foldl (after packetTime) x =
      { x with trip := (reports.filterMap fun maxSeq =>
          x.last.map fun last =>
            roundTripBySequence last maxSeq packetTime).getLast?.or x.trip } := by
  induction reports using List.reverseRecOn with
  | nil => rfl
  | append_singleton reports maxSeq ih =>
    rw [List.map_append, List.foldl_append, ih, List.filterMap_append, List.getLast?_append,
      Option.or_assoc]
    cases x.last with
    | none => rfl
    | some last => rfl

end TripEstimate

namespace Rtcp

/-- The highest sequence number that a sender report has of a source, if its first block is about
that. -/
def Message.firstSeen? (ssrc : Ssrc) : Message → Option UInt32
  | .senderReport r =>
    (r.reports.get? 0).bind fun first => if first.ssrc = ssrc then some first.maxSeq else none
  | .receiverReport _ | .goodbye _ | .extendedReport _ => none

/-- What has the type of an extended report is read as no sender report. -/
theorem Compound.firstSeen?_of_extendedReport {sub : Bytes}
    (h : sub[1]? = some PacketType.extendedReport.toByte) (ssrc : Ssrc) :
    (message? sub).bind (Message.firstSeen? ssrc) = none := by
  refine Option.bind_eq_none_iff.2 fun m hm => ?_
  have htype := getElem?_of_message? hm
  rw [h, Option.some_inj] at htype
  cases m with
  | senderReport r => cases PacketType.toByte_inj.1 htype
  | receiverReport r => rfl
  | goodbye g => rfl
  | extendedReport x => rfl

/-- Where all padding fits, the sender reports are read alike with the extended reports and without
them. -/
theorem Compound.filterMap_firstSeen?_withoutReports {bytes : Bytes}
    (hfits : ∀ sub ∈ subPackets bytes, (unpadded? sub).isSome) (ssrc : Ssrc) :
    (Compound.read (withoutReports bytes)).filterMap (Message.firstSeen? ssrc) =
      (Compound.read bytes).filterMap (Message.firstSeen? ssrc) := by
  have hkept : ∀ sub ∈ (subPackets bytes).filter fun sub => (parsedReport? sub).isNone,
      sub ∈ subPackets bytes := fun sub hsub => List.mem_of_mem_filter hsub
  rw [withoutReports, read_eq_filterMap hfits,
    read_flatten_append (fun sub hsub => isSubPacket_of_mem_subPackets (hkept sub hsub))
      (fun sub hsub => hfits sub (hkept sub hsub)) (next?_trailing bytes),
    List.filterMap_filterMap, List.filterMap_filterMap, List.filterMap_filter]
  refine List.filterMap_congr fun sub _ => ?_
  cases htaken : parsedReport? sub with
  | none => rfl
  | some m =>
    rw [parsedReport?] at htaken
    exact (firstSeen?_of_extendedReport (Option.ite_none_right_eq_some.1 htaken).1 ssrc).symm

end Rtcp

/-- A packet that crosses an engine, on its way out or on its way in. -/
inductive Crossing where
  | outgoing (reactions : Reactions) (now : Instant) (p : Packet)
  | incoming (reactions : Reactions) (now : Instant) (p : Packet)

namespace Crossing

/-- What a packet says of a source, in order. -/
def signs (ssrc : Ssrc) : Crossing → List TripSign
  | .outgoing _ _ p =>
    if isControl p.bytes = false ∧ Packet.fixedHeaderLength ≤ p.bytes.length ∧
        p.ssrc = some ssrc then
      p.sequenceNumber.toList.map .sent
    else []
  | .incoming _ _ p =>
    ((Compound.read (withoutReports p.bytes)).filterMap (Message.firstSeen? ssrc)).map .seen

/-- A packet has nothing to do with a source: it goes out and is no media packet of it, or comes in
and has no sender report whose first block is about it. -/
def IsUnrelated (ssrc : Ssrc) : Crossing → Prop
  | .outgoing _ _ p => isControl p.bytes = true ∨ p.ssrc ≠ some ssrc
  | .incoming _ _ p => ∀ r, .senderReport r ∈ Compound.read (withoutReports p.bytes) →
    ∀ first, r.reports.get? 0 = some first → first.ssrc ≠ ssrc

theorem signs_of_isUnrelated {ssrc : Ssrc} {c : Crossing} (h : c.IsUnrelated ssrc) :
    c.signs ssrc = [] := by
  cases c with
  | outgoing reactions now p =>
    rw [signs, if_neg]
    rintro ⟨hmedia, -, hssrc⟩
    rcases h with hcontrol | hother
    · rw [hmedia] at hcontrol
      cases hcontrol
    · exact hother hssrc
  | incoming reactions now p =>
    rw [signs, List.map_eq_nil_iff, List.filterMap_eq_nil_iff]
    intro m hm
    cases m with
    | senderReport r =>
      refine Option.bind_eq_none_iff.2 fun first hfirst => ?_
      rw [if_neg (h r hm first hfirst)]
    | receiverReport r => rfl
    | goodbye g => rfl
    | extendedReport x => rfl

end Crossing

/-- A packet with a source has a sequence number before it. -/
theorem Packet.exists_sequenceNumber {p : Packet} {ssrc : Ssrc} (h : p.ssrc = some ssrc) :
    fixedHeaderLength ≤ p.bytes.length ∧ ∃ seq, p.sequenceNumber = some seq := by
  unfold Packet.ssrc at h
  unfold sequenceNumber
  generalize p.bytes = bytes at h ⊢
  iterate 12
    rcases bytes with _ | ⟨_, bytes⟩
    · cases h
  exact ⟨by simp [fixedHeaderLength], _, rfl⟩

/-- Operations that set no round trip time of a source leave it. -/
theorem ReportStore.get?_roundTrips_of_forall {reactions : Reactions} {now : Instant} {ssrc : Ssrc}
    {ops : List StoreOperation} (h : ∀ op ∈ ops, op.trip? ssrc = none) (s : ReportStore) :
    (s.applyAll reactions now ops).1.roundTrips.get? ssrc = s.roundTrips.get? ssrc := by
  rw [get?_roundTrips_applyAll, List.filterMap_eq_nil_iff.2 h]
  rfl

/-! ## Runs -/

namespace Engine

/-- The engine after a packet has crossed it. -/
def cross (e : Engine) : Crossing → Engine
  | .outgoing reactions now p => ((stage reactions).outgoing now { engine := e } p).2.engine
  | .incoming reactions now p => ((stage reactions).incoming now { engine := e } p).2.engine

/-- The engine after packets have crossed it one after the other. -/
def run (e : Engine) (crossings : List Crossing) : Engine := crossings.foldl cross e

/-- What the engine has of a source. -/
def estimate (e : Engine) (ssrc : Ssrc) : TripEstimate where
  last := e.lastSent.get? ssrc
  trip := e.store.roundTrips.get? ssrc

/-- The length of a packet in the estimates of an engine. -/
def packetTime (e : Engine) : Int64 := .ofNat e.config.packetTime.millis

section Step

variable {reactions : Reactions} {now : Instant} {e : Engine} {p : Packet} {ssrc : Ssrc}

/-- What sets no round trip time of a source leaves what the engine has of it. -/
theorem estimate_pass {ops : List StoreOperation} (h : ∀ op ∈ ops, op.trip? ssrc = none)
    (packet : Option Packet) :
    (e.pass reactions now ops packet).engine.estimate ssrc = e.estimate ssrc :=
  congrArg (TripEstimate.mk _) (e.store.get?_roundTrips_of_forall h)

theorem trip?_of_mem_sentOperations {bytes : Bytes} {op : StoreOperation}
    (h : op ∈ sentOperations bytes) : op.trip? ssrc = none := by
  obtain ⟨m, -, hm⟩ := List.mem_filterMap.1 h
  obtain ⟨r, -, rfl⟩ := Option.map_eq_some_iff.1 hm
  rfl

/-- A control packet on its way out sets no round trip time. -/
theorem estimate_outgoing_control (hcontrol : isControl p.bytes = true) {out : Passage}
    (h : e.outgoing reactions now p = .ok out) :
    out.engine.config = e.config ∧ out.engine.estimate ssrc = e.estimate ssrc := by
  simp only [outgoing, hcontrol, if_true, bind, Except.bind] at h
  split at h
  next => cases h
  next added _ =>
    cases h
    refine ⟨rfl, estimate_pass (fun op hop => ?_) (some added.1)⟩
    rcases List.mem_append.1 hop with hreport | hextended
    · exact trip?_of_mem_sentOperations hreport
    · obtain ⟨x, -, rfl⟩ := List.mem_map.1 hextended
      rfl

/-- A media packet on its way out with a source is the last of it. -/
theorem outgoing_of_source {source : Ssrc} {seq : UInt16} (hmedia : isControl p.bytes = false)
    (hssrc : p.ssrc = some source) (hseq : p.sequenceNumber = some seq) :
    e.outgoing reactions now p =
      .ok (({ e with lastSent := e.lastSent.insert source seq } : Engine).pass reactions now
        [.firstPacket .sent source now] p) := by
  unfold outgoing
  rw [hmedia, hssrc, hseq]
  rfl

theorem outgoing_of_no_source (hmedia : isControl p.bytes = false) (hssrc : p.ssrc = none) :
    e.outgoing reactions now p = .ok (e.pass reactions now [] p) := by
  unfold outgoing
  rw [hmedia, hssrc]
  rfl

/-- What a packet on its way out does to an engine. -/
theorem estimate_outgoing {out : Passage} (h : e.outgoing reactions now p = .ok out) :
    out.engine.config = e.config ∧
      out.engine.estimate ssrc =
        ((Crossing.outgoing reactions now p).signs ssrc).foldl (.after e.packetTime)
          (e.estimate ssrc) := by
  cases hcontrol : isControl p.bytes with
  | true =>
    have hsigns : (Crossing.outgoing reactions now p).signs ssrc = [] :=
      Crossing.signs_of_isUnrelated (.inl hcontrol)
    rw [hsigns]
    exact estimate_outgoing_control hcontrol h
  | false =>
    cases hssrc : p.ssrc with
    | none =>
      have hsigns : (Crossing.outgoing reactions now p).signs ssrc = [] :=
        Crossing.signs_of_isUnrelated (.inr (by rw [hssrc]; exact nofun))
      rw [hsigns]
      rw [outgoing_of_no_source hcontrol hssrc] at h
      cases h
      exact ⟨rfl, rfl⟩
    | some source =>
      obtain ⟨hlen, seq, hseq⟩ := Packet.exists_sequenceNumber hssrc
      rw [outgoing_of_source hcontrol hssrc hseq] at h
      cases h
      refine ⟨rfl, ?_⟩
      have htrip :
          (e.store.applyAll reactions now [.firstPacket .sent source now]).1.roundTrips.get? ssrc =
            e.store.roundTrips.get? ssrc :=
        e.store.get?_roundTrips_of_forall (List.forall_mem_singleton.2 rfl)
      refine (congrArg (TripEstimate.mk ((e.lastSent.insert source seq).get? ssrc)) htrip).trans ?_
      rw [Table.get?_insert]
      by_cases hsame : ssrc = source
      · subst hsame
        have hsigns : (Crossing.outgoing reactions now p).signs ssrc = [.sent seq] := by
          rw [Crossing.signs, if_pos ⟨hcontrol, hlen, hssrc⟩, hseq]
          rfl
        rw [hsigns, if_pos rfl]
        rfl
      · have hsigns : (Crossing.outgoing reactions now p).signs ssrc = [] := by
          refine Crossing.signs_of_isUnrelated (.inr fun hother => hsame ?_)
          exact Option.some_inj.1 (hother.symm.trans hssrc)
        rw [hsigns, if_neg hsame]
        rfl

/-- What a message does to the round trip time of a source. -/
theorem filterMap_trip?_messageOperations (m : Message) :
    (e.messageOperations m).filterMap (trip? ssrc) =
      ((m.firstSeen? ssrc).bind fun maxSeq =>
        (e.lastSent.get? ssrc).map fun last =>
          roundTripBySequence last maxSeq e.packetTime).toList := by
  cases m with
  | senderReport r =>
    simp only [messageOperations, Message.firstSeen?]
    cases r.reports.get? 0 with
    | none => rfl
    | some first =>
      simp only [Option.bind_some]
      by_cases hssrc : first.ssrc = ssrc
      · subst hssrc
        cases hlast : e.lastSent.get? first.ssrc with
        | none => simp [trip?, Report.ofMessage?]
        | some last => simp [trip?, Report.ofMessage?, packetTime]
      · cases hlast : e.lastSent.get? first.ssrc with
        | none => simp [hssrc, trip?, Report.ofMessage?]
        | some last => simp [hssrc, trip?, Report.ofMessage?]
  | receiverReport r => rfl
  | goodbye g => rfl
  | extendedReport x => rfl

/-- What a packet on its way in does to an engine. -/
theorem estimate_incoming :
    (e.incoming reactions now p).engine.config = e.config ∧
      (e.incoming reactions now p).engine.estimate ssrc =
        ((Crossing.incoming reactions now p).signs ssrc).foldl (.after e.packetTime)
          (e.estimate ssrc) := by
  rw [Crossing.signs, TripEstimate.foldl_seen]
  cases hcontrol : isControl p.bytes with
  | true =>
    obtain ⟨-, hconfig, hlast, hstore, -⟩ := e.incoming_of_isControl reactions now hcontrol
    refine ⟨hconfig, ?_⟩
    have htrips : (e.receivedOperations p).filterMap (trip? ssrc) =
        ((Compound.read (withoutReports p.bytes)).filterMap (Message.firstSeen? ssrc)).filterMap
          fun maxSeq => (e.lastSent.get? ssrc).map fun last =>
            roundTripBySequence last maxSeq e.packetTime := by
      have hextended : (p.extractReports.2.map (.extended .received)).filterMap (trip? ssrc) =
          [] := by
        refine List.filterMap_eq_nil_iff.2 fun op hop => ?_
        obtain ⟨x, -, rfl⟩ := List.mem_map.1 hop
        rfl
      rw [receivedOperations, List.filterMap_append, hextended, List.append_nil,
        List.filterMap_flatMap, Packet.bytes_extractReports_eq, List.filterMap_filterMap,
        List.filterMap_eq_flatMap_toList]
      exact List.flatMap_congr fun m _ => filterMap_trip?_messageOperations m
    rw [estimate, hlast, hstore, ReportStore.get?_roundTrips_applyAll, htrips]
    rfl
  | false =>
    rw [(of_not_isControl hcontrol).2.1, (of_not_isControl hcontrol).2.2,
      e.incoming_of_not_isControl reactions now hcontrol]
    refine ⟨rfl, congrArg (TripEstimate.mk _) (e.store.get?_roundTrips_of_forall fun op hop => ?_)⟩
    obtain ⟨ssrc, -, rfl⟩ := List.mem_map.1 hop
    rfl

end Step

/-- A packet leaves the settings, and its signs are all that bears on a source. -/
theorem estimate_cross (e : Engine) (c : Crossing) (ssrc : Ssrc) :
    (e.cross c).config = e.config ∧
      (e.cross c).estimate ssrc = (c.signs ssrc).foldl (.after e.packetTime) (e.estimate ssrc) := by
  cases c with
  | outgoing reactions now p =>
    cases hout : e.outgoing reactions now p with
    | ok out =>
      have hcross : e.cross (.outgoing reactions now p) = out.engine := by
        simp only [cross, stage, hout]
        rfl
      rw [hcross]
      exact estimate_outgoing hout
    | error fault =>
      have hcross : e.cross (.outgoing reactions now p) =
          (e.pass reactions now (sentOperations p.bytes) none).engine := by
        simp only [cross, stage, hout]
        rfl
      have hcontrol : isControl p.bytes = true := by
        by_contra hmedia
        obtain ⟨out, hends, -⟩ := outgoing_media reactions now e (Bool.eq_false_iff.2 hmedia)
        cases hout.symm.trans hends
      have hsigns : (Crossing.outgoing reactions now p).signs ssrc = [] :=
        Crossing.signs_of_isUnrelated (.inl hcontrol)
      rw [hcross, hsigns]
      exact ⟨rfl, estimate_pass (fun op hop => trip?_of_mem_sentOperations hop) none⟩
  | incoming reactions now p => exact estimate_incoming

/-- A run works through the signs of its packets. -/
theorem estimate_run (e : Engine) (crossings : List Crossing) (ssrc : Ssrc) :
    (e.run crossings).estimate ssrc =
      (crossings.flatMap (Crossing.signs ssrc)).foldl (.after e.packetTime) (e.estimate ssrc) := by
  induction crossings generalizing e with
  | nil => rfl
  | cons c crossings ih =>
    obtain ⟨hconfig, hestimate⟩ := e.estimate_cross c ssrc
    have htime : (e.cross c).packetTime = e.packetTime := by rw [packetTime, hconfig, packetTime]
    rw [List.flatMap_cons, List.foldl_append, ← hestimate, ← htime]
    exact ih (e.cross c)

/-- After any run of a new engine, the round trip time of a source goes by the last sender report on
it, in its first block, that has a media packet of it before it, and by the last such packet before
that: it is the time of as many packets as the other side has not seen of those. Without such a
report there is none. Packets that have nothing to do with the source make no difference. -/
theorem roundTrip_run (config : StatisticsConfig) (provider : StatsProvider)
    (listeners : List ListenerId) (htime : config.packetTime.millis < 2 ^ 47)
    (crossings : List Crossing) (ssrc : Ssrc) :
    let e : Engine := { config, provider, store := { listeners } }
    let signs := crossings.flatMap (Crossing.signs ssrc)
    let roundTrip := (e.run crossings).store.roundTrip ssrc
    ((∀ earlier maxSeq later, signs = earlier ++ .seen maxSeq :: later →
        ∀ seq, .sent seq ∉ earlier) → roundTrip = 0) ∧
      (∀ first seq between maxSeq later,
        signs = first ++ .sent seq :: (between ++ .seen maxSeq :: later) →
        (∀ other, .sent other ∉ between) → (∀ other, .seen other ∉ later) →
        roundTrip.toNat =
          min ((seq.toNat - maxSeq.toNat % 65536) * config.packetTime.millis) 4294967295) ∧
      ∀ before c after, crossings = before ++ c :: after → c.IsUnrelated ssrc →
        (e.run (before ++ after)).store.roundTrip ssrc = roundTrip := by
  intro e signs roundTrip
  have hrun : ∀ crossings : List Crossing, (e.run crossings).store.roundTrip ssrc =
      ((crossings.flatMap (Crossing.signs ssrc)).foldl (TripEstimate.after e.packetTime)
        {}).trip.getD 0 :=
    fun crossings => congrArg (fun x => x.trip.getD 0) (e.estimate_run crossings ssrc)
  have htrip : roundTrip = (signs.foldl (TripEstimate.after e.packetTime) {}).trip.getD 0 :=
    hrun crossings
  refine ⟨fun hearly => ?_, fun first seq between maxSeq later hsigns hbetween hlater => ?_, ?_⟩
  · rw [htrip, TripEstimate.trip_foldl_of_early rfl hearly]
    rfl
  · rw [htrip, hsigns, TripEstimate.trip_foldl_of_last hbetween hlater]
    exact toNat_roundTripBySequence htime seq maxSeq
  · intro before c after hcrossings hunrelated
    have hsame : signs = (before ++ after).flatMap (Crossing.signs ssrc) := by
      show crossings.flatMap _ = _
      rw [hcrossings, List.flatMap_append, List.flatMap_cons,
        Crossing.signs_of_isUnrelated hunrelated, List.nil_append, List.flatMap_append]
    rw [hrun, htrip, hsame]

/-- A media packet of source 2 with the given low byte of its sequence number. -/
def mediaOf (low : UInt8) : Packet := .ofBytes [0x80, 0, 3, low, 0, 0, 0, 0, 0, 0, 0, 2]

/-- A sender report of source 1 that has seen source 2 up to the packet 1000, in its second
round. -/
def senderReport : Packet :=
  .ofBytes ([0x81, 200, 0, 12, 0, 0, 0, 1] ++ List.replicate 20 0 ++
    [0, 0, 0, 2, 0, 0, 0, 0, 0, 1, 3, 232] ++ List.replicate 12 0)

/-- The report comes before anything is sent, and again when five packets are under way, with a
receiver report between. -/
def call : List Crossing :=
  [.incoming (fun _ _ _ => []) 0 senderReport, .outgoing (fun _ _ _ => []) 1 (mediaOf 236),
    .outgoing (fun _ _ _ => []) 2 (mediaOf 237),
    .incoming (fun _ _ _ => []) 3 (.ofBytes (reportOn 2)),
    .incoming (fun _ _ _ => []) 4 senderReport, .outgoing (fun _ _ _ => []) 5 (mediaOf 238)]

theorem roundTrip_run_call :
    (({} : Engine).run (call.take 1)).store.roundTrip ⟨2⟩ = 0 ∧
      (({} : Engine).run call).store.roundTrip ⟨2⟩ = 100 ∧
      (({} : Engine).run (call.eraseIdx 3)).store.roundTrip ⟨2⟩ = 100 := by
  have hsigns : call.flatMap (Crossing.signs ⟨2⟩) =
      [.seen 66536, .sent 1004] ++
        .sent 1005 :: ([] ++ .seen 66536 :: [.sent 1006]) := by decide +kernel
  have hfirst : (call.take 1).flatMap (Crossing.signs ⟨2⟩) = [.seen 66536] := by decide +kernel
  have hreceiver : ∀ m ∈ Compound.read (withoutReports (Packet.ofBytes (reportOn 2)).bytes),
      m.firstSeen? ⟨2⟩ = none := by decide +kernel
  obtain ⟨hearly, -⟩ := roundTrip_run {} (fun _ _ => none) [] (by decide) (call.take 1) ⟨2⟩
  obtain ⟨-, hlast, hunrelated⟩ := roundTrip_run {} (fun _ _ => none) [] (by decide) call ⟨2⟩
  have hunseen : ∀ other, TripSign.seen other ∉ [TripSign.sent 1006] := by simp
  have htrip := (hlast _ _ _ _ _ hsigns nofun hunseen).trans (by decide : _ = (100 : UInt32).toNat)
  refine ⟨hearly fun earlier maxSeq later hsplit => ?_, UInt32.toNat_inj.1 htrip, ?_⟩
  · rw [hfirst] at hsplit
    obtain ⟨rfl, -⟩ | ⟨-, hnil⟩ := List.append_eq_singleton_iff.1 hsplit.symm
    · exact fun _ => List.not_mem_nil
    · cases hnil
  · refine (hunrelated (call.take 3) _ (call.drop 4) rfl fun r hr first hget hssrc => ?_).trans
      (UInt32.toNat_inj.1 htrip)
    have hnone := hreceiver _ hr
    simp only [Message.firstSeen?, hget, Option.bind_some, if_pos hssrc, reduceCtorEq] at hnone

end Engine

end MediaTransport
