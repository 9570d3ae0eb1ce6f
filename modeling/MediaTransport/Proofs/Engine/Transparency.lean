import MediaTransport.Proofs.Engine.Generation
import MediaTransport.Proofs.ReportStore.Calls
import MediaTransport.Proofs.Splice.RoundTrip

/-!
# The engine is transparent

What one engine puts into a control packet on its way out, the engine of the other side takes out on
its way in: the packet arrives as it was handed in, and the far store is passed the reports that the
near store was passed. Neither the state of an engine, its settings and its statistics, nor what the
listeners do plays a part in that.
-/

namespace MediaTransport

open Rtcp

namespace StoreOperation

/-- The reports that operations pass to the store in one direction. -/
def reports (direction : Direction) (ops : List StoreOperation) : List Report :=
  ops.filterMap (report? direction)

/-- The extended reports that operations pass to the store in one direction. -/
def extendedReports (direction : Direction) (ops : List StoreOperation) : List ExtendedReport :=
  ops.filterMap (extended? direction)

theorem reports_append (direction : Direction) (ops more : List StoreOperation) :
    reports direction (ops ++ more) = reports direction ops ++ reports direction more :=
  List.filterMap_append ..

theorem extendedReports_append (direction : Direction) (ops more : List StoreOperation) :
    extendedReports direction (ops ++ more) =
      extendedReports direction ops ++ extendedReports direction more :=
  List.filterMap_append ..

theorem reports_map_extended (direction : Direction) (xs : List ExtendedReport) :
    reports direction (xs.map (.extended direction)) = [] := by
  refine List.filterMap_eq_nil_iff.2 fun op hop => ?_
  obtain ⟨x, -, rfl⟩ := List.mem_map.1 hop
  rfl

theorem extendedReports_map_extended (direction : Direction) (xs : List ExtendedReport) :
    extendedReports direction (xs.map (.extended direction)) = xs := by
  unfold extendedReports
  rw [List.filterMap_map]
  have hsome : ∀ x ∈ xs, (extended? direction ∘ .extended direction) x = some x :=
    fun x _ => if_pos rfl
  rw [List.filterMap_congr hsome, List.filterMap_some]

end StoreOperation

namespace Engine

open StoreOperation Compound

/-! ## What is passed to the store -/

theorem reports_sentOperations (bytes : Bytes) :
    reports .sent (sentOperations bytes) = (Compound.read bytes).filterMap Report.ofMessage? := by
  unfold reports sentOperations
  rw [List.filterMap_filterMap]
  refine List.filterMap_congr fun m _ => ?_
  cases m <;> rfl

theorem extendedReports_sentOperations (bytes : Bytes) :
    extendedReports .sent (sentOperations bytes) = [] := by
  refine List.filterMap_eq_nil_iff.2 fun op hop => ?_
  obtain ⟨m, -, hop⟩ := List.mem_filterMap.1 hop
  obtain ⟨r, -, rfl⟩ := Option.map_eq_some_iff.1 hop
  rfl

/-- Besides its report, a message passes round trip times to the store and nothing else. -/
theorem exists_messageOperations (e : Engine) (m : Message) :
    ∃ trips : List (Ssrc × UInt32), e.messageOperations m =
      trips.map (fun trip => .roundTrip trip.1 trip.2) ++
        ((Report.ofMessage? m).map (.report .received)).toList := by
  cases m with
  | senderReport r =>
    simp only [messageOperations]
    cases r.reports.get? 0 with
    | none => exact ⟨[], rfl⟩
    | some first =>
      cases hlast : e.lastSent.get? first.ssrc with
      | none => exact ⟨[], by simp only [hlast]; rfl⟩
      | some last => exact ⟨[(first.ssrc, _)], by simp only [hlast]; rfl⟩
  | receiverReport r => exact ⟨[], rfl⟩
  | extendedReport x => exact ⟨[], rfl⟩
  | goodbye g => exact ⟨[], rfl⟩

theorem reports_messageOperations (e : Engine) (messages : List Message) :
    reports .received (messages.flatMap e.messageOperations) =
      messages.filterMap Report.ofMessage? := by
  induction messages with
  | nil => rfl
  | cons m messages ih =>
    obtain ⟨trips, htrips⟩ := e.exists_messageOperations m
    have hnone : reports .received (trips.map fun trip => .roundTrip trip.1 trip.2) = [] := by
      refine List.filterMap_eq_nil_iff.2 fun op hop => ?_
      obtain ⟨trip, -, rfl⟩ := List.mem_map.1 hop
      rfl
    rw [List.flatMap_cons, reports_append, ih, htrips, reports_append, hnone, List.nil_append]
    cases hm : Report.ofMessage? m with
    | none => rw [List.filterMap_cons_none hm]; rfl
    | some r => rw [List.filterMap_cons_some hm]; rfl

theorem extendedReports_messageOperations (e : Engine) (messages : List Message) :
    extendedReports .received (messages.flatMap e.messageOperations) = [] := by
  refine List.filterMap_eq_nil_iff.2 fun op hop => ?_
  obtain ⟨m, -, hop⟩ := List.mem_flatMap.1 hop
  obtain ⟨trips, htrips⟩ := e.exists_messageOperations m
  rw [htrips] at hop
  rcases List.mem_append.1 hop with htrip | hreport
  · obtain ⟨trip, -, rfl⟩ := List.mem_map.1 htrip
    rfl
  · obtain ⟨r, -, rfl⟩ := Option.map_eq_some_iff.1 (Option.mem_toList.1 hreport)
    rfl

/-- What a control packet that comes in passes to the store. -/
def receivedOperations (e : Engine) (p : Packet) : List StoreOperation :=
  (Compound.read p.extractReports.1.bytes).flatMap e.messageOperations ++
    p.extractReports.2.map (.extended .received)

theorem extendedReports_receivedOperations (e : Engine) (p : Packet) :
    (e.receivedOperations p).filterMap (extended? .received) = p.extractReports.2 := by
  have h := extendedReports_append .received
    ((Compound.read p.extractReports.1.bytes).flatMap e.messageOperations)
    (p.extractReports.2.map (.extended .received))
  rw [extendedReports_messageOperations, extendedReports_map_extended, List.nil_append] at h
  exact h

/-! ## Outgoing packets -/

variable {e : Engine} {p q : Packet} {xs : List ExtendedReport}

/-- The reports go in one after the other as they are generated. -/
theorem addReports_of_insertsAll {reports : List ReportSources}
    {made : List (Option ExtendedReport)} (hmade : reports.mapM e.extendedReport? = .ok made)
    (h : p.InsertsAll made.reduceOption q) :
    e.addReports p reports = .ok (q, made.reduceOption) := by
  rw [mapM_eq_ok_iff] at hmade
  induction hmade generalizing p with
  | nil =>
    cases h
    rfl
  | @cons r x? reports made hr _ ih =>
    unfold addReports
    cases x? with
    | none =>
      rw [List.reduceOption_cons_of_none] at h ⊢
      rw [hr]
      exact ih h
    | some x =>
      rw [List.reduceOption_cons_of_some] at h ⊢
      cases h with
      | cons hinsert hrest => simp only [hr, hinsert, ih hrest, bind, Except.bind]; rfl

/-- Insertions do not fail, so what fails is the generation of a report. -/
theorem addReports_of_error {reports : List ReportSources} {fault : Fault}
    (hreports : ∀ r ∈ reports, r.sources.length < 32)
    (h : reports.mapM e.extendedReport? = .error fault) (p : Packet) :
    e.addReports p reports = .error fault := by
  induction reports generalizing p with
  | nil => cases h
  | cons r reports ih =>
    obtain ⟨hr, hothers⟩ := List.forall_mem_cons.1 hreports
    rw [List.mapM_cons, Except.bind_eq_error_iff] at h
    unfold addReports
    rcases h with hx | ⟨x?, hx, htail⟩
    · rw [hx]
      rfl
    · have hrest : reports.mapM e.extendedReport? = .error fault := by
        rw [Except.bind_eq_error_iff] at htail
        rcases htail with hrest | ⟨made, -, ⟨⟩⟩
        exact hrest
      rw [hx]
      cases x? with
      | none => exact ih hothers hrest p
      | some x =>
        obtain ⟨q, hinsert, -⟩ := p.walk_insertReport (wellFormed_extendedReport? hx hr).toEncodable
        simp only [hinsert, ih hothers hrest, bind, Except.bind]

/-- A control packet goes out with all the reports that were generated for it. -/
theorem outgoing_control (reactions : Reactions) (now : Instant)
    (hcontrol : isControl p.bytes = true) (hxs : e.generated p.bytes = .ok xs)
    (hq : p.InsertsAll xs q) :
    ∃ out, e.outgoing reactions now p = .ok out ∧ out.packet = some q ∧
      out.operations = sentOperations p.bytes ++ xs.map (.extended .sent) := by
  obtain ⟨made, hmade, rfl⟩ := Except.map_eq_ok_iff.1 hxs
  have hadd := addReports_of_insertsAll hmade hq
  simp only [outgoing, hcontrol, if_true, hadd, bind, Except.bind]
  exact ⟨_, rfl, rfl, rfl⟩

/-- Nothing comes of a packet with a report on a source whose stream cannot be rated. -/
theorem outgoing_of_cannotRate (reactions : Reactions) (now : Instant) (h : e.CannotRate p.bytes) :
    e.outgoing reactions now p = .error .overflow := by
  have hfails := Except.map_eq_error_iff.1 (generated_eq_error_iff.2 ⟨rfl, h⟩)
  have hadd := addReports_of_error (fun r hr => length_of_mem_reportsToExtend hr) hfails p
  simp only [outgoing, isControl_of_cannotRate h, if_true, hadd, bind, Except.bind]

/-- Else the reports are generated and have their places. -/
theorem exists_insertsAll_of_not_cannotRate (p : Packet) (h : ¬e.CannotRate p.bytes) :
    ∃ xs q, e.generated p.bytes = .ok xs ∧ (∀ x ∈ xs, x.WellFormed) ∧ p.InsertsAll xs q ∧
      walk q.bytes = (placeAll xs (subPackets p.bytes), trailing p.bytes) := by
  cases hxs : e.generated p.bytes with
  | error fault => exact absurd (generated_eq_error_iff.1 hxs).2 h
  | ok xs =>
    have hformed : ∀ x ∈ xs, x.WellFormed := fun x hx => wellFormed_of_mem_generated hxs hx
    obtain ⟨q, hinserts, hwalk⟩ := p.walk_insertsAll fun x hx => (hformed x hx).toEncodable
    exact ⟨xs, q, rfl, hformed, hinserts, hwalk⟩

theorem outgoing_media (reactions : Reactions) (now : Instant) (e : Engine)
    (hmedia : isControl p.bytes = false) :
    ∃ out, e.outgoing reactions now p = .ok out ∧ out.packet = some p ∧
      reports .sent out.operations = [] ∧ extendedReports .sent out.operations = [] := by
  unfold outgoing
  rw [hmedia]
  simp only [Bool.false_eq_true, if_false]
  split
  next ssrc seq => exact ⟨_, rfl, rfl, rfl, rfl⟩
  next => exact ⟨_, rfl, rfl, rfl, rfl⟩

/-! ## Incoming packets -/

theorem operations_incoming (reactions : Reactions) (now : Instant) (e : Engine) {q : Packet}
    (hcontrol : isControl q.bytes = true) :
    (e.incoming reactions now q).operations = e.receivedOperations q := by
  unfold incoming
  rw [if_pos hcontrol]
  rfl

/-- A control packet that is more than extended reports comes in without them. -/
theorem incoming_control (reactions : Reactions) (now : Instant) (e : Engine) {q : Packet}
    (hcontrol : isControl q.bytes = true) (hrest : q.extractReports.1.bytes ≠ []) :
    (e.incoming reactions now q).packet = some q.extractReports.1 ∧
      (e.incoming reactions now q).operations =
        (Compound.read q.extractReports.1.bytes).flatMap e.messageOperations ++
          q.extractReports.2.map (.extended .received) := by
  have hempty : q.extractReports.1.isEmpty = false :=
    Bool.eq_false_iff.2 (mt Packet.isEmpty_iff.1 hrest)
  refine ⟨?_, operations_incoming reactions now e hcontrol⟩
  unfold incoming
  rw [hcontrol]
  simp only [if_true, hempty, Bool.false_eq_true, and_false, if_false]
  rfl

theorem incoming_media (reactions : Reactions) (now : Instant) (e : Engine) {q : Packet}
    (hmedia : isControl q.bytes = false) :
    (e.incoming reactions now q).packet = some q ∧
      reports .received (e.incoming reactions now q).operations = [] ∧
      extendedReports .received (e.incoming reactions now q).operations = [] := by
  unfold incoming
  rw [hmedia]
  simp only [Bool.false_eq_true, if_false]
  split
  next ssrc => exact ⟨rfl, rfl, rfl⟩
  next => exact ⟨rfl, rfl, rfl⟩

/-! ## Both ends -/

theorem isControl_of_walk {bytes sent rest : Bytes} {xs : List ExtendedReport}
    (hcontrol : isControl bytes = true)
    (hsent : walk sent = (placeAll xs (subPackets bytes), rest)) : isControl sent = true := by
  have hplaced := placeAll_ne_nil xs (isControl_iff.1 hcontrol)
  refine isControl_iff.2 ?_
  unfold subPackets at hplaced ⊢
  rwa [hsent]

/-- Of a packet without readable extended reports, the near engine makes nothing exactly when it is
on a source whose stream cannot be rated. Otherwise the packet passes the two ends unchanged,
whatever the engines. -/
theorem incoming_outgoing (reactions farReactions : Reactions) (now farNow : Instant)
    (near far : Engine) {p : Packet}
    (hp : ∀ sub ∈ subPackets p.bytes, Compound.extendedReport? sub = none) :
    (near.CannotRate p.bytes → near.outgoing reactions now p = .error .overflow) ∧
    (¬near.CannotRate p.bytes → ∃ out sent arrived,
      near.outgoing reactions now p = .ok out ∧ out.packet = some sent ∧
      (far.incoming farReactions farNow sent).packet = some arrived ∧
      arrived.bytes = p.bytes ∧
      reports .received (far.incoming farReactions farNow sent).operations =
        reports .sent out.operations ∧
      ∀ ssrc, ExtendedReport.ofSource ssrc
          (extendedReports .received (far.incoming farReactions farNow sent).operations) =
        ExtendedReport.ofSource ssrc (extendedReports .sent out.operations)) := by
  refine ⟨outgoing_of_cannotRate reactions now, fun hrate => ?_⟩
  cases hcontrol : isControl p.bytes with
  | false =>
    obtain ⟨out, hout, hpacket, hreports, hextended⟩ := near.outgoing_media reactions now hcontrol
    obtain ⟨harrived, hpassed, hpassedExtended⟩ := far.incoming_media farReactions farNow hcontrol
    refine ⟨out, p, p, hout, hpacket, harrived, rfl, ?_, fun ssrc => ?_⟩
    · rw [hreports, hpassed]
    · rw [hextended, hpassedExtended]
  | true =>
    obtain ⟨xs, sent, hxs, hformed, hinserts, hwalk⟩ := exists_insertsAll_of_not_cannotRate p hrate
    obtain ⟨out, hout, hpacket, hoperations⟩ := outgoing_control reactions now hcontrol hxs hinserts
    obtain ⟨hbytes, added, hadded, horder⟩ := Packet.extractReports_of_walk hformed hwalk
    have hleft : sent.extractReports.1.bytes = p.bytes := by
      rw [hbytes, Packet.bytes_extractReports_of_none hp]
    -- There was nothing to take out but what went in.
    have htaken : sent.extractReports.2 = added := by
      have hnothing : p.extractReports.2 = [] := by
        rw [Packet.reports_extractReports, List.filterMap_eq_nil_iff]
        exact hp
      rw [hnothing] at hadded
      exact hadded.eq_of_right_nil
    have hne : sent.extractReports.1.bytes ≠ [] := by
      rw [hleft]
      intro hnil
      rw [hnil] at hcontrol
      cases hcontrol
    obtain ⟨harrived, hpassed⟩ :=
      far.incoming_control farReactions farNow (isControl_of_walk hcontrol hwalk) hne
    refine ⟨out, sent, _, hout, hpacket, harrived, hleft, ?_, fun ssrc => ?_⟩
    · rw [hpassed, hoperations, reports_append, reports_append, reports_map_extended,
        reports_map_extended, reports_messageOperations, reports_sentOperations, hleft]
    · rw [hpassed, hoperations, extendedReports_append, extendedReports_append,
        extendedReports_map_extended, extendedReports_map_extended,
        extendedReports_messageOperations, extendedReports_sentOperations, htaken]
      exact horder ssrc

/-- A receiver report on one source, and the goodbye of its originator. -/
def farewell : List Bytes :=
  [[0x81, 201, 0, 7, 0, 0, 0, 1, 0, 0, 0, 2] ++ List.replicate 20 0, [0x81, 203, 0, 1, 0, 0, 0, 1]]

/-- An engine that adds an extended report on every source. -/
def talkative : Engine where
  config := { voipMetrics := true }
  provider := fun _ _ => some {}

/-- The streams of this engine were not rated, so that nothing is in the way of a report on them. -/
theorem not_cannotRate_talkative (bytes : Bytes) : ¬talkative.CannotRate bytes := by
  rintro ⟨r, -, stream, hstream, c, hc, -⟩
  obtain ⟨source, -, hsome⟩ := List.mem_filterMap.1 hstream
  cases hsome
  cases hc

/-- An engine that is told of more packets than a counter with a sign can count. -/
def overcounting : Engine where
  config := { voipMetrics := true, encoding := some "opus" }
  provider := fun _ _ => some {
    reception := some {
      expected := 1, processed := 18446744073709551615, invalid := 2305843009213693952 }
    roundTripDelay := some 0
    jitterBuffer := some {} }

theorem subPackets_farewell : subPackets (Packet.ofBytes farewell.flatten).bytes = farewell := by
  rw [Packet.bytes_ofBytes, ← List.append_nil farewell.flatten]
  exact subPackets_flatten_append (by decide) rfl

theorem cannotRate_overcounting :
    overcounting.CannotRate (Packet.ofBytes farewell.flatten).bytes := by
  have hreports : overcounting.reportsToExtend (Packet.ofBytes farewell.flatten).bytes =
      [⟨⟨1⟩, [⟨2⟩]⟩] := by
    unfold reportsToExtend reportSources
    rw [subPackets_farewell]
    rfl
  refine ⟨⟨⟨1⟩, [⟨2⟩]⟩, ?_, (⟨2⟩, _), List.mem_singleton_self _, _, rfl, by decide⟩
  rw [hreports]
  exact List.mem_singleton_self _

theorem incoming_outgoing_farewell :
    overcounting.outgoing (fun _ _ _ => []) 0 (.ofBytes farewell.flatten) = .error .overflow ∧
    ∃ out sent arrived,
      talkative.outgoing (fun _ _ _ => []) 0 (.ofBytes farewell.flatten) = .ok out ∧
      out.packet = some sent ∧
      (({} : Engine).incoming (fun _ _ _ => []) 5 sent).packet = some arrived ∧
      arrived.bytes = farewell.flatten := by
  have hp : ∀ sub ∈ subPackets (Packet.ofBytes farewell.flatten).bytes,
      Compound.extendedReport? sub = none := by
    rw [subPackets_farewell]
    decide
  obtain ⟨hfault, -⟩ :=
    incoming_outgoing (fun _ _ _ => []) (fun _ _ _ => []) 0 5 overcounting {} hp
  obtain ⟨-, harrives⟩ := incoming_outgoing (fun _ _ _ => []) (fun _ _ _ => []) 0 5 talkative {} hp
  obtain ⟨out, sent, arrived, hout, hsent, harrived, hbytes, -⟩ :=
    harrives (not_cannotRate_talkative _)
  exact ⟨hfault cannotRate_overcounting, out, sent, arrived, hout, hsent, harrived,
    hbytes.trans (Packet.bytes_ofBytes _)⟩

end Engine

end MediaTransport
