import MediaTransport.Proofs.ReportStore.Notification

/-!
# What comes in again

The same operations are carried out twice, at two moments. The store compares a report with the
latest of its originator only, so that what the second round does depends on the originator. One
whose reports are all equal finds its latest there, with nothing to store and nothing to tell
(`TakesIn.map_value_step`); one with different reports has each replaced by the next a second time,
and is left with the value that it had, but at a later moment. Whatever no step of a round touches,
the round leaves (`applyAll_preserves`).
-/

namespace MediaTransport

open Rtcp

/-- All values of an originator are equal. -/
def Unanimous {α : Type} (source : α → Ssrc) (ssrc : Ssrc) (values : List α) : Prop :=
  ∀ a ∈ values, ∀ b ∈ values, source a = ssrc → source b = ssrc → a = b

/-- The reports of the kind and the originator of the notice are all equal. -/
def Notice.IsSettled (reports : List Report) (xs : List ExtendedReport) : Notice → Prop
  | .report _ r => Unanimous Report.ssrc r.value.ssrc reports
  | .extended _ x => Unanimous ExtendedReport.ssrc x.value.ssrc xs

namespace Stamped

variable {α : Type} {history more : List (Stamped α)}

theorem latest?_eq_getLast? (history : List (Stamped α)) :
    latest? history = (history.map Stamped.value).getLast? := List.getLast?_map.symm

theorem latest?_append (history more : List (Stamped α)) :
    latest? (history ++ more) = (latest? more).or (latest? history) := by
  rw [latest?_eq_getLast?, List.map_append, List.getLast?_append, ← latest?_eq_getLast?,
    ← latest?_eq_getLast?]

theorem latest?_append_of_forall {a : α} (hne : more ≠ []) (h : ∀ x ∈ more, x.value = a) :
    latest? (history ++ more) = some a := by
  rw [← List.dropLast_concat_getLast hne, ← List.append_assoc, latest?_concat,
    h _ (List.getLast_mem hne)]

/-- What equals the latest value prolongs the run that it is in. -/
theorem firstOfRun?_append [DecidableEq α] (h : ∀ x ∈ more, latest? history = some x.value) :
    firstOfRun? (history ++ more) = firstOfRun? history := by
  induction more generalizing history with
  | nil => rw [List.append_nil]
  | cons x more ih =>
    obtain ⟨hx, hmore⟩ := List.forall_mem_cons.1 h
    have hconcat : ∀ y ∈ more, latest? (history ++ [x]) = some y.value := by
      intro y hy
      rw [latest?_concat, ← hx, hmore y hy]
    rw [List.append_cons, ih hconcat, firstOfRun?_concat, if_pos hx]

/-- The values of one originator, all of the same moment. -/
def batch (now : Instant) (source : α → Ssrc) (ssrc : Ssrc) (values : List α) : List (Stamped α) :=
  (values.filter (source · = ssrc)).map (⟨·, now⟩)

variable {now : Instant} {source : α → Ssrc} {ssrc : Ssrc} {values : List α}

theorem mem_batch {x : Stamped α} :
    x ∈ batch now source ssrc values ↔
      x.value ∈ values ∧ source x.value = ssrc ∧ x.moment = now := by
  obtain ⟨value, moment⟩ := x
  simp [batch, eq_comm, and_assoc]

theorem latest?_batch :
    latest? (batch now source ssrc values) = (values.filter (source · = ssrc)).getLast? := by
  rw [latest?_eq_getLast?, batch, List.map_map]
  exact congrArg List.getLast? (List.map_id _)

end Stamped

theorem Table.get?_insertAll_of_notMem {α : Type} {key : α → Ssrc} {values : List α} {ssrc : Ssrc}
    (h : ssrc ∉ values.map key) (t : Table α) :
    (t.insertAll key values).get? ssrc = t.get? ssrc := by
  have hnone : (values.filter fun value => key value = ssrc) = [] := by
    refine List.filter_eq_nil_iff.2 fun value hvalue hkey => h ?_
    exact List.mem_map.2 ⟨value, hvalue, of_decide_eq_true hkey⟩
  rw [get?_insertAll, hnone]
  rfl

namespace StoreOperation

/-- The operation comes of a control packet from the other side. -/
def IsReceived : StoreOperation → Prop
  | .report d _ | .extended d _ => d = .received
  | .firstPacket .. => False
  | .roundTrip .. => True

/-- The round trip time that an operation sets for a source. -/
def trip? (ssrc : Ssrc) : StoreOperation → Option UInt32
  | .roundTrip other millis => if other = ssrc then some millis else none
  | .report .. | .extended .. | .firstPacket .. => none

theorem eq_report_of_report? {direction : Direction} {op : StoreOperation} {r : Report}
    (h : report? direction op = some r) : op = .report direction r := by
  cases op with
  | report d r' =>
    obtain ⟨rfl, hr⟩ := Option.ite_none_right_eq_some.1 h
    rw [Option.some.inj hr]
  | extended | firstPacket | roundTrip => cases h

theorem eq_extended_of_extended? {direction : Direction} {op : StoreOperation} {x : ExtendedReport}
    (h : extended? direction op = some x) : op = .extended direction x := by
  cases op with
  | extended d x' =>
    obtain ⟨rfl, hx⟩ := Option.ite_none_right_eq_some.1 h
    rw [Option.some.inj hx]
  | report | firstPacket | roundTrip => cases h

end StoreOperation

namespace ReportStore

open StoreOperation Stamped

/-! ## Rounds of operations -/

section Rounds

variable (reactions : Reactions) (now : Instant) (s : ReportStore)

theorem applyAll_append (ops more : List StoreOperation) :
    s.applyAll reactions now (ops ++ more) =
      (((s.applyAll reactions now ops).1.applyAll reactions now more).1,
        (s.applyAll reactions now ops).2 ++
          ((s.applyAll reactions now ops).1.applyAll reactions now more).2) := by
  induction ops generalizing s with
  | nil => rfl
  | cons op ops ih =>
    simp only [List.cons_append, applyAll, ih, List.append_assoc]

theorem applyAll_singleton (op : StoreOperation) :
    s.applyAll reactions now [op] =
      ((s.apply reactions now op).store, (s.apply reactions now op).deliveries) := by
  simp only [applyAll, List.append_nil]

/-- What every step leaves, a round leaves. -/
theorem applyAll_preserves {β : Type} (f : ReportStore → β) {ops : List StoreOperation}
    (h : ∀ earlier op later, ops = earlier ++ op :: later →
      f ((s.applyAll reactions now earlier).1.apply reactions now op).store =
        f (s.applyAll reactions now earlier).1) :
    f (s.applyAll reactions now ops).1 = f s := by
  induction ops using List.reverseRecOn with
  | nil => rfl
  | append_singleton ops op ih =>
    have hops := ih fun earlier op' later heq =>
      h earlier op' (later ++ [op]) (by rw [heq, List.append_assoc, List.cons_append])
    rw [applyAll_append, applyAll_singleton, h ops op [] rfl, hops]

/-- Who was told in a round was told in one of its steps. -/
theorem exists_of_mem_applyAll {ops : List StoreOperation} {d : Delivery}
    (h : d ∈ (s.applyAll reactions now ops).2) :
    ∃ earlier op later, ops = earlier ++ op :: later ∧
      d ∈ ((s.applyAll reactions now earlier).1.apply reactions now op).deliveries := by
  induction ops using List.reverseRecOn with
  | nil => cases h
  | append_singleton ops op ih =>
    rw [applyAll_append, applyAll_singleton] at h
    rcases List.mem_append.1 h with hops | hop
    · obtain ⟨earlier, op', later, rfl, hd⟩ := ih hops
      exact ⟨earlier, op', later ++ [op], by rw [List.append_assoc, List.cons_append], hd⟩
    · exact ⟨ops, op, [], rfl, hop⟩

/-- What listeners are told is what the operation has to tell, and is news. -/
theorem notice_of_mem_apply {op : StoreOperation} {d : Delivery}
    (h : d ∈ (s.apply reactions now op).deliveries) :
    op.notice? now = some d.notice ∧ ¬ d.notice.IsOld s := by
  cases hop : op.notice? now with
  | none =>
    rw [deliveries_apply_of_notice?_eq_none reactions hop s] at h
    cases h
  | some notice =>
    rcases record_notice hop s with ⟨-, hrecord⟩ | ⟨hnew, store, -, hrecord⟩
    · rw [(isSilent_apply reactions hrecord).2] at h
      cases h
    · have hpair := List.mem_map_of_mem h (f := fun d => (d.listener, d.notice))
      rw [(announces_apply reactions hrecord).2] at hpair
      obtain ⟨l, -, hl⟩ := List.mem_map.1 hpair
      obtain ⟨-, rfl⟩ := Prod.mk.inj hl
      exact ⟨rfl, hnew⟩

end Rounds

/-! ## The second round -/

section Tables

variable {α : Type} [DecidableEq α] {part : ReportSide → Table (Stamped α)}
  {passed? : Direction → StoreOperation → Option α} {source : α → Ssrc}
  {notice : Direction → Stamped α → Notice} {direction : Direction}

/-- A round adds what it passes to the history of an originator. -/
theorem TakesIn.get?_applyAll (h : TakesIn part passed? source notice) (reactions : Reactions)
    (now : Instant) {s : ReportStore} {ssrc : Ssrc} {history : List (Stamped α)}
    (hs : (part (s.side direction)).get? ssrc = firstOfRun? history) (ops : List StoreOperation) :
    (part ((s.applyAll reactions now ops).1.side direction)).get? ssrc =
      firstOfRun? (history ++ batch now source ssrc (ops.filterMap (passed? direction))) := by
  induction ops generalizing s history with
  | nil => simpa [applyAll, batch] using hs
  | cons op ops ih =>
    have hop : history ++ batch now source ssrc ((op :: ops).filterMap (passed? direction)) =
        history ++ StoreCall.history (passed? direction) source ssrc [.operation now op] ++
          batch now source ssrc (ops.filterMap (passed? direction)) := by
      cases hpassed : passed? direction op with
      | none => simp [StoreCall.history, hpassed]
      | some a => by_cases ha : source a = ssrc <;> simp [StoreCall.history, batch, hpassed, ha]
    rw [hop]
    exact ih (h.get?_call reactions hs (.operation now op))

/-- What a table has of an originator is the first of a history of one entry at most. -/
theorem get?_eq_firstOfRun? (t : Table (Stamped α)) (ssrc : Ssrc) :
    t.get? ssrc = firstOfRun? (t.get? ssrc).toList := by
  cases t.get? ssrc with
  | none => rfl
  | some x => exact (firstOfRun?_concat [] x).symm

section Again

variable (h : TakesIn part passed? source notice) (reactions again : Reactions)
  (now later : Instant) (s : ReportStore) {ops : List StoreOperation}

include h

/-- The second round leaves each originator with the value that the first round left. -/
theorem TakesIn.map_value_again (ssrc : Ssrc) :
    ((part (((s.applyAll reactions now ops).1.applyAll again later ops).1.side direction)).get?
        ssrc).map Stamped.value =
      ((part ((s.applyAll reactions now ops).1.side direction)).get? ssrc).map Stamped.value := by
  have hfirst :=
    h.get?_applyAll reactions now (get?_eq_firstOfRun? (part (s.side direction)) ssrc) ops
  rw [h.get?_applyAll again later hfirst, hfirst, map_value_firstOfRun?, map_value_firstOfRun?,
    latest?_append, latest?_append, latest?_batch, latest?_batch]
  cases List.getLast? _ <;> rfl

/-- The second round leaves an originator whose values are all equal as it was, with its moment. -/
theorem TakesIn.get?_again {ssrc : Ssrc}
    (hunanimous : Unanimous source ssrc (ops.filterMap (passed? direction))) :
    (part (((s.applyAll reactions now ops).1.applyAll again later ops).1.side direction)).get?
        ssrc =
      (part ((s.applyAll reactions now ops).1.side direction)).get? ssrc := by
  have hfirst :=
    h.get?_applyAll reactions now (get?_eq_firstOfRun? (part (s.side direction)) ssrc) ops
  rw [h.get?_applyAll again later hfirst, hfirst]
  refine firstOfRun?_append fun x hx => ?_
  obtain ⟨hvalue, hsource, -⟩ := mem_batch.1 hx
  refine latest?_append_of_forall (List.ne_nil_of_mem (a := ⟨x.value, now⟩) ?_) fun y hy => ?_
  · exact mem_batch.2 ⟨hvalue, hsource, rfl⟩
  · obtain ⟨hvalue', hsource', -⟩ := mem_batch.1 hy
    exact hunanimous _ hvalue' _ hvalue hsource' hsource

/-- In the second round an originator whose values are all equal has its value there at every
step. -/
theorem TakesIn.map_value_step {earlier rest : List StoreOperation} {op : StoreOperation}
    (hops : ops = earlier ++ op :: rest) {a : α} (hop : passed? direction op = some a)
    (hunanimous : Unanimous source (source a) (ops.filterMap (passed? direction))) :
    ((part (((s.applyAll reactions now ops).1.applyAll again later earlier).1.side direction)).get?
      (source a)).map Stamped.value = some a := by
  have ha : a ∈ ops.filterMap (passed? direction) := by
    rw [hops]
    exact List.mem_filterMap.2 ⟨op, by simp, hop⟩
  have hearlier : ∀ b ∈ earlier.filterMap (passed? direction),
      b ∈ ops.filterMap (passed? direction) := by
    intro b hb
    rw [hops, List.filterMap_append]
    exact List.mem_append_left _ hb
  have hfirst :=
    h.get?_applyAll reactions now (get?_eq_firstOfRun? (part (s.side direction)) (source a)) ops
  rw [h.get?_applyAll again later hfirst, map_value_firstOfRun?, List.append_assoc]
  refine latest?_append_of_forall (List.append_ne_nil_of_left_ne_nil ?_ _) fun x hx => ?_
  · exact List.ne_nil_of_mem (mem_batch.2 ⟨ha, rfl, rfl⟩ : (⟨a, now⟩ : Stamped α) ∈ _)
  · rcases List.mem_append.1 hx with hx | hx
    · obtain ⟨hvalue, hsource, -⟩ := mem_batch.1 hx
      exact hunanimous _ hvalue _ ha hsource rfl
    · obtain ⟨hvalue, hsource, -⟩ := mem_batch.1 hx
      exact hunanimous _ (hearlier _ hvalue) _ ha hsource rfl

end Again

end Tables

/-! ## What an operation leaves -/

theorem apply_of_isOld (reactions : Reactions) {now : Instant} {s : ReportStore}
    {op : StoreOperation} {notice : Notice} (hop : op.notice? now = some notice)
    (hold : notice.IsOld s) : (s.apply reactions now op).store = s := by
  rcases record_notice hop s with ⟨-, hrecord⟩ | ⟨hnew, -⟩
  · unfold apply
    rw [hrecord]
  · exact absurd hold hnew

theorem side_record_report (s : ReportStore) (now : Instant) (d direction : Direction)
    (r : Report) :
    (s.record now (.report d r)).1.side direction =
      if direction = d ∧ ((s.side d).reports.get? r.ssrc).map Stamped.value ≠ some r then
        { s.side d with
          reports := (s.side d).reports.insert r.ssrc ⟨r, now⟩
          feedback := (s.side d).feedback.insertAll ReceptionReport.ssrc r.feedback }
      else s.side direction := by
  simp only [record, ReportSide.storeReport]
  by_cases h : ((s.side d).reports.get? r.ssrc).map Stamped.value = some r
  · simp [h]
  · simp [h, side_withSide]

theorem side_record_extended (s : ReportStore) (now : Instant) (d direction : Direction)
    (x : ExtendedReport) :
    (s.record now (.extended d x)).1.side direction =
      if direction = d ∧ ((s.side d).extended.get? x.ssrc).map Stamped.value ≠ some x then
        { s.side d with
          extended := (s.side d).extended.insert x.ssrc ⟨x, now⟩
          voipMetrics := (s.side d).voipMetrics.insertAll VoipMetrics.ssrc x.voipMetrics }
      else s.side direction := by
  simp only [record, ReportSide.storeExtended]
  by_cases h : ((s.side d).extended.get? x.ssrc).map Stamped.value = some x
  · simp [h]
  · simp [h, side_withSide]

/-- An operation of the other side's reports leaves what was sent, the first packets, and the latest
block about a source that its report has none about. -/
theorem record_of_isReceived {op : StoreOperation} (h : op.IsReceived) (s : ReportStore)
    (now : Instant) :
    (s.record now op).1.side .sent = s.side .sent ∧
      ((s.record now op).1.side .received).firstPacket = (s.side .received).firstPacket ∧
      (∀ ssrc, (∀ r ∈ report? .received op, ssrc ∉ r.feedback.map ReceptionReport.ssrc) →
        ((s.record now op).1.side .received).feedback.get? ssrc =
          (s.side .received).feedback.get? ssrc) ∧
      ∀ ssrc, (∀ x ∈ extended? .received op, ssrc ∉ x.voipMetrics.map VoipMetrics.ssrc) →
        ((s.record now op).1.side .received).voipMetrics.get? ssrc =
          (s.side .received).voipMetrics.get? ssrc := by
  cases op with
  | report d r =>
    obtain rfl : d = .received := h
    have hreceived := s.side_record_report now .received .received r
    refine ⟨(s.side_record_report now ..).trans (if_neg (by simp)), ?_⟩
    split at hreceived
    · rw [hreceived]
      exact ⟨rfl, fun ssrc hssrc => Table.get?_insertAll_of_notMem (hssrc r rfl) _, fun _ _ => rfl⟩
    · rw [hreceived]
      exact ⟨rfl, fun _ _ => rfl, fun _ _ => rfl⟩
  | extended d x =>
    obtain rfl : d = .received := h
    have hreceived := s.side_record_extended now .received .received x
    refine ⟨(s.side_record_extended now ..).trans (if_neg (by simp)), ?_⟩
    split at hreceived
    · rw [hreceived]
      exact ⟨rfl, fun _ _ => rfl, fun ssrc hssrc => Table.get?_insertAll_of_notMem (hssrc x rfl) _⟩
    · rw [hreceived]
      exact ⟨rfl, fun _ _ => rfl, fun _ _ => rfl⟩
  | firstPacket d other moment => exact absurd h id
  | roundTrip other millis => exact ⟨rfl, rfl, fun _ _ => rfl, fun _ _ => rfl⟩

theorem roundTrips_react (s : ReportStore) (reaction : Reaction) :
    (s.react reaction).roundTrips = s.roundTrips := by
  cases reaction with
  | add l =>
    rw [react, addListener]
    by_cases hl : l ∈ s.listeners
    · rw [if_pos hl]
    · rw [if_neg hl]
  | remove l => rfl

theorem roundTrips_tell (reactions : Reactions) (notice : Notice) (ls : List ListenerId)
    (s : ReportStore) : (tell reactions notice ls s).1.roundTrips = s.roundTrips := by
  have hfold : ∀ (changes : List Reaction) (s : ReportStore),
      (changes.foldl react s).roundTrips = s.roundTrips := by
    intro changes
    induction changes with
    | nil => exact fun _ => rfl
    | cons change changes ih => exact fun s => (ih _).trans (s.roundTrips_react change)
  induction ls generalizing s with
  | nil => rfl
  | cons l ls ih => exact (ih _).trans (hfold _ _)

theorem get?_roundTrips_apply (reactions : Reactions) (now : Instant) (s : ReportStore)
    (op : StoreOperation) (ssrc : Ssrc) :
    (s.apply reactions now op).store.roundTrips.get? ssrc =
      (trip? ssrc op).or (s.roundTrips.get? ssrc) := by
  have hrecord : (s.record now op).1.roundTrips.get? ssrc =
      (trip? ssrc op).or (s.roundTrips.get? ssrc) := by
    have hside : ∀ direction side, (s.withSide direction side).roundTrips = s.roundTrips := by
      intro direction side
      cases direction <;> rfl
    cases op with
    | report direction r =>
      simp only [record]
      cases (s.side direction).storeReport now r with
      | none => rfl
      | some stored => exact congrArg (Table.get? · ssrc) (hside ..)
    | extended direction x =>
      simp only [record]
      cases (s.side direction).storeExtended now x with
      | none => rfl
      | some stored => exact congrArg (Table.get? · ssrc) (hside ..)
    | firstPacket direction other moment =>
      simp only [record]
      cases (s.side direction).storeFirstPacket other moment with
      | none => rfl
      | some side => exact congrArg (Table.get? · ssrc) (hside ..)
    | roundTrip other millis =>
      simp only [record, trip?, Table.get?_insert]
      by_cases hother : other = ssrc
      · rw [if_pos hother, if_pos hother.symm]
        rfl
      · rw [if_neg hother, if_neg (Ne.symm hother)]
        rfl
  rw [← hrecord]
  unfold apply
  rcases s.record now op with ⟨store, changed, notice⟩
  cases notice with
  | none => rfl
  | some notice => exact congrArg (Table.get? · ssrc) (roundTrips_tell ..)

/-- A round leaves a source with the last round trip time that it sets for it. -/
theorem get?_roundTrips_applyAll (reactions : Reactions) (now : Instant) (s : ReportStore)
    (ops : List StoreOperation) (ssrc : Ssrc) :
    (s.applyAll reactions now ops).1.roundTrips.get? ssrc =
      (ops.filterMap (trip? ssrc)).getLast?.or (s.roundTrips.get? ssrc) := by
  induction ops using List.reverseRecOn with
  | nil => rfl
  | append_singleton ops op ih =>
    rw [applyAll_append, applyAll_singleton, get?_roundTrips_apply, ih, List.filterMap_append,
      List.getLast?_append, Option.or_assoc]
    cases hop : trip? ssrc op <;> simp [hop]

/-! ## Two rounds -/

/-- What becomes of a store that took in some reports and takes them in again, and who is told.
Every originator keeps the value of its latest report, and if its reports are all equal it keeps the
moment too, and nobody is told. The latest block about a source stays if all who report on it are
such originators; and if all originators are, then everything stays and nobody is told of
anything. -/
structure Absorbs (reports : List Report) (xs : List ExtendedReport) (before after : ReportStore)
    (told : List Delivery) : Prop where
  roundTrip : ∀ ssrc, after.roundTrip ssrc = before.roundTrip ssrc
  sent : after.side .sent = before.side .sent
  firstPacket : (after.side .received).firstPacket = (before.side .received).firstPacket
  report_value : ∀ ssrc, ((after.side .received).reports.get? ssrc).map Stamped.value =
    ((before.side .received).reports.get? ssrc).map Stamped.value
  extended_value : ∀ ssrc, ((after.side .received).extended.get? ssrc).map Stamped.value =
    ((before.side .received).extended.get? ssrc).map Stamped.value
  report : ∀ ssrc, Unanimous Report.ssrc ssrc reports →
    (after.side .received).reports.get? ssrc = (before.side .received).reports.get? ssrc
  extended : ∀ ssrc, Unanimous ExtendedReport.ssrc ssrc xs →
    (after.side .received).extended.get? ssrc = (before.side .received).extended.get? ssrc
  untold : ∀ d ∈ told, ¬ d.notice.IsSettled reports xs
  feedback : ∀ ssrc, (∀ r ∈ reports, ssrc ∈ r.feedback.map ReceptionReport.ssrc →
      Unanimous Report.ssrc r.ssrc reports) →
    (after.side .received).feedback.get? ssrc = (before.side .received).feedback.get? ssrc
  voipMetrics : ∀ ssrc, (∀ x ∈ xs, ssrc ∈ x.voipMetrics.map VoipMetrics.ssrc →
      Unanimous ExtendedReport.ssrc x.ssrc xs) →
    (after.side .received).voipMetrics.get? ssrc = (before.side .received).voipMetrics.get? ssrc
  all : (∀ ssrc, Unanimous Report.ssrc ssrc reports) →
    (∀ ssrc, Unanimous ExtendedReport.ssrc ssrc xs) →
    told = [] ∧ ∀ direction, after.side direction = before.side direction

section Twice

variable (reactions again : Reactions) (now later : Instant) (s : ReportStore)
  {ops : List StoreOperation}

/-- In the second round, a step of an originator whose reports are all equal finds its report
there. -/
theorem isOld_step {earlier rest : List StoreOperation} {op : StoreOperation} {notice : Notice}
    (hops : ops = earlier ++ op :: rest) (hop : op.IsReceived)
    (hnotice : op.notice? later = some notice)
    (hsettled : notice.IsSettled (ops.filterMap (report? .received))
      (ops.filterMap (extended? .received))) :
    notice.IsOld ((s.applyAll reactions now ops).1.applyAll again later earlier).1 := by
  cases op with
  | report d r =>
    obtain rfl : d = .received := hop
    obtain rfl := Option.some.inj hnotice
    exact takesIn_reports.map_value_step reactions again now later s hops rfl hsettled
  | extended d x =>
    obtain rfl : d = .received := hop
    obtain rfl := Option.some.inj hnotice
    exact takesIn_extended.map_value_step reactions again now later s hops rfl hsettled
  | firstPacket | roundTrip => cases hnotice

/-- The second round leaves a part of the sides if each operation does, or is one of an originator
whose reports are all equal. -/
theorem leaves_again {β : Type} (hops : ∀ op ∈ ops, op.IsReceived)
    (part : ReportSide → ReportSide → β)
    (h : ∀ op ∈ ops,
      (∃ notice, op.notice? later = some notice ∧
        notice.IsSettled (ops.filterMap (report? .received))
          (ops.filterMap (extended? .received))) ∨
      ∀ s : ReportStore,
        part ((s.record later op).1.side .received) ((s.record later op).1.side .sent) =
          part (s.side .received) (s.side .sent)) :
    let before := (s.applyAll reactions now ops).1
    let after := (before.applyAll again later ops).1
    part (after.side .received) (after.side .sent) =
      part (before.side .received) (before.side .sent) := by
  refine applyAll_preserves again later _ (fun s => part (s.side .received) (s.side .sent)) ?_
  intro earlier op rest heq
  have hmem : op ∈ ops := by
    rw [heq]
    simp
  rcases h op hmem with ⟨notice, hnotice, hsettled⟩ | hleaves
  · have hold := isOld_step reactions again now later s heq (hops op hmem) hnotice hsettled
    rw [apply_of_isOld again hnotice hold]
  · simp only [side_apply]
    exact hleaves _

theorem untold_again (hops : ∀ op ∈ ops, op.IsReceived) :
    ∀ d ∈ ((s.applyAll reactions now ops).1.applyAll again later ops).2,
      ¬ d.notice.IsSettled (ops.filterMap (report? .received))
        (ops.filterMap (extended? .received)) := by
  intro d hd hsettled
  obtain ⟨earlier, op, rest, heq, hop⟩ := exists_of_mem_applyAll again later _ hd
  obtain ⟨hnotice, hnew⟩ := notice_of_mem_apply again later _ hop
  refine hnew (isOld_step reactions again now later s heq (hops op ?_) hnotice hsettled)
  rw [heq]
  simp

theorem absorbs_again (hops : ∀ op ∈ ops, op.IsReceived) :
    Absorbs (ops.filterMap (report? .received)) (ops.filterMap (extended? .received))
      (s.applyAll reactions now ops).1 ((s.applyAll reactions now ops).1.applyAll again later ops).1
      ((s.applyAll reactions now ops).1.applyAll again later ops).2 where
  roundTrip ssrc := by
    unfold roundTrip
    rw [get?_roundTrips_applyAll, get?_roundTrips_applyAll]
    cases (ops.filterMap (trip? ssrc)).getLast? <;> rfl
  sent := leaves_again reactions again now later s hops (fun _ sent => sent)
    fun op hop => .inr fun s => (record_of_isReceived (hops op hop) s later).1
  firstPacket :=
    leaves_again reactions again now later s hops (fun received _ => received.firstPacket)
      fun op hop => .inr fun s => (record_of_isReceived (hops op hop) s later).2.1
  report_value := takesIn_reports.map_value_again reactions again now later s
  extended_value := takesIn_extended.map_value_again reactions again now later s
  report _ := takesIn_reports.get?_again reactions again now later s
  extended _ := takesIn_extended.get?_again reactions again now later s
  untold := untold_again reactions again now later s hops
  feedback ssrc h := by
    refine leaves_again reactions again now later s hops
      (fun received _ => received.feedback.get? ssrc) fun op hop => ?_
    by_cases habout : ∀ r ∈ report? .received op, ssrc ∉ r.feedback.map ReceptionReport.ssrc
    · exact .inr fun s => (record_of_isReceived (hops op hop) s later).2.2.1 ssrc habout
    · simp only [not_forall, not_not] at habout
      obtain ⟨r, hr, habout⟩ := habout
      obtain rfl := eq_report_of_report? hr
      exact .inl ⟨_, rfl, h r (List.mem_filterMap.2 ⟨_, hop, hr⟩) habout⟩
  voipMetrics ssrc h := by
    refine leaves_again reactions again now later s hops
      (fun received _ => received.voipMetrics.get? ssrc) fun op hop => ?_
    by_cases habout : ∀ x ∈ extended? .received op, ssrc ∉ x.voipMetrics.map VoipMetrics.ssrc
    · exact .inr fun s => (record_of_isReceived (hops op hop) s later).2.2.2 ssrc habout
    · simp only [not_forall, not_not] at habout
      obtain ⟨x, hx, habout⟩ := habout
      obtain rfl := eq_extended_of_extended? hx
      exact .inl ⟨_, rfl, h x (List.mem_filterMap.2 ⟨_, hop, hx⟩) habout⟩
  all hreports hextended := by
    have hsettled : ∀ notice : Notice,
        notice.IsSettled (ops.filterMap (report? .received))
          (ops.filterMap (extended? .received)) := by
      rintro (⟨d, r⟩ | ⟨d, x⟩)
      · exact hreports _
      · exact hextended _
    refine ⟨List.eq_nil_iff_forall_not_mem.2 fun d hd =>
      untold_again reactions again now later s hops d hd (hsettled _), fun direction => ?_⟩
    have hsides := leaves_again reactions again now later s hops Prod.mk fun op hop => by
      cases op with
      | report d r => exact .inl ⟨_, rfl, hsettled _⟩
      | extended d x => exact .inl ⟨_, rfl, hsettled _⟩
      | firstPacket => exact absurd (hops _ hop) id
      | roundTrip => exact .inr fun _ => rfl
    cases direction with
    | received => exact (Prod.mk.inj hsides).1
    | sent => exact (Prod.mk.inj hsides).2

end Twice

end ReportStore

end MediaTransport
