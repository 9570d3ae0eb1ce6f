import MediaTransport.Proofs.ReportStore.Absorption

/-!
# The latest block about a source

A report that is stored spreads out its blocks over a table by the source that they are about,
whoever the report is from, whereas it is absorbed by comparison with the latest report of its own
originator. So the table has the last block about a source of the reports that were news to the
store, and reports that were absorbed count for nothing (`SpreadsOut.get?_run`).

That is the last block of all reports, unless an originator repeats its report on a source that
somebody else has reported on in between: then the table goes on to have the other one's block.
Where nobody comes in between (`Undisputed`), what is absorbed has nothing new to say
(`latestBlock?_news`). Feedback blocks and voice quality blocks are both cases of this.
-/

namespace MediaTransport

open Rtcp

/-- How reports are made up: an originator, and blocks about sources. -/
structure ReportLayout (α β : Type) where
  source : α → Ssrc
  blocks : α → List β
  about : β → Ssrc

/-- Sender and receiver reports are made up of feedback blocks. -/
def Report.layout : ReportLayout Report ReceptionReport :=
  ⟨Report.ssrc, Report.feedback, ReceptionReport.ssrc⟩

/-- What counts of an extended report is its voice quality blocks. -/
def Rtcp.ExtendedReport.layout : ReportLayout ExtendedReport VoipMetrics :=
  ⟨ExtendedReport.ssrc, ExtendedReport.voipMetrics, VoipMetrics.ssrc⟩

namespace ReportLayout

variable {α β : Type} (l : ReportLayout α β)

/-- The last block about `ssrc` in a report. -/
def block? (ssrc : Ssrc) (a : α) : Option β :=
  ((l.blocks a).filter fun b => l.about b = ssrc).getLast?

/-- The last block about `ssrc` in the latest report that has one. -/
def latestBlock? (ssrc : Ssrc) (as : List α) : Option β :=
  (as.filterMap (l.block? ssrc)).getLast?

/-- The latest report of an originator. -/
def latestOf? (ssrc : Ssrc) (as : List α) : Option α :=
  (as.filter fun a => l.source a = ssrc).getLast?

theorem latestBlock?_concat (ssrc : Ssrc) (as : List α) (a : α) :
    l.latestBlock? ssrc (as ++ [a]) = (l.block? ssrc a).or (l.latestBlock? ssrc as) := by
  unfold latestBlock?
  cases h : l.block? ssrc a with
  | none =>
    rw [List.filterMap_append, List.filterMap_cons_none h, List.filterMap_nil, List.append_nil,
      Option.none_or]
  | some b => rw [List.filterMap_append, List.filterMap_cons_some h, List.filterMap_nil,
      List.getLast?_concat, Option.some_or]

/-- Reports without a block about `ssrc` leave the latest block as it was. -/
theorem latestBlock?_append_of_forall {ssrc : Ssrc} {more : List α}
    (h : ∀ a ∈ more, l.block? ssrc a = none) (as : List α) :
    l.latestBlock? ssrc (as ++ more) = l.latestBlock? ssrc as := by
  unfold latestBlock?
  rw [List.filterMap_append, List.filterMap_eq_nil_iff.2 h, List.append_nil]

variable {l}

/-- The latest report of an originator, with those of others that came after it. -/
theorem exists_of_latestOf? {ssrc : Ssrc} {as : List α} {a : α} (h : l.latestOf? ssrc as = some a) :
    ∃ before between, as = before ++ a :: between ∧ ∀ b ∈ between, l.source b ≠ ssrc := by
  induction as using List.reverseRecOn with
  | nil => cases h
  | append_singleton as c ih =>
    unfold latestOf? at h ih
    rw [List.filter_append] at h
    by_cases hc : l.source c = ssrc
    · rw [List.filter_singleton, decide_eq_true hc, cond_true, List.getLast?_concat] at h
      cases h
      exact ⟨as, [], rfl, nofun⟩
    · rw [List.filter_singleton, decide_eq_false hc, cond_false, List.append_nil] at h
      obtain ⟨before, between, rfl, hbetween⟩ := ih h
      refine ⟨before, between ++ [c], by simp, fun b hb => ?_⟩
      rcases List.mem_append.1 hb with hb | hb
      · exact hbetween b hb
      · exact List.mem_singleton.1 hb ▸ hc

/-! ## Repeated reports -/

variable (l)

/-- A report is equal to the latest of its originator among `earlier`. -/
def Repeats (earlier : List α) (a : α) : Prop := l.latestOf? (l.source a) earlier = some a

instance [DecidableEq α] (earlier : List α) (a : α) : Decidable (l.Repeats earlier a) :=
  inferInstanceAs (Decidable (_ = _))

/-- While an originator has the same report with a block about `ssrc`, nobody else has one. -/
def Undisputed (ssrc : Ssrc) (as : List α) : Prop :=
  ∀ before a between after, as = before ++ a :: (between ++ a :: after) →
    (l.block? ssrc a).isSome → (∀ b ∈ between, l.source b ≠ l.source a) →
    ∀ b ∈ between, l.block? ssrc b = none

variable {l}

theorem Undisputed.of_concat {ssrc : Ssrc} {as : List α} {a : α}
    (h : l.Undisputed ssrc (as ++ [a])) : l.Undisputed ssrc as := by
  intro before b between after has
  refine h before b between (after ++ [a]) ?_
  rw [has]
  simp

/-- A repeated report that is undisputed has the latest block there is. -/
theorem latestBlock?_of_repeats {ssrc : Ssrc} {as : List α} {a : α}
    (h : l.Undisputed ssrc (as ++ [a])) (hrepeats : l.Repeats as a) :
    l.latestBlock? ssrc (as ++ [a]) = l.latestBlock? ssrc as := by
  rw [latestBlock?_concat]
  cases hblock : l.block? ssrc a with
  | none => rfl
  | some b =>
    obtain ⟨before, between, rfl, hothers⟩ := exists_of_latestOf? hrepeats
    have hsilent := h before a between [] (by simp) (by rw [hblock]; rfl) hothers
    rw [List.append_cons, l.latestBlock?_append_of_forall hsilent, latestBlock?_concat, hblock]
    rfl

/-! ## News -/

section News

variable [DecidableEq α] (l)

/-- The reports that repeat none of `earlier` or of one another, where `earlier` came before
them. -/
def newsAfter (earlier : List α) : List α → List α
  | [] => []
  | a :: as =>
    if l.Repeats earlier a then newsAfter (earlier ++ [a]) as
    else a :: newsAfter (earlier ++ [a]) as

/-- The reports that do not repeat the latest before them of the same originator. -/
def news (as : List α) : List α := l.newsAfter [] as

theorem newsAfter_concat (earlier as : List α) (a : α) :
    l.newsAfter earlier (as ++ [a]) =
      l.newsAfter earlier as ++ if l.Repeats (earlier ++ as) a then [] else [a] := by
  induction as generalizing earlier with
  | nil =>
    rw [List.nil_append, List.append_nil]
    by_cases h : l.Repeats earlier a
    · simp only [newsAfter, if_pos h, List.append_nil]
    · simp only [newsAfter, if_neg h, List.nil_append]
  | cons b as ih =>
    have hnext := ih (earlier ++ [b])
    rw [List.append_assoc, List.singleton_append] at hnext
    by_cases h : l.Repeats earlier b
    · simp only [List.cons_append, newsAfter, if_pos h, hnext]
    · simp only [List.cons_append, newsAfter, if_neg h, hnext]

theorem news_concat (as : List α) (a : α) :
    l.news (as ++ [a]) = l.news as ++ if l.Repeats as a then [] else [a] :=
  l.newsAfter_concat [] as a

/-- Among undisputed reports the news have the latest block. -/
theorem latestBlock?_news {ssrc : Ssrc} {as : List α} (h : l.Undisputed ssrc as) :
    l.latestBlock? ssrc (l.news as) = l.latestBlock? ssrc as := by
  induction as using List.reverseRecOn with
  | nil => rfl
  | append_singleton as a ih =>
    have has := ih h.of_concat
    rw [news_concat]
    by_cases hrepeats : l.Repeats as a
    · rw [if_pos hrepeats, List.append_nil, has, latestBlock?_of_repeats h hrepeats]
    · rw [if_neg hrepeats, latestBlock?_concat, latestBlock?_concat, has]

end News

end ReportLayout

/-! ## The table of the latest blocks -/

/-- What calls pass of all originators. -/
def StoreCall.passed {α : Type} (passed? : StoreOperation → Option α) (calls : List StoreCall) :
    List α :=
  calls.filterMap fun
    | .operation _ op => passed? op
    | .addListener _ | .removeListener _ => none

/-- The history of an originator is its part of what is passed. -/
theorem StoreCall.map_value_history {α : Type} (passed? : StoreOperation → Option α)
    (source : α → Ssrc) (ssrc : Ssrc) (calls : List StoreCall) :
    (StoreCall.history passed? source ssrc calls).map Stamped.value =
      (StoreCall.passed passed? calls).filter fun a => source a = ssrc := by
  unfold StoreCall.history StoreCall.passed
  rw [List.map_filterMap, List.filter_filterMap]
  refine List.filterMap_congr fun c _ => ?_
  cases c with
  | operation now op => cases h : passed? op <;> simp [h, Option.filter, apply_ite]
  | addListener | removeListener => rfl

namespace ReportStore

open StoreOperation Stamped ReportLayout

/-- A table of blocks by the source that they are about: it is empty at first, takes in the blocks
of each report that the table of the latest reports takes in, and nothing else. -/
structure SpreadsOut {α β : Type} [DecidableEq α] (l : ReportLayout α β)
    (part : ReportSide → Table (Stamped α)) (spread : ReportSide → Table β)
    (passed? : Direction → StoreOperation → Option α) : Prop where
  new : spread {} = .empty
  record : ∀ (s : ReportStore) (now : Instant) (op : StoreOperation) (direction : Direction),
    spread ((s.record now op).1.side direction) =
      match passed? direction op with
      | some a =>
        if ((part (s.side direction)).get? (l.source a)).map Stamped.value = some a then
          spread (s.side direction)
        else (spread (s.side direction)).insertAll l.about (l.blocks a)
      | none => spread (s.side direction)

/-- The side of a store to which an operation passes no report keeps its blocks. -/
theorem blocks_record_firstPacket (s : ReportStore) (now : Instant) (d direction : Direction)
    (ssrc : Ssrc) (moment : Instant) :
    ((s.record now (.firstPacket d ssrc moment)).1.side direction).feedback =
        (s.side direction).feedback ∧
      ((s.record now (.firstPacket d ssrc moment)).1.side direction).voipMetrics =
        (s.side direction).voipMetrics := by
  simp only [record, ReportSide.storeFirstPacket]
  cases (s.side d).firstPacket.get? ssrc with
  | some earlier => exact ⟨rfl, rfl⟩
  | none =>
    simp only [side_withSide]
    by_cases hd : direction = d
    · subst hd
      simp
    · simp [hd]

theorem spreadsOut_feedback :
    SpreadsOut Report.layout ReportSide.reports ReportSide.feedback report? where
  new := rfl
  record s now op direction := by
    cases op with
    | report d r =>
      rw [side_record_report]
      by_cases hd : d = direction
      · subst hd
        by_cases h : ((s.side d).reports.get? r.ssrc).map Stamped.value = some r
        · simp [report?, Report.layout, h]
        · simp [report?, Report.layout, h]
      · simp [report?, hd, Ne.symm hd]
    | extended d x =>
      rw [side_record_extended]
      simp only [report?]
      split
      next h => rw [h.1]
      next => rfl
    | firstPacket d ssrc moment => exact (s.blocks_record_firstPacket now d direction ssrc moment).1
    | roundTrip ssrc millis => cases direction <;> rfl

theorem spreadsOut_voipMetrics :
    SpreadsOut ExtendedReport.layout ReportSide.extended ReportSide.voipMetrics extended? where
  new := rfl
  record s now op direction := by
    cases op with
    | report d r =>
      rw [side_record_report]
      simp only [extended?]
      split
      next h => rw [h.1]
      next => rfl
    | extended d x =>
      rw [side_record_extended]
      by_cases hd : d = direction
      · subst hd
        by_cases h : ((s.side d).extended.get? x.ssrc).map Stamped.value = some x
        · simp [extended?, ExtendedReport.layout, h]
        · simp [extended?, ExtendedReport.layout, h]
      · simp [extended?, hd, Ne.symm hd]
    | firstPacket d ssrc moment => exact (s.blocks_record_firstPacket now d direction ssrc moment).2
    | roundTrip ssrc millis => cases direction <;> rfl

section Runs

variable {α β : Type} [DecidableEq α] {l : ReportLayout α β} {part : ReportSide → Table (Stamped α)}
  {spread : ReportSide → Table β} {passed? : Direction → StoreOperation → Option α}
  {notice : Direction → Stamped α → Notice}

/-- Whether the store has an equal report of the originator is told by what was passed. -/
theorem TakesIn.get?_eq_iff_repeats (h : TakesIn part passed? l.source notice)
    (reactions : Reactions) (calls : List StoreCall) (direction : Direction) (a : α) :
    ((part ((run reactions calls).side direction)).get? (l.source a)).map Stamped.value = some a ↔
      l.Repeats (StoreCall.passed (passed? direction) calls) a := by
  rw [h.get?_run, map_value_firstOfRun?, latest?_eq_getLast?, StoreCall.map_value_history]
  rfl

/-- The table has of each source the last block in the latest report that was news and has one. -/
theorem SpreadsOut.get?_run (h : SpreadsOut l part spread passed?)
    (hpart : TakesIn part passed? l.source notice) (reactions : Reactions) (calls : List StoreCall)
    (direction : Direction) (ssrc : Ssrc) :
    (spread ((run reactions calls).side direction)).get? ssrc =
      l.latestBlock? ssrc (l.news (StoreCall.passed (passed? direction) calls)) := by
  induction calls using List.reverseRecOn with
  | nil =>
    have hside : (run reactions []).side direction = {} := by cases direction <;> rfl
    rw [hside, h.new]
    rfl
  | append_singleton calls c ih =>
    rw [run_concat]
    unfold StoreCall.passed at ih ⊢
    rw [List.filterMap_append]
    cases c with
    | addListener | removeListener => simpa [call] using ih
    | operation now op =>
      rw [call, side_apply, h.record]
      cases hop : passed? direction op with
      | none => simpa [hop] using ih
      | some a =>
        have hrepeats := hpart.get?_eq_iff_repeats reactions calls direction a
        unfold StoreCall.passed at hrepeats
        simp only [List.filterMap_cons, hop, List.filterMap_nil, news_concat]
        by_cases hold : ((part ((run reactions calls).side direction)).get? (l.source a)).map
            Stamped.value = some a
        · rw [if_pos hold, if_pos (hrepeats.1 hold), List.append_nil, ih]
        · rw [if_neg hold, if_neg fun hr => hold (hrepeats.2 hr), latestBlock?_concat,
            Table.get?_insertAll, ih]
          rfl

end Runs

/-- The sender and receiver reports that calls pass in one direction. -/
def reportsPassed (direction : Direction) (calls : List StoreCall) : List Report :=
  StoreCall.passed (report? direction) calls

/-- The extended reports that calls pass in one direction. -/
def extendedPassed (direction : Direction) (calls : List StoreCall) : List ExtendedReport :=
  StoreCall.passed (extended? direction) calls

/-- After any calls, the store has of each source the last feedback block in the latest report that
was news and has a block about it. That is the last block in the latest report at all that has one,
unless an originator repeated its report after somebody else had reported on the source. The same
goes for voice quality blocks and extended reports. -/
theorem latestBlock_run (reactions : Reactions) (calls : List StoreCall) (direction : Direction)
    (ssrc : Ssrc) :
    (((run reactions calls).side direction).feedback.get? ssrc =
        Report.layout.latestBlock? ssrc (Report.layout.news (reportsPassed direction calls)) ∧
      (Report.layout.Undisputed ssrc (reportsPassed direction calls) →
        ((run reactions calls).side direction).feedback.get? ssrc =
          Report.layout.latestBlock? ssrc (reportsPassed direction calls))) ∧
    ((run reactions calls).side direction).voipMetrics.get? ssrc =
        ExtendedReport.layout.latestBlock? ssrc
          (ExtendedReport.layout.news (extendedPassed direction calls)) ∧
      (ExtendedReport.layout.Undisputed ssrc (extendedPassed direction calls) →
        ((run reactions calls).side direction).voipMetrics.get? ssrc =
          ExtendedReport.layout.latestBlock? ssrc (extendedPassed direction calls)) := by
  have hfeedback := spreadsOut_feedback.get?_run takesIn_reports reactions calls direction ssrc
  have hquality := spreadsOut_voipMetrics.get?_run takesIn_extended reactions calls direction ssrc
  refine ⟨⟨hfeedback, fun h => ?_⟩, hquality, fun h => ?_⟩
  · exact hfeedback.trans (Report.layout.latestBlock?_news h)
  · exact hquality.trans (ExtendedReport.layout.latestBlock?_news h)

/-- Feedback of `originator` on source 9. -/
def feedbackOf (originator jitter : UInt32) : Report where
  ssrc := ⟨originator⟩
  feedback := [{ ssrc := ⟨9⟩, jitter }]

/-- What was received is reports of two originators on one source, the second of which is
repeated. -/
def repeated : List StoreCall :=
  [.operation 0 (.report .received (feedbackOf 2 20)),
    .operation 1 (.report .sent (feedbackOf 2 30)),
    .operation 2 (.report .received (feedbackOf 1 10)),
    .operation 3 (.report .received (feedbackOf 1 10))]

theorem latestBlock_run_repeated :
    ((run (fun _ _ _ => []) repeated).side .received).feedback.get? ⟨9⟩ =
      some { ssrc := ⟨9⟩, jitter := 10 } := by
  have hundisputed : Report.layout.Undisputed ⟨9⟩ (reportsPassed .received repeated) := by
    have hpassed : reportsPassed .received repeated =
        [feedbackOf 2 20, feedbackOf 1 10, feedbackOf 1 10] := rfl
    intro before a between after has
    rw [hpassed] at has
    -- The reports that are equal are the last two, and nothing is between them.
    have hplaces :
        before = [] ∧ a = feedbackOf 2 20 ∧
            between ++ a :: after = [feedbackOf 1 10, feedbackOf 1 10] ∨
          before = [feedbackOf 2 20] ∧ a = feedbackOf 1 10 ∧
            between ++ a :: after = [feedbackOf 1 10] := by
      simpa [List.cons_eq_append_iff] using has
    rcases hplaces with ⟨-, rfl, hrest⟩ | ⟨-, rfl, hrest⟩
    · have hmem : feedbackOf 2 20 ∈ between ++ feedbackOf 2 20 :: after := by simp
      rw [hrest] at hmem
      exact absurd hmem (by decide)
    · obtain ⟨rfl, -⟩ | ⟨-, hnone⟩ := List.append_eq_singleton_iff.1 hrest
      · exact fun _ _ => nofun
      · cases hnone
  obtain ⟨⟨-, hlatest⟩, -⟩ := latestBlock_run (fun _ _ _ => []) repeated .received ⟨9⟩
  rw [hlatest hundisputed]
  decide

/-- An originator repeats its report after another has reported on the same source. -/
def overtaken : List StoreCall :=
  [.operation 0 (.report .received (feedbackOf 1 10)),
    .operation 1 (.report .received (feedbackOf 2 20)),
    .operation 2 (.report .received (feedbackOf 1 10))]

/-- The latest report has a block about the source, and the store has the one before. -/
theorem latestBlock_run_overtaken :
    Report.layout.latestBlock? ⟨9⟩ (reportsPassed .received overtaken) =
        some { ssrc := ⟨9⟩, jitter := 10 } ∧
      ((run (fun _ _ _ => []) overtaken).side .received).feedback.get? ⟨9⟩ =
        some { ssrc := ⟨9⟩, jitter := 20 } := by
  decide

end ReportStore

end MediaTransport
